import MarkupTally.Model.Facts

/-! The counts of a run, and how they are gathered. -/
namespace MarkupTally

@[ext]
structure Report where
  root : String := ""
  filesAnalyzed : Int := 0
  markupCount : Int := 0
  plainCount : Int := 0
  skippedFiles : List String := []
  deriving DecidableEq, Repr

namespace Report

def total (r : Report) : Int := r.markupCount + r.plainCount

def record (r : Report) : Classification → Report
  | .markup => { r with markupCount := r.markupCount + 1 }
  | .plain => { r with plainCount := r.plainCount + 1 }

/-- Counts a file. A file with an error is only noted among the skipped ones. -/
def addFile (r : Report) (f : FileFacts) : Report :=
  match f.error with
  | some _ => { r with skippedFiles := r.skippedFiles ++ [f.relPath] }
  | none =>
    f.functions.foldl (fun r fn => r.record fn.classification)
      { r with filesAnalyzed := r.filesAnalyzed + 1 }

/-- The counts of two runs together, under the first root that is not empty. -/
def merge (r s : Report) : Report where
  root := if r.root = "" then s.root else r.root
  filesAnalyzed := r.filesAnalyzed + s.filesAnalyzed
  markupCount := r.markupCount + s.markupCount
  plainCount := r.plainCount + s.plainCount
  skippedFiles := r.skippedFiles ++ s.skippedFiles

def readFields (v : Json) : Checked Report :=
  Report.mk <$> Checked.field v "root" Checked.string (some "")
    <*> Checked.field v "files_analyzed" Checked.int (some 0)
    <*> Checked.field v "markup_producing_count" Checked.int (some 0)
    <*> Checked.field v "plain_count" Checked.int (some 0)
    <*> Checked.field v "skipped_files" (Checked.list Checked.string) (some [])

def read (v : Json) : Checked Report := Checked.object (.notModel "AnalysisReport") readFields v

/-- The total is shown after the counts it is made of. -/
def toJson (r : Report) : Json :=
  .obj [("root", .str r.root), ("files_analyzed", .int r.filesAnalyzed),
    ("markup_producing_count", .int r.markupCount), ("plain_count", .int r.plainCount),
    ("skipped_files", .strs r.skippedFiles), ("total_functions", .int r.total)]

/-- The counts of a run; skipped files are mentioned only if there are any. -/
def summary (r : Report) : String :=
  "\n".intercalate <|
    ["--- Analysis Complete ---",
      "Total Files Analyzed: " ++ toString r.filesAnalyzed,
      "Functions returning JSX (heuristic): " ++ toString r.markupCount,
      "Other functions: " ++ toString r.plainCount,
      "Total functions found: " ++ toString r.total] ++
    if r.skippedFiles.isEmpty then []
    else ["Skipped files: " ++ toString r.skippedFiles.length]

end Report

/-- The outcome of a run: the counts, and the facts of each file in order. -/
structure Census where
  report : Report
  files : List FileFacts := []
  deriving DecidableEq, Repr

namespace Census

def readFields (v : Json) : Checked Census :=
  Census.mk <$> Checked.field v "report" Report.read none
    <*> Checked.field v "files" (Checked.list FileFacts.read) (some [])

def read (v : Json) : Checked Census := Checked.object (.notModel "AnalysisResult") readFields v

def toJson (c : Census) : Json :=
  .obj [("report", c.report.toJson), ("files", .arr (c.files.map FileFacts.toJson))]

end Census

end MarkupTally
