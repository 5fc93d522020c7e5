import MarkupTally.Analysis
import MarkupTally.CommandLine.Words
import MarkupTally.Json.Printer
import MarkupTally.Model.Report

/-! The command that counts the functions of a folder. -/
namespace MarkupTally.CommandLine

/-- What a command leaves behind. -/
structure Ending where
  exit : Nat
  out : String := ""
  err : String := ""

namespace Census

def levels : List String := ["critical", "error", "warning", "info", "debug"]

def usage : Usage where
  takesWord := true
  flags :=
    [helpFlag, { names := ["--json"] }, { names := ["--list"] }, { names := ["--top-level-only"] },
      { names := ["--exclude-nested-markup"] }, { names := ["--strict-syntax"] },
      { names := ["--skip-invalid"] }, wholeNumber "--jobs",
      { names := ["--exclude"], takesValue := true }, choice "--log-level" levels]

def help : String :=
  "usage: markup-census [-h] [--json] [--list] [--top-level-only]\n" ++
  "                     [--exclude-nested-markup] [--strict-syntax]\n" ++
  "                     [--skip-invalid] [--jobs JOBS] [--exclude DIR]\n" ++
  "                     [--log-level \x7bcritical,error,warning,info,debug\x7d]\n" ++
  "                     [path]\n" ++
  "\n" ++
  "Count functions that return JSX markup\n" ++
  "\n" ++
  "positional arguments:\n" ++
  "  path                  Path to the folder to analyze\n" ++
  "\n" ++
  "options:\n" ++
  "  -h, --help            show this help message and exit\n" ++
  "  --json                Print the full result as JSON\n" ++
  "  --list                Print one line per function found\n" ++
  "  --top-level-only      Do not count functions nested in other functions\n" ++
  "  --exclude-nested-markup\n" ++
  "                        Stricter classifier: ignore markup that only appears\n" ++
  "                        inside nested functions\n" ++
  "  --strict-syntax       Abort on any syntax error instead of analyzing the\n" ++
  "                        recovered tree\n" ++
  "  --skip-invalid        Skip files that fail to load or parse instead of\n" ++
  "                        aborting\n" ++
  "  --jobs JOBS           Number of files analyzed in parallel\n" ++
  "  --exclude DIR         Extra directory name to skip\n" ++
  "  --log-level \x7bcritical,error,warning,info,debug\x7d\n"

/-- What the command was asked to do. -/
structure Request where
  path : String
  options : Options
  json : Bool
  list : Bool
  level : Level

/-- A text of more than fifty characters is shown by its first 25 and its last 24. -/
def clipped (text : String) : String :=
  let cs := text.toList
  if cs.length ≤ 50 then text
  else String.ofList (cs.take 25) ++ "..." ++ String.ofList (cs.drop (cs.length - 24))

/-- Why a number of jobs below one is refused. -/
def jobsRefusal (jobs : Int) : String :=
  "1 validation error for AnalyzerOptions\njobs\n" ++
  "  Input should be greater than or equal to 1 [type=greater_than_equal, input_value=" ++
  clipped (toString jobs) ++ ", input_type=int]\n" ++
  "    For further information visit https://errors.pydantic.dev/2.14/v/greater_than_equal"

/-- The options that the given flags stand for. Excluded folders add to the usual ones. -/
def options (given : List Given) : Options :=
  let usual : Options := {}
  { usual with
    excludeDirs := usual.excludeDirs ++ Given.all given "--exclude"
    topLevelOnly := Given.has given "--top-level-only"
    excludeNested := Given.has given "--exclude-nested-markup"
    strict := Given.has given "--strict-syntax"
    skipInvalid := Given.has given "--skip-invalid"
    jobs := ((Given.last? given "--jobs").bind Digits.int?).getD 1 }

/-- What the given flags and the path ask for. -/
def asked (given : List Given) (path : String) : Request where
  path
  options := options given
  json := Given.has given "--json"
  list := Given.has given "--list"
  level := ((Given.last? given "--log-level").bind Level.ofWord?).getD .warning

def request (given : List Given) (word : Option String) : Except CensusError Request :=
  match word.getD "" with
  | "" => .error (.usage "Please provide the target folder path as a command-line argument.")
  | path =>
    let jobs := (options given).jobs
    if jobs < 1 then .error (.usage (jobsRefusal jobs)) else .ok (asked given path)

def refuse (e : CensusError) : Ending where
  exit := 1
  err := "Error: " ++ e.message ++ "\nUsage: markup-census <path-to-folder>\n"

def shown (level : Level) (log : List Message) : String :=
  String.join ((log.filter fun m => level.severity ≤ m.level.severity).map Message.line)

def processing (seen : List FileFacts) : String :=
  String.join (seen.map fun f => "Processing file: " ++ f.path ++ "\n")

/-- The listings of the files that have functions. -/
def listings (files : List FileFacts) : String :=
  String.join ((files.filter fun f => !f.functions.isEmpty).map fun f => f.listing ++ "\n")

/-- A failure that the census does not report by itself leaves a trace among the messages. -/
def failureLog : Abort → List Message
  | .census _ => []
  | _ => [⟨.debug, .command, "Analysis failed"⟩]

/-- A run that failed, after the given output and messages. -/
def failed (r : Request) (out : String) (log : List Message) (a : Abort) : Ending where
  exit := 1
  out
  err := shown r.level (log ++ failureLog a) ++
    "An error occurred during analysis: " ++ a.message ++ "\n"

/-- What a run over the files found below the root prints. A failing run keeps what it printed
before. The numbers of a census count what the run has held, so they are taken to be short enough to
be written. -/
def printed (r : Request) (root : String) (files : List FileInfo) (run : Analysis.Run) : Ending :=
  let progress :=
    if r.json then ""
    else
      "Analyzing " ++ toString files.length ++ " files in " ++ root ++ "...\n" ++
        processing run.seen
  match run.result with
  | .error a => failed r progress run.log a
  | .ok census =>
    { exit := 0
      out :=
        if r.json then census.toJson.pretty ++ "\n"
        else
          progress ++ (if r.list then listings census.files else "") ++ "\n" ++
            census.report.summary ++ "\n"
      err := shown r.level run.log }

/-- Counts a folder and prints what was asked for. -/
def count (g : Grammar) (v : Volume) (r : Request) (root : String) : Ending :=
  match Scan.folder v root r.options with
  | .error a => failed r "" [] a
  | .ok files => printed r root files (Analysis.paths g v files r.options root)

def perform (g : Grammar) (v : Volume) (r : Request) : Ending :=
  let root := Path.absolute v.cwd r.path
  if v.isFolder root then count g v r root
  else { exit := 1, err := "Error: " ++ (CensusError.badRoot root).message ++ "\n" }

def run (g : Grammar) (v : Volume) (args : List String) : Ending :=
  match usage.parse args with
  | .help => { exit := 0, out := help }
  | .refused message => refuse (.usage message)
  | .accepted given word =>
    match request given word with
    | .error e => refuse e
    | .ok r => perform g v r

end Census

end MarkupTally.CommandLine
