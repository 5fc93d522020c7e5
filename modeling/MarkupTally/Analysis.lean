import MarkupTally.Error
import MarkupTally.Journal
import MarkupTally.Model.Report
import MarkupTally.Pool
import MarkupTally.Scan

/-! Counting the functions of a text, of a file, of a list of files, and of a folder. -/
namespace MarkupTally

/-- How a text of a language is read into a tree. -/
abbrev Grammar := Language → String → Node

abbrev Outcome := Logged (Except Abort FileFacts)

namespace Analysis

/-- The place of the first error of a tree: its line and its character column. -/
def faultPlace (source : List UInt8) (root : Node) : Option (Nat × Nat) :=
  root.firstFault?.map fun n => (n.line, n.charColumn source)

/-- Reads a text. An error in it is fatal if `strict`, and otherwise gets a warning. -/
def tree (g : Grammar) (text path language : String) (strict : Bool) : Logged (Except Abort Node) :=
  match Language.ofName? language with
  | none => .pure (.error (.unsupported language))
  | some l =>
    let root := g l text
    if root.info.faulty then
      let place := faultPlace (Utf8.encode text) root
      let line := place.map fun p => Int.ofNat p.1
      let column := place.map fun p => Int.ofNat p.2
      if strict then .pure (.error (.census (.badSource path line column)))
      else
        ⟨[⟨.warning, .reading, path ++ ": syntax error at line " ++ CensusError.number line ++
          ", column " ++ CensusError.number column ++ "; analyzing the recovered tree"⟩], .ok root⟩
    else .pure (.ok root)

def functionFacts (source : List UInt8) (o : Options) (f : FunctionSite) : FunctionFacts where
  name := f.name
  kind := f.site.node.functionKind
  line := f.site.node.line
  column := f.site.node.charColumn source
  classification := f.site.node.classify o.excludeNested
  returnsMarkup := f.site.node.returnsMarkup

/-- The facts of the functions of a tree, or why they cannot be had. -/
def treeFacts (source : List UInt8) (o : Options) (root : Node) :
    Except Abort (List FunctionFacts) :=
  (root.functions source o.topLevelOnly).map (List.map (functionFacts source o))

/-- Counts the functions of a text. Without a relative path the path stands in for it. -/
def source (g : Grammar) (text path language relPath : String) (o : Options) : Outcome :=
  let read := tree g text path language o.strict
  match read.value with
  | .error a => ⟨read.log, .error a⟩
  | .ok root =>
    match treeFacts (Utf8.encode text) o root with
    | .error a => ⟨read.log, .error a⟩
    | .ok functions =>
      ⟨read.log ++ [⟨.debug, .counting, path ++ ": " ++ toString functions.length ++ " functions"⟩],
        .ok { path, relPath := if relPath = "" then path else relPath, language, functions }⟩

/-- The text of a file, or why it cannot be read. A path that cannot be asked for is no failure of
the file. -/
def fileText (v : Volume) (path : String) : Except Abort String :=
  match v.read path with
  | .error .nullPath => .error (.badPath (ReadFault.nullPath.message path))
  | .error f => .error (.census (.badFile path (f.message path)))
  | .ok bytes =>
    match FileText.ofBytes bytes with
    | .error f => .error (.census (.badFile path f.message))
    | .ok text => .ok text

def file (g : Grammar) (v : Volume) (info : FileInfo) (o : Options) : Outcome :=
  match fileText v info.path with
  | .error a => .pure (.error a)
  | .ok text => source g text info.path info.language info.relPath o

/-- Counts a file; with `skipInvalid` a failing file is noted with its reason instead. -/
def fileOrSkip (g : Grammar) (v : Volume) (o : Options) (info : FileInfo) : Outcome :=
  let done := file g v info o
  match done.value with
  | .error (.census e) =>
    match o.skipInvalid, e.reason? with
    | true, some reason =>
      ⟨done.log ++ [⟨.warning, .counting, "Skipping " ++ info.relPath ++ ": " ++ reason⟩],
        .ok { path := info.path, relPath := info.relPath, language := info.language,
              error := some reason }⟩
    | _, _ => done
  | _ => done

def stops (done : Outcome) : Bool :=
  match done.value with
  | .error _ => true
  | .ok _ => false

def pool (g : Grammar) (v : Volume) (o : Options) (files : List FileInfo) :
    Pool FileInfo Outcome where
  size := o.jobs.toNat
  work := fileOrSkip g v o
  stops := stops
  tasks := files

/-- The outcomes of a list of files, in order, up to the first failure. More than one job takes
the files through a pool of workers. -/
def outcomes (g : Grammar) (v : Volume) (o : Options) (files : List FileInfo) : List Outcome :=
  if o.jobs ≤ 1 ∨ files.length ≤ 1 then Pool.serial (fileOrSkip g v o) stops files
  else ((pool g v o files).inTurn {}).handed

/-- The outcomes of a list of files when the workers make the given moves; nothing if they cannot
make them, or if they have not ended with them. -/
def outcomesBy (moves : List Pool.Move) (g : Grammar) (v : Volume) (o : Options)
    (files : List FileInfo) : Option (List Outcome) :=
  if o.jobs ≤ 1 ∨ files.length ≤ 1 then some (Pool.serial (fileOrSkip g v o) stops files)
  else (pool g v o files).run moves

/-- A run over a list of files: the facts handed over before it ended, and how it ended. -/
structure Run where
  /-- The messages of the files that were handed over, in their order. Workers that run side by side
  write them in another order, and may have written those of files that were not handed over. -/
  log : List Message
  seen : List FileFacts
  result : Except Abort Census

def fold (root : String) (done : List Outcome) : Run :=
  let seen := done.filterMap fun d => d.value.toOption
  let failure? := done.findSome? fun d =>
    match d.value with
    | .error a => some a
    | .ok _ => none
  { log := done.flatMap fun d => d.log
    seen
    result :=
      match failure? with
      | some a => .error a
      | none => .ok { report := seen.foldl Report.addFile { root }, files := seen } }

def paths (g : Grammar) (v : Volume) (files : List FileInfo) (o : Options) (root : String) : Run :=
  fold root (outcomes g v o files)

def pathsBy (moves : List Pool.Move) (g : Grammar) (v : Volume) (files : List FileInfo)
    (o : Options) (root : String) : Option Run :=
  (outcomesBy moves g v o files).map (fold root)

def folder (g : Grammar) (v : Volume) (root : String) (o : Options) :
    Logged (Except Abort Census) :=
  let root := Path.absolute v.cwd root
  if v.isFolder root then
    match Scan.folder v root o with
    | .error a => .pure (.error a)
    | .ok files =>
      let run := paths g v files o root
      ⟨run.log, run.result⟩
  else .pure (.error (.census (.badRoot root)))

end Analysis

end MarkupTally
