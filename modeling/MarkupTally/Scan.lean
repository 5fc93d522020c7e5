import MarkupTally.Disk.Volume
import MarkupTally.Error
import MarkupTally.Model.Facts
import MarkupTally.Model.Options

/-! Finding the files of a folder that are to be counted. -/
namespace MarkupTally

inductive Language where
  | typescript
  | tsx
  deriving DecidableEq, Repr

namespace Language

def name : Language → String
  | typescript => "typescript"
  | tsx => "tsx"

def ofName? : String → Option Language
  | "typescript" => some typescript
  | "tsx" => some tsx
  | _ => none

def ofExtension? : String → Option Language
  | ".ts" => some typescript
  | ".tsx" => some tsx
  | _ => none

/-- The language of a file, by its extension in lower case. Only ASCII letters are turned: no other
character turns into a letter of a known extension. -/
def ofFile? (path : String) : Option Language :=
  ofExtension? ((Path.extension path).map Char.toLower)

end Language

namespace Scan

/-- An entry of a folder: a file to be counted, or the files found in a folder below. -/
inductive Row where
  | file (info : FileInfo)
  | folder (files : List FileInfo)

def Row.file? : Row → Option FileInfo
  | file info => some info
  | folder _ => none

def Row.below : Row → List FileInfo
  | file _ => []
  | folder files => files

/-- The files of a folder in order of their names, then those of its folders, in order of theirs. -/
def arrange (rows : List (String × Row)) : List FileInfo :=
  let sorted := rows.mergeSort fun a b => a.1 ≤ b.1
  sorted.filterMap (fun r => r.2.file?) ++ sorted.flatMap fun r => r.2.below

/-- A file is wanted if its extension is asked for, in either case, and its language is known. -/
def wanted? (o : Options) (name : String) : Option Language :=
  if (o.extensions.map (·.map Char.toLower)).contains ((Path.extension name).map Char.toLower) then
    Language.ofFile? name
  else none

def fileRow (o : Options) (path relPath name : String) : List (String × Row) :=
  match wanted? o name with
  | none => []
  | some l => [(name, .file ⟨Path.join path name, Path.join relPath name, l.name⟩)]

mutual

/-- The files below a folder that is at `here`, is called `path`, and is `relPath` from the root. -/
def files (v : Volume) (o : Options) (here : List String) (path relPath : String) :
    Entry → List FileInfo
  | .folder entries => arrange (rows v o here path relPath entries)
  | _ => []

/-- A link to a folder is not entered; every other link counts as a file. -/
def rows (v : Volume) (o : Options) (here : List String) (path relPath : String) :
    List (String × Entry) → List (String × Row)
  | [] => []
  | (name, .folder es) :: rest =>
    (if o.excludeDirs.contains name then []
      else [(name, .folder (files v o (here ++ [name]) (Path.join path name)
        (Path.join relPath name) (.folder es)))]) ++ rows v o here path relPath rest
  | (name, .file _) :: rest => fileRow o path relPath name ++ rows v o here path relPath rest
  | (name, .link _) :: rest =>
    (match v.follow Volume.linkLimit here [name] with
      | .ok (_, .folder _) => []
      | _ => fileRow o path relPath name) ++ rows v o here path relPath rest

end

/-- The files to be counted below a root. A root that is no folder has none, and one that cannot be
asked for is refused. -/
def folder (v : Volume) (root : String) (o : Options) : Except Abort (List FileInfo) :=
  match v.locate root with
  | .ok (here, e) => .ok (files v o here root "" e)
  | .error .nullPath => .error (.badPath (ReadFault.nullPath.message root))
  | .error _ => .ok []

end Scan

end MarkupTally
