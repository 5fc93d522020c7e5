import MarkupTally.Disk.Path
import MarkupTally.Text.Quoted

/-! A file system as a value: folders, files and symbolic links, read from a working folder. -/
namespace MarkupTally

/-- What can stand in a folder. Pipes, devices and other special files are left out. -/
inductive Entry where
  | file (bytes : List UInt8)
  | link (target : String)
  | folder (entries : List (String × Entry))

namespace Entry

def entries : Entry → List (String × Entry)
  | folder es => es
  | _ => []

def isFolder : Entry → Bool
  | folder _ => true
  | _ => false

def find? (e : Entry) (name : String) : Option Entry :=
  (e.entries.find? fun x => x.1 == name).map Prod.snd

/-- The entry reached by following names, links not followed. -/
def at? (e : Entry) : List String → Option Entry
  | [] => some e
  | name :: names => (e.find? name).bind fun x => x.at? names

/-- Puts an entry under a name, or takes the name away. -/
def setHere (es : List (String × Entry)) (name : String) (new : Option Entry) :
    List (String × Entry) :=
  es.filter (fun x => x.1 != name) ++ (new.map (name, ·)).toList

/-- Puts an entry at the end of a row of names; folders on the way that are not there are made. -/
def set (e : Entry) (new : Option Entry) : List String → Entry
  | [] => e
  | [name] => folder (setHere e.entries name new)
  | name :: names =>
    folder (setHere e.entries name (some (((e.find? name).getD (folder [])).set new names)))

end Entry

/-- Why a path leads to no readable file. -/
inductive ReadFault where
  | noEntry
  | notFolder
  | isFolder
  | linkLoop
  /-- The path has a null character in it and cannot be asked for. -/
  | nullPath
  deriving DecidableEq, Repr

def ReadFault.message (path : String) : ReadFault → String
  | noEntry => "[Errno 2] No such file or directory: " ++ Quoted.quote path
  | notFolder => "[Errno 20] Not a directory: " ++ Quoted.quote path
  | isFolder => "[Errno 21] Is a directory: " ++ Quoted.quote path
  | linkLoop => "[Errno 40] Too many levels of symbolic links: " ++ Quoted.quote path
  | nullPath => "embedded null byte"

/-- A tree of entries and the place in it from which relative paths are read. Left out are rights
(every folder can be listed and every file read), names that are no Unicode text, and limits on the
depth of the tree and on the length of a path. -/
structure Volume where
  root : Entry
  /-- The working folder, an absolute path in normal form. It is taken to be a folder of the tree;
  one that was removed is left out. -/
  cwd : String

namespace Volume

/-- How many links may be followed on one way. -/
def linkLimit : Nat := 40

/-- Follows parts of a path from the folder at `here`. The result is the place without links, and
what is there. -/
def follow (v : Volume) (links : Nat) (here : List String) (todo : List String) :
    Except ReadFault (List String × Entry) :=
  match todo with
  | [] => (v.root.at? here).elim (.error .noEntry) fun e => .ok (here, e)
  | part :: rest =>
    if part = "" ∨ part = "." then follow v links here rest
    else if part = ".." then follow v links here.dropLast rest
    else
      match (v.root.at? here).bind (·.find? part) with
      | none => .error .noEntry
      | some (.folder _) => follow v links (here ++ [part]) rest
      | some (.file bytes) =>
        if rest = [] then .ok (here ++ [part], .file bytes) else .error .notFolder
      | some (.link target) =>
        match links with
        | 0 => .error .linkLoop
        | links + 1 =>
          follow v links (if Path.isAbsolute target then [] else here) (Path.parts target ++ rest)
termination_by (links, todo.length)

/-- What a path leads to. The empty path leads nowhere. -/
def locate (v : Volume) (path : String) : Except ReadFault (List String × Entry) :=
  if path.isEmpty then .error .noEntry
  else if path.toList.contains '\x00' then .error .nullPath
  else
    v.follow linkLimit [] ((if Path.isAbsolute path then [] else Path.parts v.cwd) ++ Path.parts path)

def isFolder (v : Volume) (path : String) : Bool :=
  match v.locate path with
  | .ok (_, e) => e.isFolder
  | .error _ => false

def read (v : Volume) (path : String) : Except ReadFault (List UInt8) :=
  match v.locate path with
  | .ok (_, .file bytes) => .ok bytes
  | .ok _ => .error .isFolder
  | .error f => .error f

/-- The place where a path ends, its last name not followed: links among the folders before it are
followed, and folders that are not there are taken as they are written. -/
def place (v : Volume) (path : String) : List String :=
  let names := ((Path.parts (Path.absolute v.cwd path)).filter (· != ""))
  let step (here : List String) (name : String) : List String :=
    match v.follow linkLimit here [name] with
    | .ok (there, _) => there
    | .error _ => here ++ [name]
  names.dropLast.foldl step [] ++ names.getLast?.toList

def write (v : Volume) (path : String) (new : Entry) : Volume :=
  { v with root := v.root.set (some new) (v.place path) }

def remove (v : Volume) (path : String) : Volume :=
  { v with root := v.root.set none (v.place path) }

/-- Makes a folder, unless there is one. -/
def makeFolder (v : Volume) (path : String) : Volume :=
  if v.isFolder path then v else v.write path (.folder [])

end Volume

end MarkupTally
