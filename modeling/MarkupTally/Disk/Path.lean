/-! Path names: their parts, their normal form, and their extensions. -/
namespace MarkupTally.Path

/-- The parts of a path between its slashes, empty ones included. -/
def splitOnto (part : List Char) : List Char → List (List Char)
  | [] => [part.reverse]
  | '/' :: cs => part.reverse :: splitOnto [] cs
  | c :: cs => splitOnto (c :: part) cs

def parts (path : String) : List String := (splitOnto [] path.toList).map String.ofList

def isAbsolute (path : String) : Bool := path.toList.head? == some '/'

/-- Appends a name to a path with exactly one slash between them, unless the path already ends in
one or is empty. An absolute name stands for itself. -/
def join (path name : String) : String :=
  if isAbsolute name || path.isEmpty then name
  else if path.toList.getLast? == some '/' then path ++ name
  else path ++ "/" ++ name

/-- One more part on a stack of parts, latest first: `..` takes a part away, and at the top of an
absolute path it takes nothing. -/
def push (rooted : Bool) (stack : List String) (part : String) : List String :=
  if part = "" ∨ part = "." then stack
  else if part = ".." then
    match stack with
    | [] => if rooted then [] else [part]
    | top :: below => if top = ".." then part :: stack else below
  else part :: stack

/-- The slashes that a path begins with, as a normal path keeps them: two stay two, any other
number becomes one. -/
def lead (path : String) : String :=
  match path.toList with
  | '/' :: '/' :: '/' :: _ => "/"
  | '/' :: '/' :: _ => "//"
  | '/' :: _ => "/"
  | _ => ""

/-- The path without empty parts, `.`, and `..` after a part that it cancels. -/
def normalize (path : String) : String :=
  let rooted := isAbsolute path
  let body := "/".intercalate ((parts path).foldl (push rooted) []).reverse
  let whole := lead path ++ body
  if whole.isEmpty then "." else whole

/-- The normal form of a path read from the folder `cwd`. -/
def absolute (cwd path : String) : String :=
  normalize (if isAbsolute path then path else join cwd path)

/-- The last part of a path. -/
def baseName (path : String) : String := (parts path).getLast?.getD ""

/-- The extension of a file name, its dot included. Dots at the front of a name begin none. -/
def extension (path : String) : String :=
  let reversed := (baseName path).toList.reverse
  let tail := reversed.takeWhile (· != '.')
  let stem := (reversed.dropWhile (· != '.')).drop 1
  if stem.any (· != '.') then String.ofList ('.' :: tail.reverse) else ""

end MarkupTally.Path
