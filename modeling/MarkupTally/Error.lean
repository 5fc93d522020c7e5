import MarkupTally.Text.Utf8

/-! Why a census fails. -/
namespace MarkupTally

/-- The failures that a census reports to its caller. -/
inductive CensusError where
  | general (message : String)
  /-- The command line cannot be understood. -/
  | usage (message : String)
  /-- The folder to be counted is none. -/
  | badRoot (path : String)
  /-- A file cannot be read. -/
  | badFile (path reason : String)
  /-- A source has an error, at a known place or not. -/
  | badSource (path : String) (line column : Option Int)
  deriving DecidableEq, Repr

namespace CensusError

def number (n : Option Int) : String := n.elim "None" toString

/-- Why a single file failed. -/
def reason? : CensusError → Option String
  | badFile _ reason => some reason
  | badSource _ none _ => some "syntax error"
  | badSource _ (some line) column =>
    some ("syntax error at line " ++ toString line ++ ", column " ++ number column)
  | _ => none

def path? : CensusError → Option String
  | badRoot path | badFile path _ | badSource path _ _ => some path
  | _ => none

def message (e : CensusError) : String :=
  match e with
  | general message | usage message => message
  | badRoot path => "The provided path \"" ++ path ++ "\" does not exist or is not a directory."
  | badFile path _ | badSource path _ _ => path ++ ": " ++ e.reason?.getD ""

end CensusError

/-- What can end a run. -/
inductive Abort where
  | census (error : CensusError)
  | unsupported (language : String)
  /-- A node was taken for a function and is none. -/
  | notFunction (kind : String)
  /-- The name of a function is no text. -/
  | badName (fault : Utf8.Fault)
  /-- A path was refused before the disk was asked for it. -/
  | badPath (reason : String)
  deriving DecidableEq, Repr

def Abort.message : Abort → String
  | census error => error.message
  | unsupported language => "Unsupported language: " ++ language
  | notFunction kind => "Not a function-like node: " ++ kind
  | badName fault => fault.message
  | badPath reason => reason

end MarkupTally
