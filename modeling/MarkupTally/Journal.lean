/-! Messages that a run leaves behind, and values that come with them. -/
namespace MarkupTally

inductive Level where
  | debug
  | info
  | warning
  | error
  | critical
  deriving DecidableEq, Repr

namespace Level

def severity : Level → Nat
  | debug => 10
  | info => 20
  | warning => 30
  | error => 40
  | critical => 50

def name : Level → String
  | debug => "DEBUG"
  | info => "INFO"
  | warning => "WARNING"
  | error => "ERROR"
  | critical => "CRITICAL"

def ofWord? : String → Option Level
  | "debug" => some debug
  | "info" => some info
  | "warning" => some warning
  | "error" => some error
  | "critical" => some critical
  | _ => none

end Level

/-- The part of the program that a message comes from. -/
inductive Origin where
  | reading
  | counting
  | command
  deriving DecidableEq, Repr

def Origin.name : Origin → String
  | reading => "markup_census.syntax"
  | counting => "markup_census.aggregate"
  | command => "markup_census.cli"

structure Message where
  level : Level
  origin : Origin
  text : String
  deriving DecidableEq, Repr

/-- A message as a line on the error channel. -/
def Message.line (m : Message) : String :=
  "[" ++ m.level.name ++ "] " ++ m.origin.name ++ ": " ++ m.text ++ "\n"

/-- A value and the messages that were left on the way to it. -/
structure Logged (α : Type) where
  log : List Message
  value : α

def Logged.pure {α : Type} (a : α) : Logged α := ⟨[], a⟩

end MarkupTally
