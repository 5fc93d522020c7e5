import MarkupTally.Grammar.Token
import MarkupTally.Node.Basic
import MarkupTally.Scan
import Std.Data.HashSet

/-! The parser's state, and the steps from which the rules of the grammar are made. -/
namespace MarkupTally.Grammar

/-- What surrounds an expression. -/
structure Context where
  /-- The word `in` is an operator. -/
  allowIn : Bool := true
  /-- An arrow that states its result type needs no colon after it. The middle of a conditional
  expression is the place where it does. -/
  freeArrow : Bool := true
  deriving DecidableEq

/-- The rules of the grammar that others reach by name. -/
inductive Rule where
  | statement
  | block
  | expression (allowIn : Bool)
  | assignment (c : Context)
  | operand (c : Context)
  | chain
  | callee
  | type (conditional : Bool)
  | binding
  | markup

structure State where
  /-- The end of the last token that was read. -/
  last : Nat
  /-- The token to be read next. -/
  token : Token
  /-- The number for the next node. -/
  fresh : Nat := 0
  /-- Where a parameter list of an arrow was looked for in vain: twice the index, and one more if
  such an arrow was free. -/
  notArrow : Std.HashSet Nat := {}

structure Setting where
  source : Source
  language : Language
  enter : Rule → EStateM Unit State Node

abbrev Parser := ReaderT Setting (EStateM Unit State)

namespace Parser

def fail {α : Type} : Parser α := fun _ s => .error () s

/-- Reads by a rule of the grammar. -/
def enter (r : Rule) : Parser Node := fun e s => e.enter r s

def source : Parser Source := fun e s => .ok e.source s

def markupAllowed : Parser Bool := fun e s => .ok (e.language = .tsx) s

def token : Parser Token := fun _ s => .ok s.token s

def here : Parser Nat := fun _ s => .ok s.token.start s

/-- The token after the next one. -/
def following : Parser Token := fun e s => .ok (Token.next e.source s.token.stop) s

/-- Goes on after an index. -/
def resume (i : Nat) : Parser Unit := fun e s =>
  .ok () { s with last := i, token := Token.next e.source i }

def last : Parser Nat := fun _ s => .ok s.last s

def advance : Parser Unit := do resume (← token).stop

def looksAt (text : String) : Parser Bool := fun _ s => .ok (s.token.text == text) s

/-- Reads a word or a mark if it is next. -/
def accept (text : String) : Parser Bool := do
  if ← looksAt text then
    advance
    return true
  else return false

/-- Reads the first of the given words or marks that is next. -/
def acceptAny (texts : List String) : Parser Bool := do
  if texts.contains (← token).text then
    advance
    return true
  else return false

/-- Reads a word or a mark if it is next and on the same line. -/
def acceptBeside (text : String) : Parser Bool := do
  if (← token).newline then return false else accept text

def expect (text : String) : Parser Unit := do
  unless ← accept text do fail

def guard (b : Bool) : Parser Unit := if b then pure () else fail

/-- Goes back to where `s` stood. -/
def State.backTo (s t : State) : State := { t with last := s.last, token := s.token }

/-- Reads what can be read, and otherwise nothing. -/
def attempt {α : Type} (p : Parser α) : Parser (Option α) := fun e s =>
  match p e s with
  | .ok a t => .ok (some a) t
  | .error _ t => .ok none (State.backTo s t)

/-- Whether something can be read. -/
def ahead (p : Parser Bool) : Parser Bool := fun e s =>
  match p e s with
  | .ok b t => .ok b (State.backTo s t)
  | .error _ t => .ok false (State.backTo s t)

/-- More rounds than a loop can take that reads something in each of them. -/
def rounds : Parser Nat := fun e s => .ok (e.source.size + 1) s

def manyFrom {α : Type} (p : Parser (Option α)) : Nat → Array α → Parser (List α)
  | 0, _ => fail
  | n + 1, found => do
    match ← p with
    | none => return found.toList
    | some a => manyFrom p n (found.push a)

/-- Reads as long as there is something. -/
def many {α : Type} (p : Parser (Option α)) : Parser (List α) := do manyFrom p (← rounds) #[]

def growFrom {α : Type} (p : α → Parser (Option α)) : Nat → α → Parser α
  | 0, _ => fail
  | n + 1, a => do
    match ← p a with
    | none => return a
    | some b => growFrom p n b

/-- Builds on what was read as long as something follows. -/
def grow {α : Type} (a : α) (p : α → Parser (Option α)) : Parser α := do growFrom p (← rounds) a

/-- Reads items up to a closing mark, which is read too. -/
def manyUntil {α : Type} (close : String) (p : Parser α) : Parser (List α) :=
  many do if ← accept close then return none else return some (← p)

/-- Reads items with commas between them up to a closing mark, which is read too. -/
def listUntil {α : Type} (close : String) (p : Parser α) : Parser (List α) :=
  manyUntil close do
    let a ← p
    unless ← looksAt close do expect ","
    return a

/-- Reads items as `listUntil` does, where an item may be left out. -/
def gappedListUntil {α : Type} (close : String) (p : Parser α) : Parser (List α) := do
  let items ← manyUntil close do
    if ← accept "," then return none
    else
      let a ← p
      unless ← looksAt close do expect ","
      return some a
  return items.filterMap id

/-- A node from an index up to the last token. -/
def node (kind : String) (start : Nat) (children : List Node) : Parser Node := fun e s =>
  let first := e.source.placeAt start
  let info : Node.Info :=
    { id := s.fresh, kind, start := first.offset, stop := (e.source.placeAt s.last).offset,
      row := first.row, column := first.column }
  .ok (.mk info children) { s with fresh := s.fresh + 1 }

/-- Reads a token as a node of its own. -/
def leaf (kind : String) : Parser Node := do
  let start ← here
  advance
  node kind start []

/-- Reads a word that may name something. -/
def name (kind : String) : Parser Node := do
  guard (← token).isName
  leaf kind

/-- A statement may end here without a semicolon. -/
def atBreak : Parser Bool := do
  let t ← token
  return t.newline || t.kind = .ending || t.text == "\x7d"

def semicolon : Parser Unit := do
  unless ← accept ";" do guard (← atBreak)

/-- A word whose operand stands on the same line has none. An operand that starts with a mark that
could go on from an expression is taken from the next line too. -/
def operandOmitted : Parser Bool := do
  let t ← token
  let s ← source
  let c := s.charAt t.start
  let d := s.charAt (t.start + 1)
  let goesOn :=
    "\x60,.;*%><=[(?^|&/:".contains c || ((c = '+' || c = '-') && c ≠ d) ||
      (c = '!' && d = '=') || t.text == "in" || t.text == "instanceof"
  return t.text == ";" || t.text == "\x7d" || t.kind = .ending || (t.newline && !goesOn)

end Parser

/-- The node in a role among its siblings. -/
def inRole (role : String) : Node → Node
  | .mk info children => .mk { info with field := some role } children

def withKind (kind : String) : Node → Node
  | .mk info children => .mk { info with kind } children

end MarkupTally.Grammar
