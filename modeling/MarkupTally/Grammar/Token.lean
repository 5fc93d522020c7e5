import MarkupTally.Grammar.Source

/-! Tokens. Patterns, templates and markup text are not told by their first character alone, so
they are read where the grammar expects them. -/
namespace MarkupTally.Grammar

inductive TokenKind where
  | word
  | number
  | quoted
  | privateName
  | mark
  | ending
  | broken
  deriving DecidableEq, Inhabited

structure Token where
  kind : TokenKind
  /-- The text of a word or a mark; nothing for other tokens. -/
  text : String
  start : Nat
  stop : Nat
  /-- A line ends between the token and the one before it. -/
  newline : Bool
  deriving Inhabited

/-- The length of the mark that starts with three characters. An angle bracket that closes is
always a mark of its own. -/
def markLength : Char → Char → Char → Nat
  | '.', '.', '.' => 3
  | '=', '=', '=' => 3
  | '!', '=', '=' => 3
  | '*', '*', '=' => 3
  | '<', '<', '=' => 3
  | '&', '&', '=' => 3
  | '|', '|', '=' => 3
  | '?', '?', '=' => 3
  | '=', '>', _ => 2
  | '=', '=', _ => 2
  | '!', '=', _ => 2
  | '*', '*', _ => 2
  | '*', '=', _ => 2
  | '+', '+', _ => 2
  | '+', '=', _ => 2
  | '-', '-', _ => 2
  | '-', '=', _ => 2
  | '<', '<', _ => 2
  | '<', '=', _ => 2
  | '&', '&', _ => 2
  | '&', '=', _ => 2
  | '|', '|', _ => 2
  | '|', '=', _ => 2
  | '?', '?', _ => 2
  | '?', '.', c => if isDigit c then 1 else 2
  | '^', '=', _ => 2
  | '%', '=', _ => 2
  | '/', '=', _ => 2
  | _, _, _ => 1

namespace Token

/-- The token that starts at an index, which is in no blank and no comment. A comment that never
ends is no token. -/
def scan (s : Source) (i : Nat) (newline : Bool) : Token :=
  let c := s.charAt i
  let d := s.charAt (i + 1)
  if s.ended i then ⟨.ending, "", i, i, newline⟩
  else if isNameStart c || (c = '\\' && d = 'u') then
    let j := s.nameEnd i
    ⟨.word, s.slice i j, i, j, newline⟩
  else if isDigit c || (c = '.' && isDigit d) then
    let based := c = '0' && "xXoObB".contains d
    ⟨.number, "", i, s.numberEnd based (c = '.') (i + 1), newline⟩
  else if c = '\x22' || c = '\x27' then
    match s.quotedEnd? c (i + 1) with
    | some j => ⟨.quoted, "", i, j, newline⟩
    | none => ⟨.broken, "", i, i + 1, newline⟩
  else if c = '#' && isNameStart d then ⟨.privateName, "", i, s.nameEnd (i + 1), newline⟩
  else if c = '/' && d = '*' then ⟨.broken, "", i, i + 1, newline⟩
  else if ";:,.|^&<=>+-*/%?!~()[]\x7b\x7d@\x60".contains c then
    let j := i + markLength c d (s.charAt (i + 2))
    ⟨.mark, s.slice i j, i, j, newline⟩
  else ⟨.broken, "", i, i + 1, newline⟩

/-- The first token from an index on. -/
def next (s : Source) (i : Nat) : Token :=
  let (j, newline) := s.skip (s.size + 1) i false
  scan s j newline

/-- The words that are never names. -/
def reserved : List String :=
  ["break", "case", "catch", "class", "const", "continue", "debugger", "default", "delete", "do",
    "else", "enum", "export", "extends", "false", "finally", "for", "function", "if", "import",
    "in", "instanceof", "new", "null", "return", "super", "switch", "this", "throw", "true", "try",
    "typeof", "var", "void", "while", "with"]

def isWord (t : Token) : Bool := t.kind = .word

/-- A word that may name something. -/
def isName (t : Token) : Bool := t.kind = .word && !reserved.contains t.text

/-- The token may start the key of a member. -/
def startsKey (t : Token) : Bool :=
  match t.kind with
  | .word | .number | .quoted | .privateName => true
  | _ => t.text = "["

/-- The token may start an operand. -/
def startsOperand (t : Token) : Bool :=
  match t.kind with
  | .word => !(["in", "instanceof", "of", "as", "satisfies"].contains t.text)
  | .number | .quoted | .privateName => true
  | .mark =>
    ["(", "[", "\x7b", "\x60", "+", "-", "!", "~", "++", "--", "<", "/", "/=", "@"].contains t.text
  | _ => false

end Token

end MarkupTally.Grammar
