/-! A source text as an array of characters, each with its place, and the raw spans in it. -/
namespace MarkupTally.Grammar

/-- Where a character stands: the bytes before it, its line, and the bytes before it in the line. -/
structure Place where
  offset : Nat
  row : Nat
  column : Nat
  deriving Inhabited

/-- The place after a character. Only a line feed starts a line. -/
def Place.step (p : Place) (c : Char) : Place :=
  if c = '\n' then ⟨p.offset + 1, p.row + 1, 0⟩
  else ⟨p.offset + c.utf8Size, p.row, p.column + c.utf8Size⟩

structure Source where
  chars : Array Char
  /-- The places of the characters, and of the end. -/
  places : Array Place

namespace Source

def ofText (text : String) : Source :=
  let chars := text.toList
  let places := chars.foldl (fun ps c => ps.push ((ps.back?.getD ⟨0, 0, 0⟩).step c)) #[⟨0, 0, 0⟩]
  ⟨chars.toArray, places⟩

def size (s : Source) : Nat := s.chars.size

/-- The character at an index; NUL stands for the end. -/
def charAt (s : Source) (i : Nat) : Char := s.chars.getD i '\x00'

def placeAt (s : Source) (i : Nat) : Place := s.places.getD i ⟨0, 0, 0⟩

def slice (s : Source) (start stop : Nat) : String :=
  String.ofList (s.chars.extract start stop).toList

def ended (s : Source) (i : Nat) : Bool := i ≥ s.size

/-- The first index from `i` on that is at the end or holds a character of the given class. -/
def find (s : Source) (p : Char → Bool) (i : Nat) : Nat :=
  if i < s.size then if p (s.charAt i) then i else s.find p (i + 1) else i
termination_by s.size - i

end Source

/-- A character after which a statement may end without a semicolon. -/
def isLineEnd (c : Char) : Bool := c = '\n' || c = '\u2028' || c = '\u2029'

/-- A character that parts tokens and means nothing else. -/
def isBlank (c : Char) : Bool :=
  let n := c.toNat
  (9 ≤ n && n ≤ 13) || n = 0x20 || n = 0x85 || n = 0xA0 || n = 0x1680 ||
    (0x2000 ≤ n && n ≤ 0x200B) || n = 0x2028 || n = 0x2029 || n = 0x202F || n = 0x205F ||
    n = 0x2060 || n = 0x3000 || n = 0xFEFF

def isDigit (c : Char) : Bool := '0' ≤ c && c ≤ '9'

/-- A character of a name: anything that is no blank, no control and no mark. -/
def isNamePart (c : Char) : Bool :=
  let n := c.toNat
  if n < 0x80 then c.isAlphanum || c = '_' || c = '$' || n = 0x7F else !isBlank c

def isNameStart (c : Char) : Bool := isNamePart c && !isDigit c

namespace Source

/-- The end of a comment that runs to the end of its line. -/
def lineCommentEnd (s : Source) (i : Nat) : Nat :=
  s.find (fun c => isLineEnd c || c = '\r') i

/-- The end of a bracketed comment from inside it, and whether a line ends in it. -/
def blockCommentEnd? (s : Source) (i : Nat) (newline : Bool) : Option (Nat × Bool) :=
  if i < s.size then
    if s.charAt i = '*' && s.charAt (i + 1) = '/' then some (i + 2, newline)
    else s.blockCommentEnd? (i + 1) (newline || isLineEnd (s.charAt i))
  else none
termination_by s.size - i

/-- The first index from `i` on that is in no blank and no comment, and whether a line ends before
it. The fuel bounds the number of blanks and comments. -/
def skip (s : Source) : Nat → Nat → Bool → Nat × Bool
  | 0, i, newline => (i, newline)
  | n + 1, i, newline =>
    let c := s.charAt i
    if s.ended i then (i, newline)
    else if isBlank c then s.skip n (i + 1) (newline || isLineEnd c)
    else if c = '/' && s.charAt (i + 1) = '/' then s.skip n (s.lineCommentEnd i) newline
    else if c = '/' && s.charAt (i + 1) = '*' then
      match s.blockCommentEnd? (i + 2) newline with
      | some (j, newline) => s.skip n j newline
      | none => (i, newline)
    else (i, newline)

/-- The end of a name, which may spell characters as escapes. -/
def nameEnd (s : Source) (i : Nat) : Nat :=
  if i < s.size then
    if isNamePart (s.charAt i) then s.nameEnd (i + 1)
    else if s.charAt i = '\\' && s.charAt (i + 1) = 'u' then
      if s.charAt (i + 2) = '\x7b' then s.nameEnd (max (i + 1) (s.find (· = '\x7d') i + 1))
      else s.nameEnd (i + 2)
    else i
  else i
termination_by s.size - i

/-- The end of a name of markup, in which hyphens are allowed. -/
def tagNameEnd (s : Source) (i : Nat) : Nat :=
  s.find (fun c => !(isNamePart c || c = '-')) i

/-- The end of a number. A point is taken once, a sign only after the mark of an exponent. -/
def numberEnd (s : Source) (based point : Bool) (i : Nat) : Nat :=
  if i < s.size then
    let c := s.charAt i
    let before := s.charAt (i - 1)
    if c.isAlphanum || c = '_' then s.numberEnd based point (i + 1)
    else if c = '.' && !point && !based then s.numberEnd based true (i + 1)
    else if (c = '+' || c = '-') && !based && (before = 'e' || before = 'E') then
      s.numberEnd based true (i + 1)
    else i
  else i
termination_by s.size - i

/-- The end of a quoted text from inside it, unless the line ends first. -/
def quotedEnd? (s : Source) (quote : Char) (i : Nat) : Option Nat :=
  if i < s.size then
    let c := s.charAt i
    if c = quote then some (i + 1)
    else if c = '\\' then s.quotedEnd? quote (i + 2)
    else if c = '\n' then none
    else s.quotedEnd? quote (i + 1)
  else none
termination_by s.size - i

/-- The closing slash of a pattern from inside it; a slash in brackets closes nothing. -/
def slashEnd? (s : Source) (bracket : Bool) (i : Nat) : Option Nat :=
  if i < s.size then
    let c := s.charAt i
    if c = '\n' then none
    else if c = '\\' then s.slashEnd? bracket (i + 2)
    else if c = '/' && !bracket then some (i + 1)
    else s.slashEnd? ((bracket || c = '[') && c ≠ ']') (i + 1)
  else none
termination_by s.size - i

/-- The end of a pattern with its flags, given the index of its first slash. -/
def patternEnd? (s : Source) (i : Nat) : Option Nat :=
  (s.slashEnd? false (i + 1)).map fun j => s.find (fun c => !c.isAlpha) j

/-- The end of a piece of template text: the closing quote, or a place where code is filled in. -/
def templateEnd (s : Source) (i : Nat) : Nat :=
  if i < s.size then
    let c := s.charAt i
    if c = '\x60' || (c = '$' && s.charAt (i + 1) = '\x7b') then i
    else if c = '\\' then s.templateEnd (i + 2)
    else s.templateEnd (i + 1)
  else i
termination_by s.size - i

/-- The index at which the code starts, after a first line that names an interpreter. -/
def codeStart (s : Source) : Nat :=
  if s.charAt 0 = '#' && s.charAt 1 = '!' then s.lineCommentEnd 0 else 0

end Source

end MarkupTally.Grammar
