import MarkupTally.Json.Value
import MarkupTally.Text.Digits
import MarkupTally.Text.Quoted

/-! JSON text in ASCII, on one line or with an indent of two blanks. -/
namespace MarkupTally.Json

def unitEscape (n : Nat) : List Char := '\\' :: 'u' :: Quoted.hex 4 n

/-- A character inside a string: outside the printable ASCII range its UTF-16 units are written. -/
def escapeChar (c : Char) : List Char :=
  if c = '\x22' ∨ c = '\\' then ['\\', c]
  else if c = '\n' then ['\\', 'n']
  else if c = '\r' then ['\\', 'r']
  else if c = '\t' then ['\\', 't']
  else if c = '\x0c' then ['\\', 'f']
  else if c = '\x08' then ['\\', 'b']
  else if 0x20 ≤ c.toNat ∧ c.toNat < 0x7F then [c]
  else if c.toNat < 0x10000 then unitEscape c.toNat
  else
    unitEscape (0xD800 + (c.toNat - 0x10000) / 0x400) ++
      unitEscape (0xDC00 + (c.toNat - 0x10000) % 0x400)

/-- Writes a string in quotes in front of `tail`. -/
def quoteOnto (s : String) (tail : List Char) : List Char :=
  '\x22' :: s.toList.foldr (fun c rest => escapeChar c ++ rest) ('\x22' :: tail)

/-- A value without parts, in front of `tail`. -/
def atomOnto (v : Json) (tail : List Char) : List Char :=
  match v with
  | null => "null".toList ++ tail
  | bool b => (if b then "true" else "false").toList ++ tail
  | int n => (toString n).toList ++ tail
  | float x => x.decimal.toList ++ tail
  | str s => quoteOnto s tail
  | arr _ => "[]".toList ++ tail
  | obj _ => "\x7b\x7d".toList ++ tail

/-- How the parts of a value are set apart. -/
structure Layout where
  /-- Stands before each part and, one level up, before the closing bracket. -/
  newline : Nat → List Char
  comma : List Char
  colon : List Char

namespace Layout

def compact : Layout := ⟨fun _ => [], [','], [':']⟩

/-- One part a line, indented by two blanks for each level. -/
def indented : Layout := ⟨fun depth => '\n' :: List.replicate (2 * depth) ' ', [','], [':', ' ']⟩

end Layout

mutual

/-- Writes a value that stands at the given depth in front of `tail`. -/
def write (l : Layout) (depth : Nat) (tail : List Char) : Json → List Char
  | arr (v :: vs) =>
    '[' :: (l.newline (depth + 1) ++
      write l (depth + 1) (writeItems l (depth + 1) (l.newline depth ++ ']' :: tail) vs) v)
  | obj ((k, v) :: fs) =>
    '\x7b' :: (l.newline (depth + 1) ++ quoteOnto k (l.colon ++
      write l (depth + 1) (writeFields l (depth + 1) (l.newline depth ++ '\x7d' :: tail) fs) v))
  | v => atomOnto v tail

def writeItems (l : Layout) (depth : Nat) (tail : List Char) : List Json → List Char
  | [] => tail
  | v :: vs =>
    l.comma ++ (l.newline depth ++ write l depth (writeItems l depth tail vs) v)

def writeFields (l : Layout) (depth : Nat) (tail : List Char) : List (String × Json) → List Char
  | [] => tail
  | (k, v) :: fs =>
    l.comma ++ (l.newline depth ++ quoteOnto k (l.colon ++
      write l depth (writeFields l depth tail fs) v))

end

def compact (v : Json) : String := String.ofList (write .compact 0 [] v)

def pretty (v : Json) : String := String.ofList (write .indented 0 [] v)

/-- The lines of a value. There are none if one of its whole numbers has more than
`Digits.maxDigits` digits. -/
def dump (v : Json) : Option String :=
  if v.ints.all fun n => Digits.count n ≤ Digits.maxDigits then some v.pretty else none

end MarkupTally.Json
