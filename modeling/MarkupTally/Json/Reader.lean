import MarkupTally.Json.Value
import MarkupTally.Text.Digits

/-! Reading JSON text. A text that is none is refused with the offset of the first error, and a
whole number of too many digits stops the reading. -/
namespace MarkupTally.Json

/-- Why a text is not read. -/
inductive Unread where
  /-- The text is no JSON: its first error is at the given offset. -/
  | malformed (offset : Nat)
  /-- A whole number has more digits than are taken. -/
  | longNumber
  deriving DecidableEq, Repr

instance : ToString Unread where
  toString
    | .malformed offset => "error at offset " ++ toString offset
    | .longNumber => "a number has too many digits"

/-- A result together with the offset and the text after it, or why there is none. -/
abbrev Read (α : Type) := Except Unread (α × Nat × List Char)

def isBlank (c : Char) : Bool := c = ' ' ∨ c = '\n' ∨ c = '\r' ∨ c = '\t'

def skipBlanks (pos : Nat) : List Char → Nat × List Char
  | [] => (pos, [])
  | c :: cs => if isBlank c then skipBlanks (pos + 1) cs else (pos, c :: cs)

def hexValue? (c : Char) : Option Nat :=
  if '0' ≤ c ∧ c ≤ '9' then some (c.toNat - 48)
  else if 'a' ≤ c ∧ c ≤ 'f' then some (c.toNat - 87)
  else if 'A' ≤ c ∧ c ≤ 'F' then some (c.toNat - 55)
  else none

def hex4? (a b c d : Char) : Option Nat := do
  let a ← hexValue? a
  let b ← hexValue? b
  let c ← hexValue? c
  let d ← hexValue? d
  return ((a * 16 + b) * 16 + c) * 16 + d

def escaped? : Char → Option Char
  | '\x22' => some '\x22'
  | '\\' => some '\\'
  | '/' => some '/'
  | 'b' => some '\x08'
  | 'f' => some '\x0c'
  | 'n' => some '\n'
  | 'r' => some '\r'
  | 't' => some '\t'
  | _ => none

/-- The character of a code point; half a surrogate pair is shown as a replacement. -/
def charOf (n : Nat) : Char :=
  if 0xD800 ≤ n ∧ n ≤ 0xDFFF then '\uFFFD' else Char.ofNat n

/-- The second half of a surrogate pair, if an escape of one follows a first half. It counts only
if the text goes on after it. -/
def lowHalf (pos : Nat) : List Char → Except Nat (Option Nat)
  | '\\' :: 'u' :: a :: b :: c :: d :: _ :: _ =>
    match hex4? a b c d with
    | none => .error (pos + 1)
    | some n => .ok (if 0xDC00 ≤ n ∧ n ≤ 0xDFFF then some n else none)
  | _ => .ok none

/-- The rest of a string whose quote was opened at `opened`. -/
def stringOnto (opened : Nat) (read : List Char) (pos : Nat) (text : List Char) :
    Read String :=
  match text with
  | [] => .error (.malformed opened)
  | '\x22' :: cs => .ok (String.ofList read.reverse, pos + 1, cs)
  | ['\\'] => .error (.malformed opened)
  | '\\' :: 'u' :: a :: b :: c :: d :: e :: cs =>
    match hex4? a b c d with
    | none => .error (.malformed (pos + 1))
    | some n =>
      if 0xD800 ≤ n ∧ n < 0xDC00 then
        match lowHalf (pos + 6) (e :: cs) with
        | .error offset => .error (.malformed offset)
        | .ok none => stringOnto opened (charOf n :: read) (pos + 6) (e :: cs)
        | .ok (some m) =>
          stringOnto opened (Char.ofNat (0x10000 + (n - 0xD800) * 0x400 + (m - 0xDC00)) :: read)
            (pos + 12) (cs.drop 5)
      else stringOnto opened (charOf n :: read) (pos + 6) (e :: cs)
  | '\\' :: 'u' :: _ => .error (.malformed (pos + 1))
  | '\\' :: c :: cs =>
    match escaped? c with
    | none => .error (.malformed pos)
    | some e => stringOnto opened (e :: read) (pos + 2) cs
  | c :: cs =>
    if c.toNat < 0x20 then .error (.malformed pos)
    else stringOnto opened (c :: read) (pos + 1) cs
termination_by text.length
decreasing_by all_goals simp_all <;> omega

def isDigit (c : Char) : Bool := '0' ≤ c ∧ c ≤ '9'

def digitsValue (cs : List Char) : Nat := cs.foldl (fun n c => n * 10 + (c.toNat - 48)) 0

/-- The whole part of a number: no zero stands in front of another digit. -/
def wholePart? : List Char → Option (List Char × List Char)
  | '0' :: cs => some (['0'], cs)
  | cs => if (cs.takeWhile isDigit).isEmpty then none else some (cs.span isDigit)

def fraction : List Char → List Char × List Char
  | '.' :: cs => if (cs.takeWhile isDigit).isEmpty then ([], '.' :: cs) else cs.span isDigit
  | cs => ([], cs)

/-- The exponent part, if there is one: its value, its length, and the text after it. -/
def exponent? (cs : List Char) : Option (Int × Nat × List Char) :=
  match cs with
  | e :: rest =>
    if e = 'e' ∨ e = 'E' then
      let (negative, signs, body) : Bool × Nat × List Char :=
        match rest with
        | '-' :: b => (true, 1, b)
        | '+' :: b => (false, 1, b)
        | b => (false, 0, b)
      let (ds, after) := body.span isDigit
      if ds.isEmpty then none
      else
        let n : Int := digitsValue ds
        some (if negative then -n else n, 1 + signs + ds.length, after)
    else none
  | [] => none

/-- A number, if the text begins like one. A whole number is taken if `takes` holds of the number of
its digits. -/
def number? (takes : Nat → Bool) (pos : Nat) (text : List Char) : Option (Read Json) := do
  let (negative, body) := match text with
    | '-' :: cs => (true, cs)
    | cs => (false, cs)
  let (whole, afterWhole) ← wholePart? body
  let (frac, afterFrac) := fraction afterWhole
  let pos := pos + negative.toNat + whole.length + (if frac.isEmpty then 0 else frac.length + 1)
  let n := digitsValue (whole ++ frac)
  let float (e : Int) : Json :=
    .float (.ofDecimal negative n (whole.length + frac.length) (e - frac.length))
  match exponent? afterFrac with
  | some (e, length, after) => some (.ok (float e, pos + length, after))
  | none =>
    if !frac.isEmpty then some (.ok (float 0, pos, afterFrac))
    else if takes whole.length then
      some (.ok (.int (if negative then -(n : Int) else n), pos, afterFrac))
    else some (.error .longNumber)

/-- The words that stand for a value. -/
def words : List (List Char × Json) :=
  [("null".toList, .null), ("true".toList, .bool true), ("false".toList, .bool false),
    ("NaN".toList, .float .nan), ("Infinity".toList, .float (.infinite false)),
    ("-Infinity".toList, .float (.infinite true))]

def word? (pos : Nat) (text : List Char) : Option (Json × Nat × List Char) :=
  (words.find? fun w => w.1.isPrefixOf text).map fun w =>
    (w.2, pos + w.1.length, text.drop w.1.length)

def scalar (takes : Nat → Bool) (pos : Nat) (text : List Char) : Read Json :=
  match text with
  | '\x22' :: cs =>
    match stringOnto pos [] (pos + 1) cs with
    | .ok (s, rest) => .ok (.str s, rest)
    | .error e => .error e
  | _ =>
    match word? pos text with
    | some r => .ok r
    | none => (number? takes pos text).getD (.error (.malformed pos))

mutual

/-- A value; every call inside it spends one unit of fuel. -/
def value (takes : Nat → Bool) (fuel pos : Nat) (text : List Char) : Read Json :=
  match fuel with
  | 0 => .error (.malformed pos)
  | fuel + 1 =>
    match text with
    | '[' :: cs =>
      match skipBlanks (pos + 1) cs with
      | (pos, ']' :: rest) => .ok (.arr [], pos + 1, rest)
      | (pos, rest) => items takes fuel [] pos rest
    | '\x7b' :: cs =>
      match skipBlanks (pos + 1) cs with
      | (pos, '\x7d' :: rest) => .ok (.obj [], pos + 1, rest)
      | (pos, rest) => fields takes fuel [] pos rest
    | _ => scalar takes pos text

/-- The items of an array after those in `read`, latest first. -/
def items (takes : Nat → Bool) (fuel : Nat) (read : List Json) (pos : Nat) (text : List Char) :
    Read Json :=
  match fuel with
  | 0 => .error (.malformed pos)
  | fuel + 1 =>
    match value takes fuel pos text with
    | .error e => .error e
    | .ok (v, pos, rest) =>
      match skipBlanks pos rest with
      | (pos, ']' :: rest) => .ok (.arr (v :: read).reverse, pos + 1, rest)
      | (pos, ',' :: rest) =>
        let (pos, rest) := skipBlanks (pos + 1) rest
        items takes fuel (v :: read) pos rest
      | (pos, _) => .error (.malformed pos)

/-- The fields of an object after those in `read`. -/
def fields (takes : Nat → Bool) (fuel : Nat) (read : List (String × Json)) (pos : Nat)
    (text : List Char) : Read Json :=
  match fuel with
  | 0 => .error (.malformed pos)
  | fuel + 1 =>
    match text with
    | '\x22' :: cs =>
      match stringOnto pos [] (pos + 1) cs with
      | .error e => .error e
      | .ok (key, pos, rest) =>
        match skipBlanks pos rest with
        | (pos, ':' :: rest) =>
          let (pos, rest) := skipBlanks (pos + 1) rest
          match value takes fuel pos rest with
          | .error e => .error e
          | .ok (v, pos, rest) =>
            match skipBlanks pos rest with
            | (pos, '\x7d' :: rest) => .ok (.obj (put read key v), pos + 1, rest)
            | (pos, ',' :: rest) =>
              let (pos, rest) := skipBlanks (pos + 1) rest
              fields takes fuel (put read key v) pos rest
            | (pos, _) => .error (.malformed pos)
        | (pos, _) => .error (.malformed pos)
    | _ => .error (.malformed pos)

end

/-- The value that a whole text stands for. -/
def readText (takes : Nat → Bool) (text : String) : Except Unread Json :=
  let cs := text.toList
  let (pos, rest) := skipBlanks 0 cs
  match value takes (2 * cs.length + 2) pos rest with
  | .error e => .error e
  | .ok (v, pos, rest) =>
    match skipBlanks pos rest with
    | (_, []) => .ok v
    | (pos, _) => .error (.malformed pos)

/-- Reads a text with numbers of any length, as the format has them. -/
def parse (text : String) : Except Unread Json := readText (fun _ => true) text

/-- Reads a text in which no whole number has more than `Digits.maxDigits` digits. -/
def load (text : String) : Except Unread Json := readText (· ≤ Digits.maxDigits) text

end MarkupTally.Json
