/-! Whole numbers written in the decimal digits of any script. -/
namespace MarkupTally.Digits

/-- The digit zero of each script with decimal digits; the other nine follow it. -/
def zeros : List Nat := [
  0x30, 0x660, 0x6F0, 0x7C0, 0x966, 0x9E6, 0xA66, 0xAE6, 0xB66, 0xBE6, 0xC66, 0xCE6, 0xD66,
  0xDE6, 0xE50, 0xED0, 0xF20, 0x1040, 0x1090, 0x17E0, 0x1810, 0x1946, 0x19D0, 0x1A80, 0x1A90,
  0x1B50, 0x1BB0, 0x1C40, 0x1C50, 0xA620, 0xA8D0, 0xA900, 0xA9D0, 0xA9F0, 0xAA50, 0xABF0,
  0xFF10, 0x104A0, 0x10D30, 0x11066, 0x110F0, 0x11136, 0x111D0, 0x112F0, 0x11450, 0x114D0,
  0x11650, 0x116C0, 0x11730, 0x118E0, 0x11950, 0x11C50, 0x11D50, 0x11DA0, 0x16A60, 0x16AC0,
  0x16B50, 0x1D7CE, 0x1D7D8, 0x1D7E2, 0x1D7EC, 0x1D7F6, 0x1E140, 0x1E2F0, 0x1E950, 0x1FBF0]

/-- The value of a decimal digit. -/
def value? (c : Char) : Option Nat :=
  (zeros.find? fun z => z ≤ c.toNat ∧ c.toNat < z + 10).map (c.toNat - ·)

/-- Blanks that may stand around a number: the ASCII ones, and every wider blank. -/
def isBlank (c : Char) : Bool :=
  let n := c.toNat
  (9 ≤ n && n ≤ 13) || n == 32 || n == 0x85 || n == 0xA0 || n == 0x1680 ||
    (0x2000 ≤ n && n ≤ 0x200A) || n == 0x2028 || n == 0x2029 || n == 0x202F || n == 0x205F ||
    n == 0x3000

def trim (cs : List Char) : List Char :=
  ((cs.dropWhile isBlank).reverse.dropWhile isBlank).reverse

/-- Digits with at most one underscore between two of them; `digit` gives a digit's value. -/
def natOnto (digit : Char → Option Nat) (n : Nat) : List Char → Option Nat
  | [] => some n
  | ['_'] => none
  | '_' :: c :: cs => (digit c).bind fun d => natOnto digit (n * 10 + d) cs
  | c :: cs => (digit c).bind fun d => natOnto digit (n * 10 + d) cs

def nat? (digit : Char → Option Nat) : List Char → Option Nat
  | [] => none
  | c :: cs => (digit c).bind fun d => natOnto digit d cs

def signed? (digit : Char → Option Nat) : List Char → Option Int
  | '-' :: cs => (nat? digit cs).map fun n : Nat => -(n : Int)
  | '+' :: cs => (nat? digit cs).map fun n : Nat => (n : Int)
  | cs => (nat? digit cs).map fun n : Nat => (n : Int)

/-- A whole number of more digits than this is neither read from a text nor written as one. -/
def maxDigits : Nat := 4300

/-- How many decimal digits a whole number has. -/
def count (n : Int) : Nat := (Nat.toDigits 10 n.natAbs).length

/-- The whole number that a word spells, with blanks around it and an optional sign. -/
def int? (word : String) : Option Int :=
  let cs := trim word.toList
  if (cs.filter fun c => (value? c).isSome).length ≤ maxDigits then signed? value? cs else none

end MarkupTally.Digits
