/-! Double-precision numbers read from decimal notation, exactly. -/
namespace MarkupTally

/-- A double: the finite ones are `mantissa * 2 ^ exponent` with a sign. -/
inductive Binary64 where
  | finite (negative : Bool) (mantissa : Nat) (exponent : Int)
  | infinite (negative : Bool)
  | nan
  deriving DecidableEq, Repr

namespace Binary64

/-- The quotient rounded to the nearest whole number, a half to the even neighbour. -/
def roundDiv (num den : Nat) : Nat :=
  let q := num / den
  let r := num % den
  if 2 * r < den then q else if den < 2 * r then q + 1 else q + q % 2

/-- `num / den / 2 ^ e` as a fraction. -/
def scaled (num den : Nat) (e : Int) : Nat × Nat :=
  if e < 0 then (num * Nat.pow 2 (-e).toNat, den) else (num, den * Nat.pow 2 e.toNat)

/-- The double nearest to `num / den`. -/
def ofRatio (negative : Bool) (num den : Nat) : Binary64 :=
  let k : Int := (num.log2 : Int) - den.log2
  let (n, d) := scaled num den k
  let e := max ((if n < d then k - 1 else k) - 52) (-1074)
  let (n, d) := scaled num den e
  let m := roundDiv n d
  if e > 971 ∨ (e = 971 ∧ m ≥ Nat.pow 2 53) then .infinite negative else .finite negative m e

/-- The double nearest to `digits * 10 ^ exponent`; `length` is the number of digits written. -/
def ofDecimal (negative : Bool) (digits length : Nat) (exponent : Int) : Binary64 :=
  if digits = 0 ∨ exponent + length < -400 then .finite negative 0 0
  else if exponent > 400 then .infinite negative
  else if exponent < 0 then ofRatio negative digits (Nat.pow 10 (-exponent).toNat)
  else ofRatio negative (digits * Nat.pow 10 exponent.toNat) 1

/-- The decimal notation with all digits, so that it reads back as the same number. -/
def decimal : Binary64 → String
  | .nan => "NaN"
  | .infinite negative => if negative then "-Infinity" else "Infinity"
  | .finite negative m e =>
    let places := (-e).toNat
    let n := m * Nat.pow 2 e.toNat * Nat.pow 5 places
    let fraction := toString (n % Nat.pow 10 places)
    (if negative then "-" else "") ++ toString (n / Nat.pow 10 places) ++ "." ++
      String.ofList (List.replicate (places - fraction.length) '0') ++ fraction

/-- How a double reads as a whole number. -/
inductive Whole where
  | int (n : Int)
  | fractional
  | tooLarge
  | notFinite

/-- Doubles without a fraction are whole numbers if they lie strictly within 64 signed bits. -/
def whole : Binary64 → Whole
  | .infinite _ | .nan => .notFinite
  | .finite negative m e =>
    let magnitude? : Option Nat :=
      if 0 ≤ e then some (m * Nat.pow 2 e.toNat)
      else if m % Nat.pow 2 (-e).toNat = 0 then some (m / Nat.pow 2 (-e).toNat) else none
    match magnitude? with
    | none => .fractional
    | some n => if n < Nat.pow 2 63 then .int (if negative then -(n : Int) else n) else .tooLarge

end Binary64

end MarkupTally
