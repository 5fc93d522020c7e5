import MarkupTally.Json.Value
import MarkupTally.Text.Digits

/-! Reading typed values from JSON, with every fault of the input reported. -/
namespace MarkupTally

/-- A step from a value to one of its parts. -/
inductive Step where
  | field (name : String)
  | index (i : Nat)
  deriving DecidableEq, Repr

/-- What is wrong with a part of the input. -/
inductive Fault where
  | missing
  | notModel (model : String)
  | notObject
  | notString
  | notList
  | notInt
  | notIntText
  | intTooLong
  | notFinite
  | fractional
  | notBool
  | notBoolText
  | belowOne
  | notAmong (choices : String)
  deriving DecidableEq, Repr

namespace Fault

def label : Fault → String
  | missing => "missing"
  | notModel _ => "model_type"
  | notObject => "model_attributes_type"
  | notString => "string_type"
  | notList => "list_type"
  | notInt => "int_type"
  | notIntText => "int_parsing"
  | intTooLong => "int_parsing_size"
  | notFinite => "finite_number"
  | fractional => "int_from_float"
  | notBool => "bool_type"
  | notBoolText => "bool_parsing"
  | belowOne => "greater_than_equal"
  | notAmong _ => "enum"

def message : Fault → String
  | missing => "Field required"
  | notModel model => "Input should be a valid dictionary or instance of " ++ model
  | notObject => "Input should be a valid dictionary or object to extract fields from"
  | notString => "Input should be a valid string"
  | notList => "Input should be a valid list"
  | notInt => "Input should be a valid integer"
  | notIntText => "Input should be a valid integer, unable to parse string as an integer"
  | intTooLong => "Unable to parse input string as an integer, exceeded maximum size"
  | notFinite => "Input should be a finite number"
  | fractional => "Input should be a valid integer, got a number with a fractional part"
  | notBool => "Input should be a valid boolean"
  | notBoolText => "Input should be a valid boolean, unable to interpret input"
  | belowOne => "Input should be greater than or equal to 1"
  | notAmong choices => "Input should be " ++ choices

end Fault

/-- A fault and the way to the part that has it. -/
structure Issue where
  path : List Step
  fault : Fault
  deriving DecidableEq, Repr

/-- A value that was read, or everything that kept it from being read. -/
inductive Checked (α : Type) where
  | ok (value : α)
  | bad (issues : List Issue)

namespace Checked

variable {α β : Type}

def fail (f : Fault) : Checked α := bad [⟨[], f⟩]

def map (f : α → β) : Checked α → Checked β
  | ok a => ok (f a)
  | bad is => bad is

/-- Two readings side by side: the issues of both are kept. -/
def ap : Checked (α → β) → Checked α → Checked β
  | ok f, ok a => ok (f a)
  | ok _, bad is => bad is
  | bad is, ok _ => bad is
  | bad is, bad js => bad (is ++ js)

instance : Functor Checked := ⟨fun f c => c.map f, fun a c => c.map fun _ => a⟩

instance : Seq Checked := ⟨fun f c => ap f (c ())⟩

/-- A reading of a part, told from the whole. -/
def under (step : Step) : Checked α → Checked α
  | ok a => ok a
  | bad is => bad (is.map fun i => { i with path := step :: i.path })

def ensure (p : α → Bool) (f : Fault) : Checked α → Checked α
  | ok a => if p a then ok a else fail f
  | bad is => bad is

def string : Json → Checked String
  | .str s => ok s
  | _ => fail .notString

def stringOrNull : Json → Checked (Option String)
  | .null => ok none
  | .str s => ok (some s)
  | _ => fail .notString

def asciiDigit? (c : Char) : Option Nat :=
  if '0' ≤ c ∧ c ≤ '9' then some (c.toNat - 48) else none

/-- A whole number in quotes: blanks around it, a sign, and a fraction of zeros are allowed. -/
def intText (s : String) : Checked Int :=
  let cs := Digits.trim s.toList
  if cs.length > Digits.maxDigits then fail .intTooLong
  else
    let (whole, rest) := cs.span (· != '.')
    if (rest.drop 1).all (· == '0') then
      match Digits.signed? asciiDigit? whole with
      | some n => ok n
      | none => fail .notIntText
    else fail .notIntText

def int : Json → Checked Int
  | .int n => ok n
  | .bool b => ok (if b then 1 else 0)
  | .float x =>
    match x.whole with
    | .int n => ok n
    | .fractional => fail .fractional
    | .tooLarge => fail .intTooLong
    | .notFinite => fail .notFinite
  | .str s => intText s
  | _ => fail .notInt

def boolOfInt (n : Int) : Checked Bool :=
  if n = 0 then ok false else if n = 1 then ok true else fail .notBoolText

def bool : Json → Checked Bool
  | .bool b => ok b
  | .int n => boolOfInt n
  | .float x =>
    match x.whole with
    | .int n => boolOfInt n
    | _ => fail .notBool
  | .str s =>
    let word := s.map Char.toLower
    if ["0", "off", "f", "false", "n", "no"].contains word then ok false
    else if ["1", "on", "t", "true", "y", "yes"].contains word then ok true
    else fail .notBoolText
  | _ => fail .notBool

/-- The items of a list from the given index on. -/
def items (read : Json → Checked α) (i : Nat) : List Json → Checked (List α)
  | [] => ok []
  | v :: vs => ap (((read v).under (.index i)).map List.cons) (items read (i + 1) vs)

def list (read : Json → Checked α) : Json → Checked (List α)
  | .arr vs => items read 0 vs
  | _ => fail .notList

/-- One of a fixed set of words; `choices` tells them to the reader. -/
def among (ofName? : String → Option α) (choices : String) : Json → Checked α
  | .str s => (ofName? s).elim (fail (.notAmong choices)) ok
  | _ => fail (.notAmong choices)

/-- A field of an object; without a default it has to be there. -/
def field (v : Json) (name : String) (read : Json → Checked α) (default : Option α) : Checked α :=
  under (.field name) <|
    match v.get? name with
    | some part => read part
    | none => default.elim (fail .missing) ok

/-- An object; anything else is refused with the given fault. -/
def object (refusal : Fault) (read : Json → Checked α) (v : Json) : Checked α :=
  match v with
  | .obj _ => read v
  | _ => fail refusal

end Checked

end MarkupTally
