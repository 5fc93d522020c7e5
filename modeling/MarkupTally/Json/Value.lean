import MarkupTally.Number.Binary64

/-! Values of the JSON data format. -/
namespace MarkupTally

/-- Whole numbers of any size are kept apart from numbers written with a fraction or an exponent.
The fields of an object are in the order in which they first appeared. -/
inductive Json where
  | null
  | bool (b : Bool)
  | int (n : Int)
  | float (x : Binary64)
  | str (s : String)
  | arr (items : List Json)
  | obj (fields : List (String × Json))

namespace Json

def get? (v : Json) (key : String) : Option Json :=
  match v with
  | obj fields => (fields.find? fun f => f.1 == key).map Prod.snd
  | _ => none

/-- Gives a field a value; a field that is already there keeps its place. -/
def put (fields : List (String × Json)) (key : String) (v : Json) : List (String × Json) :=
  if fields.any fun f => f.1 == key then fields.map fun f => if f.1 == key then (key, v) else f
  else fields ++ [(key, v)]

def strs (items : List String) : Json := arr (items.map str)

def ofOption (s : Option String) : Json := s.elim null str

def nat (n : Nat) : Json := int n

mutual

/-- The whole numbers in a value, in the order in which its text shows them. -/
def ints : Json → List Int
  | int n => [n]
  | arr items => itemInts items
  | obj fields => fieldInts fields
  | _ => []

def itemInts : List Json → List Int
  | [] => []
  | v :: vs => ints v ++ itemInts vs

def fieldInts : List (String × Json) → List Int
  | [] => []
  | (_, v) :: fs => ints v ++ fieldInts fs

end

end Json

end MarkupTally
