import MarkupTally.Text.Utf8

/-! Nodes of a parsed source file: reading a tree from its nodes in document order, the part of the
source that a node covers, and the character position where it begins. -/
namespace MarkupTally

/-- What is known of a node apart from its children. Offsets count bytes of the source. -/
structure Node.Info where
  /-- A number by which answers refer to the node. -/
  id : Nat
  kind : String
  start : Nat
  stop : Nat
  /-- The line of the first byte, from zero. -/
  row : Nat
  /-- The number of bytes between the start of that line and the first byte. -/
  column : Nat
  named : Bool := true
  /-- The node was invented by the parser to go on after an error. -/
  missing : Bool := false
  /-- An error is reported at the node or below it. -/
  faulty : Bool := false
  hasText : Bool := true
  /-- The role that the node has among its siblings. -/
  field : Option String := none
  deriving DecidableEq, Repr

inductive Node where
  | mk (info : Node.Info) (children : List Node)

namespace Node

def info : Node → Info
  | mk i _ => i

def children : Node → List Node
  | mk _ cs => cs

def kind (n : Node) : String := n.info.kind

mutual

/-- The number of nodes of a tree. -/
def size : Node → Nat
  | mk _ cs => sizes cs + 1

/-- The number of nodes of a row of trees. -/
def sizes : List Node → Nat
  | [] => 0
  | n :: ns => size n + sizes ns

end

theorem size_eq (n : Node) : n.size = sizes n.children + 1 := by
  cases n
  simp [size, children]

theorem sizes_append (ns ms : List Node) : sizes (ns ++ ms) = sizes ns + sizes ms := by
  induction ns with
  | nil => simp [sizes]
  | cons n ns ih => simp [sizes, ih, Nat.add_assoc]

/-- Puts a node with its number of children in front of a row of finished trees: the first trees
of the row become its children. -/
def plant (entry : Info × Nat) (row : List Node) : List Node :=
  mk entry.1 (row.take entry.2) :: row.drop entry.2

/-- The trees written as a list of nodes in document order, each with its number of children. -/
def ofPreorder (entries : List (Info × Nat)) : List Node :=
  entries.foldr plant []

/-- The first child in the given role. -/
def child? (n : Node) (field : String) : Option Node :=
  n.children.find? fun c => c.info.field == some field

def namedChildren (n : Node) : List Node :=
  n.children.filter fun c => c.info.named

/-- The source text of a node; a node without text has the empty one. -/
def text (source : List UInt8) (n : Node) : Except Utf8.Fault String :=
  if n.info.hasText then
    (Utf8.decode (Utf8.slice source n.info.start n.info.stop)).map String.ofList
  else .ok ""

/-- The line of a node, from one. -/
def line (n : Node) : Nat := n.info.row + 1

/-- The character position of a node in its line, from one. -/
def charColumn (source : List UInt8) (n : Node) : Nat :=
  Utf8.count (Utf8.slice source ((n.info.start : Int) - n.info.column) n.info.start) + 1

end Node

end MarkupTally
