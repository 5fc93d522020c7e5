import MarkupTally.Node.Basic

/-! Depth-first walks in document order, steered by a visitor and run on an explicit stack. -/
namespace MarkupTally

/-- A node together with the place where it hangs. -/
structure Site where
  parent : Option Node
  /-- Position among the children of the parent; zero for the root. -/
  place : Nat
  node : Node

namespace Site

def root (n : Node) : Site := ⟨none, 0, n⟩

def children (s : Site) : List Site :=
  s.node.children.mapIdx fun i n => ⟨some s.node, i, n⟩

theorem map_node_children (s : Site) : s.children.map Site.node = s.node.children := by
  apply List.ext_getElem <;> simp [children]

theorem node_mem_children {s c : Site} (hc : c ∈ s.children) : c.node ∈ s.node.children := by
  rw [← map_node_children]
  exact List.mem_map_of_mem hc

theorem exists_child {s : Site} {n : Node} (hn : n ∈ s.node.children) :
    ∃ c ∈ s.children, c.node = n := by
  rw [← map_node_children] at hn
  exact List.mem_map.mp hn

end Site

/-- What a visitor wants done with the site it was shown. -/
inductive Visit where
  /-- Go on into the children. -/
  | follow
  /-- Report the site and go on into the children. -/
  | collect
  /-- Report the site and leave out everything below it. -/
  | collectPrune
  /-- Leave out the site and everything below it. -/
  | prune
  deriving DecidableEq, Repr

namespace Visit

def matched : Visit → Bool
  | follow | prune => false
  | collect | collectPrune => true

def descends : Visit → Bool
  | follow | collect => true
  | collectPrune | prune => false

def ofName? : String → Option Visit
  | "CONTINUE" => some follow
  | "MATCH" => some collect
  | "MATCH_PRUNE" => some collectPrune
  | "PRUNE" => some prune
  | _ => none

end Visit

namespace Walk

inductive Event where
  | visited (site : Site)
  | yielded (site : Site)

def Event.yielded? : Event → Option Site
  | visited _ => none
  | yielded s => some s

/-- The number of nodes that the sites on a stack can still bring. -/
def weight (stack : List Site) : Nat := Node.sizes (stack.map Site.node)

/-- The stack after its top site has been answered with `step`. -/
def rest (step : Visit) (s : Site) (stack : List Site) : List Site :=
  if step.descends then s.children ++ stack else stack

theorem weight_rest_lt (step : Visit) (s : Site) (stack : List Site) :
    weight (rest step s stack) < weight (s :: stack) := by
  have h := Node.size_eq s.node
  unfold rest weight
  split
  · simp only [List.map_append, Site.map_node_children, Node.sizes_append, List.map_cons,
      Node.sizes]
    omega
  · simp only [List.map_cons, Node.sizes]
    omega

/-- Everything that happens on a walk, latest first, in front of `past`. -/
def traceOnto (visit : Site → Visit) (past : List Event) : List Site → List Event
  | [] => past
  | s :: stack =>
    let step := visit s
    let seen := Event.visited s :: past
    traceOnto visit (if step.matched then Event.yielded s :: seen else seen) (rest step s stack)
termination_by stack => weight stack
decreasing_by exact weight_rest_lt _ s stack

/-- Everything that happens on a walk: each site shown to the visitor, and each site reported. -/
def trace (visit : Site → Visit) (start : List Site) : List Event :=
  (traceOnto visit [] start).reverse

/-- The sites that a walk reports. -/
def found (visit : Site → Visit) (start : List Site) : List Site :=
  (trace visit start).filterMap Event.yielded?

/-- The first site that a walk reports; the walk stops there. -/
def first? (visit : Site → Visit) : List Site → Option Site
  | [] => none
  | s :: stack =>
    let step := visit s
    if step.matched then some s else first? visit (rest step s stack)
termination_by stack => weight stack
decreasing_by exact weight_rest_lt _ s stack

/-- What happens while at most `limit` reports are asked for: the events up to the last report
given out, and whether one more report was asked for than there were. -/
def upTo : (limit : Nat) → List Event → List Event × Bool
  | 0, _ => ([], false)
  | _ + 1, [] => ([], true)
  | n + 1, .visited s :: es =>
    let (shown, exhausted) := upTo (n + 1) es
    (.visited s :: shown, exhausted)
  | n + 1, .yielded s :: es =>
    let (shown, exhausted) := upTo n es
    (.yielded s :: shown, exhausted)

end Walk

end MarkupTally
