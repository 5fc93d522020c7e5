import Mathlib.Data.List.Forall2
import MarkupTally.Proofs.Places

/-! Trees with some of their nodes left out. What stays keeps its order and moves to the left; the
children that stay are paired with those that they become. -/
namespace MarkupTally

/-- A set of addresses: the nodes to leave out. -/
abbrev Removal := Address → Bool

namespace Removal

/-- What is left out below the child at a place. -/
def below (gone : Removal) (i : Nat) : Removal := fun a => gone (i :: a)

/-- What is left out below an address. -/
def under (gone : Removal) (a : Address) : Removal := fun b => gone (a ++ b)

/-- The number of children in front of a place that stay. -/
def rank (gone : Removal) (i : Nat) : Nat := (List.range i).countP fun j => !gone [j]

/-- Where a node that stays stands afterwards. -/
def moved : Removal → Address → Address
  | _, [] => []
  | gone, i :: a => gone.rank i :: (gone.below i).moved a

variable (gone : Removal)

theorem rank_succ (i : Nat) :
    gone.rank (i + 1) = gone.rank i + if gone [i] then 0 else 1 := by
  simp only [rank, List.range_succ, List.countP_append, List.countP_singleton]
  cases gone [i] <;> rfl

theorem rank_le {i j : Nat} (h : i ≤ j) : gone.rank i ≤ gone.rank j :=
  (List.range_sublist.mpr h).countP_le

/-- Of two places whose nodes stay, the one further left stays further left. -/
theorem rank_lt {i j : Nat} (hi : gone [i] = false) (h : i < j) : gone.rank i < gone.rank j := by
  have hle := gone.rank_le (Nat.succ_le_of_lt h)
  rw [rank_succ, hi] at hle
  exact Nat.lt_of_succ_le hle

theorem rank_inj {i j : Nat} (hi : gone [i] = false) (hj : gone [j] = false) :
    gone.rank i = gone.rank j ↔ i = j := by
  constructor
  · intro h
    rcases Nat.lt_trichotomy i j with hlt | heq | hlt
    · have := gone.rank_lt hi hlt
      omega
    · exact heq
    · have := gone.rank_lt hj hlt
      omega
  · intro h
    rw [h]

theorem moved_append (a b : Address) :
    gone.moved (a ++ b) = gone.moved a ++ (gone.under a).moved b := by
  induction a generalizing gone with
  | nil => rfl
  | cons i a ih => exact congrArg (gone.rank i :: ·) (ih (gone.below i))

end Removal

namespace Node

mutual

/-- The tree without the nodes at the given addresses; the root stays in any case. -/
def without (gone : Removal) : Node → Node
  | mk info cs => mk info (withoutRow gone 0 cs)

/-- The row without its nodes at the given places, counted from `i`, and without what is to be left
out below the others. -/
def withoutRow (gone : Removal) (i : Nat) : List Node → List Node
  | [] => []
  | c :: cs =>
    if gone [i] then withoutRow gone (i + 1) cs
    else without (gone.below i) c :: withoutRow gone (i + 1) cs

end

variable (gone : Removal)

@[simp] theorem info_without (n : Node) : (n.without gone).info = n.info := by
  cases n
  simp [without, info]

theorem children_without (n : Node) :
    (n.without gone).children = withoutRow gone 0 n.children := by
  cases n
  simp [without, children]

/-- The nodes of a row that stay, with their places, and what becomes of them. -/
theorem forall₂_withoutRow (cs : List Node) (i k : Nat) :
    List.Forall₂
      (fun p q => q.1 = p.1.without (gone.below p.2) ∧ q.2 + gone.rank i = k + gone.rank p.2)
      ((cs.zipIdx i).filter fun p => !gone [p.2]) ((withoutRow gone i cs).zipIdx k) := by
  induction cs generalizing i k with
  | nil => exact .nil
  | cons c cs ih =>
    have hrank := gone.rank_succ i
    rw [List.zipIdx_cons, List.filter_cons, withoutRow]
    cases hgone : gone [i] with
    | true =>
      rw [hgone] at hrank
      simpa [hrank] using ih (i + 1) k
    | false =>
      rw [hgone] at hrank
      refine List.Forall₂.cons ⟨rfl, rfl⟩ ((ih (i + 1) (k + 1)).imp ?_)
      rintro p q ⟨hnode, hplace⟩
      refine ⟨hnode, ?_⟩
      simp only [Bool.false_eq_true, if_false] at hrank
      omega

end Node

/-- The node is a comment that has no children and no role. -/
def Node.LooseComment (n : Node) : Prop :=
  n.kind = "comment" ∧ n.children = [] ∧ n.info.field = none

namespace Site

/-- What is left out below a site are loose comments. -/
def OnlyComments (gone : Removal) (s : Site) : Prop :=
  ∀ a t, a ≠ [] → s.at? a = some t → gone a = true → t.node.LooseComment

/-- The second site holds what stays of the first one. -/
structure Trims (gone : Removal) (s s' : Site) : Prop where
  node : s'.node = s.node.without gone
  comments : s.OnlyComments gone

/-- A child of the first site stays, and becomes this child of the second one. -/
structure Stays (gone : Removal) (s s' c c' : Site) : Prop where
  mem : c ∈ s.children
  mem' : c' ∈ s'.children
  kept : gone [c.place] = false
  place : c'.place = gone.rank c.place
  trims : Trims (gone.below c.place) c c'

variable {gone : Removal} {s s' c c' : Site}

theorem at?_child (hc : c ∈ s.children) (a : Address) : s.at? (c.place :: a) = c.at? a := by
  rw [at?, getElem?_children_eq_some_iff.mpr ⟨hc, rfl⟩]
  rfl

theorem OnlyComments.child (h : s.OnlyComments gone) (hc : c ∈ s.children) :
    c.OnlyComments (gone.below c.place) := by
  intro a t _ ht hgone
  rw [← at?_child hc] at ht
  exact h (c.place :: a) t (List.cons_ne_nil _ _) ht hgone

theorem OnlyComments.loose (h : s.OnlyComments gone) (hc : c ∈ s.children)
    (hgone : gone [c.place] = true) : c.node.LooseComment :=
  h [c.place] c (List.cons_ne_nil _ _) (at?_child hc []) hgone

theorem Trims.info (h : Trims gone s s') : s'.node.info = s.node.info := by
  rw [h.node, Node.info_without]

theorem children_eq_map_zipIdx (s : Site) :
    s.children = s.node.children.zipIdx.map fun p => ⟨some s.node, p.2, p.1⟩ := by
  rw [children, List.mapIdx_eq_zipIdx_map]

/-- The children that stay, in their order, become the children of the second site. -/
theorem Trims.children (h : Trims gone s s') :
    List.Forall₂ (Stays gone s s') (s.children.filter fun c => !gone [c.place]) s'.children := by
  have hrow : List.Forall₂
      (fun c c' : Site => c'.node = c.node.without (gone.below c.place) ∧
        c'.place = gone.rank c.place)
      (s.children.filter fun c => !gone [c.place]) s'.children := by
    rw [children_eq_map_zipIdx s, children_eq_map_zipIdx s', h.node, Node.children_without,
      List.filter_map, List.forall₂_map_left_iff, List.forall₂_map_right_iff]
    refine (Node.forall₂_withoutRow gone s.node.children 0 0).imp ?_
    rintro p q ⟨hnode, hplace⟩
    refine ⟨hnode, ?_⟩
    have hzero : gone.rank 0 = 0 := rfl
    show q.2 = gone.rank p.2
    omega
  rw [List.forall₂_iff_zip] at hrow ⊢
  refine ⟨hrow.1, fun {c c'} hcc => ?_⟩
  obtain ⟨hc, hc'⟩ := List.of_mem_zip hcc
  obtain ⟨hmem, hkept⟩ := List.mem_filter.mp hc
  obtain ⟨hnode, hplace⟩ := hrow.2 hcc
  exact ⟨hmem, hc', by simpa using hkept, hplace, hnode, h.comments.child hmem⟩

theorem exists_of_forall₂ {R : Site → Site → Prop} {cs cs' : List Site}
    (h : List.Forall₂ R cs cs') (hc : c ∈ cs) : ∃ c', R c c' := by
  induction h with
  | nil => cases hc
  | cons hcc _ ih =>
    rcases List.mem_cons.mp hc with rfl | hc
    · exact ⟨_, hcc⟩
    · exact ih hc

theorem Trims.exists_after (h : Trims gone s s') (hc : c ∈ s.children)
    (hn : ¬c.node.LooseComment) : ∃ c', Stays gone s s' c c' := by
  have hkept : gone [c.place] = false := by
    by_contra hgone
    exact hn (h.comments.loose hc (by simpa using hgone))
  have hmem : c ∈ s.children.filter fun c => !gone [c.place] := by simp [hc, hkept]
  exact exists_of_forall₂ h.children hmem

theorem Trims.exists_before (h : Trims gone s s') (hc' : c' ∈ s'.children) :
    ∃ c, Stays gone s s' c c' :=
  exists_of_forall₂ h.children.flip hc'

/-- Children picked by a property that no loose comment has are picked alike. -/
theorem Trims.filter (h : Trims gone s s') {q : Node.Info → Bool}
    (hq : ∀ n : Node, n.LooseComment → q n.info = false) :
    List.Forall₂ (Stays gone s s') (s.children.filter fun c => q c.node.info)
      (s'.children.filter fun c => q c.node.info) := by
  have hpicked : (s.children.filter fun c => !gone [c.place]).filter (fun c => q c.node.info) =
      s.children.filter fun c => q c.node.info := by
    rw [List.filter_filter]
    refine List.filter_congr fun c hc => ?_
    cases hgone : gone [c.place] with
    | false => simp
    | true => simp [hq c.node (h.comments.loose hc hgone)]
  rw [← hpicked]
  refine List.rel_filter (fun c c' hcc => ?_) h.children
  show q c.node.info = true ↔ q c'.node.info = true
  rw [hcc.trims.info]

theorem rel_head? {R : Site → Site → Prop} {cs cs' : List Site} (h : List.Forall₂ R cs cs') :
    Option.Rel R cs.head? cs'.head? := by
  cases h with
  | nil => exact .none
  | cons hcc _ => exact .some hcc

theorem rel_cases {α β : Type} {R : α → β → Prop} {x : Option α} {y : Option β}
    (h : Option.Rel R x y) :
    (x = none ∧ y = none) ∨ ∃ a b, x = some a ∧ y = some b ∧ R a b := by
  cases h with
  | none => exact .inl ⟨rfl, rfl⟩
  | some hab => exact .inr ⟨_, _, rfl, rfl, hab⟩

/-- The first child with such a property becomes the first child with it. -/
theorem Trims.find? (h : Trims gone s s') {q : Node.Info → Bool}
    (hq : ∀ n : Node, n.LooseComment → q n.info = false) :
    Option.Rel (Stays gone s s') (s.children.find? fun c => q c.node.info)
      (s'.children.find? fun c => q c.node.info) := by
  rw [← List.head?_filter, ← List.head?_filter]
  exact rel_head? (h.filter hq)

end Site

end MarkupTally
