import Mathlib.Data.List.Basic
import MarkupTally.Proofs.Reach

/-! The order of a walk. The stack always holds the part of the plain recursive pre-order that is
still to come, so a walk shows the sites of a tree in document order, each of them once, and leaves
out exactly what is below a site that its visitor did not want entered. -/
namespace MarkupTally

theorem Node.size_le_sizes {n : Node} {ns : List Node} (hn : n ∈ ns) : n.size ≤ sizes ns := by
  induction ns with
  | nil => cases hn
  | cons m ns ih =>
    rw [sizes]
    rcases List.mem_cons.mp hn with rfl | hn
    · omega
    · have := ih hn
      omega

/-- Where a site stands below another one: the child to take at each step down. -/
abbrev Address := List Nat

namespace Site

theorem place_of_getElem? {s c : Site} {i : Nat} (h : s.children[i]? = some c) : c.place = i := by
  rw [children, List.getElem?_mapIdx] at h
  obtain ⟨n, -, rfl⟩ := Option.map_eq_some_iff.mp h
  rfl

theorem getElem?_children_eq_some_iff {s c : Site} {i : Nat} :
    s.children[i]? = some c ↔ c ∈ s.children ∧ c.place = i := by
  constructor
  · intro h
    exact ⟨List.mem_of_getElem? h, place_of_getElem? h⟩
  · rintro ⟨hc, rfl⟩
    obtain ⟨i, hi⟩ := List.mem_iff_getElem?.mp hc
    rw [place_of_getElem? hi, hi]

theorem size_lt_of_mem_children {s c : Site} (hc : c ∈ s.children) :
    c.node.size < s.node.size := by
  have hle := Node.size_le_sizes (node_mem_children hc)
  rw [Node.size_eq s.node]
  omega

/-- What holds of a site once it holds of its children holds of every site. -/
theorem below_induction {P : Site → Prop} (h : ∀ s, (∀ c ∈ s.children, P c) → P s) (s : Site) :
    P s :=
  h s fun c _ => below_induction h c
termination_by s.node.size
decreasing_by exact size_lt_of_mem_children ‹_›

theorem pairwise_place_children (s : Site) :
    s.children.Pairwise fun c d => c.place < d.place := by
  rw [List.pairwise_iff_getElem]
  intro i j hi hj hij
  simpa [children] using hij

def at? : Site → Address → Option Site
  | s, [] => some s
  | s, i :: a => s.children[i]?.bind fun c => at? c a

theorem at?_cons_eq_some_iff {s t : Site} {i : Nat} {a : Address} :
    s.at? (i :: a) = some t ↔ ∃ c, s.children[i]? = some c ∧ c.at? a = some t := by
  rw [at?, Option.bind_eq_some_iff]

/-- `t` stands on the way down from `s` to the address, before its end. -/
def Above (s : Site) (a : Address) (t : Site) : Prop := ∃ b, b <+: a ∧ b ≠ a ∧ s.at? b = some t

theorem not_above_nil (s t : Site) : ¬s.Above [] t := by
  rintro ⟨b, hb, hne, -⟩
  exact hne (List.prefix_nil.mp hb)

theorem above_cons_iff {s t : Site} {i : Nat} {a : Address} :
    s.Above (i :: a) t ↔ t = s ∨ ∃ c, s.children[i]? = some c ∧ c.Above a t := by
  constructor
  · rintro ⟨b, hb, hne, ht⟩
    rcases List.prefix_cons_iff.mp hb with rfl | ⟨b', rfl, hb'⟩
    · exact .inl (Option.some.inj ht).symm
    · obtain ⟨c, hc, ht⟩ := at?_cons_eq_some_iff.mp ht
      have hne' : b' ≠ a := fun h => hne (h ▸ rfl)
      exact .inr ⟨c, hc, b', hb', hne', ht⟩
  · rintro (rfl | ⟨c, hc, b, hb, hne, ht⟩)
    · exact ⟨[], List.nil_prefix, (List.cons_ne_nil _ _).symm, rfl⟩
    · have hprefix : i :: b <+: i :: a := List.cons_prefix_cons.mpr ⟨rfl, hb⟩
      have hne : i :: b ≠ i :: a := fun h => hne (List.cons.inj h).2
      exact ⟨i :: b, hprefix, hne, at?_cons_eq_some_iff.mpr ⟨c, hc, ht⟩⟩

/-- The list holds what satisfies `P` at and below `s`, one site for each address, in document
order: a parent stands before its children, and children stand from left to right. -/
def Lists (s : Site) (P : Address → Site → Prop) (sites : List Site) : Prop :=
  ∃ placed : List (Address × Site), placed.map Prod.snd = sites ∧
    placed.Pairwise (fun p q => p.1 < q.1) ∧ ∀ a t, (a, t) ∈ placed ↔ s.at? a = some t ∧ P a t

theorem Lists.filter {s : Site} {P : Address → Site → Prop} {sites : List Site}
    (h : s.Lists P sites) (keep : Site → Bool) :
    s.Lists (fun a t => P a t ∧ keep t = true) (sites.filter keep) := by
  obtain ⟨placed, rfl, horder, hmem⟩ := h
  refine ⟨placed.filter fun p => keep p.2, ?_, horder.filter _, fun a t => ?_⟩
  · rw [List.filter_map]
    rfl
  · rw [List.mem_filter, hmem, and_assoc]

theorem Lists.congr {s : Site} {P Q : Address → Site → Prop} {sites : List Site}
    (h : s.Lists P sites) (hPQ : ∀ a t, P a t ↔ Q a t) : s.Lists Q sites := by
  obtain ⟨placed, hsites, horder, hmem⟩ := h
  refine ⟨placed, hsites, horder, fun a t => ?_⟩
  rw [hmem, hPQ]

end Site

namespace Walk

open Site

variable {visit : Site → Visit}

/-- The sites shown on a walk, by plain recursion. -/
def preorder (visit : Site → Visit) (s : Site) : List Site :=
  s :: if (visit s).descends then s.children.attach.flatMap fun c => preorder visit c.1 else []
termination_by s.node.size
decreasing_by exact size_lt_of_mem_children c.2

theorem preorder_eq (visit : Site → Visit) (s : Site) :
    preorder visit s =
      s :: if (visit s).descends then s.children.flatMap (preorder visit) else [] := by
  rw [preorder]
  simp [List.flatMap_subtype]

/-- The sites shown on a walk, with their addresses. -/
def placed (visit : Site → Visit) (s : Site) : List (Address × Site) :=
  ([], s) ::
    if (visit s).descends then
      s.children.attach.flatMap fun c => (placed visit c.1).map fun p => (c.1.place :: p.1, p.2)
    else []
termination_by s.node.size
decreasing_by exact size_lt_of_mem_children c.2

theorem placed_eq (visit : Site → Visit) (s : Site) :
    placed visit s =
      ([], s) :: if (visit s).descends then
        s.children.flatMap fun c => (placed visit c).map fun p => (c.place :: p.1, p.2)
      else [] := by
  rw [placed]
  simp [List.flatMap_subtype]

theorem map_snd_placed (s : Site) : (placed visit s).map Prod.snd = preorder visit s := by
  induction s using below_induction with
  | h s ih =>
    rw [placed_eq, preorder_eq]
    split
    · have hmap : ∀ c ∈ s.children,
          ((placed visit c).map fun p => (c.place :: p.1, p.2)).map Prod.snd =
            preorder visit c := by
        intro c hc
        rw [List.map_map, ← ih c hc]
        rfl
      rw [List.map_cons, List.map_flatMap, List.flatMap_congr hmap]
    · rfl

theorem pairwise_placed (s : Site) : (placed visit s).Pairwise fun p q => p.1 < q.1 := by
  induction s using below_induction with
  | h s ih =>
    rw [placed_eq, List.pairwise_cons]
    split
    · constructor
      · intro p hp
        obtain ⟨c, -, hp⟩ := List.mem_flatMap.mp hp
        obtain ⟨q, -, rfl⟩ := List.mem_map.mp hp
        exact List.nil_lt_cons _ _
      · rw [List.pairwise_flatMap]
        refine ⟨fun c hc => ?_, s.pairwise_place_children.imp fun hcd => ?_⟩
        · -- below one child the addresses begin with the same step
          rw [List.pairwise_map]
          exact (ih c hc).imp fun h => List.cons_lt_cons_iff.mpr (.inr ⟨rfl, h⟩)
        · -- an address below a child further left is smaller by its first step
          intro p hp q hq
          obtain ⟨p, -, rfl⟩ := List.mem_map.mp hp
          obtain ⟨q, -, rfl⟩ := List.mem_map.mp hq
          exact List.cons_lt_cons_iff.mpr (.inl hcd)
    · simp

theorem cons_mem_placed_iff {s t : Site} {i : Nat} {a : Address} :
    (i :: a, t) ∈ placed visit s ↔
      (visit s).descends = true ∧ ∃ c, s.children[i]? = some c ∧ (a, t) ∈ placed visit c := by
  rw [placed_eq]
  simp only [getElem?_children_eq_some_iff]
  split
  · rename_i hs
    simp only [hs, true_and, List.mem_cons, Prod.mk.injEq, reduceCtorEq, false_and, false_or,
      List.mem_flatMap, List.mem_map, Prod.exists, List.cons.injEq]
    constructor
    · rintro ⟨c, hc, b, u, hu, ⟨hi, rfl⟩, rfl⟩
      exact ⟨c, ⟨hc, hi⟩, hu⟩
    · rintro ⟨c, ⟨hc, hi⟩, ht⟩
      exact ⟨c, hc, a, t, ht, ⟨hi, rfl⟩, rfl⟩
  · rename_i hs
    simp [hs]

theorem mem_placed_iff {s : Site} {a : Address} {t : Site} :
    (a, t) ∈ placed visit s ↔
      s.at? a = some t ∧ ∀ u, s.Above a u → (visit u).descends = true := by
  induction a generalizing s with
  | nil =>
    have hnil : ([], t) ∈ placed visit s ↔ t = s := by
      rw [placed_eq]
      split <;> simp
    rw [hnil, at?]
    exact ⟨fun h => ⟨h ▸ rfl, fun u hu => absurd hu (not_above_nil s u)⟩,
      fun h => (Option.some.inj h.1).symm⟩
  | cons i a ih =>
    simp only [cons_mem_placed_iff, ih, at?_cons_eq_some_iff, above_cons_iff]
    constructor
    · rintro ⟨hs, c, hc, ht, habove⟩
      refine ⟨⟨c, hc, ht⟩, ?_⟩
      rintro u (rfl | ⟨d, hd, hu⟩)
      · exact hs
      · cases hc.symm.trans hd
        exact habove u hu
    · rintro ⟨⟨c, hc, ht⟩, habove⟩
      exact ⟨habove s (.inl rfl), c, hc, ht, fun u hu => habove u (.inr ⟨c, hc, hu⟩)⟩

/-- The recursion shows a site for each address such that the visitor wanted everything above it
entered. -/
theorem lists_preorder (visit : Site → Visit) (s : Site) :
    s.Lists (fun a _ => ∀ u, s.Above a u → (visit u).descends = true) (preorder visit s) :=
  ⟨placed visit s, map_snd_placed s, pairwise_placed s, fun _ _ => mem_placed_iff⟩

/-- What a walk has still to show when it has this stack. -/
def remaining (visit : Site → Visit) (stack : List Site) : List Site :=
  stack.flatMap (preorder visit)

/-- One turn of the loop shows the first of the sites that remain, and the others remain. -/
theorem remaining_cons (s : Site) (stack : List Site) :
    remaining visit (s :: stack) = s :: remaining visit (rest (visit s) s stack) := by
  unfold remaining rest
  rw [List.flatMap_cons, preorder_eq]
  split <;> simp

/-- What a turn of the loop makes of the new stack's fact, the loop makes of every stack. -/
theorem loop_induction (visit : Site → Visit) {P : List Site → Prop} (empty : P [])
    (turn : ∀ s stack, P (rest (visit s) s stack) → P (s :: stack)) : (stack : List Site) → P stack
  | [] => empty
  | s :: stack => turn s stack (loop_induction visit empty turn (rest (visit s) s stack))
termination_by stack => weight stack
decreasing_by exact weight_rest_lt _ s stack

theorem length_remaining_le (visit : Site → Visit) (stack : List Site) :
    (remaining visit stack).length ≤ weight stack := by
  induction stack using loop_induction visit with
  | empty => simp [remaining]
  | turn s stack ih =>
    have hlt := weight_rest_lt (visit s) s stack
    rw [remaining_cons, List.length_cons]
    omega

/-- What happens in one turn of the loop. -/
def turn (visit : Site → Visit) (s : Site) : List Event :=
  .visited s :: if (visit s).matched then [.yielded s] else []

theorem trace_cons (s : Site) (stack : List Site) :
    trace visit (s :: stack) = turn visit s ++ trace visit (rest (visit s) s stack) := by
  unfold trace turn
  rw [traceOnto, traceOnto_eq_append, List.reverse_append]
  split <;> simp

theorem trace_eq_flatMap (visit : Site → Visit) (stack : List Site) :
    trace visit stack = (remaining visit stack).flatMap (turn visit) := by
  induction stack using loop_induction visit with
  | empty => simp [trace, traceOnto, remaining]
  | turn s stack ih => rw [trace_cons, ih, remaining_cons, List.flatMap_cons]

theorem found_eq_filter (visit : Site → Visit) (stack : List Site) :
    found visit stack = (remaining visit stack).filter fun s => (visit s).matched := by
  induction stack using loop_induction visit with
  | empty => simp [remaining]
  | turn s stack ih =>
    rw [found_cons, ih, remaining_cons, List.filter_cons]
    split <;> rfl

theorem first?_eq_find? (visit : Site → Visit) (stack : List Site) :
    first? visit stack = (remaining visit stack).find? fun s => (visit s).matched := by
  induction stack using loop_induction visit with
  | empty => simp [first?, remaining]
  | turn s stack ih =>
    rw [first?, remaining_cons, List.find?_cons]
    by_cases hm : (visit s).matched = true
    · simp only [hm, if_true]
    · simp only [hm, if_false, ih, Bool.false_eq_true]

/-- The loop empties a stack in so many turns, and these events happen meanwhile. -/
inductive Empties (visit : Site → Visit) : List Site → Nat → List Event → Prop where
  | done : Empties visit [] 0 []
  | again {s : Site} {stack : List Site} {turns : Nat} {events : List Event}
      (h : Empties visit (rest (visit s) s stack) turns events) :
      Empties visit (s :: stack) (turns + 1) (turn visit s ++ events)

theorem empties_trace (visit : Site → Visit) (stack : List Site) :
    Empties visit stack (remaining visit stack).length (trace visit stack) := by
  induction stack using loop_induction visit with
  | empty => simpa [remaining, trace, traceOnto] using Empties.done
  | turn s stack ih =>
    rw [trace_cons, remaining_cons, List.length_cons]
    exact .again ih

@[simp] theorem remaining_singleton (s : Site) : remaining visit [s] = preorder visit s := by
  simp [remaining]

/-- A walk of a whole tree is the plain recursion: it ends after one turn for each site that the
recursion shows, shows these sites and reports those that match, in document order, and a walk that
is asked for one report gives the first of them. A site is shown exactly if the visitor wanted
everything above it entered. -/
theorem trace_eq_preorder (visit : Site → Visit) (root : Node) :
    let start := Site.root root
    let shown := preorder visit start
    Empties visit [start] shown.length (trace visit [start]) ∧ shown.length ≤ root.size ∧
    trace visit [start] = shown.flatMap (turn visit) ∧
    start.Lists (fun a _ => ∀ u, start.Above a u → (visit u).descends = true) shown ∧
    found visit [start] = shown.filter (fun t => (visit t).matched) ∧
    start.Lists (fun a t => (∀ u, start.Above a u → (visit u).descends = true) ∧
      (visit t).matched = true) (found visit [start]) ∧
    first? visit [start] = shown.find? (fun t => (visit t).matched) := by
  intro start shown
  have hremaining : remaining visit [start] = shown := remaining_singleton start
  have hfound := found_eq_filter visit [start]
  have hlists := lists_preorder visit start
  rw [hremaining] at hfound
  refine ⟨hremaining ▸ empties_trace visit [start], ?_, hremaining ▸ trace_eq_flatMap visit [start],
    hlists, hfound, hfound ▸ hlists.filter _, hremaining ▸ first?_eq_find? visit [start]⟩
  have hle := length_remaining_le visit [start]
  rw [hremaining] at hle
  simpa [weight, Node.sizes, start, Site.root] using hle

end Walk

end MarkupTally
