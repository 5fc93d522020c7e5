import MarkupTally.Proofs.Places

/-! A part of a tree, counted by itself. A walk goes through everything below a site in one piece,
and what it meets there depends on the site only; so the functions of a part are a block of the
enumeration of the whole, and they are judged alike. Only the name of the function at the very top
of the part can come from its surroundings. -/
namespace MarkupTally

namespace Walk

open Site

variable {visit : Site → Visit}

/-- What a walk meets below one child of an entered site stands between what it meets at the site
and below the children further left, and what it meets below the children further right. -/
theorem exists_child_block {s c : Site} {i : Nat} (hs : (visit s).descends = true)
    (hc : s.children[i]? = some c) :
    ∃ before after, placed visit s =
        before ++ (placed visit c).map (fun p => (i :: p.1, p.2)) ++ after ∧
      ∀ p ∈ before ++ after, p.1.head? ≠ some i := by
  obtain ⟨hmem, hplace⟩ := getElem?_children_eq_some_iff.mp hc
  obtain ⟨left, right, hchildren⟩ := List.append_of_mem hmem
  have horder := s.pairwise_place_children
  rw [hchildren, List.pairwise_append, List.pairwise_cons] at horder
  obtain ⟨-, ⟨hright, -⟩, hleft⟩ := horder
  have hothers : ∀ d ∈ left ++ right, d.place ≠ i := by
    intro d hd
    rcases List.mem_append.mp hd with hd | hd
    · have hlt := hleft d hd c List.mem_cons_self
      omega
    · have hlt := hright d hd
      omega
  let below (d : Site) := (placed visit d).map fun p => (d.place :: p.1, p.2)
  have hbelow : ∀ p ∈ left.flatMap below ++ right.flatMap below, p.1.head? ≠ some i := by
    intro p hp
    rw [← List.flatMap_append] at hp
    obtain ⟨d, hd, hp⟩ := List.mem_flatMap.mp hp
    obtain ⟨q, -, rfl⟩ := List.mem_map.mp hp
    simpa using hothers d hd
  refine ⟨([], s) :: left.flatMap below, right.flatMap below, ?_, ?_⟩
  · rw [placed_eq, if_pos hs, hchildren, List.flatMap_append, List.flatMap_cons, hplace]
    simp [below]
  · intro p hp
    rcases List.mem_cons.mp hp with rfl | hp
    · simp
    · exact hbelow p hp

/-- A walk that enters everything above a site meets what is at and below the site in one piece, and
a walk that does not enter everything above it meets none of that. -/
theorem exists_block (visit : Site → Visit) {s t : Site} {a : Address} (ht : s.at? a = some t) :
    ∃ before block after, placed visit s = before ++ block ++ after ∧
      (∀ p ∈ before ++ after, ¬a <+: p.1) ∧
      ((∀ u, s.Above a u → (visit u).descends = true) →
        block = (placed visit t).map fun p => (a ++ p.1, p.2)) ∧
      ((∃ u, s.Above a u ∧ (visit u).descends = false) → block = []) := by
  induction a generalizing s with
  | nil =>
    cases ht
    refine ⟨[], placed visit t, [], by simp, by simp, by simp, ?_⟩
    intro h
    obtain ⟨u, hu, -⟩ := h
    exact absurd hu (not_above_nil t u)
  | cons i a ih =>
    obtain ⟨c, hc, ht⟩ := at?_cons_eq_some_iff.mp ht
    cases hs : (visit s).descends with
    | false =>
      have hplaced : placed visit s = [([], s)] := by simp [placed_eq, hs]
      refine ⟨[([], s)], [], [], hplaced, by simp, ?_, fun _ => rfl⟩
      intro hall
      rw [hall s (above_cons_iff.mpr (.inl rfl))] at hs
      cases hs
    | true =>
      obtain ⟨left, right, hplaced, hsides⟩ := exists_child_block hs hc
      obtain ⟨before, block, after, hblock, houtside, hentered, hleftOut⟩ := ih ht
      let step (p : Address × Site) : Address × Site := (i :: p.1, p.2)
      refine ⟨left ++ before.map step, block.map step, after.map step ++ right, ?_, ?_, ?_, ?_⟩
      · rw [hplaced, hblock]
        simp [step]
      · -- an address outside the block leaves the way down at the first step or below the child
        intro p hp hprefix
        have hcases : p ∈ left ++ right ∨ p ∈ (before ++ after).map step := by
          simp only [List.mem_append, List.map_append] at hp ⊢
          tauto
        rcases hcases with hp | hp
        · obtain ⟨rest, hrest⟩ := hprefix
          exact hsides p hp (by rw [← hrest]; rfl)
        · obtain ⟨q, hq, rfl⟩ := List.mem_map.mp hp
          exact houtside q hq (List.cons_prefix_cons.mp hprefix).2
      · intro hall
        have hbelow : ∀ u, c.Above a u → (visit u).descends = true := by
          intro u hu
          exact hall u (above_cons_iff.mpr (.inr ⟨c, hc, hu⟩))
        rw [hentered hbelow, List.map_map]
        rfl
      · intro hsome
        obtain ⟨u, hu, hud⟩ := hsome
        rcases above_cons_iff.mp hu with rfl | ⟨d, hd, hu⟩
        · rw [hs] at hud
          cases hud
        · cases hc.symm.trans hd
          rw [hleftOut ⟨u, hu, hud⟩, List.map_nil]

end Walk

namespace Site

/-- A place in the tree that is cut off at `s`, seen from the tree in which `s` stands at `a`. -/
def graft (s : Site) (a : Address) (p : Address × Site) : Address × Site :=
  (a ++ p.1, if p.1 = [] then s else p.2)

/-- Only what is at the site itself depends on where the site stands. -/
theorem functionPlaces_eq_graft (top : Bool) (s : Site) :
    s.functionPlaces top = ((Site.root s.node).functionPlaces top).map (s.graft []) := by
  let below := if top && s.node.isFunction then [] else
    s.children.flatMap fun c => (c.functionPlaces top).map fun p => (c.place :: p.1, p.2)
  have hs : s.functionPlaces top = (if s.node.isFunction then [([], s)] else []) ++ below :=
    functionPlaces_eq top s
  have hown : (Site.root s.node).functionPlaces top =
      (if s.node.isFunction then [([], Site.root s.node)] else []) ++ below :=
    functionPlaces_eq top (Site.root s.node)
  have hbelow : below.map (s.graft []) = below := by
    refine (List.map_congr_left fun p hp => ?_).trans (List.map_id below)
    have hne : p.1 ≠ [] := by
      simp only [below] at hp
      split at hp
      · cases hp
      · obtain ⟨c, -, hp⟩ := List.mem_flatMap.mp hp
        obtain ⟨q, -, rfl⟩ := List.mem_map.mp hp
        exact List.cons_ne_nil _ _
    simp [graft, hne]
  rw [hs, hown, List.map_append, hbelow]
  split <;> rfl

theorem node_graft {s : Site} {a : Address} {p : Address × Site}
    (hp : (Site.root s.node).at? p.1 = some p.2) : (s.graft a p).2.node = p.2.node := by
  unfold graft
  split
  · rename_i hnil
    rw [hnil] at hp
    have hroot : Site.root s.node = p.2 := Option.some.inj hp
    rw [← hroot]
    rfl
  · rfl

/-- The functions that stand in a part of a tree are a block of the enumeration of the tree. -/
theorem exists_function_block (top : Bool) {root s : Site} {a : Address}
    (hs : root.at? a = some s) :
    ∃ before block after, root.functionPlaces top = before ++ block ++ after ∧
      (∀ p ∈ block, a <+: p.1) ∧ (∀ p ∈ before ++ after, ¬a <+: p.1) ∧
      ((top = true → ∀ u, root.Above a u → u.node.isFunction = false) →
        block = ((Site.root s.node).functionPlaces top).map (s.graft a)) ∧
      (top = true → (∃ u, root.Above a u ∧ u.node.isFunction = true) → block = []) := by
  obtain ⟨before, block, after, hplaced, houtside, hentered, hleftOut⟩ :=
    Walk.exists_block (Node.functionVisit top) hs
  let kept (places : List (Address × Site)) := places.filter fun p => p.2.node.isFunction
  have hown : (top = true → ∀ u, root.Above a u → u.node.isFunction = false) →
      kept block = ((Site.root s.node).functionPlaces top).map (s.graft a) := by
    intro hfree
    have hall : ∀ u, root.Above a u → (Node.functionVisit top u).descends = true := by
      intro u hu
      rw [Node.descends_functionVisit, Bool.not_eq_true', Bool.and_eq_false_imp]
      exact fun htop => hfree htop u hu
    have hblock : kept block = (s.functionPlaces top).map fun p => (a ++ p.1, p.2) := by
      simp only [kept, hentered hall, List.filter_map]
      rfl
    rw [hblock, functionPlaces_eq_graft, List.map_map]
    rfl
  have hnone : top = true → (∃ u, root.Above a u ∧ u.node.isFunction = true) → kept block = [] := by
    intro htop hsome
    obtain ⟨u, hu, hf⟩ := hsome
    have hdescends : (Node.functionVisit top u).descends = false := by
      rw [Node.descends_functionVisit, htop, hf]
      rfl
    simp only [kept, hleftOut ⟨u, hu, hdescends⟩, List.filter_nil]
  refine ⟨kept before, kept block, kept after, ?_, ?_, ?_, hown, hnone⟩
  · simp only [functionPlaces, hplaced, kept, List.filter_append]
  · intro p hp
    by_cases hfree : top = true → ∀ u, root.Above a u → u.node.isFunction = false
    · rw [hown hfree] at hp
      obtain ⟨q, -, rfl⟩ := List.mem_map.mp hp
      exact List.prefix_append a q.1
    · push Not at hfree
      obtain ⟨htop, u, hu, hf⟩ := hfree
      rw [hnone htop ⟨u, hu, by simpa using hf⟩] at hp
      cases hp
  · intro p hp
    rw [← List.filter_append] at hp
    exact houtside p (List.mem_of_mem_filter hp)

theorem JudgedAlike.of_node {s t : Site} (h : t.node = s.node) : s.JudgedAlike t := by
  constructor <;> simp [h]

end Site

/-- The functions of a tree that stand in the part at an address are a block of the enumeration.
They are the functions of the part as a tree of its own, in the same order, on the same nodes and
with the same names; only the function at the very top of the part can have its name from around
it. If only functions in no other one are asked for, the same holds of a part that is in none, and
nothing in any other part is enumerated. -/
theorem Node.functions_of_part (root : Node) (a : Address) (s : Site)
    (hs : (Site.root root).at? a = some s) (top : Bool) :
    let own := (Site.root s.node).functionPlaces top
    ((Site.root root).functionPlaces top).map Prod.snd = root.functionSites top ∧
    own.map Prod.snd = s.node.functionSites top ∧
    (∃ before block after, (Site.root root).functionPlaces top = before ++ block ++ after ∧
      (∀ p ∈ block, a <+: p.1 ∧ (Site.root root).at? p.1 = some p.2) ∧
      (∀ p ∈ before ++ after, ¬a <+: p.1 ∧ (Site.root root).at? p.1 = some p.2) ∧
      ((top = true → ∀ u, (Site.root root).Above a u → u.node.isFunction = false) →
        block = own.map (s.graft a)) ∧
      (top = true → (∃ u, (Site.root root).Above a u ∧ u.node.isFunction = true) → block = [])) ∧
    ∀ p ∈ own, (s.graft a p).2.node = p.2.node ∧ (s.graft a p).2.node.body? = p.2.node.body? ∧
      p.2.JudgedAlike (s.graft a p).2 ∧
      (p.1 ≠ [] → ∀ bytes, (s.graft a p).2.name? bytes = p.2.name? bytes) := by
  intro own
  refine ⟨Site.map_snd_functionPlaces top root, Site.map_snd_functionPlaces top s.node, ?_, ?_⟩
  · obtain ⟨before, block, after, hplaces, hinside, houtside, hown, hnone⟩ :=
      Site.exists_function_block top hs
    have hat : ∀ p ∈ before ++ block ++ after, (Site.root root).at? p.1 = some p.2 := by
      intro p hp
      rw [← hplaces] at hp
      exact (Site.mem_functionPlaces_iff.mp hp).1
    refine ⟨before, block, after, hplaces, ?_, ?_, hown, hnone⟩
    · intro p hp
      exact ⟨hinside p hp, hat p (by simp [hp])⟩
    · intro p hp
      refine ⟨houtside p hp, hat p ?_⟩
      rcases List.mem_append.mp hp with hp | hp <;> simp [hp]
  · intro p hp
    have hnode : (s.graft a p).2.node = p.2.node :=
      Site.node_graft (Site.mem_functionPlaces_iff.mp hp).1
    refine ⟨hnode, by rw [hnode], .of_node hnode, ?_⟩
    intro hne bytes
    simp [Site.graft, hne]

/-- The block of the wrapper is a part with one function. The full enumeration has that function in
one piece, and the enumeration of the top level has nothing from there. -/
theorem Node.functions_of_part_inside_wrapper :
    let program := Site.root Analysis.Inner.program
    let part : Site := ⟨some Analysis.Inner.wrapper, 0, Analysis.Inner.block⟩
    program.at? [0, 0] = some part ∧
      (∃ before after, program.functionPlaces false =
        before ++ ((Site.root part.node).functionPlaces false).map (part.graft [0, 0]) ++ after) ∧
      ∀ p ∈ program.functionPlaces true, ¬[0, 0] <+: p.1 := by
  intro program part
  have hpart : program.at? [0, 0] = some part := rfl
  obtain ⟨-, -, ⟨before, block, after, hfull, -, -, hown, -⟩, -⟩ :=
    functions_of_part Analysis.Inner.program [0, 0] part hpart false
  obtain ⟨-, -, ⟨before', block', after', htop, -, houtside, -, hnone⟩, -⟩ :=
    functions_of_part Analysis.Inner.program [0, 0] part hpart true
  have hblock : block = _ := hown fun h => by cases h
  have habove : program.Above [0, 0] ⟨some Analysis.Inner.program, 0, Analysis.Inner.wrapper⟩ :=
    ⟨[0], by decide, by decide, rfl⟩
  have hblock' : block' = [] := hnone rfl ⟨_, habove, by decide⟩
  refine ⟨hpart, ⟨before, after, by rw [hfull, hblock]⟩, ?_⟩
  intro p hp
  rw [htop, hblock', List.append_nil] at hp
  exact (houtside p hp).1

end MarkupTally
