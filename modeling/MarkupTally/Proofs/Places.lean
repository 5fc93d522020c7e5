import MarkupTally.Proofs.Enumeration

/-! Where the functions of a tree stand. The enumeration is told again with an address for each
function, so that functions of two trees can be compared by where they stand. -/
namespace MarkupTally

namespace Site

variable {s : Site}

theorem at?_append (s : Site) (a b : Address) :
    s.at? (a ++ b) = (s.at? a).bind fun t => t.at? b := by
  induction a generalizing s with
  | nil => rfl
  | cons i a ih => simp only [List.cons_append, at?, ih, Option.bind_assoc]

theorem Above.exists_at? {a : Address} {t u : Site} (h : s.Above a u) (ht : s.at? a = some t) :
    ∃ b, s.at? b = some u ∧ ∃ c, u.at? c = some t := by
  obtain ⟨b, ⟨c, rfl⟩, -, hu⟩ := h
  rw [at?_append, hu] at ht
  exact ⟨b, hu, c, ht⟩

theorem Above.of_prefix {a b : Address} {u : Site} (hab : a <+: b) (h : s.Above a u) :
    s.Above b u := by
  obtain ⟨c, hca, hne, hu⟩ := h
  refine ⟨c, hca.trans hab, ?_, hu⟩
  intro hcb
  subst hcb
  exact hne (hca.eq_of_length_le hab.length_le)

/-- The functions at and below a site in the order of their enumeration, each with its address. -/
def functionPlaces (top : Bool) (s : Site) : List (Address × Site) :=
  (Walk.placed (Node.functionVisit top) s).filter fun p => p.2.node.isFunction

theorem map_snd_functionPlaces (top : Bool) (root : Node) :
    ((Site.root root).functionPlaces top).map Prod.snd = root.functionSites top := by
  rw [Node.functionSites_eq_filter, ← Walk.map_snd_placed, functionPlaces, List.filter_map]
  rfl

theorem mem_functionPlaces_iff {top : Bool} {a : Address} {t : Site} :
    (a, t) ∈ s.functionPlaces top ↔ s.at? a = some t ∧ t.node.isFunction = true ∧
      (top = true → ∀ u, s.Above a u → u.node.isFunction = false) := by
  simp only [functionPlaces, List.mem_filter, Walk.mem_placed_iff, Node.descends_functionVisit,
    Bool.not_eq_true', Bool.and_eq_false_imp]
  constructor
  · rintro ⟨⟨ht, habove⟩, hf⟩
    exact ⟨ht, hf, fun htop u hu => habove u hu htop⟩
  · rintro ⟨ht, hf, habove⟩
    exact ⟨⟨ht, fun u hu htop => habove htop u hu⟩, hf⟩

theorem functionPlaces_eq (top : Bool) (s : Site) :
    s.functionPlaces top = (if s.node.isFunction then [([], s)] else []) ++
      if top && s.node.isFunction then [] else
        s.children.flatMap fun c => (c.functionPlaces top).map fun p => (c.place :: p.1, p.2) := by
  have hbelow : (s.children.flatMap fun c =>
      (Walk.placed (Node.functionVisit top) c).map fun p => (c.place :: p.1, p.2)).filter
        (fun p => p.2.node.isFunction) =
      s.children.flatMap fun c => (c.functionPlaces top).map fun p => (c.place :: p.1, p.2) := by
    simp only [List.filter_flatMap, List.filter_map]
    rfl
  rw [functionPlaces, Walk.placed_eq, Node.descends_functionVisit, List.filter_cons]
  cases hf : s.node.isFunction <;> cases top <;> simp [hbelow]

/-- Two functions of the same kind on which all checks agree. -/
structure JudgedAlike (s t : Site) : Prop where
  kind : t.node.functionKind = s.node.functionKind
  contains (e : Bool) : t.node.containsMarkup e = s.node.containsMarkup e
  returns : t.node.returnsMarkup = s.node.returnsMarkup
  verdict (e : Bool) : t.node.classify e = s.node.classify e

end Site

end MarkupTally
