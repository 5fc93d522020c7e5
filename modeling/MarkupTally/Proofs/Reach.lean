import MarkupTally.Node.Walk

/-! Where a walk gets. The sites that a walk shows to its visitor are those below sites that were
all answered with a step into their children; the stack only decides the order. -/
namespace MarkupTally.Walk

variable {visit : Site → Visit}

/-- The walk gets from a site to another one by going on into children. -/
inductive Reaches (visit : Site → Visit) : Site → Site → Prop where
  | here (s : Site) : Reaches visit s s
  | down {s c t : Site} (hs : (visit s).descends = true) (hc : c ∈ s.children)
      (ht : Reaches visit c t) : Reaches visit s t

/-- A walk that is never turned away gets wherever another one gets. -/
theorem Reaches.all {s t : Site} (h : Reaches visit s t) : Reaches (fun _ => .follow) s t := by
  induction h with
  | here s => exact .here s
  | down _ hc _ ih => exact .down rfl hc ih

/-- One turn of the loop: the top site is seen, and what else can be seen is on the new stack. -/
theorem reaches_rest (s t : Site) (stack : List Site) :
    (∃ r ∈ s :: stack, Reaches visit r t) ↔
      t = s ∨ ∃ r ∈ rest (visit s) s stack, Reaches visit r t := by
  constructor
  · rintro ⟨r, hr, h⟩
    rcases List.mem_cons.mp hr with rfl | hr
    · cases h with
      | here => exact .inl rfl
      | down hs hc ht => exact .inr ⟨_, by simp [rest, hs, hc], ht⟩
    · refine .inr ⟨r, ?_, h⟩
      unfold rest
      split
      · exact List.mem_append_right _ hr
      · exact hr
  · rintro (rfl | ⟨r, hr, h⟩)
    · exact ⟨t, List.mem_cons_self, .here t⟩
    · unfold rest at hr
      split at hr
      · rename_i hs
        rcases List.mem_append.mp hr with hc | hr
        · exact ⟨s, List.mem_cons_self, .down hs hc h⟩
        · exact ⟨r, List.mem_cons_of_mem _ hr, h⟩
      · exact ⟨r, List.mem_cons_of_mem _ hr, h⟩

/-- A walk that is stopped at its first report reports something exactly if it gets to a match. -/
theorem first?_isSome_iff (stack : List Site) :
    (first? visit stack).isSome = true ↔
      ∃ t, (∃ s ∈ stack, Reaches visit s t) ∧ (visit t).matched = true := by
  fun_induction first? visit stack with
  | case1 => simp
  | case2 s stack step hm =>
    exact ⟨fun _ => ⟨s, ⟨s, List.mem_cons_self, .here s⟩, hm⟩, fun _ => rfl⟩
  | case3 s stack step hm ih =>
    -- the top site is no match, so whatever is found is found from the new stack
    rw [ih]
    refine exists_congr fun t => ?_
    rw [reaches_rest]
    constructor
    · exact fun ⟨h, ht⟩ => ⟨.inr h, ht⟩
    · rintro ⟨rfl | h, ht⟩
      · exact absurd ht hm
      · exact ⟨h, ht⟩

/-- What happened before a walk stays behind what happens on it. -/
theorem traceOnto_eq_append (past : List Event) : (stack : List Site) →
    traceOnto visit past stack = traceOnto visit [] stack ++ past
  | [] => by simp [traceOnto]
  | s :: stack => by
    have hrest (past : List Event) := traceOnto_eq_append past (rest (visit s) s stack)
    rw [traceOnto, traceOnto]
    split
    · rw [hrest, hrest [_, _]]
      simp
    · rw [hrest, hrest [_]]
      simp
termination_by stack => weight stack
decreasing_by all_goals exact weight_rest_lt _ s stack

@[simp] theorem found_nil : found visit [] = [] := by
  simp [found, trace, traceOnto]

/-- A walk reports its top site, if it matches, and then what the walk of the new stack reports. -/
theorem found_cons (s : Site) (stack : List Site) :
    found visit (s :: stack) =
      (if (visit s).matched then [s] else []) ++ found visit (rest (visit s) s stack) := by
  unfold found trace
  rw [traceOnto, traceOnto_eq_append]
  split <;> simp [List.filterMap_cons, Event.yielded?]

theorem mem_found_iff (t : Site) : (stack : List Site) →
    (t ∈ found visit stack ↔ (∃ s ∈ stack, Reaches visit s t) ∧ (visit t).matched = true)
  | [] => by simp
  | s :: stack => by
    rw [found_cons, List.mem_append, mem_found_iff t (rest (visit s) s stack), reaches_rest]
    constructor
    · rintro (h | ⟨h, ht⟩)
      · split at h
        · rename_i hs
          cases List.mem_singleton.mp h
          exact ⟨.inl rfl, hs⟩
        · cases h
      · exact ⟨.inr h, ht⟩
    · rintro ⟨rfl | h, ht⟩
      · exact .inl (by simp [ht])
      · exact .inr ⟨h, ht⟩
termination_by stack => weight stack
decreasing_by exact weight_rest_lt _ s stack

end MarkupTally.Walk
