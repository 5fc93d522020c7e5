import MarkupTally.Proofs.Enumeration
import MarkupTally.Proofs.Presence

/-! The verdict on a function. Markup that a function returns directly is never more than two steps
below its body, and no function lies on the way; so the search of the body has found it in either
mode, and the verdict is that of the search alone. -/
namespace MarkupTally

namespace Node

variable {n m : Node}

theorem mem_children_of_mem_statements (h : m ∈ n.statements) : m ∈ n.children := by
  have hnamed : m ∈ n.namedChildren := (List.mem_filter.mp h).1
  exact (List.mem_filter.mp hnamed).1

theorem mem_children_of_returned? (h : n.returned? = some m) : m ∈ n.children := by
  have hnamed : m ∈ n.namedChildren := List.mem_of_find?_eq_some h
  exact (List.mem_filter.mp hnamed).1

theorem isFunction_of_isReturn (h : n.isReturn = true) : n.isFunction = false := by
  have hkind : n.kind = "return_statement" := by simpa [isReturn] using h
  simp [isFunction, hkind, functionKinds]

/-- Markup that is returned directly is the body, or a child of one of its statements. -/
theorem leads_of_returnsMarkup (h : n.returnsMarkup = true) :
    ∃ body, n.body? = some body ∧ ∃ path m, Leads body path m ∧ m.isMarkup = true ∧
      ∀ p ∈ path, p.isFunction = false := by
  unfold returnsMarkup at h
  cases hbody : n.body? with
  | none => simp [hbody] at h
  | some body =>
    refine ⟨body, rfl, ?_⟩
    simp only [hbody] at h
    split at h
    · exact ⟨[], body, .here body, h, by simp⟩
    · rename_i hkind
      simp only [bodyStatements, hbody, hkind, if_false, List.any_eq_true, Bool.and_eq_true,
        Option.any_eq_true] at h
      obtain ⟨s, hs, hreturn, m, hm, hmarkup⟩ := h
      have hsm : Leads s [m] m := .down (mem_children_of_returned? hm) (.here m)
      refine ⟨[s, m], m, .down (mem_children_of_mem_statements hs) hsm, hmarkup, ?_⟩
      intro p hp
      rcases List.mem_cons.mp hp with rfl | hp
      · exact isFunction_of_isReturn hreturn
      · cases List.mem_singleton.mp hp
        exact isFunction_of_isMarkup hmarkup

theorem containsMarkup_of_returnsMarkup (e : Bool) (h : n.returnsMarkup = true) :
    n.containsMarkup e = true := by
  obtain ⟨body, hbody, path, m, hpath, hmarkup, hfree⟩ := leads_of_returnsMarkup h
  rw [containsMarkup_iff_leads]
  exact ⟨body, hbody, path, m, hpath, hmarkup, fun _ => hfree⟩

theorem classify_eq_ite (e : Bool) (n : Node) :
    n.classify e = if n.containsMarkup e then .markup else .plain := by
  unfold classify
  by_cases hreturns : n.returnsMarkup = true
  · simp [containsMarkup_of_returnsMarkup e hreturns]
  · simp [hreturns]

theorem classify_eq_markup_iff (e : Bool) (n : Node) :
    n.classify e = .markup ↔ n.containsMarkup e = true := by
  rw [classify_eq_ite]
  split <;> simp_all

end Node

namespace Analysis

/-- Markup returned directly is found by the search in either mode, so the verdict is that of the
search; and no function is ever reported to return markup and yet called plain. -/
theorem returnsMarkup_never_decides :
    (∀ (n : Node) (e : Bool), n.returnsMarkup = true → n.containsMarkup e = true) ∧
    (∀ (n : Node) (e : Bool), n.classify e = if n.containsMarkup e then .markup else .plain) ∧
    ∀ (g : Grammar) (text path language relPath : String) (o : Options) (facts : FileFacts),
      (source g text path language relPath o).value = .ok facts →
      ∀ fn ∈ facts.functions, fn.returnsMarkup = true → fn.classification = .markup := by
  refine ⟨fun n e h => n.containsMarkup_of_returnsMarkup e h, fun n e => n.classify_eq_ite e, ?_⟩
  intro g text path language relPath o facts h fn hfn hreturns
  obtain ⟨root, fs, -, -, hfacts⟩ := functions_of_source h
  rw [hfacts] at hfn
  obtain ⟨f, -, rfl⟩ := List.mem_map.mp hfn
  exact (Node.classify_eq_markup_iff _ _).mpr (Node.containsMarkup_of_returnsMarkup _ hreturns)

/-- The strict search goes through the block and the return statement of a component. -/
theorem returnsMarkup_never_decides_component :
    Inner.component.returnsMarkup = true ∧ Inner.component.containsMarkup true = true := by
  have h : Inner.component.returnsMarkup = true := by decide
  exact ⟨h, returnsMarkup_never_decides.1 Inner.component true h⟩

end Analysis

end MarkupTally
