import MarkupTally.Proofs.Verdict

/-! Markup of nested functions. The stricter search keeps out of every function below the body, but
not out of the body: so a function is plain exactly if all markup of its body lies inside functions
that stand below the body, and the markup of a body that is a function itself still counts. -/
namespace MarkupTally

namespace Node

variable {n m body : Node} {path : List Node}

/-- All markup of the tree lies inside a function of the tree, which may be the whole tree. -/
def Enclosed (n : Node) : Prop :=
  ∀ path m, Leads n path m → m.isMarkup = true → ∃ g ∈ (n :: path).dropLast, g.isFunction = true

/-- All markup of the tree lies inside a function that is only a part of the tree. -/
def EnclosedBelow (n : Node) : Prop :=
  ∀ path m, Leads n path m → m.isMarkup = true → ∃ g ∈ path.dropLast, g.isFunction = true

theorem Leads.getLast?_eq (h : Leads n path m) : path.getLast?.getD n = m := by
  induction h with
  | here n => rfl
  | @down n c m path hc _ ih => simpa [List.getLast?_cons] using ih

/-- Markup is no function, so a function on the way to it stands above it. -/
theorem exists_function_iff (h : Leads n path m) (hm : m.isMarkup = true) :
    (∃ g ∈ path.dropLast, g.isFunction = true) ↔ ∃ g ∈ path, g.isFunction = true := by
  constructor
  · rintro ⟨g, hg, hf⟩
    exact ⟨g, List.dropLast_subset path hg, hf⟩
  · rintro ⟨g, hg, hf⟩
    have hne : path ≠ [] := List.ne_nil_of_mem hg
    have hlast : path.getLast hne = m := by
      simpa [List.getLast?_eq_some_getLast hne] using h.getLast?_eq
    rw [← List.dropLast_append_getLast hne, List.mem_append, List.mem_singleton, hlast] at hg
    rcases hg with hg | rfl
    · exact ⟨g, hg, hf⟩
    · rw [isFunction_of_isMarkup hm] at hf
      cases hf

theorem classify_eq_plain_iff (e : Bool) (n : Node) :
    n.classify e = .plain ↔ n.containsMarkup e = false := by
  rw [classify_eq_ite]
  cases n.containsMarkup e <;> simp

theorem classify_strict_eq_plain_iff (n : Node) :
    n.classify true = .plain ↔ ∀ body, n.body? = some body → body.EnclosedBelow := by
  rw [classify_eq_plain_iff, ← Bool.not_eq_true, containsMarkup_iff_leads]
  constructor
  · intro hnone body hbody path m hpath hm
    rw [exists_function_iff hpath hm]
    by_contra hfree
    refine hnone ⟨body, hbody, path, m, hpath, hm, fun _ p hp => ?_⟩
    rw [← Bool.not_eq_true]
    exact fun hf => hfree ⟨p, hp, hf⟩
  · rintro hall ⟨body, hbody, path, m, hpath, hm, hfree⟩
    obtain ⟨g, hg, hf⟩ := (exists_function_iff hpath hm).mp (hall body hbody path m hpath hm)
    rw [hfree rfl g hg] at hf
    cases hf

/-- A tree that is no function can enclose its markup only in functions below. -/
theorem Enclosed.below (h : body.Enclosed) (hb : body.isFunction = false) :
    body.EnclosedBelow := by
  intro path m hpath hm
  obtain ⟨g, hg, hf⟩ := h path m hpath hm
  cases path with
  | nil => cases hg
  | cons c path =>
    rw [List.dropLast_cons_of_ne_nil (List.cons_ne_nil c path)] at hg
    rcases List.mem_cons.mp hg with rfl | hg
    · rw [hb] at hf
      cases hf
    · exact ⟨g, hg, hf⟩

/-- In the stricter mode a function is plain exactly if all markup of its body lies inside functions
below the body. If the body is no function itself, that is all markup inside nested functions. -/
theorem strict_plain_iff_enclosed_below (n : Node) :
    (n.classify true = .plain ↔ ∀ body, n.body? = some body → body.EnclosedBelow) ∧
    ((∀ body, n.body? = some body → body.Enclosed ∧ body.isFunction = false) →
      n.classify true = .plain) := by
  refine ⟨classify_strict_eq_plain_iff n, fun h => ?_⟩
  rw [classify_strict_eq_plain_iff]
  intro body hbody
  obtain ⟨hin, hb⟩ := h body hbody
  exact hin.below hb

end Node

namespace Curried

open Analysis.Inner (node)

def element : Node := node "jsx_self_closing_element" (some "body") 2 []

/-- An arrow whose body is the element. -/
def inner : Node := node "arrow_function" (some "body") 2 [element]

/-- An arrow whose body is the arrow inside. -/
def outer : Node := node "arrow_function" none 2 [inner]

/-- The same arrow with the one inside standing in a block. -/
def outerBlock : Node :=
  node "arrow_function" none 2 [node "statement_block" (some "body") 2 [inner]]

theorem leads_inner_cases {m : Node} {path : List Node} (h : Node.Leads inner path m) :
    path = [] ∧ m = inner ∨ path = [element] ∧ m = element := by
  cases h with
  | here => exact .inl ⟨rfl, rfl⟩
  | down hc hm =>
    cases List.mem_singleton.mp hc
    cases hm with
    | here => exact .inr ⟨rfl, rfl⟩
    | down hc _ => cases hc

theorem enclosed_inner : inner.Enclosed := by
  intro path m hpath hm
  rcases leads_inner_cases hpath with ⟨rfl, rfl⟩ | ⟨rfl, rfl⟩
  · cases hm
  · exact ⟨inner, by simp, by decide⟩

end Curried

/-- The arrow inside, put into a block, no longer marks the arrow around it. -/
theorem Node.strict_plain_iff_enclosed_below_block : Curried.outerBlock.classify true = .plain := by
  refine (strict_plain_iff_enclosed_below Curried.outerBlock).2 fun body hbody => ?_
  cases hbody
  refine ⟨fun path m hpath hm => ?_, by decide⟩
  cases hpath with
  | here => cases hm
  | down hc hpath =>
    cases List.mem_singleton.mp hc
    obtain ⟨g, hg, hf⟩ := Curried.enclosed_inner _ m hpath hm
    exact ⟨g, by simpa using .inr hg, hf⟩

/-- The arrow inside is the body: all markup lies inside it, and still marks the arrow around it. -/
theorem Node.strict_markup_of_curried :
    Curried.outer.isFunction = true ∧ Curried.outer.body? = some Curried.inner ∧
      Curried.inner.Enclosed ∧ Curried.outer.classify true = .markup := by
  refine ⟨by decide, rfl, Curried.enclosed_inner, ?_⟩
  rw [classify_eq_markup_iff, containsMarkup_iff_leads]
  refine ⟨Curried.inner, rfl, [Curried.element], Curried.element, ?_, by decide, ?_⟩
  · exact .down (List.mem_singleton_self _) (.here _)
  · intro _ p hp
    cases List.mem_singleton.mp hp
    decide

end MarkupTally
