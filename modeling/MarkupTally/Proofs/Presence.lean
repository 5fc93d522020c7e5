import MarkupTally.Function
import MarkupTally.Proofs.Reach

/-! Which functions contain markup. The search of a body finds exactly the markup to which a path
leads from the body, and in the stricter mode only a path that passes through no function. -/
namespace MarkupTally.Node

open Walk

/-- The nodes of the path, each a child of the one before, lead from below `n` down to `m`. -/
inductive Leads : Node → List Node → Node → Prop where
  | here (n : Node) : Leads n [] n
  | down {n c m : Node} {path : List Node} (hc : c ∈ n.children) (hm : Leads c path m) :
      Leads n (c :: path) m

theorem isMarkup_iff (n : Node) :
    n.isMarkup = true ↔ n.kind = "jsx_element" ∨ n.kind = "jsx_self_closing_element" := by
  unfold isMarkup markupKind?
  split
  · simp_all
  · split
    · split <;> simp_all
    · simp_all

theorem isFunction_iff (n : Node) :
    n.isFunction = true ↔ n.info.named = true ∧ n.kind ∈ functionKinds := by
  simp [isFunction]

theorem isFunction_of_isMarkup {n : Node} (h : n.isMarkup = true) : n.isFunction = false := by
  rcases (isMarkup_iff n).mp h with hk | hk <;> simp [isFunction, hk, functionKinds]

theorem matched_markupVisit (e : Bool) (s : Site) :
    (markupVisit e s).matched = s.node.isMarkup := by
  unfold markupVisit
  split
  · simp_all [Visit.matched]
  · split <;> simp_all [Visit.matched]

/-- The search turns away from a function, unless it has begun there. -/
theorem descends_markupVisit_iff (e : Bool) (s : Site) :
    (markupVisit e s).descends = true ↔
      (e = true → s.parent.isSome = true → s.node.isFunction = false) := by
  unfold markupVisit
  split
  · rename_i hm
    simp [Visit.descends, isFunction_of_isMarkup hm]
  · split <;> simp_all [Visit.descends]

theorem mem_children_node {s c : Site} (hc : c ∈ s.children) :
    c.node ∈ s.node.children ∧ c.parent.isSome = true := by
  refine ⟨Site.node_mem_children hc, ?_⟩
  obtain ⟨i, n, -, rfl⟩ := List.mem_mapIdx.mp hc
  rfl

/-- Markup to which the search gets lies at the end of a path that the mode allows. -/
theorem leads_of_reaches {e : Bool} {s t : Site} (h : Reaches (markupVisit e) s t)
    (ht : t.node.isMarkup = true) :
    ∃ path, Leads s.node path t.node ∧ (e = true → ∀ p ∈ path, p.isFunction = false) := by
  induction h with
  | here s => exact ⟨[], .here _, by simp⟩
  | down hs hc h ih =>
    obtain ⟨path, hpath, hfree⟩ := ih ht
    obtain ⟨hmem, hparent⟩ := mem_children_node hc
    refine ⟨_, .down hmem hpath, fun he p hp => ?_⟩
    rcases List.mem_cons.mp hp with rfl | hp
    · -- the child is the markup itself, or the search went on into it
      cases h with
      | here => exact isFunction_of_isMarkup ht
      | down hd => exact (descends_markupVisit_iff e _).mp hd he hparent
    · exact hfree he p hp

/-- The search follows a path that the mode allows. -/
theorem reaches_of_leads {e : Bool} {n m : Node} {path : List Node} (h : Leads n path m)
    (hfree : e = true → ∀ p ∈ path, p.isFunction = false) {s : Site} (hs : s.node = n)
    (hd : (markupVisit e s).descends = true) :
    ∃ t, Reaches (markupVisit e) s t ∧ t.node = m := by
  induction h generalizing s with
  | here n => exact ⟨s, .here s, hs⟩
  | @down n c m path hc _ ih =>
    subst hs
    obtain ⟨d, hdm, rfl⟩ := Site.exists_child hc
    have hdd : (markupVisit e d).descends = true :=
      (descends_markupVisit_iff e d).mpr fun he _ => hfree he _ List.mem_cons_self
    obtain ⟨t, ht, rfl⟩ := ih (fun he p hp => hfree he p (List.mem_cons_of_mem _ hp)) rfl hdd
    exact ⟨t, .down hd hdm ht, rfl⟩

theorem containsMarkup_iff_leads (e : Bool) (n : Node) :
    n.containsMarkup e = true ↔
      ∃ body, n.body? = some body ∧ ∃ path m, Leads body path m ∧ m.isMarkup = true ∧
        (e = true → ∀ p ∈ path, p.isFunction = false) := by
  unfold containsMarkup
  cases n.body? with
  | none => simp
  | some body =>
    simp only [Option.some.injEq, exists_eq_left']
    rw [first?_isSome_iff]
    constructor
    · rintro ⟨t, ⟨s, hs, h⟩, ht⟩
      cases List.mem_singleton.mp hs
      rw [matched_markupVisit] at ht
      obtain ⟨path, hpath, hfree⟩ := leads_of_reaches h ht
      exact ⟨path, t.node, hpath, ht, hfree⟩
    · rintro ⟨path, m, hpath, hm, hfree⟩
      -- the body has no parent, so the search goes on into it even if it is a function
      have hd : (markupVisit e (Site.root body)).descends = true :=
        (descends_markupVisit_iff e _).mpr fun _ h => by cases h
      obtain ⟨t, ht, rfl⟩ := reaches_of_leads hpath hfree rfl hd
      exact ⟨t, ⟨_, List.mem_singleton_self _, ht⟩, by rwa [matched_markupVisit]⟩

/-- The presence check finds markup anywhere in the subtree of the body; in the stricter mode only
markup with no function on the way down to it from the body, the body itself not asked. -/
theorem containsMarkup_iff_exists_path (n : Node) :
    (n.containsMarkup false = true ↔
      ∃ body, n.child? "body" = some body ∧ ∃ path m, Leads body path m ∧
        (m.kind = "jsx_element" ∨ m.kind = "jsx_self_closing_element")) ∧
    (n.containsMarkup true = true ↔
      ∃ body, n.child? "body" = some body ∧ ∃ path m, Leads body path m ∧
        (m.kind = "jsx_element" ∨ m.kind = "jsx_self_closing_element") ∧
        ∀ p ∈ path, ¬(p.info.named = true ∧ p.kind ∈ functionKinds)) := by
  simp only [← isMarkup_iff, ← isFunction_iff, Bool.not_eq_true]
  constructor
  · simpa [body?] using containsMarkup_iff_leads false n
  · simpa [body?] using containsMarkup_iff_leads true n

end MarkupTally.Node
