import MarkupTally.Proofs.Enclosure
import MarkupTally.Proofs.Nesting

/-! Whose markup it is in the stricter mode. A search stops in front of every function below the
body where it began, and each function is searched from its body on. So markup goes to the innermost
function around it if it stands in the body of that function; markup that stands elsewhere in it, as
in the default of a parameter, goes to none. -/
namespace MarkupTally

namespace Node

variable {n m body : Node} {path : List Node}

/-- The functions that can own the markup in the body of `n`: itself, and those in its body. -/
inductive Owner (n : Node) : Node → Prop where
  | self : Owner n n
  | inner {body g : Node} {path : List Node} (hbody : n.body? = some body) (hg : Leads body path g)
      (hf : g.isFunction = true) : Owner n g

/-- The innermost function on the way down is left through a child that is not its body. -/
def Strays (path : List Node) : Prop :=
  ∃ before f c rest, path = before ++ f :: c :: rest ∧ f.isFunction = true ∧ f.body? ≠ some c ∧
    ∀ p ∈ c :: rest, p.isFunction = false

/-- The path leads from the body of `n` to markup. -/
def LeadsToMarkup (n : Node) (path : List Node) : Prop :=
  ∃ body m, n.body? = some body ∧ Leads body path m ∧ m.isMarkup = true

/-- There is markup in the body, and all of it stands in nested functions, outside the body of the
innermost one. -/
def Astray (n : Node) : Prop :=
  (∃ path, n.LeadsToMarkup path) ∧ ∀ path, n.LeadsToMarkup path → Strays path

/-- No function that can own markup has a function for its body. -/
def Uncurried (n : Node) : Prop :=
  ∀ g body, Owner n g → g.body? = some body → body.isFunction = false

theorem Strays.cons (h : Strays path) (c : Node) : Strays (c :: path) := by
  obtain ⟨before, f, d, rest, hpath, hf, hbody, hfree⟩ := h
  have hcons : c :: path = c :: before ++ f :: d :: rest := by rw [hpath, List.cons_append]
  exact ⟨c :: before, f, d, rest, hcons, hf, hbody, hfree⟩

theorem not_strays_of_free (h : ∀ p ∈ path, p.isFunction = false) : ¬Strays path := by
  intro hs
  obtain ⟨before, f, c, rest, hpath, hf, -, -⟩ := hs
  have hmem : f ∈ path := by simp [hpath]
  rw [h f hmem] at hf
  cases hf

/-- A path has at most one innermost function. -/
theorem innermost_unique {before before' after after' : List Node} {f f' : Node}
    (h : before ++ f :: after = before' ++ f' :: after')
    (hf : f.isFunction = true) (hf' : f'.isFunction = true)
    (hfree : ∀ p ∈ after, p.isFunction = false) (hfree' : ∀ p ∈ after', p.isFunction = false) :
    f = f' ∧ after = after' := by
  -- where one of the two parts in front is longer, its function stands after the other one
  rcases List.append_eq_append_iff.mp h with ⟨more, -, hmore⟩ | ⟨more, -, hmore⟩
  · cases more with
    | nil => exact List.cons.inj hmore
    | cons p more =>
      have hafter : after = more ++ f' :: after' := (List.cons.inj hmore).2
      have hno := hfree f' (by simp [hafter])
      rw [hf'] at hno
      cases hno
  · cases more with
    | nil =>
      have heq := List.cons.inj hmore
      exact ⟨heq.1.symm, heq.2.symm⟩
    | cons p more =>
      have hafter : after' = more ++ f :: after := (List.cons.inj hmore).2
      have hno := hfree' f (by simp [hafter])
      rw [hf] at hno
      cases hno

theorem not_strays_of_body (before : List Node) {rest : List Node} {f c : Node}
    (hf : f.isFunction = true) (hbody : f.body? = some c)
    (hfree : ∀ p ∈ c :: rest, p.isFunction = false) :
    ¬Strays (before ++ f :: c :: rest) := by
  intro hs
  obtain ⟨before', f', c', rest', hpath, hf', hbody', hfree'⟩ := hs
  obtain ⟨rfl, htail⟩ := innermost_unique hpath hf hf' hfree hfree'
  obtain ⟨rfl, -⟩ := List.cons.inj htail
  exact hbody' hbody

theorem exists_leadsToMarkup (h : n.classify false = .markup) : ∃ path, n.LeadsToMarkup path := by
  rw [classify_eq_markup_iff, containsMarkup_iff_leads] at h
  obtain ⟨body, hbody, path, m, hpath, hm, -⟩ := h
  exact ⟨path, body, m, hbody, hpath, hm⟩

/-- Markup at the end of a path that does not stray is found from where the path began, or by a
function on the path. -/
theorem free_or_owned (h : Leads body path m) (hm : m.isMarkup = true) (hs : ¬Strays path) :
    (∀ p ∈ path, p.isFunction = false) ∨
      ∃ part g, Leads body part g ∧ g.isFunction = true ∧ g.containsMarkup true = true := by
  induction h with
  | here n => exact .inl (by simp)
  | @down n c m path hc hpath ih =>
    rcases ih hm (fun h => hs (h.cons c)) with hfree | ⟨part, g, hpart, hg, hstrict⟩
    · by_cases hf : c.isFunction = true
      · right
        -- no function stands below this one, so the path has to go through its body
        cases hpath with
        | here =>
          rw [isFunction_of_isMarkup hm] at hf
          cases hf
        | @down _ d _ rest hd hrest =>
          have hbody : c.body? = some d := by
            by_contra hne
            exact hs ⟨[], c, d, rest, rfl, hf, hne, hfree⟩
          have hstrict : c.containsMarkup true = true := by
            rw [containsMarkup_iff_leads]
            refine ⟨d, hbody, rest, m, hrest, hm, fun _ p hp => ?_⟩
            exact hfree p (List.mem_cons_of_mem d hp)
          exact ⟨[c], c, .down hc (.here c), hf, hstrict⟩
      · left
        have hc : c.isFunction = false := eq_false_of_ne_true hf
        exact List.forall_mem_cons.mpr ⟨hc, hfree⟩
    · exact .inr ⟨c :: part, g, .down hc hpart, hg, hstrict⟩

theorem exists_owner_of_not_strays (h : n.LeadsToMarkup path) (hs : ¬Strays path) :
    ∃ g, Owner n g ∧ g.classify true = .markup := by
  obtain ⟨body, m, hbody, h, hm⟩ := h
  rcases free_or_owned h hm hs with hfree | ⟨part, g, hpart, hg, hstrict⟩
  · have hstrict : n.containsMarkup true = true := by
      rw [containsMarkup_iff_leads]
      exact ⟨body, hbody, path, m, h, hm, fun _ => hfree⟩
    exact ⟨n, .self, (classify_eq_markup_iff true n).mpr hstrict⟩
  · exact ⟨g, .inner hbody hpart hg, (classify_eq_markup_iff true g).mpr hstrict⟩

/-- What a function owns in the stricter mode does not stray, unless the function is curried. -/
theorem not_astray_of_owner (hn : n.Uncurried) {g : Node} (hg : Owner n g)
    (hstrict : g.classify true = .markup) : ¬n.Astray := by
  intro hastray
  rw [classify_eq_markup_iff, containsMarkup_iff_leads] at hstrict
  obtain ⟨inner, hinner, rest, m, hrest, hm, hfree⟩ := hstrict
  have hfree := hfree rfl
  have hplain : inner.isFunction = false := hn g inner hg hinner
  have htail : ∀ p ∈ inner :: rest, p.isFunction = false :=
    List.forall_mem_cons.mpr ⟨hplain, hfree⟩
  cases hg with
  | self => exact not_strays_of_free hfree (hastray.2 rest ⟨inner, m, hinner, hrest, hm⟩)
  | @inner body _ path hbody hpath hf =>
    have hchild : inner ∈ g.children := List.mem_of_find?_eq_some hinner
    have hwhole : Leads body (path ++ inner :: rest) m := hpath.trans (.down hchild hrest)
    have hstrays := hastray.2 _ ⟨body, m, hbody, hwhole, hm⟩
    rcases List.eq_nil_or_concat path with rfl | ⟨before, last, rfl⟩
    · exact not_strays_of_free htail hstrays
    · have hlast : last = g := by simpa using hpath.getLast?_eq
      subst hlast
      rw [List.concat_eq_append, List.append_assoc, List.singleton_append] at hstrays
      exact not_strays_of_body before hf hinner htail hstrays

/-- The markup that makes a function markup marks, in the stricter mode, the function itself or one
in its body, unless all of it stands in nested functions and outside the body of the innermost one.
Where none of these functions has a function for its body, markup that is so astray marks none. -/
theorem strict_markup_owned_unless_astray (n : Node) (h : n.classify false = .markup) :
    ((∃ g, Owner n g ∧ g.classify true = .markup) ∨ n.Astray) ∧
    (n.Uncurried → ((∃ g, Owner n g ∧ g.classify true = .markup) ↔ ¬n.Astray)) := by
  have howned (hnot : ¬n.Astray) : ∃ g, Owner n g ∧ g.classify true = .markup := by
    have hkept : ∃ path, n.LeadsToMarkup path ∧ ¬Strays path := by
      by_contra hall
      push Not at hall
      exact hnot ⟨exists_leadsToMarkup h, hall⟩
    obtain ⟨path, hpath, hs⟩ := hkept
    exact exists_owner_of_not_strays hpath hs
  constructor
  · by_cases hastray : n.Astray
    · exact .inr hastray
    · exact .inl (howned hastray)
  · intro hn
    refine ⟨?_, howned⟩
    intro howner
    obtain ⟨g, hg, hstrict⟩ := howner
    exact not_astray_of_owner hn hg hstrict

end Node

/-! A function with another one inside: markup stands in the default of the parameter of the
function inside, and in one of two variants also in its body. -/
namespace DefaultValue

open Analysis.Inner (node)

def element : Node := node "jsx_self_closing_element" (some "value") 2 []

def parameters : Node :=
  node "formal_parameters" (some "parameters") 2 [node "required_parameter" none 2 [element]]

def block : List Node → Node := node "statement_block" (some "body") 2

/-- The function inside, with these statements. -/
def inner (statements : List Node) : Node :=
  node "function_declaration" none 2 [parameters, block statements]

def outer (statements : List Node) : Node :=
  node "function_declaration" none 2 [block [inner statements]]

theorem owner_cases {g : Node} (h : Node.Owner (outer []) g) : g = outer [] ∨ g = inner [] := by
  cases h with
  | self => exact .inl rfl
  | inner hbody hg hf =>
    cases hbody
    right
    -- of the six nodes below only one is a function
    cases hg with
    | here => cases hf
    | down hc hg =>
      cases List.mem_singleton.mp hc
      cases hg with
      | here => rfl
      | down hc hg =>
        rcases List.mem_pair.mp hc with rfl | rfl
        · cases hg with
          | here => cases hf
          | down hc hg =>
            cases List.mem_singleton.mp hc
            cases hg with
            | here => cases hf
            | down hc hg =>
              cases List.mem_singleton.mp hc
              cases hg with
              | here => cases hf
              | down hc _ => cases hc
        · cases hg with
          | here => cases hf
          | down hc _ => cases hc

theorem uncurried_outer : (outer []).Uncurried := by
  intro g body hg hbody
  rcases owner_cases hg with rfl | rfl <;> cases hbody <;> decide

theorem strict_plain_of_owner {g : Node} (h : Node.Owner (outer []) g) :
    g.classify true = .plain := by
  rcases owner_cases h with rfl | rfl
  · decide +kernel
  · decide +kernel

end DefaultValue

/-- Markup in the body of the function inside is kept, whatever stands in its parameters. Without it
the markup in the parameters is astray. -/
theorem Node.strict_markup_owned_unless_astray_inner :
    (DefaultValue.outer [DefaultValue.element]).classify false = .markup ∧
      (∃ g, Owner (DefaultValue.outer [DefaultValue.element]) g ∧ g.classify true = .markup) ∧
      (DefaultValue.outer []).Uncurried ∧ (DefaultValue.outer []).Astray := by
  let element := DefaultValue.element
  let block := DefaultValue.block [element]
  let inner := DefaultValue.inner [element]
  have hlax : (DefaultValue.outer [element]).classify false = .markup := by decide +kernel
  have h := (strict_markup_owned_unless_astray (DefaultValue.outer [element]) hlax).1
  refine ⟨hlax, h.resolve_right fun hastray => ?_, DefaultValue.uncurried_outer, ?_⟩
  · have hpath : Leads (DefaultValue.block [inner]) [inner, block, element] element :=
      .down List.mem_cons_self (.down (List.mem_cons_of_mem _ List.mem_cons_self)
        (.down List.mem_cons_self (.here element)))
    have hfree : ∀ p ∈ [block, element], p.isFunction = false := by
      intro p hp
      rcases List.mem_pair.mp hp with rfl | rfl <;> decide
    have hstrays := hastray.2 _ ⟨_, element, rfl, hpath, by decide⟩
    exact not_strays_of_body [] (by decide) rfl hfree hstrays
  · by_contra hkept
    have hlax : (DefaultValue.outer []).classify false = .markup := by decide +kernel
    have hlost := (strict_markup_owned_unless_astray (DefaultValue.outer []) hlax).2
      DefaultValue.uncurried_outer
    obtain ⟨g, hg, hmarkup⟩ := hlost.mpr hkept
    rw [DefaultValue.strict_plain_of_owner hg] at hmarkup
    cases hmarkup

/-- The only markup is the default of a parameter inside: it marks the function around it, and in
the stricter mode neither of the two. -/
theorem Node.strict_markup_lost_in_default :
    (DefaultValue.outer []).isFunction = true ∧
      (DefaultValue.outer []).classify false = .markup ∧
      ∀ g, Owner (DefaultValue.outer []) g → g.classify true = .plain := by
  exact ⟨by decide, by decide +kernel, fun g hg => DefaultValue.strict_plain_of_owner hg⟩

end MarkupTally
