import MarkupTally.Proofs.Places
import MarkupTally.Proofs.Strictness

/-! The first error of a tree. The search enters only nodes that are flagged as holding an error,
and it stops at the first error that it gets to. Where the flags tell the truth no error lies below
a node without a flag, so nothing is missed, and whoever reports an error can say where it is. -/
namespace MarkupTally

namespace Site

variable {s : Site} {P Q : Address → Site → Prop} {r : Option Node}

/-- The first node in document order, at or below `s`, that satisfies `P`; nothing if none does. -/
inductive First (s : Site) (P : Address → Site → Prop) : Option Node → Prop where
  | nothing (h : ∀ a t, s.at? a = some t → ¬P a t) : First s P none
  | found {a : Address} {t : Site} (ht : s.at? a = some t) (hP : P a t)
      (hfirst : ∀ b u, s.at? b = some u → P b u → ¬b < a) : First s P (some t.node)

theorem First.unique {r' : Option Node} (h : s.First P r) (h' : s.First P r') : r = r' := by
  cases h with
  | nothing hnone =>
    cases h' with
    | nothing => rfl
    | found ht hP _ => exact absurd hP (hnone _ _ ht)
  | @found a t ht hP hfirst =>
    cases h' with
    | nothing hnone => exact absurd hP (hnone _ _ ht)
    | @found b u hu hQ hfirst' =>
      have hab : a = b :=
        List.le_antisymm (List.not_lt.mp (hfirst b u hu hQ)) (List.not_lt.mp (hfirst' a t ht hP))
      subst hab
      have htu : t = u := Option.some.inj (ht.symm.trans hu)
      rw [htu]

theorem Lists.first {sites : List Site} (h : s.Lists P sites) :
    s.First P (sites.head?.map Site.node) := by
  obtain ⟨placed, rfl, horder, hmem⟩ := h
  cases placed with
  | nil =>
    apply First.nothing
    intro a t ht hP
    have hin := (hmem a t).mpr ⟨ht, hP⟩
    cases hin
  | cons p placed =>
    obtain ⟨a, t⟩ := p
    have hbefore := (List.pairwise_cons.mp horder).1
    have hp := (hmem a t).mp List.mem_cons_self
    refine First.found hp.1 hp.2 ?_
    intro b u hu hQ
    have hin := (hmem b u).mpr ⟨hu, hQ⟩
    rcases List.mem_cons.mp hin with heq | hin
    · cases heq
      exact List.lt_irrefl a
    · exact List.lt_asymm (hbefore _ hin)

/-- The first one stays the first when others are added that do not come before all of them. -/
theorem First.of_cover (h : s.First P r) (hPQ : ∀ a t, s.at? a = some t → P a t → Q a t)
    (hcover : ∀ b u, s.at? b = some u → Q b u → ∃ a t, ¬b < a ∧ s.at? a = some t ∧ P a t) :
    s.First Q r := by
  cases h with
  | nothing hnone =>
    apply First.nothing
    intro b u hu hQ
    obtain ⟨a, t, -, ht, hP⟩ := hcover b u hu hQ
    exact hnone a t ht hP
  | @found a t ht hP hfirst =>
    refine First.found ht (hPQ a t ht hP) ?_
    intro b u hu hQ
    obtain ⟨c, w, hcb, hw, hPw⟩ := hcover b u hu hQ
    have hac : ¬c < a := hfirst c w hw hPw
    exact List.not_lt.mpr (List.le_trans (List.not_lt.mp hac) (List.not_lt.mp hcb))

/-- Of the sites with a property on the way down to an address, one stands above all others. -/
theorem exists_outermost {R : Site → Prop} {a : Address} {t : Site} (ht : s.at? a = some t)
    (hR : R t) : ∃ b u, b <+: a ∧ s.at? b = some u ∧ R u ∧ ∀ w, s.Above b w → ¬R w := by
  induction a generalizing s with
  | nil => exact ⟨[], t, List.prefix_refl [], ht, hR, fun w hw => absurd hw (not_above_nil s w)⟩
  | cons i a ih =>
    by_cases hs : R s
    · exact ⟨[], s, List.nil_prefix, rfl, hs, fun w hw => absurd hw (not_above_nil s w)⟩
    · obtain ⟨c, hc, ht⟩ := at?_cons_eq_some_iff.mp ht
      obtain ⟨b, u, hb, hu, hRu, habove⟩ := ih ht
      have hprefix : i :: b <+: i :: a := List.cons_prefix_cons.mpr ⟨rfl, hb⟩
      refine ⟨i :: b, u, hprefix, at?_cons_eq_some_iff.mpr ⟨c, hc, hu⟩, hRu, ?_⟩
      intro w hw
      rcases above_cons_iff.mp hw with rfl | ⟨d, hd, hw⟩
      · exact hs
      · cases hc.symm.trans hd
        exact habove w hw

end Site

namespace Node

/-- The node stands for an error itself. -/
def IsFault (n : Node) : Prop := n.kind = "ERROR" ∨ n.info.missing = true

instance (n : Node) : Decidable n.IsFault := inferInstanceAs (Decidable (_ ∨ _))

/-- A node is flagged as holding an error exactly if it does. -/
def Truthful (root : Node) : Prop :=
  ∀ a t, (Site.root root).at? a = some t →
    (t.node.info.faulty = true ↔ ∃ b u, t.at? b = some u ∧ u.node.IsFault)

theorem matched_faultVisit_iff (s : Site) :
    (faultVisit s).matched = true ↔ s.node.IsFault := by
  unfold faultVisit IsFault
  split
  · simp_all [Visit.matched]
  · split <;> simp_all [Visit.matched]

theorem descends_faultVisit_iff (s : Site) :
    (faultVisit s).descends = true ↔ ¬s.node.IsFault ∧ s.node.info.faulty = true := by
  unfold faultVisit IsFault
  split
  · simp_all [Visit.descends]
  · split <;> simp_all [Visit.descends]

/-- The search gives the first of the errors that lie below no other one. -/
theorem first_outermost_firstFault? (root : Node) :
    (Site.root root).First
      (fun a t => (∀ u, (Site.root root).Above a u → ¬u.node.IsFault ∧ u.node.info.faulty = true) ∧
        t.node.IsFault) root.firstFault? := by
  let start := Site.root root
  have hlists := (Walk.lists_preorder faultVisit start).filter fun t => (faultVisit t).matched
  have hhead : root.firstFault? =
      (((Walk.preorder faultVisit start).filter fun t => (faultVisit t).matched).head?).map
        Site.node := by
    rw [firstFault?, Walk.first?_eq_find?, Walk.remaining_singleton, List.head?_filter]
  rw [hhead]
  refine (hlists.congr fun a t => ?_).first
  simp only [descends_faultVisit_iff, matched_faultVisit_iff, start]

/-- Errors below other errors come later in the document, so the search need not look for them. -/
theorem first_firstFault? (root : Node) :
    (Site.root root).First
      (fun a t => t.node.IsFault ∧
        ∀ u, (Site.root root).Above a u → u.node.info.faulty = true) root.firstFault? := by
  apply (first_outermost_firstFault? root).of_cover
  · intro a t _ hP
    exact ⟨hP.2, fun u hu => (hP.1 u hu).2⟩
  · intro b u hu hQ
    obtain ⟨hfault, hflags⟩ := hQ
    obtain ⟨a, t, hab, ht, htfault, hnone⟩ :=
      Site.exists_outermost (R := fun w => w.node.IsFault) hu hfault
    refine ⟨a, t, List.not_lt.mpr hab.le, ht, ?_, htfault⟩
    intro w hw
    exact ⟨hnone w hw, hflags w (hw.of_prefix hab)⟩

theorem Truthful.first {root : Node} (h : root.Truthful) :
    (Site.root root).First (fun _ t => t.node.IsFault) root.firstFault? := by
  apply (first_firstFault? root).of_cover
  · intro a t _ hP
    exact hP.1
  · intro b u hu hfault
    refine ⟨b, u, List.lt_irrefl b, hu, hfault, ?_⟩
    intro w hw
    obtain ⟨a, hw, c, hu⟩ := hw.exists_at? hu
    exact (h a w hw).mpr ⟨c, u, hu, hfault⟩

/-- Looking at every node of the tree gives the first error of the tree. -/
theorem first_find? (root : Node) :
    (Site.root root).First (fun _ t => t.node.IsFault)
      (((Walk.preorder (fun _ => .follow) (Site.root root)).find? fun t => t.node.IsFault).map
        Site.node) := by
  have hlists := (Walk.lists_preorder (fun _ => .follow) (Site.root root)).filter
    fun t => decide t.node.IsFault
  rw [← List.head?_filter]
  refine (hlists.congr fun a t => ?_).first
  simp [Visit.descends]

theorem Truthful.firstFault?_eq_none_iff {root : Node} (h : root.Truthful) :
    root.firstFault? = none ↔ root.info.faulty = false := by
  have hroot := h [] (Site.root root) rfl
  have hfirst := h.first
  generalize root.firstFault? = found at hfirst ⊢
  cases hfirst with
  | nothing hnone =>
    have hclean : root.info.faulty ≠ true := by
      intro hf
      obtain ⟨b, u, hu, hfault⟩ := hroot.mp hf
      exact hnone b u hu hfault
    simpa using hclean
  | found ht hfault _ =>
    have hf : root.info.faulty = true := hroot.mpr ⟨_, _, ht, hfault⟩
    simp [hf]

end Node

namespace Analysis

variable {g : Grammar} {text : String} {l : Language}

/-- A text whose tree tells the truth about its errors is refused, or warned about, with a place. -/
theorem tree_of_truthful (path : String) (h : (g l text).Truthful)
    (hf : (g l text).info.faulty = true) :
    ∃ n, (g l text).firstFault? = some n ∧
      tree g text path l.name true = .pure (.error (.census (.badSource path
        (some (Int.ofNat n.line)) (some (Int.ofNat (n.charColumn (Utf8.encode text))))))) ∧
      tree g text path l.name false =
        ⟨[warning path (some (n.line, n.charColumn (Utf8.encode text)))], .ok (g l text)⟩ := by
  cases hfirst : (g l text).firstFault? with
  | none =>
    have hclean := h.firstFault?_eq_none_iff.mp hfirst
    rw [hf] at hclean
    cases hclean
  | some n =>
    have hplace : faultPlace (Utf8.encode text) (g l text) =
        some (n.line, n.charColumn (Utf8.encode text)) := by
      rw [faultPlace, hfirst]
      rfl
    refine ⟨n, rfl, ?_, ?_⟩
    · rw [tree_strict g text path hf, hplace]
      rfl
    · rw [tree_lax g text path hf, hplace]

/-- The search for an error gives the first error in document order that has only flagged nodes
above it. If the flags of the tree tell the truth, that is the first error of the whole tree, there
is one exactly if the root is flagged, and a text that is refused or warned about comes with the
line and the column of that error, both counted from one. -/
theorem firstFault_first_in_document (root : Node) :
    (Site.root root).First
      (fun a t => (t.node.kind = "ERROR" ∨ t.node.info.missing = true) ∧
        ∀ u, (Site.root root).Above a u → u.node.info.faulty = true) root.firstFault? ∧
    (root.Truthful →
      root.firstFault? = ((Walk.preorder (fun _ => .follow) (Site.root root)).find?
        fun t => t.node.kind = "ERROR" ∨ t.node.info.missing = true).map Site.node ∧
      (Site.root root).First (fun _ t => t.node.kind = "ERROR" ∨ t.node.info.missing = true)
        root.firstFault? ∧
      (root.firstFault? = none ↔ root.info.faulty = false) ∧
      ∀ (g : Grammar) (text path : String) (l : Language), g l text = root →
        let strict := tree g text path l.name true
        let lax := tree g text path l.name false
        (root.info.faulty = false ∧ strict = .pure (.ok root) ∧ lax = .pure (.ok root)) ∨
        ∃ n, root.firstFault? = some n ∧ 1 ≤ n.line ∧ 1 ≤ n.charColumn (Utf8.encode text) ∧
          strict = .pure (.error (.census (.badSource path
            (some (Int.ofNat n.line)) (some (Int.ofNat (n.charColumn (Utf8.encode text))))))) ∧
          lax =
            ⟨[warning path (some (n.line, n.charColumn (Utf8.encode text)))], .ok root⟩) := by
  refine ⟨root.first_firstFault?, fun h => ⟨h.first.unique root.first_find?, h.first,
    h.firstFault?_eq_none_iff, ?_⟩⟩
  intro g text path l hroot strict lax
  subst hroot
  cases hf : (g l text).info.faulty with
  | false => exact .inl ⟨rfl, tree_clean g text path hf true, tree_clean g text path hf false⟩
  | true =>
    obtain ⟨n, hn, hstrict, hlax⟩ := tree_of_truthful path h hf
    have hline : 1 ≤ n.line := Nat.le_add_left 1 _
    have hcolumn : 1 ≤ n.charColumn (Utf8.encode text) := Nat.le_add_left 1 _
    exact .inr ⟨n, hn, hline, hcolumn, hstrict, hlax⟩

/-! A call that is never closed. The name of the called function is read without an error, and the
closing bracket is made up behind a character of two bytes. -/
namespace Unclosed

def node (kind : String) (start : Nat) (missing faulty : Bool) : List Node → Node :=
  .mk { id := 0, kind, start, stop := start, row := 0, column := start, missing, faulty }

def name : Node := node "identifier" 0 false false []

def bracket : Node := node ")" 3 true true []

def program : Node := node "program" 0 false true [name, bracket]

theorem truthful_leaf {s t : Site} {a : Address} (hs : s.node.children = []) (ht : s.at? a = some t)
    (h : s.node.info.faulty = true ↔ s.node.IsFault) :
    t.node.info.faulty = true ↔ ∃ b u, t.at? b = some u ∧ u.node.IsFault := by
  have hnone (i : Nat) (b : Address) : s.at? (i :: b) = none := by
    simp [Site.at?, Site.children, hs]
  cases a with
  | cons i a =>
    rw [hnone] at ht
    cases ht
  | nil =>
    cases ht
    rw [h]
    constructor
    · intro hfault
      exact ⟨[], s, rfl, hfault⟩
    · rintro ⟨b, u, hu, hfault⟩
      cases b with
      | nil => cases hu; exact hfault
      | cons i b =>
        rw [hnone] at hu
        cases hu

theorem truthful_program : program.Truthful := by
  intro a t ht
  cases a with
  | nil =>
    cases ht
    exact ⟨fun _ => ⟨[1], ⟨some program, 1, bracket⟩, rfl, .inr rfl⟩, fun _ => rfl⟩
  | cons i a =>
    obtain ⟨c, hc, ht⟩ := Site.at?_cons_eq_some_iff.mp ht
    have hcs : c ∈ [⟨some program, 0, name⟩, ⟨some program, 1, bracket⟩] := List.mem_of_getElem? hc
    rcases List.mem_pair.mp hcs with rfl | rfl
    · exact truthful_leaf rfl ht (by decide)
    · exact truthful_leaf rfl ht (by decide)

end Unclosed

/-- The bracket stands in the third column, though three bytes are in front of it. -/
theorem firstFault_first_in_document_unclosed :
    Unclosed.program.Truthful ∧
      tree (fun _ _ => Unclosed.program) "é(" "a.ts" Language.typescript.name true =
        .pure (.error (.census (.badSource "a.ts" (some 1) (some 3)))) := by
  have hfirst : Unclosed.program.firstFault? = some Unclosed.bracket := by
    with_unfolding_all rfl
  have h := (firstFault_first_in_document Unclosed.program).2 Unclosed.truthful_program
  obtain ⟨hclean, -⟩ | ⟨n, hn, -, -, hstrict, -⟩ :=
    h.2.2.2 (fun _ _ => Unclosed.program) "é(" "a.ts" .typescript rfl
  · cases hclean
  · refine ⟨Unclosed.truthful_program, ?_⟩
    rw [hfirst] at hn
    cases hn
    have hcolumn : Unclosed.bracket.charColumn (Utf8.encode "é(") = 3 := by decide +kernel
    rw [hstrict, hcolumn]
    rfl

end Analysis

end MarkupTally
