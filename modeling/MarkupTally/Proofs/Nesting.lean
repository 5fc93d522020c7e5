import Mathlib.Data.List.Forall2
import MarkupTally.Proofs.Runs
import MarkupTally.Proofs.Tally
import MarkupTally.Proofs.Verdict

/-! Counting with and without markup of nested functions. The stricter search follows fewer paths,
so it can only turn a verdict from markup to plain, and only for a function with another one inside;
the functions themselves, and how many there are, stay the same from a text up to a whole run. -/
namespace MarkupTally

namespace Node

variable {n m : Node}

theorem Leads.trans {k : Node} {path more : List Node} (h : Leads n path m) (hk : Leads m more k) :
    Leads n (path ++ more) k := by
  induction h with
  | here => exact hk
  | down hc _ ih => exact .down hc (ih hk)

/-- A path leads to each of its nodes. -/
theorem Leads.to_mem {path : List Node} (h : Leads n path m) {p : Node} (hp : p ∈ path) :
    ∃ part, part ≠ [] ∧ Leads n part p := by
  induction h with
  | here => cases hp
  | @down n c m path hc _ ih =>
    rcases List.mem_cons.mp hp with rfl | hp
    · exact ⟨[p], List.cons_ne_nil _ _, .down hc (.here p)⟩
    · obtain ⟨part, -, hpart⟩ := ih hp
      exact ⟨c :: part, List.cons_ne_nil _ _, .down hc hpart⟩

/-- The body of a function has no function below it. -/
def BodyFree (n : Node) : Prop :=
  ∀ body, n.body? = some body → ∀ path m, Leads body path m → path ≠ [] → m.isFunction = false

theorem containsMarkup_of_strict (h : n.containsMarkup true = true) :
    n.containsMarkup false = true := by
  rw [containsMarkup_iff_leads] at h ⊢
  obtain ⟨body, hbody, path, m, hpath, hm, -⟩ := h
  exact ⟨body, hbody, path, m, hpath, hm, by simp⟩

theorem containsMarkup_eq_of_bodyFree (h : n.BodyFree) :
    n.containsMarkup true = n.containsMarkup false := by
  rw [Bool.eq_iff_iff]
  refine ⟨containsMarkup_of_strict, fun hlax => ?_⟩
  rw [containsMarkup_iff_leads] at hlax ⊢
  obtain ⟨body, hbody, path, m, hpath, hm, -⟩ := hlax
  refine ⟨body, hbody, path, m, hpath, hm, fun _ p hp => ?_⟩
  obtain ⟨part, hne, hpart⟩ := hpath.to_mem hp
  exact h body hbody part p hpart hne

/-- Markup of a function inside is markup in the body around it. -/
theorem containsMarkup_of_inner {body : Node} {path : List Node} (hbody : n.body? = some body)
    (hpath : Leads body path m) (hm : m.containsMarkup false = true) :
    n.containsMarkup false = true := by
  rw [containsMarkup_iff_leads] at hm ⊢
  obtain ⟨inner, hinner, more, k, hmore, hk, -⟩ := hm
  have hchild : inner ∈ m.children := List.mem_of_find?_eq_some hinner
  exact ⟨body, hbody, _, k, hpath.trans (.down hchild hmore), hk, by simp⟩

end Node

/-- The second facts are of the same function, and call it markup only if the first do. -/
structure FunctionFacts.Narrows (a b : FunctionFacts) : Prop where
  same : b = { a with classification := b.classification }
  verdict : b.classification = .markup → a.classification = .markup
  direct : a.returnsMarkup = true → b.classification = a.classification

structure FileFacts.Narrows (a b : FileFacts) : Prop where
  same : b = { a with functions := b.functions }
  functions : List.Forall₂ FunctionFacts.Narrows a.functions b.functions

theorem FileFacts.Narrows.error_eq {a b : FileFacts} (h : a.Narrows b) : b.error = a.error := by
  rw [h.same]

section Counts

variable {files others : List FileFacts}

theorem narrows_filter (h : List.Forall₂ FileFacts.Narrows files others) :
    List.Forall₂ FileFacts.Narrows (files.filter fun f => f.error.isNone)
      (others.filter fun f => f.error.isNone) := by
  refine List.rel_filter (fun a b hab => ?_) h
  show a.error.isNone = true ↔ b.error.isNone = true
  rw [hab.error_eq]

theorem narrows_countedFunctions (h : List.Forall₂ FileFacts.Narrows files others) :
    List.Forall₂ FunctionFacts.Narrows (countedFunctions files) (countedFunctions others) :=
  List.rel_flatMap (narrows_filter h) fun _ _ hab => hab.functions

theorem countP_markup_le {fns gns : List FunctionFacts}
    (h : List.Forall₂ FunctionFacts.Narrows fns gns) :
    gns.countP (fun fn => fn.classification = .markup) ≤
      fns.countP (fun fn => fn.classification = .markup) := by
  induction h with
  | nil => exact Nat.le_refl _
  | @cons a b fns gns hab _ ih =>
    rw [List.countP_cons, List.countP_cons]
    by_cases hb : b.classification = .markup
    · simp [hb, hab.verdict hb, ih]
    · simp only [hb, decide_false, Bool.false_eq_true, if_false]
      omega

/-- The files and functions of a run are as many as before, and no more of them are markup. -/
theorem tally_narrows (root : String) (h : List.Forall₂ FileFacts.Narrows files others) :
    (Report.tally root others).total = (Report.tally root files).total ∧
    (Report.tally root others).filesAnalyzed = (Report.tally root files).filesAnalyzed ∧
    (Report.tally root others).markupCount ≤ (Report.tally root files).markupCount := by
  have hfns := narrows_countedFunctions h
  have htotal (fs : List FileFacts) :
      (Report.tally root fs).total = (countedFunctions fs).length := by
    rw [← Report.classified_add]
    simp [Report.total, Report.tally]
  refine ⟨?_, ?_, ?_⟩
  · rw [htotal, htotal, hfns.length_eq]
  · simp only [Report.tally, List.countP_eq_length_filter, (narrows_filter h).length_eq]
  · exact Int.ofNat_le.mpr (countP_markup_le hfns)

end Counts

namespace Analysis

/-- Two ways of counting a file: they fail alike, or the second narrows the facts of the first. -/
inductive Narrowed : Except Abort FileFacts → Except Abort FileFacts → Prop where
  | failed (a : Abort) : Narrowed (.error a) (.error a)
  | counted {f g : FileFacts} (h : f.Narrows g) : Narrowed (.ok f) (.ok g)

theorem functionFacts_narrows (bytes : List UInt8) (o : Options) (f : FunctionSite) :
    (functionFacts bytes { o with excludeNested := false } f).Narrows
      (functionFacts bytes { o with excludeNested := true } f) := by
  refine ⟨rfl, ?_, ?_⟩
  · intro h
    have hstrict := (Node.classify_eq_markup_iff true f.site.node).mp h
    exact (Node.classify_eq_markup_iff false _).mpr (Node.containsMarkup_of_strict hstrict)
  · intro h
    have hboth (e : Bool) : f.site.node.classify e = .markup :=
      (Node.classify_eq_markup_iff e _).mpr (Node.containsMarkup_of_returnsMarkup e h)
    exact (hboth true).trans (hboth false).symm

variable (g : Grammar) (v : Volume) (o : Options)

/-- Both ways of counting a text fail alike, or enumerate the same functions. -/
theorem source_both (text path language relPath : String) :
    (∃ a, ∀ e,
      (source g text path language relPath { o with excludeNested := e }).value = .error a) ∨
    ∃ root fs, (tree g text path language o.strict).value = .ok root ∧
      root.functions (Utf8.encode text) o.topLevelOnly = .ok fs ∧
      ∀ e, (source g text path language relPath { o with excludeNested := e }).value = .ok
        { path, relPath := if relPath = "" then path else relPath, language,
          functions :=
            fs.map (functionFacts (Utf8.encode text) { o with excludeNested := e }) } := by
  cases hroot : (tree g text path language o.strict).value with
  | error a => exact .inl ⟨a, fun e => by simp only [source, hroot]⟩
  | ok root =>
    have hcounted (e : Bool) := source_value_eq relPath
      (show (tree g text path language { o with excludeNested := e }.strict).value = .ok root
        from hroot)
    cases hfs : root.functions (Utf8.encode text) o.topLevelOnly with
    | error a => exact .inl ⟨a, fun e => (hcounted e).trans (congrArg _ hfs)⟩
    | ok fs => exact .inr ⟨root, fs, rfl, hfs, fun e => (hcounted e).trans (congrArg _ hfs)⟩

theorem source_narrowed (text path language relPath : String) :
    Narrowed (source g text path language relPath { o with excludeNested := false }).value
      (source g text path language relPath { o with excludeNested := true }).value := by
  rcases source_both g o text path language relPath with ⟨a, h⟩ | ⟨root, fs, -, -, h⟩
  · rw [h, h]
    exact .failed a
  · rw [h, h]
    refine .counted ⟨rfl, ?_⟩
    rw [List.forall₂_map_left_iff, List.forall₂_map_right_iff, List.forall₂_same]
    exact fun f _ => functionFacts_narrows _ o f

theorem file_narrowed (info : FileInfo) :
    Narrowed (file g v info { o with excludeNested := false }).value
      (file g v info { o with excludeNested := true }).value := by
  unfold file
  cases fileText v info.path with
  | error a => exact .failed a
  | ok text => exact source_narrowed g o text info.path info.language info.relPath

theorem fileOrSkip_narrowed (info : FileInfo) :
    Narrowed (fileOrSkip g v { o with excludeNested := false } info).value
      (fileOrSkip g v { o with excludeNested := true } info).value := by
  have h := file_narrowed g v o info
  unfold fileOrSkip
  generalize file g v info { o with excludeNested := false } = lax at h ⊢
  generalize file g v info { o with excludeNested := true } = strict at h ⊢
  obtain ⟨laxLog, laxValue⟩ := lax
  obtain ⟨strictLog, strictValue⟩ := strict
  cases h with
  | counted hfg => exact .counted hfg
  | failed a =>
    cases a with
    | census e =>
      dsimp only
      cases o.skipInvalid with
      | false => exact .failed _
      | true =>
        cases e.reason? with
        | none => exact .failed _
        | some reason => exact .counted ⟨rfl, .nil⟩
    | unsupported | notFunction | badName | badPath => exact .failed _

section Runs

variable {g v o} {value other : FileInfo → Except Abort FileFacts} {files : List FileInfo}

theorem facts_narrowed (h : ∀ info, Narrowed (value info) (other info)) {facts : List FileFacts}
    (hfacts : files.map value = facts.map .ok) :
    ∃ narrow, files.map other = narrow.map .ok ∧ List.Forall₂ FileFacts.Narrows facts narrow := by
  induction files generalizing facts with
  | nil =>
    cases List.map_eq_nil_iff.mp hfacts.symm
    exact ⟨[], rfl, .nil⟩
  | cons info files ih =>
    cases facts with
    | nil => cases hfacts
    | cons f facts =>
      obtain ⟨hf, hrest⟩ := List.cons.inj hfacts
      obtain ⟨narrow, hnarrow, hall⟩ := ih hrest
      have hinfo := h info
      rw [hf] at hinfo
      generalize hg : other info = result at hinfo
      cases hinfo with
      | counted hfg => exact ⟨_ :: narrow, by rw [List.map_cons, hg, hnarrow]; rfl, .cons hfg hall⟩

variable (g v files o) (root : String)

/-- Two runs over the same files end with the same failure, or with facts of which the second
narrow the first. -/
theorem paths_narrowed :
    let lax := (paths g v files { o with excludeNested := false } root).result
    let strict := (paths g v files { o with excludeNested := true } root).result
    (∃ a, lax = .error a ∧ strict = .error a) ∨
    ∃ c d, lax = .ok c ∧ strict = .ok d ∧ List.Forall₂ FileFacts.Narrows c.files d.files ∧
      c.report = Report.tally root c.files ∧ d.report = Report.tally root d.files := by
  intro lax strict
  have hfiles := fileOrSkip_narrowed g v o
  have hstrict := ends_paths g v files { o with excludeNested := true } root
  cases ends_paths g v files { o with excludeNested := false } root with
  | counted facts hfacts _ hresult =>
    obtain ⟨narrow, hnarrow, hall⟩ := facts_narrowed hfiles hfacts
    exact .inr ⟨_, _, hresult, hstrict.result_eq hnarrow, hall,
      Report.foldl_addFile_root root facts, Report.foldl_addFile_root root narrow⟩
  | failed before after info facts a hsplit hfacts hinfo _ hresult =>
    obtain ⟨narrow, hnarrow, -⟩ := facts_narrowed hfiles hfacts
    have hfails : (fileOrSkip g v { o with excludeNested := true } info).value = .error a := by
      have hboth := hfiles info
      rw [hinfo] at hboth
      generalize (fileOrSkip g v { o with excludeNested := true } info).value = result at hboth ⊢
      cases hboth
      rfl
    exact .inl ⟨a, hresult, hstrict.result_error hsplit hnarrow hfails⟩

end Runs

/-- Leaving out the markup of nested functions changes no function that is counted, and of the
verdicts only some from markup to plain: none on a function that returns markup directly, and none
on a function whose body has no other one below it. A run counts as many files and functions, and no
more of them as markup. Counted in full, a function around one that makes markup makes markup. -/
theorem excludeNested_narrows_counts (g : Grammar) (o : Options) :
    (∀ text path language relPath : String,
      let lax := (source g text path language relPath { o with excludeNested := false }).value
      let strict := (source g text path language relPath { o with excludeNested := true }).value
      (∃ a, lax = .error a ∧ strict = .error a) ∨
      ∃ root c d, (tree g text path language o.strict).value = .ok root ∧ lax = .ok c ∧
        strict = .ok d ∧ c.functions.length = (root.functionSites o.topLevelOnly).length ∧
        d.functions.length = c.functions.length ∧
        ∀ (i : Nat) (s : Site), (root.functionSites o.topLevelOnly)[i]? = some s →
          ∃ a b, c.functions[i]? = some a ∧ d.functions[i]? = some b ∧ a.Narrows b ∧
            (s.node.BodyFree → b.classification = a.classification)) ∧
    (∀ (v : Volume) (files : List FileInfo) (root : String),
      let lax := (paths g v files { o with excludeNested := false } root).result
      let strict := (paths g v files { o with excludeNested := true } root).result
      (∃ a, lax = .error a ∧ strict = .error a) ∨
      ∃ c d, lax = .ok c ∧ strict = .ok d ∧ d.report.total = c.report.total ∧
        d.report.filesAnalyzed = c.report.filesAnalyzed ∧
        d.report.markupCount ≤ c.report.markupCount) ∧
    ∀ (f body inner : Node) (path : List Node), f.body? = some body → Node.Leads body path inner →
      inner.classify false = .markup → f.classify false = .markup := by
  refine ⟨?_, ?_, ?_⟩
  · intro text path language relPath lax strict
    rcases source_both g o text path language relPath with ⟨a, h⟩ | ⟨root, fs, hroot, hfs, h⟩
    · exact .inl ⟨a, h false, h true⟩
    · have hsites := Node.map_site_functions hfs
      refine .inr ⟨root, _, _, hroot, h false, h true, by simp [← hsites], by simp, ?_⟩
      intro i s hs
      rw [← hsites, List.getElem?_map] at hs
      obtain ⟨f, hf, rfl⟩ := Option.map_eq_some_iff.mp hs
      refine ⟨_, _, by rw [List.getElem?_map, hf]; rfl, by rw [List.getElem?_map, hf]; rfl,
        functionFacts_narrows _ o f, fun hfree => ?_⟩
      simp only [functionFacts, Node.classify_eq_ite, Node.containsMarkup_eq_of_bodyFree hfree]
  · intro v files root
    rcases paths_narrowed g v o files root with h | ⟨c, d, hc, hd, hall, hcreport, hdreport⟩
    · exact .inl h
    · refine .inr ⟨c, d, hc, hd, ?_⟩
      rw [hcreport, hdreport]
      exact tally_narrows root hall
  · intro f body inner path hbody hpath hinner
    rw [Node.classify_eq_markup_iff] at hinner ⊢
    exact Node.containsMarkup_of_inner hbody hpath hinner

/-- The verdict on a function that makes no markup of its own does change. -/
theorem excludeNested_narrows_counts_wrapper :
    Inner.wrapper.classify false = .markup ∧ Inner.wrapper.classify true = .plain := by
  have hinner : Inner.component.classify false = .markup :=
    (Node.classify_eq_markup_iff false _).mpr
      (Node.containsMarkup_of_returnsMarkup false (by decide))
  have hpath : Node.Leads Inner.block [Inner.component] Inner.component :=
    .down (List.mem_singleton_self _) (.here _)
  have h := (excludeNested_narrows_counts (fun _ _ => Inner.program) {}).2.2
  refine ⟨h Inner.wrapper Inner.block Inner.component [Inner.component] rfl hpath hinner, ?_⟩
  have hbody : Inner.wrapper.body? = some Inner.block := rfl
  let start := Site.root Inner.block
  let inside : Site := ⟨some Inner.block, 0, Inner.component⟩
  have hturn : Walk.rest (Node.markupVisit true start) start [] = [inside] := rfl
  have hpruned : Walk.rest (Node.markupVisit true inside) inside [] = [] := rfl
  have hnone : Walk.first? (Node.markupVisit true) [start] = none := by
    rw [Walk.first?, hturn, Walk.first?, hpruned, Walk.first?]
    rfl
  have hstrict : Inner.wrapper.containsMarkup true = false := by
    simp only [Node.containsMarkup, hbody]
    exact congrArg Option.isSome hnone
  rw [Node.classify_eq_ite, hstrict]
  rfl

end Analysis

end MarkupTally
