import MarkupTally.Analysis
import MarkupTally.Proofs.Preorder

/-! The functions of a tree, one after the other. The enumeration misses none and repeats none; the
one that stays at the top level leaves out exactly what is inside another function, and what it
leaves out stands in the full enumeration right after the function around it. -/
namespace MarkupTally

open Walk

namespace Walk

theorem preorder_congr {visit other : Site → Visit}
    (h : ∀ s, (visit s).descends = (other s).descends) (s : Site) :
    preorder visit s = preorder other s := by
  induction s using Site.below_induction with
  | h s ih =>
    rw [preorder_eq, preorder_eq, h s]
    split
    · rw [List.flatMap_congr ih]
    · rfl

end Walk

namespace Site

/-- Everything below a site, in document order. -/
def descendants (s : Site) : List Site := s.children.flatMap (preorder fun _ => .follow)

theorem preorder_follow_eq (s : Site) : preorder (fun _ => .follow) s = s :: s.descendants := by
  rw [preorder_eq]
  rfl

theorem lists_descendants (s : Site) : s.Lists (fun a _ => a ≠ []) s.descendants := by
  obtain ⟨tail, htail⟩ : ∃ tail, placed (fun _ => .follow) s = ([], s) :: tail :=
    ⟨_, placed_eq _ s⟩
  have hsites : (([], s) :: tail).map Prod.snd = s :: s.descendants := by
    rw [← htail, map_snd_placed, preorder_follow_eq]
  have horder : (([], s) :: tail).Pairwise fun p q => p.1 < q.1 := htail ▸ pairwise_placed s
  obtain ⟨hfirst, horder⟩ := List.pairwise_cons.mp horder
  refine ⟨tail, (List.cons.inj hsites).2, horder, fun a t => ?_⟩
  -- the address of the site itself is the smallest one
  have hne : (a, t) ∈ tail → a ≠ [] := by
    rintro hmem rfl
    exact List.not_lt_nil [] (hfirst _ hmem)
  have hmem : (a, t) ∈ ([], s) :: tail ↔ s.at? a = some t := by
    rw [← htail, mem_placed_iff]
    simp [Visit.descends]
  rw [← hmem, List.mem_cons, Prod.mk.injEq]
  constructor
  · intro h
    exact ⟨.inr h, hne h⟩
  · rintro ⟨⟨h, -⟩ | h, hne⟩
    · exact absurd h hne
    · exact h

/-- The functions below a site, in document order. -/
def functionsBelow (s : Site) : List Site := s.descendants.filter fun t => t.node.isFunction

end Site

namespace Node

theorem matched_functionVisit (top : Bool) (s : Site) :
    (functionVisit top s).matched = s.node.isFunction := by
  unfold functionVisit
  split
  · split <;> simp_all [Visit.matched]
  · simp_all [Visit.matched]

theorem descends_functionVisit (top : Bool) (s : Site) :
    (functionVisit top s).descends = !(top && s.node.isFunction) := by
  unfold functionVisit
  split
  · split <;> simp_all [Visit.descends]
  · simp_all [Visit.descends]

theorem functionSites_eq_filter (top : Bool) (root : Node) :
    root.functionSites top =
      (preorder (functionVisit top) (Site.root root)).filter fun s => s.node.isFunction := by
  rw [functionSites, found_eq_filter, remaining_singleton]
  simp only [matched_functionVisit]

theorem lists_functionSites (top : Bool) (root : Node) :
    (Site.root root).Lists
      (fun a t => (∀ u, (Site.root root).Above a u → (top && u.node.isFunction) = false) ∧
        t.node.isFunction = true) (root.functionSites top) := by
  rw [functionSites_eq_filter]
  refine ((lists_preorder (functionVisit top) (Site.root root)).filter _).congr fun a t => ?_
  simp only [descends_functionVisit, Bool.not_eq_true']

/-- The full enumeration from a site, cut at the functions that are in no other one. -/
theorem filter_preorder_eq_flatMap (s : Site) :
    (preorder (functionVisit false) s).filter (fun t => t.node.isFunction) =
      ((preorder (functionVisit true) s).filter fun t => t.node.isFunction).flatMap fun t =>
        t :: t.functionsBelow := by
  have hfollow (s : Site) : preorder (functionVisit false) s = preorder (fun _ => .follow) s :=
    preorder_congr (fun s => by rw [descends_functionVisit]; rfl) s
  induction s using Site.below_induction with
  | h s ih =>
    rw [preorder_eq (functionVisit true), descends_functionVisit]
    by_cases hs : s.node.isFunction = true
    · -- everything else is below this function
      rw [hfollow, Site.preorder_follow_eq]
      simp [hs, Site.functionsBelow]
    · have hchildren : s.descendants.filter (fun t => t.node.isFunction) =
          s.children.flatMap fun c =>
            ((preorder (functionVisit true) c).filter fun t => t.node.isFunction).flatMap fun t =>
              t :: t.functionsBelow := by
        rw [Site.descendants, List.filter_flatMap]
        refine List.flatMap_congr fun c hc => ?_
        rw [← hfollow, ih c hc]
      rw [hfollow, Site.preorder_follow_eq]
      simp [hs, hchildren, List.filter_flatMap, List.flatMap_assoc]

theorem isFunction_of_mem {top : Bool} {root : Node} {s : Site} (hs : s ∈ root.functionSites top) :
    s.node.isFunction = true := by
  rw [functionSites_eq_filter] at hs
  exact (List.mem_filter.mp hs).2

theorem functionSites_eq_flatMap (root : Node) :
    root.functionSites false =
      (root.functionSites true).flatMap fun t => t :: t.functionsBelow := by
  rw [functionSites_eq_filter, functionSites_eq_filter]
  exact filter_preorder_eq_flatMap (Site.root root)

theorem functionSites_sublist (root : Node) :
    (root.functionSites true).Sublist (root.functionSites false) := by
  rw [functionSites_eq_flatMap]
  induction root.functionSites true with
  | nil => exact .slnil
  | cons t tops ih =>
    rw [List.flatMap_cons, List.cons_append]
    exact (ih.trans (List.sublist_append_right _ _)).cons_cons t

end Node

/-- How an enumeration ends: every function comes with its name, or the first name that cannot be
read ends it. -/
inductive Enumerated (source : List UInt8) (sites : List Site) :
    Except Abort (List FunctionSite) → Prop where
  | named (fs : List FunctionSite) (hsites : fs.map FunctionSite.site = sites)
      (hnames : ∀ f ∈ fs, f.site.name? source = .ok f.name) : Enumerated source sites (.ok fs)
  | unreadable (before after : List Site) (s : Site) (fault : Utf8.Fault)
      (hsites : sites = before ++ s :: after)
      (hbefore : ∀ r ∈ before, ∃ name, r.name? source = .ok name)
      (hs : s.name? source = .error fault) : Enumerated source sites (.error (.badName fault))

theorem Site.function_ok {source : List UInt8} {s : Site} (hf : s.node.isFunction = true)
    {name : Option String} (hs : s.name? source = .ok name) :
    s.function source = .ok ⟨s, name, hf⟩ := by
  simp only [Site.function, hf, hs, dif_pos]

theorem Site.function_error {source : List UInt8} {s : Site} (hf : s.node.isFunction = true)
    {fault : Utf8.Fault} (hs : s.name? source = .error fault) :
    s.function source = .error (.badName fault) := by
  simp only [Site.function, hf, hs, dif_pos]

theorem enumerated_mapM {source : List UInt8} {sites : List Site}
    (hf : ∀ s ∈ sites, s.node.isFunction = true) :
    Enumerated source sites (sites.mapM (Site.function source)) := by
  induction sites with
  | nil => exact .named [] rfl (by simp)
  | cons s sites ih =>
    have hs := hf s List.mem_cons_self
    rw [List.mapM_cons]
    cases hname : s.name? source with
    | error fault =>
      rw [Site.function_error hs hname]
      exact .unreadable [] sites s fault rfl (by simp) hname
    | ok name =>
      rw [Site.function_ok hs hname]
      have hrest := ih fun r hr => hf r (List.mem_cons_of_mem _ hr)
      generalize sites.mapM (Site.function source) = result at hrest ⊢
      cases hrest with
      | named fs hsites hnames =>
        refine .named (⟨s, name, hs⟩ :: fs) (by rw [List.map_cons, hsites]) ?_
        intro f hfs
        rcases List.mem_cons.mp hfs with rfl | hfs
        · exact hname
        · exact hnames f hfs
      | unreadable before after r fault hsites hbefore hr =>
        refine .unreadable (s :: before) after r fault (by rw [hsites, List.cons_append]) ?_ hr
        intro q hq
        rcases List.mem_cons.mp hq with rfl | hq
        · exact ⟨name, hname⟩
        · exact hbefore q hq

theorem Node.enumerated_functions (source : List UInt8) (top : Bool) (root : Node) :
    Enumerated source (root.functionSites top) (root.functions source top) :=
  enumerated_mapM fun _ hs => isFunction_of_mem hs

theorem Node.map_site_functions {source : List UInt8} {top : Bool} {root : Node}
    {fs : List FunctionSite} (h : root.functions source top = .ok fs) :
    fs.map FunctionSite.site = root.functionSites top := by
  have henum := enumerated_functions source top root
  rw [h] at henum
  cases henum with
  | named _ hsites _ => exact hsites

theorem mapM_cons_eq_ok {α β ε : Type} {f : α → Except ε β} {a : α} {xs : List α} {bs : List β}
    (h : (a :: xs).mapM f = .ok bs) :
    ∃ b rest, f a = .ok b ∧ xs.mapM f = .ok rest ∧ bs = b :: rest := by
  rw [List.mapM_cons] at h
  cases ha : f a with
  | error e => simp [ha, bind, Except.bind] at h
  | ok b =>
    cases hxs : xs.mapM f with
    | error e => simp [ha, hxs, bind, Except.bind] at h
    | ok rest =>
      rw [ha, hxs] at h
      exact ⟨b, rest, rfl, rfl, (Except.ok.inj h).symm⟩

theorem mapM_sublist {α β ε : Type} {f : α → Except ε β} {xs ys : List α} (h : xs.Sublist ys)
    {bs : List β} (hb : ys.mapM f = .ok bs) : ∃ as, xs.mapM f = .ok as ∧ as.Sublist bs := by
  induction h generalizing bs with
  | slnil => exact ⟨[], rfl, List.nil_sublist bs⟩
  | cons y h ih =>
    obtain ⟨b, bs, -, hbs, rfl⟩ := mapM_cons_eq_ok hb
    obtain ⟨as, has, hsub⟩ := ih hbs
    exact ⟨as, has, hsub.cons b⟩
  | cons_cons y h ih =>
    obtain ⟨b, bs, hy, hbs, rfl⟩ := mapM_cons_eq_ok hb
    obtain ⟨as, has, hsub⟩ := ih hbs
    exact ⟨b :: as, by rw [List.mapM_cons, hy, has]; rfl, hsub.cons_cons b⟩

namespace Analysis

open Node

variable {g : Grammar} {text path language : String} {root : Node}

/-- Once a text has been read, its facts are those of the functions enumerated. -/
theorem source_value_eq (relPath : String) {o : Options}
    (h : (tree g text path language o.strict).value = .ok root) :
    (source g text path language relPath o).value =
      (root.functions (Utf8.encode text) o.topLevelOnly).map fun fs =>
        { path, relPath := if relPath = "" then path else relPath, language,
          functions := fs.map (functionFacts (Utf8.encode text) o) } := by
  simp only [source, h, treeFacts]
  cases root.functions (Utf8.encode text) o.topLevelOnly <;> rfl

/-- The facts of a text that can be counted, read off its tree. -/
theorem eq_of_source {relPath : String} {o : Options} {facts : FileFacts}
    (h : (source g text path language relPath o).value = .ok facts) :
    ∃ root fs, (tree g text path language o.strict).value = .ok root ∧
      root.functions (Utf8.encode text) o.topLevelOnly = .ok fs ∧
      facts = { path, relPath := if relPath = "" then path else relPath, language,
                functions := fs.map (functionFacts (Utf8.encode text) o) } := by
  cases hroot : (tree g text path language o.strict).value with
  | error a => simp [source, hroot] at h
  | ok root =>
    rw [source_value_eq relPath hroot] at h
    cases hfs : root.functions (Utf8.encode text) o.topLevelOnly with
    | error a => simp [hfs, Except.map] at h
    | ok fs =>
      rw [hfs] at h
      exact ⟨root, fs, rfl, hfs, (Except.ok.inj h).symm⟩

theorem functions_of_source {relPath : String} {o : Options} {facts : FileFacts}
    (h : (source g text path language relPath o).value = .ok facts) :
    ∃ root fs, (tree g text path language o.strict).value = .ok root ∧
      root.functions (Utf8.encode text) o.topLevelOnly = .ok fs ∧
      facts.functions = fs.map (functionFacts (Utf8.encode text) o) := by
  obtain ⟨root, fs, hroot, hfs, rfl⟩ := eq_of_source h
  exact ⟨root, fs, hroot, hfs, rfl⟩

/-- Whatever can be counted in full can be counted at the top level, with the same facts. -/
theorem source_topLevelOnly (relPath : String) (o : Options)
    (h : (tree g text path language o.strict).value = .ok root) {all : FileFacts}
    (hall :
      (source g text path language relPath { o with topLevelOnly := false }).value = .ok all) :
    ∃ tops, (source g text path language relPath { o with topLevelOnly := true }).value = .ok tops ∧
      tops.functions.Sublist all.functions := by
  have hread (top : Bool) :
      (tree g text path language { o with topLevelOnly := top }.strict).value = .ok root := h
  rw [source_value_eq relPath (hread false)] at hall
  rw [source_value_eq relPath (hread true)]
  cases hfs : root.functions (Utf8.encode text) false with
  | error a => simp [hfs, Except.map] at hall
  | ok fs =>
    obtain ⟨tops, htops, hsub⟩ := mapM_sublist root.functionSites_sublist hfs
    have htops : root.functions (Utf8.encode text) true = .ok tops := htops
    rw [hfs] at hall
    cases Except.ok.inj hall
    exact ⟨_, by rw [htops]; rfl, hsub.map _⟩

/-- The enumeration of a tree gives every function once and in document order, the one that stays at
the top level every function that is in no other one, and the full one is made of these, each with
the functions below it. No node is taken for a function that is none. What is counted of a text is
what is enumerated, and the facts of a function do not depend on what else is; a name that cannot be
read ends the count, and the first one is to blame. -/
theorem functions_enumerate_tree (root : Node) :
    let start := Site.root root
    start.Lists (fun _ t => t.node.isFunction = true) (root.functionSites false) ∧
    start.Lists
      (fun a t => t.node.isFunction = true ∧ ∀ u, start.Above a u → u.node.isFunction = false)
      (root.functionSites true) ∧
    root.functionSites false = (root.functionSites true).flatMap (fun t => t :: t.functionsBelow) ∧
    (∀ t : Site, t.Lists (fun a u => a ≠ [] ∧ u.node.isFunction = true) t.functionsBelow) ∧
    (∀ bytes top,
      (∀ s ∈ root.functionSites top, ∀ kind, s.function bytes ≠ .error (.notFunction kind)) ∧
      Enumerated bytes (root.functionSites top) (root.functions bytes top)) ∧
    ∀ (g : Grammar) (text path language relPath : String) (o : Options),
      (tree g text path language o.strict).value = .ok root →
      let counted (top : Bool) :=
        (source g text path language relPath { o with topLevelOnly := top }).value
      (∀ top, counted top = (root.functions (Utf8.encode text) top).map fun fs =>
        { path, relPath := if relPath = "" then path else relPath, language,
          functions := fs.map (functionFacts (Utf8.encode text) o) }) ∧
      ∀ all, counted false = .ok all →
        ∃ tops, counted true = .ok tops ∧ tops.functions.Sublist all.functions := by
  intro start
  refine ⟨?_, ?_, functionSites_eq_flatMap root, ?_, ?_, ?_⟩
  · exact (lists_functionSites false root).congr fun a t => by simp
  · exact (lists_functionSites true root).congr fun a t => by simp [start, and_comm]
  · exact fun t => t.lists_descendants.filter _
  · intro bytes top
    refine ⟨fun s hs kind h => ?_, enumerated_functions bytes top root⟩
    have hf := isFunction_of_mem hs
    cases hname : s.name? bytes with
    | ok name => cases (Site.function_ok hf hname).symm.trans h
    | error fault => cases (Site.function_error hf hname).symm.trans h
  · intro g text path language relPath o h
    exact ⟨fun top => source_value_eq relPath h,
      fun all hall => source_topLevelOnly relPath o h hall⟩

/-! A function that makes no markup of its own has a component inside. The name of the component
covers the first byte of the text. -/
namespace Inner

def node (kind : String) (field : Option String) (stop : Nat) : List Node → Node :=
  .mk { id := 0, kind, start := 0, stop, row := 0, column := 0, field }

def component : Node :=
  node "function_expression" none 2
    [node "identifier" (some "name") 1 [],
      node "statement_block" (some "body") 2
        [node "return_statement" none 2 [node "jsx_self_closing_element" none 2 []]]]

def block : Node := node "statement_block" (some "body") 2 [component]

def wrapper : Node := node "arrow_function" none 2 [block]

def program : Node := node "program" none 2 [wrapper]

theorem functionSites_program (top : Bool) :
    program.functionSites top =
      ⟨some program, 0, wrapper⟩ :: if top then [] else [⟨some block, 0, component⟩] := by
  cases top <;>
    simp [functionSites, found_cons, rest, functionVisit, Visit.matched, Visit.descends, isFunction,
      functionKinds, Site.root, Site.children, Node.children, Node.kind, Node.info, program,
      wrapper, block, component, node]

end Inner

/-- A name inside ends the full count, and the count of the top level goes on without it. -/
theorem functions_enumerate_tree_unreadable_inside :
    let counted (top : Bool) :=
      (source (fun _ _ => Inner.program) "é" "a.ts" "typescript" "" { topLevelOnly := top }).value
    counted false = .error (.badName ⟨0, [0xC3], .truncated⟩) ∧
      ∃ facts, counted true = .ok facts ∧ facts.functions.length = 1 := by
  intro counted
  have hencode : Utf8.encode "é" = [0xC3, 0xA9] := by decide +kernel
  have h := (functions_enumerate_tree Inner.program).2.2.2.2.2 (fun _ _ => Inner.program) "é" "a.ts"
    "typescript" "" {} rfl
  have hfull : Inner.program.functions (Utf8.encode "é") false =
      .error (.badName ⟨0, [0xC3], .truncated⟩) := by
    rw [Node.functions, Inner.functionSites_program, hencode]
    rfl
  have htop : Inner.program.functions (Utf8.encode "é") true =
      .ok [⟨⟨some Inner.program, 0, Inner.wrapper⟩, none, by decide⟩] := by
    rw [Node.functions, Inner.functionSites_program, hencode]
    rfl
  exact ⟨(h.1 false).trans (congrArg _ hfull), _, (h.1 true).trans (congrArg _ htop), rfl⟩

end Analysis

end MarkupTally
