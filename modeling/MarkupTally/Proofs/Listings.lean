import Mathlib.Algebra.GroupWithZero.Nat
import MarkupTally.Model.Report
import MarkupTally.Proofs.Positions

/-! The lines of a listing. An entry breaks only where the name of its function does: the rest of it
is a path, two numbers and fixed words. So a listing has a line for each function and one more for
each newline in a name, and it can be read line by line exactly if no name holds a newline. -/
namespace MarkupTally

section Lines

/-- The lines of a text; a text without characters has none. -/
def textLines (text : String) : List (List Char) :=
  if text = "" then [] else text.toList.splitOn '\n'

theorem length_splitOn_newline (cs : List Char) :
    (cs.splitOn '\n').length = cs.count '\n' + 1 := by
  induction cs with
  | nil => rfl
  | cons c cs ih =>
    rw [List.splitOn_cons_eq_if_modifyHead, List.count_cons]
    split
    · rw [List.length_cons, ih]
    · rw [List.length_modifyHead, ih, Nat.add_zero]

theorem count_intercalate_newline {ls : List (List Char)} (h : ls ≠ []) :
    (['\n'].intercalate ls).count '\n' + 1 = ls.length + (ls.map (List.count '\n')).sum := by
  induction ls with
  | nil => exact absurd rfl h
  | cons l ls ih =>
    cases ls with
    | nil => simp [Nat.add_comm]
    | cons l' ls =>
      have hrest := ih (List.cons_ne_nil l' ls)
      rw [List.intercalate_cons_cons, List.count_append, List.count_append, List.map_cons,
        List.sum_cons, List.length_cons, List.count_singleton_self]
      omega

theorem prefix_intercalate (l : List Char) (ls : List (List Char)) :
    l <+: ['\n'].intercalate (l :: ls) := by
  cases ls with
  | nil => simp
  | cons l' ls =>
    rw [List.intercalate_cons_cons, List.append_assoc]
    exact List.prefix_append _ _

theorem newline_not_mem_toString (n : Int) : '\n' ∉ (toString n).toList := by
  have hdigits (m : Nat) : '\n' ∉ m.repr.toList := by
    rw [Nat.toList_repr]
    intro hmem
    have hdigit := Nat.isDigit_of_mem_toDigits (by omega) (by omega) hmem
    revert hdigit
    decide
  rw [Int.toString_eq_repr, Int.repr_eq_if]
  split
  · exact hdigits n.toNat
  · rw [String.toList_append, List.mem_append]
    exact fun hmem => hmem.elim (by decide) (hdigits (-n).toNat)

end Lines

namespace FunctionFacts

variable {f : FunctionFacts} {relPath : String}

/-- The number of newlines in the name of a function. -/
def breaks (f : FunctionFacts) : Nat := (f.name.getD "").toList.count '\n'

/-- The file and the place of a function, as an entry begins. -/
def address (relPath : String) (f : FunctionFacts) : String :=
  relPath ++ ":" ++ toString f.line ++ ":" ++ toString f.column

/-- The name that an entry shows. -/
def shownName (f : FunctionFacts) : String :=
  match f.name with
  | none | some "" => "[Anonymous]"
  | some name => name

/-- The verdict that an entry shows. -/
def label (f : FunctionFacts) : String :=
  match f.classification with
  | .markup => "JSX"
  | .plain => "normal"

theorem entry_eq (relPath : String) (f : FunctionFacts) :
    f.entry relPath =
      f.address relPath ++ " " ++ f.shownName ++ " (" ++ f.kind.name ++ ") -> " ++ f.label := rfl

theorem address_isPrefix (relPath : String) (f : FunctionFacts) :
    (f.address relPath).toList <+: (f.entry relPath).toList := by
  rw [entry_eq]
  simp only [String.toList_append, List.append_assoc]
  exact List.prefix_append _ _

theorem count_newline_shownName (f : FunctionFacts) :
    f.shownName.toList.count '\n' = f.breaks := by
  unfold shownName breaks
  split <;> simp_all

/-- Of an entry only the path and the name can hold a newline. -/
theorem count_newline_entry (relPath : String) (f : FunctionFacts) :
    (f.entry relPath).toList.count '\n' = relPath.toList.count '\n' + f.breaks := by
  have hline := List.count_eq_zero.mpr (newline_not_mem_toString f.line)
  have hcolumn := List.count_eq_zero.mpr (newline_not_mem_toString f.column)
  have hkind : f.kind.name.toList.count '\n' = 0 := by cases f.kind <;> decide
  have hlabel : f.label.toList.count '\n' = 0 := by
    unfold label
    split <;> decide
  -- what is left are the marks between the parts
  rw [entry_eq, address]
  simp only [String.toList_append, List.count_append, hline, hcolumn, hkind, hlabel,
    count_newline_shownName]
  simp

theorem entry_ne_empty (relPath : String) (f : FunctionFacts) : f.entry relPath ≠ "" := by
  intro h
  obtain ⟨rest, hrest⟩ := f.address_isPrefix relPath
  rw [h] at hrest
  simp [address] at hrest

end FunctionFacts

namespace FileFacts

variable {facts : FileFacts}

theorem toList_listing (facts : FileFacts) :
    facts.listing.toList =
      ['\n'].intercalate (facts.functions.map fun f => (f.entry facts.relPath).toList) := by
  rw [listing, String.toList_intercalate, List.map_map]
  rfl

theorem listing_ne_empty (h : facts.functions ≠ []) : facts.listing ≠ "" := by
  intro hempty
  obtain ⟨f, fs, hfs⟩ := List.exists_cons_of_ne_nil h
  have hlist := facts.toList_listing
  rw [hempty, hfs, List.map_cons] at hlist
  have hentry := prefix_intercalate (f.entry facts.relPath).toList
    (fs.map fun f => (f.entry facts.relPath).toList)
  rw [← hlist, String.toList_empty, List.prefix_nil, String.toList_eq_nil_iff] at hentry
  exact f.entry_ne_empty facts.relPath hentry

/-- The listing has a line for each function, and one more for each newline in a name. -/
theorem length_textLines (h : '\n' ∉ facts.relPath.toList) :
    (textLines facts.listing).length =
      facts.functions.length + (facts.functions.map FunctionFacts.breaks).sum := by
  by_cases hfs : facts.functions = []
  · simp [textLines, listing, hfs]
  · have hentry (f : FunctionFacts) :
        (f.entry facts.relPath).toList.count '\n' = f.breaks := by
      rw [f.count_newline_entry, List.count_eq_zero.mpr h, Nat.zero_add]
    rw [textLines, if_neg (listing_ne_empty hfs), length_splitOn_newline, toList_listing,
      count_intercalate_newline (by simpa using hfs), List.length_map, List.map_map]
    simp only [Function.comp_def, hentry]

/-- Without a newline in a name the lines are the entries. -/
theorem textLines_listing (h : '\n' ∉ facts.relPath.toList)
    (hbreaks : ∀ f ∈ facts.functions, f.breaks = 0) :
    textLines facts.listing = facts.functions.map fun f => (f.entry facts.relPath).toList := by
  by_cases hfs : facts.functions = []
  · simp [textLines, listing, hfs]
  · rw [textLines, if_neg (listing_ne_empty hfs), toList_listing]
    refine List.splitOn_intercalate '\n' (fun l hl => ?_) (by simpa using hfs)
    obtain ⟨f, hf, rfl⟩ := List.mem_map.mp hl
    rw [← List.count_eq_zero, f.count_newline_entry, List.count_eq_zero.mpr h, hbreaks f hf]

/-- The listing can be read line by line: the lines are as many as the functions, and each begins
with the file and the place of its function. -/
structure ListedByLine (facts : FileFacts) : Prop where
  length : (textLines facts.listing).length = facts.functions.length
  begins : ∀ (i : Nat) (f : FunctionFacts), facts.functions[i]? = some f →
    ∃ line, (textLines facts.listing)[i]? = some line ∧
      (f.address facts.relPath).toList <+: line

theorem listedByLine_iff (h : '\n' ∉ facts.relPath.toList) :
    facts.ListedByLine ↔ ∀ f ∈ facts.functions, f.breaks = 0 := by
  constructor
  · intro hlisted f hf
    have hcount := length_textLines h
    rw [hlisted.length] at hcount
    have hsum : (facts.functions.map FunctionFacts.breaks).sum = 0 := by omega
    exact List.sum_eq_zero_iff_forall_eq_nat.mp hsum _ (List.mem_map_of_mem hf)
  · intro hbreaks
    have hlines := textLines_listing h hbreaks
    refine ⟨by rw [hlines, List.length_map], fun i f hf => ?_⟩
    rw [hlines, List.getElem?_map, hf]
    exact ⟨_, rfl, f.address_isPrefix facts.relPath⟩

end FileFacts

namespace Analysis

open Utf8

/-- Unless a text fails for its errors, the listing of a file has a line for each function that is
counted and one more for each newline in a name. So it has a line for each function, which begins
with its place, exactly if no name holds a newline. -/
theorem listing_by_line_iff_no_breaks (g : Grammar) (text path relPath : String) (l : Language)
    (o : Options) (hnames : (g l text).NamesReadable (encode text))
    (hpath : '\n' ∉ (if relPath = "" then path else relPath).toList) :
    (o.strict = true ∧ (g l text).info.faulty = true) ∨
    ∃ facts : FileFacts, (source g text path l.name relPath o).value = .ok facts ∧
      facts.relPath = (if relPath = "" then path else relPath) ∧
      facts.functions.length = ((g l text).functionSites o.topLevelOnly).length ∧
      (textLines facts.listing).length =
        facts.functions.length + (facts.functions.map FunctionFacts.breaks).sum ∧
      (facts.ListedByLine ↔ ∀ f ∈ facts.functions, f.breaks = 0) := by
  by_cases hread : o.strict = true ∧ (g l text).info.faulty = true
  · exact .inl hread
  obtain ⟨fs, hfs⟩ := functions_ok o.topLevelOnly hnames
  have hvalue := source_value_eq relPath (tree_value_eq g text path l hread)
  rw [hfs] at hvalue
  refine .inr ⟨_, hvalue, rfl, ?_, FileFacts.length_textLines hpath,
    FileFacts.listedByLine_iff hpath⟩
  rw [← Node.map_site_functions hfs, List.length_map, List.length_map]

/-! An arrow that is assigned to a member. The name of the arrow covers the first four bytes of the
text, which may stand in one line or in two. -/
namespace Assigned

open Analysis.Inner (node)

def target : Node := node "member_expression" (some "left") 4 []

def arrow (row column : Nat) : Node :=
  .mk { id := 0, kind := "arrow_function", start := 7, stop := 14, row, column,
        field := some "right" } []

def assignment (row column : Nat) : Node :=
  node "assignment_expression" none 14 [target, arrow row column]

def program (row column : Nat) : Node := node "program" none 14 [assignment row column]

theorem functionSites_program (row column : Nat) :
    (program row column).functionSites false =
      [⟨some (assignment row column), 1, arrow row column⟩] := by
  simp [Node.functionSites, Walk.found_cons, Walk.rest, Node.functionVisit, Visit.matched,
    Visit.descends, Node.isFunction, Node.functionKinds, Site.root, Site.children, Node.children,
    Node.kind, Node.info, program, assignment, target, arrow, node]

theorem name?_arrow (row column : Nat) {bytes : List UInt8} {name : String}
    (h : target.text bytes = .ok name) :
    Site.name? bytes ⟨some (assignment row column), 1, arrow row column⟩ = .ok (some name) := by
  have hname : Site.nameNode? ⟨some (assignment row column), 1, arrow row column⟩ =
      some target := rfl
  simp only [Site.name?, hname, h]
  rfl

theorem namesReadable_program (row column : Nat) {bytes : List UInt8} {name : String}
    (h : target.text bytes = .ok name) : (program row column).NamesReadable bytes := by
  intro s hs hf
  cases hs with
  | here => cases hf
  | down _ hc hs =>
    cases List.mem_singleton.mp hc
    cases hs with
    | here => cases hf
    | down _ hc hs =>
      rcases List.mem_pair.mp hc with rfl | rfl
      · cases hs with
        | here => cases hf
        | down _ hc _ => cases hc
      · cases hs with
        | here => exact ⟨some name, name?_arrow row column h⟩
        | down _ hc _ => cases hc

theorem functions_program (row column : Nat) {bytes : List UInt8} {name : String}
    (h : target.text bytes = .ok name) :
    (program row column).functions bytes false =
      .ok [⟨⟨some (assignment row column), 1, arrow row column⟩, some name, rfl⟩] := by
  rw [Node.functions, functionSites_program, List.mapM_cons,
    Site.function_ok rfl (name?_arrow row column h)]
  rfl

theorem text_target {text name : String} (h : slice (encode text) 0 4 = encode name) :
    target.text (encode text) = .ok name := by
  have hread : target.text (encode text) =
      (decode (slice (encode text) 0 4)).map String.ofList := rfl
  rw [hread, h, encode_eq_spell, decode_spell]
  exact congrArg Except.ok String.ofList_toList

def facts (row column : Nat) (text name : String) : FileFacts where
  path := "src/a.ts"
  relPath := "src/a.ts"
  language := "typescript"
  functions := [functionFacts (encode text) {}
    ⟨⟨some (assignment row column), 1, arrow row column⟩, some name, rfl⟩]

theorem source_program (row column : Nat) {text name : String}
    (h : target.text (encode text) = .ok name) :
    (source (fun _ _ => program row column) text "src/a.ts" "typescript" "" {}).value =
      .ok (facts row column text name) := by
  have hread : (tree (fun _ _ => program row column) text "src/a.ts" "typescript" false).value =
      .ok (program row column) := rfl
  rw [source_value_eq "" hread, functions_program row column h]
  rfl

end Assigned

/-- The name stands in one line, and so does the entry. -/
theorem listing_by_line_iff_no_breaks_member :
    let text := "a.bc = () => 1"
    (Assigned.program 0 7).NamesReadable (encode text) ∧
      (source (fun _ _ => Assigned.program 0 7) text "src/a.ts" "typescript" "" {}).value =
        .ok (Assigned.facts 0 7 text "a.bc") ∧
      (Assigned.facts 0 7 text "a.bc").ListedByLine := by
  intro text
  have htext : Assigned.target.text (encode text) = .ok "a.bc" :=
    Assigned.text_target (by decide +kernel)
  have hnames := Assigned.namesReadable_program 0 7 htext
  have hsource := Assigned.source_program 0 7 htext
  refine ⟨hnames, hsource, ?_⟩
  have h := listing_by_line_iff_no_breaks (fun _ _ => Assigned.program 0 7) text "src/a.ts" ""
    .typescript {} hnames (by decide)
  obtain ⟨hstrict, -⟩ | ⟨facts, hvalue, -, -, -, hlisted⟩ := h
  · cases hstrict
  · cases Except.ok.inj (hsource.symm.trans hvalue)
    refine hlisted.mpr fun f hf => ?_
    cases List.mem_singleton.mp hf
    show "a.bc".toList.count '\n' = 0
    decide

/-- With a line break in front of the dot the same assignment has one function and two lines. -/
theorem listing_breaks_at_member :
    let text := "a\n.b = () => 1"
    (Assigned.program 1 5).NamesReadable (encode text) ∧
      (source (fun _ _ => Assigned.program 1 5) text "src/a.ts" "typescript" "" {}).value =
        .ok (Assigned.facts 1 5 text "a\n.b") ∧
      '\n' ∉ (Assigned.facts 1 5 text "a\n.b").relPath.toList ∧
      (Assigned.facts 1 5 text "a\n.b").functions.length = 1 ∧
      (textLines (Assigned.facts 1 5 text "a\n.b").listing).length = 2 ∧
      ¬(Assigned.facts 1 5 text "a\n.b").ListedByLine := by
  intro text
  have htext : Assigned.target.text (encode text) = .ok "a\n.b" :=
    Assigned.text_target (by decide +kernel)
  have hpath : '\n' ∉ (Assigned.facts 1 5 text "a\n.b").relPath.toList := by
    show '\n' ∉ "src/a.ts".toList
    decide
  have hlines : (textLines (Assigned.facts 1 5 text "a\n.b").listing).length = 2 := by
    rw [FileFacts.length_textLines hpath]
    show 1 + ("a\n.b".toList.count '\n' + 0) = 2
    decide
  refine ⟨Assigned.namesReadable_program 1 5 htext, Assigned.source_program 1 5 htext, hpath, rfl,
    hlines, fun hlisted => ?_⟩
  have hone := hlisted.length
  rw [hlines] at hone
  cases hone

end Analysis

end MarkupTally
