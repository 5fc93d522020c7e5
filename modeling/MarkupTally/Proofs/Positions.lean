import Mathlib.Data.List.DropRight
import Mathlib.Data.Prod.Lex
import MarkupTally.Proofs.Damage
import MarkupTally.Proofs.Skipping

/-! Positions in a source. The line and the character column of a node tell where it begins, in the
order of the text, so the functions of a tree in document order are listed from the top of the text
to its end. -/
namespace MarkupTally

open Utf8 Walk

section Places

variable {cs ds : List Char}

/-- What stands in the last line of a text. -/
def lastLine (cs : List Char) : List Char := cs.rtakeWhile (· ≠ '\n')

theorem lastLine_append (h : '\n' ∉ ds) : lastLine (cs ++ ds) = lastLine cs ++ ds := by
  have hall : ∀ c ∈ ds.reverse, decide (c ≠ '\n') = true := by
    intro c hc
    refine decide_eq_true fun hn => h ?_
    rw [← hn]
    exact List.mem_reverse.mp hc
  rw [lastLine, List.rtakeWhile, List.reverse_append, List.takeWhile_append_of_pos hall,
    List.reverse_append, List.reverse_reverse]
  rfl

/-- The line and the column of what follows a text, both from one. -/
def placeAfter (cs : List Char) : ℤ ×ₗ ℤ :=
  toLex (cs.count '\n' + 1, (lastLine cs).length + 1)

theorem placeAfter_lt_append (h : ds ≠ []) : placeAfter cs < placeAfter (cs ++ ds) := by
  have hpos := List.length_pos_iff.mpr h
  rw [placeAfter, placeAfter, Prod.Lex.toLex_lt_toLex]
  dsimp only
  by_cases hn : '\n' ∈ ds
  · have hcount := List.count_pos_iff.mpr hn
    rw [List.count_append]
    exact .inl (by omega)
  · have hcount := List.count_eq_zero.mpr hn
    rw [List.count_append, lastLine_append hn, List.length_append]
    exact .inr ⟨by omega, by omega⟩

theorem prefix_of_length_spell_le {es : List Char} (hcs : cs <+: es) (hds : ds <+: es)
    (h : (spell cs).length ≤ (spell ds).length) : cs <+: ds := by
  rcases List.prefix_or_prefix_of_prefix hcs hds with hpre | ⟨more, rfl⟩
  · exact hpre
  · cases more with
    | nil => simp
    | cons c more =>
      have hpos := length_utf8EncodeChar_pos c
      rw [spell_append, spell_cons, List.length_append, List.length_append] at h
      omega

end Places

namespace Node

/-- The node begins where this part of the text ends. Its row counts newlines, and its column counts
the bytes since the last one. -/
structure BeginsAfter (before : List Char) (n : Node) : Prop where
  start : n.info.start = (spell before).length
  row : n.info.row = before.count '\n'
  column : n.info.column = (spell (lastLine before)).length

/-- The node begins at a character of the text, and its position says which. -/
def PlacedIn (text : String) (n : Node) : Prop :=
  ∃ before, before <+: text.toList ∧ n.BeginsAfter before

variable {n m : Node} {text : String} {before : List Char}

theorem charColumn_eq_count {source : List UInt8} (h : n.info.column ≤ n.info.start) :
    n.charColumn source =
      count ((source.drop (n.info.start - n.info.column)).take n.info.column) + 1 := by
  have hfirst : ((n.info.start : Int) - n.info.column).toNat = n.info.start - n.info.column := by
    omega
  have hnonneg : ¬(n.info.start : Int) - n.info.column < 0 := by omega
  have hlast : ¬(n.info.start : Int) < 0 := by omega
  have hcolumn : n.info.start - (n.info.start - n.info.column) = n.info.column := by omega
  simp only [charColumn, slice, hnonneg, hlast, if_false, hfirst, Int.toNat_natCast]
  rw [List.drop_take, hcolumn]

theorem BeginsAfter.charColumn_eq (h : n.BeginsAfter before) (hpre : before <+: text.toList) :
    n.charColumn (encode text) = (lastLine before).length + 1 := by
  obtain ⟨after, hafter⟩ := hpre
  obtain ⟨front, hfront⟩ : lastLine before <:+ before := List.rtakeWhile_suffix _ _
  have hbefore : spell before = spell front ++ spell (lastLine before) := by
    rw [← spell_append, hfront]
  have hlen := congrArg List.length hbefore
  rw [List.length_append] at hlen
  have hcolumn : n.info.column ≤ n.info.start := by
    rw [h.start, h.column]
    omega
  have hline : n.info.start - n.info.column = (spell front).length := by
    rw [h.start, h.column]
    omega
  rw [charColumn_eq_count hcolumn, hline, h.column, encode_eq_spell, ← hafter, spell_append,
    hbefore, List.append_assoc, List.drop_left, List.take_left, count_spell]

/-- Where a node begins, as it is reported. -/
def place (source : List UInt8) (n : Node) : ℤ ×ₗ ℤ := toLex (n.line, n.charColumn source)

theorem BeginsAfter.place_eq (h : n.BeginsAfter before) (hpre : before <+: text.toList) :
    n.place (encode text) = placeAfter before := by
  rw [place, h.charColumn_eq hpre, line, h.row]
  rfl

theorem PlacedIn.place_le (hn : n.PlacedIn text) (hm : m.PlacedIn text)
    (h : n.info.start ≤ m.info.start) :
    n.place (encode text) ≤ m.place (encode text) ∧
      (n.info.start ≠ m.info.start → n.place (encode text) < m.place (encode text)) := by
  obtain ⟨cs, hcs, hn⟩ := hn
  obtain ⟨ds, hds, hm⟩ := hm
  rw [hn.place_eq hcs, hm.place_eq hds, hn.start, hm.start]
  rw [hn.start, hm.start] at h
  obtain ⟨more, rfl⟩ := prefix_of_length_spell_le hcs hds h
  by_cases hmore : more = []
  · rw [hmore, List.append_nil]
    exact ⟨le_refl _, fun hne => absurd rfl hne⟩
  · have hlt := @placeAfter_lt_append cs more hmore
    exact ⟨le_of_lt hlt, fun _ => hlt⟩

/-- The tree was made from the text: its nodes say where in the text they begin, a node that comes
later in the document does not begin earlier, and the names of functions can be read. -/
structure Fits (text : String) (root : Node) : Prop where
  placed : ∀ s ∈ preorder (fun _ => .follow) (Site.root root), s.node.PlacedIn text
  ordered : (preorder (fun _ => .follow) (Site.root root)).Pairwise fun s t =>
    s.node.info.start ≤ t.node.info.start
  names : root.NamesReadable (encode text)

theorem functionSites_sublist_preorder (top : Bool) (root : Node) :
    (root.functionSites top).Sublist (preorder (fun _ => .follow) (Site.root root)) := by
  have hall : (root.functionSites false).Sublist
      (preorder (fun _ => .follow) (Site.root root)) := by
    have hfollow : preorder (functionVisit false) (Site.root root) =
        preorder (fun _ => .follow) (Site.root root) :=
      preorder_congr (fun s => by rw [descends_functionVisit]; rfl) _
    rw [functionSites_eq_filter, hfollow]
    exact List.filter_sublist
  cases top with
  | false => exact hall
  | true => exact root.functionSites_sublist.trans hall

theorem Fits.pairwise_functionSites {root : Node} (h : root.Fits text) (top : Bool) :
    (root.functionSites top).Pairwise fun s t =>
      s.node.place (encode text) ≤ t.node.place (encode text) ∧
        (s.node.info.start ≠ t.node.info.start →
          s.node.place (encode text) < t.node.place (encode text)) := by
  refine List.Pairwise.sublist (functionSites_sublist_preorder top root) ?_
  refine List.Pairwise.imp_of_mem (fun {s t} hs ht hle => ?_) h.ordered
  exact (h.placed s hs).place_le (h.placed t ht) hle

end Node

/-- Where a function is reported to begin: its line, then its column. -/
def FunctionFacts.place (f : FunctionFacts) : ℤ ×ₗ ℤ := toLex (f.line, f.column)

theorem Language.ofName?_name (l : Language) : ofName? l.name = some l := by
  cases l <;> rfl

namespace Analysis

theorem functions_ok {bytes : List UInt8} {root : Node} (top : Bool)
    (h : root.NamesReadable bytes) : ∃ fs, root.functions bytes top = .ok fs := by
  obtain ⟨fns, hfns⟩ := treeFacts_ok { topLevelOnly := top } h
  cases hfs : root.functions bytes top with
  | ok fs => exact ⟨fs, rfl⟩
  | error a => simp [treeFacts, hfs, Except.map] at hfns

/-- A text is read unless it has an error and errors are fatal. -/
theorem tree_value_eq (g : Grammar) (text path : String) (l : Language) {strict : Bool}
    (h : ¬(strict = true ∧ (g l text).info.faulty = true)) :
    (tree g text path l.name strict).value = .ok (g l text) := by
  simp only [tree, l.ofName?_name]
  split
  · split
    · exact absurd ⟨‹_›, ‹_›⟩ h
    · rfl
  · rfl

/-- Unless a text fails for its errors, the functions of a tree that was made from it are reported
in the order of the text, with nested ones or without; two of them share a place only if they begin
at the same byte. -/
theorem functions_in_text_order (g : Grammar) (text path relPath : String) (l : Language)
    (o : Options) (h : (g l text).Fits text) :
    (o.strict = true ∧ (g l text).info.faulty = true) ∨
    ∃ (facts : FileFacts) (fs : List FunctionSite),
      (source g text path l.name relPath o).value = .ok facts ∧
      fs.map FunctionSite.site = (g l text).functionSites o.topLevelOnly ∧
      facts.functions = fs.map (functionFacts (encode text) o) ∧
      facts.functions.Pairwise (fun a b => a.place ≤ b.place) ∧
      fs.Pairwise fun a b => a.site.node.info.start ≠ b.site.node.info.start →
        (functionFacts (encode text) o a).place < (functionFacts (encode text) o b).place := by
  by_cases hread : o.strict = true ∧ (g l text).info.faulty = true
  · exact .inl hread
  obtain ⟨fs, hfs⟩ := functions_ok o.topLevelOnly h.names
  have hsites := Node.map_site_functions hfs
  have hpairs := h.pairwise_functionSites o.topLevelOnly
  rw [← hsites, List.pairwise_map] at hpairs
  have hvalue := source_value_eq relPath (tree_value_eq g text path l hread)
  rw [hfs] at hvalue
  refine .inr ⟨_, fs, hvalue, hsites, rfl, ?_, hpairs.imp fun hab => hab.2⟩
  rw [List.pairwise_map]
  exact hpairs.imp fun hab => hab.1

/-! Three functions of a text with a character of two bytes in its first line. -/
namespace Placed

def function (start row column : Nat) : Node :=
  .mk { id := 0, kind := "arrow_function", start, stop := start, row, column } []

def program : Node :=
  .mk { id := 0, kind := "program", start := 0, stop := 5, row := 0, column := 0 }
    [function 0 0 0, function 2 0 2, function 4 1 0]

theorem preorder_program :
    preorder (fun _ => .follow) (Site.root program) =
      [Site.root program, ⟨some program, 0, function 0 0 0⟩, ⟨some program, 1, function 2 0 2⟩,
        ⟨some program, 2, function 4 1 0⟩] := by
  simp [preorder_eq, Visit.descends, Site.root, Site.children, Node.children, program, function]

theorem functionSites_program :
    program.functionSites false =
      [⟨some program, 0, function 0 0 0⟩, ⟨some program, 1, function 2 0 2⟩,
        ⟨some program, 2, function 4 1 0⟩] := by
  have hfollow : preorder (Node.functionVisit false) (Site.root program) =
      preorder (fun _ => .follow) (Site.root program) :=
    preorder_congr (fun s => by rw [Node.descends_functionVisit]; rfl) _
  rw [Node.functionSites_eq_filter, hfollow, preorder_program]
  rfl

theorem fits_program : program.Fits "é;\nx" := by
  refine ⟨?_, ?_, ?_⟩
  · rw [preorder_program]
    simp only [List.forall_mem_cons]
    exact ⟨⟨[], by decide, by decide, by decide, by decide⟩,
      ⟨[], by decide, by decide, by decide, by decide⟩,
      ⟨['é'], by decide, by decide, by decide, by decide⟩,
      ⟨['é', ';', '\n'], by decide, by decide, by decide, by decide⟩, by simp⟩
  · rw [preorder_program]
    decide
  · intro s hs hf
    cases hs with
    | here => cases hf
    | down _ hc ht =>
      have hleaf : ∀ c ∈ (Site.root program).children,
          c.children = [] ∧ c.name? (encode "é;\nx") = .ok none := by
        simp only [Site.children, Site.root, program, Node.children, List.mapIdx_cons,
          List.mapIdx_nil, List.forall_mem_cons]
        exact ⟨⟨rfl, rfl⟩, ⟨rfl, rfl⟩, ⟨rfl, rfl⟩, by simp⟩
      obtain ⟨hchildren, hname⟩ := hleaf _ hc
      cases ht with
      | here => exact ⟨none, hname⟩
      | down _ hc' _ =>
        rw [hchildren] at hc'
        cases hc'

end Placed

/-- The second function begins two bytes and one character after the first. -/
theorem functions_in_text_order_two_bytes :
    Placed.program.Fits "é;\nx" ∧
    ∃ facts, (source (fun _ _ => Placed.program) "é;\nx" "a.ts" "typescript" "" {}).value =
        .ok facts ∧
      facts.functions.map FunctionFacts.place = [toLex (1, 1), toLex (1, 2), toLex (2, 1)] ∧
      facts.functions.Pairwise (fun a b => a.place ≤ b.place) := by
  have h := functions_in_text_order (fun _ _ => Placed.program) "é;\nx" "a.ts" "" .typescript {}
    Placed.fits_program
  obtain ⟨hstrict, -⟩ | ⟨facts, fs, hvalue, hsites, hfacts, hsorted, -⟩ := h
  · cases hstrict
  · refine ⟨Placed.fits_program, facts, hvalue, ?_, hsorted⟩
    have hplaces : facts.functions.map FunctionFacts.place =
        (fs.map FunctionSite.site).map fun s => s.node.place (encode "é;\nx") := by
      rw [hfacts, List.map_map, List.map_map]
      rfl
    rw [hplaces, hsites, Placed.functionSites_program, encode_eq_spell]
    rfl

end Analysis

end MarkupTally
