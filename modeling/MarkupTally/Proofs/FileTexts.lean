import MarkupTally.Analysis
import MarkupTally.Proofs.Runs
import MarkupTally.Proofs.Utf8

/-! The text that counting sees of a file. A byte-order mark and the way in which lines end make no
difference to it; bytes that are no text are refused where they stop being one. -/
namespace MarkupTally

open Utf8

namespace FileText

/-- The bytes of a file without one byte-order mark in front. -/
def unmarked (bytes : List UInt8) : List UInt8 :=
  if byteOrderMark <+: bytes then bytes.drop byteOrderMark.length else bytes

/-- The file ends inside a byte-order mark. -/
def EndsInMark (bytes : List UInt8) : Prop := bytes = [0xEF] ∨ bytes = [0xEF, 0xBB]

theorem withoutMark_of_endsInMark {bytes : List UInt8} (h : EndsInMark bytes) :
    withoutMark bytes = [] := by
  rcases h with rfl | rfl <;> rfl

theorem withoutMark_eq_unmarked {bytes : List UInt8} (h : ¬EndsInMark bytes) :
    withoutMark bytes = unmarked bytes := by
  unfold withoutMark
  split
  · exact absurd (.inl rfl) h
  · exact absurd (.inr rfl) h
  · simp [unmarked, byteOrderMark]
  · rename_i hmark
    have hnot : ¬byteOrderMark <+: bytes := by
      rintro ⟨rest, rfl⟩
      exact hmark rest rfl
    rw [unmarked, if_neg hnot]

/-- The second text is the first one with a newline for each carriage return, and for each pair of a
carriage return and a newline. -/
inductive Folds : List Char → List Char → Prop where
  | nil : Folds [] []
  | pair {cs ds : List Char} (h : Folds cs ds) : Folds ('\r' :: '\n' :: cs) ('\n' :: ds)
  | lone {cs ds : List Char} (hn : cs.head? ≠ some '\n') (h : Folds cs ds) :
      Folds ('\r' :: cs) ('\n' :: ds)
  | other {c : Char} {cs ds : List Char} (hc : c ≠ '\r') (h : Folds cs ds) :
      Folds (c :: cs) (c :: ds)

theorem folds_unixLines (cs : List Char) : Folds cs (unixLines cs) := by
  fun_induction unixLines cs with
  | case1 => exact .nil
  | case2 cs ih => exact .pair ih
  | case3 cs hn ih =>
    refine .lone (fun h => ?_) ih
    obtain ⟨rest, hrest⟩ := List.head?_eq_some_iff.mp h
    exact hn rest hrest
  | case4 c cs _ hc ih => exact .other hc ih

theorem Folds.unixLines_eq {cs ds : List Char} (h : Folds cs ds) : unixLines cs = ds := by
  induction h with
  | nil => rfl
  | pair _ ih => rw [unixLines, ih]
  | lone hn _ ih =>
    rw [unixLines, ih]
    rintro rest rfl
    exact hn rfl
  | other hc _ ih =>
    rw [unixLines, ih]
    · exact fun _ h => absurd h hc
    · exact hc

/-- The ways in which a line can end. -/
inductive Ending where
  | newline
  | pair
  | lone
  deriving DecidableEq, Repr

def Ending.chars : Ending → List Char
  | newline => ['\n']
  | pair => ['\r', '\n']
  | lone => ['\r']

/-- The text with the given end for each of its lines. -/
def Ending.write (e : Ending) (cs : List Char) : List Char :=
  cs.flatMap fun c => if c = '\n' then e.chars else [c]

theorem Ending.write_cons_newline (e : Ending) (cs : List Char) :
    e.write ('\n' :: cs) = e.chars ++ e.write cs := by
  simp [write]

theorem Ending.write_cons {c : Char} (hc : c ≠ '\n') (e : Ending) (cs : List Char) :
    e.write (c :: cs) = c :: e.write cs := by
  simp [write, hc]

/-- A text without carriage returns comes back from every way of writing it. -/
theorem Ending.folds_write (e : Ending) {cs : List Char} (h : '\r' ∉ cs) :
    Folds (e.write cs) cs := by
  induction cs with
  | nil => exact .nil
  | cons c cs ih =>
    obtain ⟨hc, hcs⟩ : '\r' ≠ c ∧ '\r' ∉ cs := by simpa using h
    have ih := ih hcs
    by_cases hn : c = '\n'
    · subst hn
      rw [write_cons_newline]
      cases e with
      | newline => exact .other (by decide) ih
      | pair => exact .pair ih
      | lone =>
        refine .lone (fun hhead => ?_) ih
        -- no newline is left once they are all carriage returns
        have hmem : '\n' ∈ lone.write cs := List.mem_of_mem_head? hhead
        obtain ⟨d, -, hd⟩ := List.mem_flatMap.mp hmem
        split at hd
        · simp [chars] at hd
        · rename_i hne
          exact hne (List.mem_singleton.mp hd).symm
    · rw [write_cons hn]
      exact .other hc.symm ih

theorem Ending.head?_write {cs : List Char} {c : Char} (e : Ending) (hn : c ≠ '\n') (hr : c ≠ '\r')
    (h : (e.write cs).head? = some c) : cs.head? = some c := by
  cases cs with
  | nil => exact h
  | cons d cs =>
    by_cases hd : d = '\n'
    · subst hd
      rw [write_cons_newline] at h
      cases e with
      | newline => exact absurd (Option.some.inj h).symm hn
      | pair => exact absurd (Option.some.inj h).symm hr
      | lone => exact absurd (Option.some.inj h).symm hr
    · rw [write_cons hd] at h
      exact h

theorem unmarked_append (bytes : List UInt8) : unmarked (byteOrderMark ++ bytes) = bytes := by
  rw [unmarked, if_pos (List.prefix_append _ _), List.drop_left]

theorem spell_mark : spell ['\uFEFF'] = byteOrderMark := by decide

theorem unmarked_spell {cs : List Char} (h : cs.head? ≠ some '\uFEFF') :
    unmarked (spell cs) = spell cs := by
  refine if_neg fun ⟨rest, hrest⟩ => h ?_
  rw [← spell_mark, ← List.append_nil (spell cs)] at hrest
  obtain ⟨more, rfl⟩ := prefix_of_spell_append hrest .empty
  rfl

/-- A part of a byte-order mark is no text. -/
theorem encode_ne_of_endsInMark {bytes : List UInt8} (h : EndsInMark bytes) (text : String) :
    unmarked bytes ≠ encode text := by
  intro heq
  have hdecode : decode (unmarked bytes) = .ok text.toList := by
    rw [heq, encode_eq_spell, decode_spell]
  rcases h with rfl | rfl <;> cases hdecode

theorem ofBytes_of_encode {bytes : List UInt8} {text : String} (h : unmarked bytes = encode text) :
    ofBytes bytes = .ok (String.ofList (unixLines text.toList)) := by
  have hmark : ¬EndsInMark bytes := fun hmark => encode_ne_of_endsInMark hmark text h
  rw [ofBytes, withoutMark_eq_unmarked hmark, h, encode_eq_spell, decode_spell]
  rfl

theorem ofBytes_of_endsInMark {bytes : List UInt8} (h : EndsInMark bytes) :
    ofBytes bytes = .ok "" := by
  rw [ofBytes, withoutMark_of_endsInMark h]
  rfl

theorem ofBytes_error {bytes : List UInt8} (hmark : ¬EndsInMark bytes)
    (h : ∀ text, encode text ≠ unmarked bytes) :
    ∃ fault, ofBytes bytes = .error fault ∧ ReadableUpTo (unmarked bytes) fault.position := by
  obtain ⟨fault, hfault⟩ := decode_error_iff.mpr h
  refine ⟨fault, ?_, readableUpTo_of_decode hfault⟩
  rw [ofBytes, withoutMark_eq_unmarked hmark, hfault]
  rfl

end FileText

namespace Analysis

open FileText

variable {g : Grammar} {v : Volume} {info : FileInfo} {o : Options} {bytes : List UInt8}

theorem file_of_ofBytes {text : String} (hread : v.read info.path = .ok bytes)
    (h : ofBytes bytes = .ok text) :
    file g v info o = source g text info.path info.language info.relPath o := by
  simp only [file, fileText, hread, h]

theorem file_of_fault {fault : Utf8.Fault} (hread : v.read info.path = .ok bytes)
    (h : ofBytes bytes = .error fault) :
    file g v info o = .pure (.error (.census (.badFile info.path fault.message))) := by
  simp only [file, fileText, hread, h]

theorem file_of_encode {text : String} (hread : v.read info.path = .ok bytes)
    (h : unmarked bytes = encode text) {lines : String} (hlines : Folds text.toList lines.toList) :
    file g v info o = source g lines info.path info.language info.relPath o := by
  have hof := ofBytes_of_encode h
  rw [hlines.unixLines_eq, String.ofList_toList] at hof
  exact file_of_ofBytes hread hof

/-- Counting a file counts its text, with every line ended by a newline and without a byte-order
mark in front. So the six ways of writing a text make no difference. A file whose bytes are no text
fails, and the reason gives the length of the longest part that is one; only a file that ends inside
the mark is read as if it were empty. -/
theorem file_reads_unix_lines (g : Grammar) (v : Volume) (info : FileInfo) (o : Options)
    (bytes : List UInt8) (hread : v.read info.path = .ok bytes) :
    let counted (text : String) := source g text info.path info.language info.relPath o
    (∀ text, unmarked bytes = encode text →
      ∃ lines : String, Folds text.toList lines.toList ∧ file g v info o = counted lines) ∧
    (∀ (text : String) (e : Ending) (marked : Bool), '\r' ∉ text.toList →
      text.toList.head? ≠ some '\uFEFF' →
      bytes = (if marked then byteOrderMark else []) ++
        encode (String.ofList (e.write text.toList)) →
      file g v info o = counted text) ∧
    (EndsInMark bytes → (∀ text, unmarked bytes ≠ encode text) ∧ file g v info o = counted "") ∧
    ((∀ text, unmarked bytes ≠ encode text) → ¬EndsInMark bytes →
      ∃ n reason, file g v info o = .pure (.error (.census (.badFile info.path reason))) ∧
        ReadableUpTo (unmarked bytes) n ∧ Blames n reason) := by
  intro counted
  refine ⟨?_, ?_, ?_, ?_⟩
  · intro text h
    have hfolds := folds_unixLines text.toList
    rw [← String.toList_ofList (l := unixLines text.toList)] at hfolds
    exact ⟨_, hfolds, file_of_encode hread h hfolds⟩
  · rintro text e marked hr hmark rfl
    have hwritten : unmarked ((if marked then byteOrderMark else []) ++
        encode (String.ofList (e.write text.toList))) =
          encode (String.ofList (e.write text.toList)) := by
      cases marked with
      | true => exact unmarked_append _
      | false =>
        rw [encode_eq_spell, String.toList_ofList]
        exact unmarked_spell fun h => hmark (e.head?_write (by decide) (by decide) h)
    refine file_of_encode hread hwritten ?_
    rw [String.toList_ofList]
    exact e.folds_write hr
  · intro h
    exact ⟨encode_ne_of_endsInMark h, file_of_ofBytes hread (ofBytes_of_endsInMark h)⟩
  · intro h hmark
    obtain ⟨fault, hfault, hlongest⟩ := ofBytes_error hmark fun text => (h text).symm
    exact ⟨fault.position, fault.message, file_of_fault hread hfault, hlongest,
      blames_message fault⟩

/-- The last character is cut short: the two in front of it are counted from the end of the mark. -/
theorem file_reads_unix_lines_cut_character :
    let bytes : List UInt8 := [0xEF, 0xBB, 0xBF, 0x61, 0x0D, 0xC3]
    let v : Volume := ⟨.folder [("a.ts", .file bytes)], "/"⟩
    let info : FileInfo := ⟨"/a.ts", "a.ts", "typescript"⟩
    v.read info.path = .ok bytes ∧
    ∃ reason, file emptyProgram v info {} = .pure (.error (.census (.badFile "/a.ts" reason))) ∧
      Blames 2 reason := by
  intro bytes v info
  have hparts : Path.parts "/a.ts" = ["", "a.ts"] := rfl
  have hread : v.read info.path = .ok bytes := by
    simp [Volume.read, Volume.locate, Volume.follow, Path.isAbsolute, hparts, v, info, Entry.at?,
      Entry.find?, Entry.entries, String.isEmpty]
  have hfault : decode (unmarked bytes) = .error ⟨2, [0xC3], .truncated⟩ := rfl
  have hmark : ¬EndsInMark bytes := by simp [EndsInMark, bytes]
  have h := file_reads_unix_lines emptyProgram v info {} bytes hread
  obtain ⟨n, reason, hfile, hlongest, hblames⟩ :=
    h.2.2.2 (fun text => (decode_error_iff.mp ⟨_, hfault⟩ text).symm) hmark
  have hn : n = 2 := hlongest.eq (readableUpTo_of_decode hfault)
  exact ⟨hread, reason, hfile, hn ▸ hblames⟩

end Analysis

end MarkupTally
