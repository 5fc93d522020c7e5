import Mathlib.Order.Interval.Set.Defs
import Mathlib.Order.Monotone.Basic
import MarkupTally.Proofs.Positions

/-! Positions by character index. A node that begins at an index of a text is reported in the line
that holds this index, at the number of characters since the line began; so an index further on is
reported at a greater position, and a position tells the index. -/
namespace MarkupTally

open Utf8

section Lines

variable {cs : List Char} {first i : Nat}

/-- The line that holds index `i` begins at index `first`: at the start of the text or right after a
newline, and no newline stands between there and `i`. -/
structure LineFrom (cs : List Char) (first i : Nat) : Prop where
  le : first ≤ i
  fresh : first = 0 ∨ cs[first - 1]? = some '\n'
  clear : '\n' ∉ (cs.take i).drop first

theorem take_eq_take_append {j : Nat} (h : i ≤ j) :
    cs.take j = cs.take i ++ (cs.take j).drop i := by
  conv_lhs => rw [← List.take_append_drop i (cs.take j)]
  rw [List.take_take, Nat.min_eq_left h]

theorem exists_lineFrom (h : i ≤ cs.length) : ∃ first, LineFrom cs first i := by
  -- past a newline a line begins, and past any other character the line goes on
  induction i with
  | zero => exact ⟨0, Nat.le_refl 0, .inl rfl, by simp⟩
  | succ i ih =>
    obtain ⟨first, hfirst⟩ := ih (by omega)
    by_cases hn : cs[i] = '\n'
    · refine ⟨i + 1, Nat.le_refl _, .inr ?_, ?_⟩
      · rw [Nat.add_sub_cancel, List.getElem?_eq_getElem h, hn]
      · rw [List.drop_eq_nil_of_le (List.length_take_le _ _)]
        exact List.not_mem_nil
    · have hle := hfirst.le
      refine ⟨first, by omega, hfirst.fresh, ?_⟩
      have hlen : first ≤ (cs.take i).length := by
        rw [List.length_take]
        omega
      rw [List.take_succ_eq_append_getElem h, List.drop_append_of_le_length hlen,
        List.mem_append, List.mem_singleton]
      exact fun hmem => hmem.elim hfirst.clear fun heq => hn heq.symm

theorem lastLine_concat_newline (cs : List Char) : lastLine (cs ++ ['\n']) = [] :=
  List.rtakeWhile_concat_neg _ _ _ (by simp)

/-- Nothing stands in the last line of what comes before a line. -/
theorem LineFrom.lastLine_take (h : LineFrom cs first i) : lastLine (cs.take first) = [] := by
  rcases h.fresh with hfirst | hnewline
  · rw [hfirst]
    rfl
  · cases first with
    | zero => rfl
    | succ k =>
      rw [Nat.add_sub_cancel] at hnewline
      obtain ⟨hk, hget⟩ := List.getElem?_eq_some_iff.mp hnewline
      rw [List.take_succ_eq_append_getElem hk, hget]
      exact lastLine_concat_newline _

theorem LineFrom.lastLine_eq (h : LineFrom cs first i) :
    lastLine (cs.take i) = (cs.take i).drop first := by
  conv_lhs => rw [take_eq_take_append h.le]
  rw [lastLine_append h.clear, h.lastLine_take, List.nil_append]

theorem LineFrom.length_lastLine (h : LineFrom cs first i) (hi : i ≤ cs.length) :
    (lastLine (cs.take i)).length = i - first := by
  rw [h.lastLine_eq, List.length_drop, List.length_take, Nat.min_eq_left hi]

/-- Of two indices the greater one has the greater position. -/
theorem placeAfter_take_lt {j : Nat} (hij : i < j) (hj : j ≤ cs.length) :
    placeAfter (cs.take i) < placeAfter (cs.take j) := by
  have hmore : (cs.take j).drop i ≠ [] := by
    rw [← List.length_pos_iff, List.length_drop, List.length_take]
    omega
  rw [take_eq_take_append (Nat.le_of_lt hij)]
  exact placeAfter_lt_append hmore

end Lines

namespace Node

/-- A node that begins at a character index is reported in the line that holds the index, and its
column counts the characters since the line began, whatever their widths. Indices and positions are
in the same order, so two nodes share a position only if they begin at the same index. -/
theorem place_tells_index (text : String) :
    (∀ i ≤ text.length, ∀ n : Node, n.BeginsAfter (text.toList.take i) →
      n.line = 1 + (text.toList.take i).count '\n' ∧
      ∃ first, LineFrom text.toList first i ∧ n.charColumn (encode text) = 1 + (i - first)) ∧
    ∀ i ≤ text.length, ∀ j ≤ text.length, ∀ n m : Node,
      n.BeginsAfter (text.toList.take i) → m.BeginsAfter (text.toList.take j) →
      (n.place (encode text) < m.place (encode text) ↔ i < j) ∧
      (n.place (encode text) = m.place (encode text) ↔ i = j) := by
  have htake (i : Nat) : text.toList.take i <+: text.toList := List.take_prefix i _
  constructor
  · intro i hi n hn
    rw [← String.length_toList] at hi
    obtain ⟨first, hfirst⟩ := exists_lineFrom hi
    refine ⟨?_, first, hfirst, ?_⟩
    · rw [line, hn.row, Nat.add_comm]
    · rw [hn.charColumn_eq (htake i), hfirst.length_lastLine hi, Nat.add_comm]
  · intro i hi j hj n m hn hm
    rw [← String.length_toList] at hi hj
    have hmono : StrictMonoOn (fun i => placeAfter (text.toList.take i))
        (Set.Iic text.toList.length) := fun _ _ _ hj hij => placeAfter_take_lt hij hj
    rw [hn.place_eq (htake i), hm.place_eq (htake j)]
    exact ⟨hmono.lt_iff_lt hi hj, hmono.eq_iff_eq hi hj⟩

/-- Two nodes begin behind characters of two and of four bytes, one in each line; the index of the
second one is the end of the text. -/
theorem place_tells_index_wide_characters :
    let text := "é\n😀"
    let n := Analysis.Placed.function 2 0 2
    let m := Analysis.Placed.function 7 1 4
    n.BeginsAfter (text.toList.take 1) ∧ m.BeginsAfter (text.toList.take text.length) ∧
      n.line = 1 ∧ m.line = 2 ∧
      (∃ first, LineFrom text.toList first 1 ∧ n.charColumn (encode text) = 1 + (1 - first)) ∧
      (∃ first, LineFrom text.toList first 3 ∧ m.charColumn (encode text) = 1 + (3 - first)) ∧
      n.place (encode text) < m.place (encode text) := by
  intro text n m
  have hlength : text.length = 3 := by decide
  have hn : n.BeginsAfter (text.toList.take 1) := ⟨by decide, by decide, by decide⟩
  have hm : m.BeginsAfter (text.toList.take 3) := ⟨by decide, by decide, by decide⟩
  obtain ⟨hplace, horder⟩ := place_tells_index text
  obtain ⟨hline, hcolumn⟩ := hplace 1 (by omega) n hn
  obtain ⟨hline', hcolumn'⟩ := hplace 3 (by omega) m hm
  rw [hlength]
  exact ⟨hn, hm, hline.trans (by decide), hline'.trans (by decide), hcolumn, hcolumn',
    (horder 1 (by omega) 3 (by omega) n m hn hm).1.mpr (by omega)⟩

end Node

end MarkupTally
