import MarkupTally.Proofs.Positions

/-! Character columns in a source that need not be UTF-8. A column counts what is shown of the bytes
between the start of the line and the node; it stays within what the number of these bytes allows,
and it does not decrease along a line, wherever the line is cut. -/
namespace MarkupTally.Node

open Utf8

variable {n m : Node} {source : List UInt8}

/-- The node begins in the source, and so does its line. -/
structure Within (source : List UInt8) (n : Node) : Prop where
  column_le : n.info.column ≤ n.info.start
  start_le : n.info.start ≤ source.length

/-- The byte where the line of the node begins. -/
def lineStart (n : Node) : Nat := n.info.start - n.info.column

/-- The bytes of the line in front of the node. -/
def lead (source : List UInt8) (n : Node) : List UInt8 :=
  (source.drop n.lineStart).take n.info.column

theorem Within.length_lead (h : n.Within source) : (n.lead source).length = n.info.column := by
  have hcolumn := h.column_le
  have hstart := h.start_le
  rw [lead, List.length_take, List.length_drop, lineStart]
  omega

theorem Within.charColumn_eq (h : n.Within source) :
    n.charColumn source = count (n.lead source) + 1 :=
  charColumn_eq_count h.column_le

/-- Of two nodes in a line, what stands in front of the first also stands in front of the second. -/
theorem Within.exists_lead_append (hn : n.Within source) (hm : m.Within source)
    (hline : n.lineStart = m.lineStart) (hle : n.info.start ≤ m.info.start) :
    ∃ more, m.lead source = n.lead source ++ more ∧
      more.length = m.info.start - n.info.start := by
  have hcolumns : m.info.column = n.info.column + (m.info.start - n.info.start) := by
    have hn' := hn.column_le
    have hm' := hm.column_le
    unfold lineStart at hline
    omega
  have hlead : m.lead source = n.lead source ++
      ((source.drop n.lineStart).drop n.info.column).take (m.info.start - n.info.start) := by
    rw [lead, lead, ← hline, hcolumns, List.take_add]
  refine ⟨_, hlead, ?_⟩
  have hlength := congrArg List.length hlead
  rw [List.length_append, hm.length_lead, hn.length_lead] at hlength
  omega

/-- The column of a node counts, from one, the characters that are shown in front of it. They are at
least a quarter of the bytes there, rounded up, and at most as many as the bytes. Along a line the
column does not decrease, and it grows by one at most with each byte. -/
theorem charColumn_bounds_and_order (source : List UInt8) :
    (∀ n : Node, n.Within source →
      (∀ k, n.charColumn source = k + 1 ↔
        ∃ cs, Shown (n.lead source) cs ∧ cs.length = k) ∧
      (n.info.column + 3) / 4 + 1 ≤ n.charColumn source ∧
      n.charColumn source ≤ n.info.column + 1) ∧
    ∀ n m : Node, n.Within source → m.Within source → n.lineStart = m.lineStart →
      n.info.start ≤ m.info.start →
      n.charColumn source ≤ m.charColumn source ∧
      m.charColumn source ≤ n.charColumn source + (m.info.start - n.info.start) := by
  constructor
  · intro n hn
    have hlower := length_le_count (n.lead source)
    have hupper := count_le_length (n.lead source)
    rw [hn.length_lead] at hlower hupper
    rw [hn.charColumn_eq]
    refine ⟨fun k => ?_, by omega, by omega⟩
    rw [Nat.add_right_cancel_iff]
    exact count_eq_iff
  · intro n m hn hm hline hle
    obtain ⟨more, hmore, hlength⟩ := hn.exists_lead_append hm hline hle
    have hcount := count_append_bounds (n.lead source) more
    rw [← hmore, hlength] at hcount
    rw [hn.charColumn_eq, hm.charColumn_eq]
    omega

/-- In the second line stand a character of four bytes and two bytes that begin no character. One
node begins inside the character, the other at the end of the line. -/
theorem charColumn_bounds_and_order_inside_character :
    let source : List UInt8 := [0x78, 0x0A, 0xF0, 0x9F, 0x98, 0x80, 0xE0, 0x80]
    let n := Analysis.Placed.function 4 1 2
    let m := Analysis.Placed.function 8 1 6
    n.Within source ∧ m.Within source ∧ n.lineStart = m.lineStart ∧
      n.charColumn source = 2 ∧ m.charColumn source = 4 ∧
      (∃ cs, Shown (m.lead source) cs ∧ cs.length = 3) ∧
      (6 + 3) / 4 + 1 ≤ m.charColumn source ∧ m.charColumn source ≤ 7 ∧
      n.charColumn source ≤ m.charColumn source ∧
      m.charColumn source ≤ n.charColumn source + 4 := by
  intro source n m
  have hn : n.Within source := ⟨by decide, by decide⟩
  have hm : m.Within source := ⟨by decide, by decide⟩
  have hcolumn : m.charColumn source = 4 := by decide
  obtain ⟨hbounds, horder⟩ := charColumn_bounds_and_order source
  obtain ⟨hshown, hlower, hupper⟩ := hbounds m hm
  obtain ⟨hle, hstep⟩ := horder n m hn hm rfl (by decide)
  exact ⟨hn, hm, rfl, by decide, hcolumn, (hshown 3).mp hcolumn, hlower, hupper, hle, hstep⟩

end MarkupTally.Node
