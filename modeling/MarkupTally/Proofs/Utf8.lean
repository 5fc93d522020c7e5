import Mathlib.Data.List.Basic
import MarkupTally.Text.Utf8

/-! Reading UTF-8 is the inverse of writing it. A byte list that encodes a text is read as that text
and as no other; any other one is refused at the end of its longest part that encodes a text. -/
namespace MarkupTally.Utf8

section Bytes

theorem toList_loop (bs : ByteArray) (i : Nat) (r : List UInt8) :
    ByteArray.toList.loop bs i r = r.reverse ++ bs.data.toList.drop i := by
  fun_induction ByteArray.toList.loop bs i r with
  | case1 i r hlt ih =>
    have hlt : i < bs.data.size := hlt
    have hget : bs.get! i = bs.data[i]! := rfl
    rw [ih, hget, getElem!_pos bs.data i hlt, List.drop_eq_getElem_cons (i := i) hlt]
    simp
  | case2 i r hle =>
    have hle : bs.data.toList.length ≤ i := by simpa using hle
    rw [List.drop_eq_nil_of_le hle, List.append_nil]

theorem encode_eq_flatMap (text : String) :
    encode text = text.toList.flatMap String.utf8EncodeChar := by
  rw [encode, String.toUTF8_eq_toByteArray, ByteArray.toList, toList_loop,
    ← String.utf8Encode_toList, List.utf8Encode, List.toList_data_toByteArray]
  rfl

theorem toNat_ofNat_of_lt {n : Nat} (h : n < 0x100) : (UInt8.ofNat n).toNat = n := by
  rw [UInt8.toNat_ofNat']
  omega

theorem val_ofNat {n : Nat} (h : n.isValidChar) : (Char.ofNat n).val.toNat = n := by
  rw [Char.ofNat, dif_pos h]
  rfl

end Bytes

section Pieces

variable {b : UInt8} {bs rest : List UInt8} {c : Char} {w : Nat}

/-- A byte that continues a character. -/
def Tail (x : UInt8) : Prop := 0x80 ≤ x.toNat ∧ x.toNat ≤ 0xBF

theorem continued_eq_char_iff {need : Nat} {lo hi : UInt8} {value width : Nat} :
    continued (need + 1) lo hi value width bs = .char c w ↔
      ∃ x rest, bs = x :: rest ∧ lo.toNat ≤ x.toNat ∧ x.toNat ≤ hi.toNat ∧
        continued need 0x80 0xBF (value * 64 + x.toNat % 64) (width + 1) rest = .char c w := by
  cases bs with
  | nil => simp [continued]
  | cons x rest =>
    simp only [continued, UInt8.le_iff_toNat_le]
    split <;> grind

theorem continued_zero_eq_char_iff {lo hi : UInt8} {value width : Nat} :
    continued 0 lo hi value width bs = .char c w ↔ c = Char.ofNat value ∧ w = width := by
  simp [continued, eq_comm]

theorem piece_eq (b : UInt8) (bs : List UInt8) :
    piece b bs =
      if b.toNat < 0x80 then .char (Char.ofNat b.toNat) 1
      else if b.toNat < 0xC2 then .bad 1 .badStart
      else if b.toNat < 0xE0 then continued 1 0x80 0xBF (b.toNat - 0xC0) 1 bs
      else if b.toNat < 0xF0 then
        continued 2 (if b.toNat = 0xE0 then 0xA0 else 0x80) (if b.toNat = 0xED then 0x9F else 0xBF)
          (b.toNat - 0xE0) 1 bs
      else if b.toNat < 0xF5 then
        continued 3 (if b.toNat = 0xF0 then 0x90 else 0x80) (if b.toNat = 0xF4 then 0x8F else 0xBF)
          (b.toNat - 0xF0) 1 bs
      else .bad 1 .badStart := by
  simp only [piece, UInt8.lt_iff_toNat_lt, ← UInt8.toNat_inj]
  rfl

/-- Limits on a second byte that hold after one first byte only. -/
theorem limits_iff {p q : Prop} [Decidable p] [Decidable q] {lo hi x : UInt8}
    (hlo : 0x80 ≤ lo.toNat) (hhi : hi.toNat ≤ 0xBF) :
    (if p then lo else 0x80).toNat ≤ x.toNat ∧ x.toNat ≤ (if q then hi else 0xBF).toNat ↔
      Tail x ∧ (p → lo.toNat ≤ x.toNat) ∧ (q → x.toNat ≤ hi.toNat) := by
  have h80 : (0x80 : UInt8).toNat = 0x80 := rfl
  have hBF : (0xBF : UInt8).toNat = 0xBF := rfl
  by_cases hp : p <;> by_cases hq : q <;>
    simp only [hp, hq, if_true, if_false, h80, hBF, Tail, true_imp_iff, false_imp_iff,
      and_true, true_and] <;> omega

theorem piece_two_iff (h : 0xC2 ≤ b.toNat) (h' : b.toNat < 0xE0) :
    piece b bs = .char c w ↔ ∃ x rest, bs = x :: rest ∧ Tail x ∧
      c = Char.ofNat ((b.toNat - 0xC0) * 64 + x.toNat % 64) ∧ w = 2 := by
  rw [piece_eq, if_neg (by omega), if_neg (by omega), if_pos h', continued_eq_char_iff]
  simp only [continued_zero_eq_char_iff, Tail, and_assoc]
  rfl

theorem piece_three_iff (h : 0xE0 ≤ b.toNat) (h' : b.toNat < 0xF0) :
    piece b bs = .char c w ↔ ∃ x y rest, bs = x :: y :: rest ∧
      (Tail x ∧ (b.toNat = 0xE0 → 0xA0 ≤ x.toNat) ∧ (b.toNat = 0xED → x.toNat ≤ 0x9F)) ∧ Tail y ∧
      c = Char.ofNat (((b.toNat - 0xE0) * 64 + x.toNat % 64) * 64 + y.toNat % 64) ∧ w = 3 := by
  have hlimits (x : UInt8) := @limits_iff (b.toNat = 0xE0) (b.toNat = 0xED) _ _ 0xA0 0x9F x
    (by decide) (by decide)
  rw [piece_eq, if_neg (by omega), if_neg (by omega), if_neg (by omega), if_pos h']
  simp only [continued_eq_char_iff, continued_zero_eq_char_iff]
  constructor
  · rintro ⟨x, _, rfl, hx, hx', y, rest, rfl, hy, hy', hc, hw⟩
    exact ⟨x, y, rest, rfl, (hlimits x).mp ⟨hx, hx'⟩, ⟨hy, hy'⟩, hc, hw⟩
  · rintro ⟨x, y, rest, rfl, hx, hy, hc, hw⟩
    obtain ⟨hx, hx'⟩ := (hlimits x).mpr hx
    exact ⟨x, _, rfl, hx, hx', y, rest, rfl, hy.1, hy.2, hc, hw⟩

theorem piece_four_iff (h : 0xF0 ≤ b.toNat) (h' : b.toNat < 0xF5) :
    piece b bs = .char c w ↔ ∃ x y z rest, bs = x :: y :: z :: rest ∧
      (Tail x ∧ (b.toNat = 0xF0 → 0x90 ≤ x.toNat) ∧ (b.toNat = 0xF4 → x.toNat ≤ 0x8F)) ∧
      Tail y ∧ Tail z ∧ c = Char.ofNat ((((b.toNat - 0xF0) * 64 + x.toNat % 64) * 64 +
        y.toNat % 64) * 64 + z.toNat % 64) ∧ w = 4 := by
  have hlimits (x : UInt8) := @limits_iff (b.toNat = 0xF0) (b.toNat = 0xF4) _ _ 0x90 0x8F x
    (by decide) (by decide)
  rw [piece_eq, if_neg (by omega), if_neg (by omega), if_neg (by omega), if_neg (by omega),
    if_pos h']
  simp only [continued_eq_char_iff, continued_zero_eq_char_iff]
  constructor
  · rintro ⟨x, _, rfl, hx, hx', y, _, rfl, hy, hy', z, rest, rfl, hz, hz', hc, hw⟩
    exact ⟨x, y, z, rest, rfl, (hlimits x).mp ⟨hx, hx'⟩, ⟨hy, hy'⟩, ⟨hz, hz'⟩, hc, hw⟩
  · rintro ⟨x, y, z, rest, rfl, hx, hy, hz, hc, hw⟩
    obtain ⟨hx, hx'⟩ := (hlimits x).mpr hx
    exact ⟨x, _, rfl, hx, hx', y, _, rfl, hy.1, hy.2, z, rest, rfl, hz.1, hz.2, hc, hw⟩

theorem utf8EncodeChar_one (h : b.toNat < 0x80) :
    String.utf8EncodeChar (Char.ofNat b.toNat) = [b] := by
  rw [String.utf8EncodeChar, val_ofNat (.inl (by omega)), if_pos (by omega), UInt8.ofNat_toNat]

theorem utf8EncodeChar_two {x : UInt8} (h : 0xC2 ≤ b.toNat) (h' : b.toNat < 0xE0) (hx : Tail x) :
    String.utf8EncodeChar (Char.ofNat ((b.toNat - 0xC0) * 64 + x.toNat % 64)) = [b, x] := by
  unfold Tail at hx
  rw [String.utf8EncodeChar, val_ofNat (.inl (by omega)), if_neg (by omega), if_pos (by omega)]
  simp only [List.cons.injEq, ← UInt8.toNat_inj, UInt8.toNat_ofNat', and_true]
  exact ⟨by omega, by omega⟩

theorem utf8EncodeChar_three {x y : UInt8} (h : 0xE0 ≤ b.toNat) (h' : b.toNat < 0xF0)
    (hx : Tail x ∧ (b.toNat = 0xE0 → 0xA0 ≤ x.toNat) ∧ (b.toNat = 0xED → x.toNat ≤ 0x9F))
    (hy : Tail y) :
    String.utf8EncodeChar
      (Char.ofNat (((b.toNat - 0xE0) * 64 + x.toNat % 64) * 64 + y.toNat % 64)) = [b, x, y] := by
  unfold Tail at hx hy
  have hv : (((b.toNat - 0xE0) * 64 + x.toNat % 64) * 64 + y.toNat % 64).isValidChar := by
    unfold Nat.isValidChar
    omega
  rw [String.utf8EncodeChar, val_ofNat hv, if_neg (by omega), if_neg (by omega), if_pos (by omega)]
  simp only [List.cons.injEq, ← UInt8.toNat_inj, UInt8.toNat_ofNat', and_true]
  exact ⟨by omega, by omega, by omega⟩

theorem utf8EncodeChar_four {x y z : UInt8} (h : 0xF0 ≤ b.toNat) (h' : b.toNat < 0xF5)
    (hx : Tail x ∧ (b.toNat = 0xF0 → 0x90 ≤ x.toNat) ∧ (b.toNat = 0xF4 → x.toNat ≤ 0x8F))
    (hy : Tail y) (hz : Tail z) :
    String.utf8EncodeChar (Char.ofNat ((((b.toNat - 0xF0) * 64 + x.toNat % 64) * 64 +
      y.toNat % 64) * 64 + z.toNat % 64)) = [b, x, y, z] := by
  unfold Tail at hx hy hz
  have hv : ((((b.toNat - 0xF0) * 64 + x.toNat % 64) * 64 + y.toNat % 64) * 64 +
      z.toNat % 64).isValidChar := by
    unfold Nat.isValidChar
    omega
  rw [String.utf8EncodeChar, val_ofNat hv, if_neg (by omega), if_neg (by omega),
    if_neg (by omega)]
  simp only [List.cons.injEq, ← UInt8.toNat_inj, UInt8.toNat_ofNat', and_true]
  exact ⟨by omega, by omega, by omega, by omega⟩

theorem utf8EncodeChar_of_piece (h : piece b bs = .char c w) :
    ∃ rest, b :: bs = String.utf8EncodeChar c ++ rest := by
  by_cases h1 : b.toNat < 0x80
  · rw [piece_eq, if_pos h1] at h
    cases h
    exact ⟨bs, by rw [utf8EncodeChar_one h1]; rfl⟩
  by_cases h2 : b.toNat < 0xC2
  · rw [piece_eq, if_neg h1, if_pos h2] at h
    cases h
  by_cases h3 : b.toNat < 0xE0
  · obtain ⟨x, rest, rfl, hx, rfl, -⟩ := (piece_two_iff (by omega) h3).mp h
    exact ⟨rest, by rw [utf8EncodeChar_two (by omega) h3 hx]; rfl⟩
  by_cases h4 : b.toNat < 0xF0
  · obtain ⟨x, y, rest, rfl, hx, hy, rfl, -⟩ := (piece_three_iff (by omega) h4).mp h
    exact ⟨rest, by rw [utf8EncodeChar_three (by omega) h4 hx hy]; rfl⟩
  by_cases h5 : b.toNat < 0xF5
  · obtain ⟨x, y, z, rest, rfl, hx, hy, hz, rfl, -⟩ := (piece_four_iff (by omega) h5).mp h
    exact ⟨rest, by rw [utf8EncodeChar_four (by omega) h5 hx hy hz]; rfl⟩
  · rw [piece_eq, if_neg h1, if_neg h2, if_neg h3, if_neg h4, if_neg h5] at h
    cases h

theorem piece_utf8EncodeChar (c : Char) (rest : List UInt8) :
    ∃ b bs, String.utf8EncodeChar c ++ rest = b :: bs ∧
      piece b bs = .char c (String.utf8EncodeChar c).length := by
  have hc : c = Char.ofNat c.val.toNat := (Char.ofNat_toNat c).symm
  have hv : c.val.toNat.isValidChar := c.valid
  unfold String.utf8EncodeChar
  unfold Nat.isValidChar at hv
  generalize c.val.toNat = v at hc hv
  subst hc
  -- as the writer does, by the number of bytes that the value takes
  by_cases h1 : v ≤ 0x7F
  · rw [if_pos h1]
    have hb := toNat_ofNat_of_lt (show v < 0x100 by omega)
    refine ⟨_, _, rfl, ?_⟩
    rw [piece_eq, hb, if_pos (by omega)]
    rfl
  by_cases h2 : v ≤ 0x7FF
  · rw [if_neg h1, if_pos h2]
    have hb := toNat_ofNat_of_lt (show v / 64 % 32 + 192 < 0x100 by omega)
    have hx := toNat_ofNat_of_lt (show v % 64 + 128 < 0x100 by omega)
    refine ⟨_, _, rfl, (piece_two_iff (by omega) (by omega)).mpr ⟨_, rest, rfl, ?_, ?_, rfl⟩⟩
    · unfold Tail
      omega
    · rw [hb, hx]
      congr 1
      omega
  by_cases h3 : v ≤ 0xFFFF
  · rw [if_neg h1, if_neg h2, if_pos h3]
    have hb := toNat_ofNat_of_lt (show v / 4096 % 16 + 224 < 0x100 by omega)
    have hx := toNat_ofNat_of_lt (show v / 64 % 64 + 128 < 0x100 by omega)
    have hy := toNat_ofNat_of_lt (show v % 64 + 128 < 0x100 by omega)
    refine ⟨_, _, rfl,
      (piece_three_iff (by omega) (by omega)).mpr ⟨_, _, rest, rfl, ?_, ?_, ?_, rfl⟩⟩
    · unfold Tail
      omega
    · unfold Tail
      omega
    · rw [hb, hx, hy]
      congr 1
      omega
  · rw [if_neg h1, if_neg h2, if_neg h3]
    have hb := toNat_ofNat_of_lt (show v / 262144 % 8 + 240 < 0x100 by omega)
    have hx := toNat_ofNat_of_lt (show v / 4096 % 64 + 128 < 0x100 by omega)
    have hy := toNat_ofNat_of_lt (show v / 64 % 64 + 128 < 0x100 by omega)
    have hz := toNat_ofNat_of_lt (show v % 64 + 128 < 0x100 by omega)
    refine ⟨_, _, rfl,
      (piece_four_iff (by omega) (by omega)).mpr ⟨_, _, _, rest, rfl, ?_, ?_, ?_, ?_, rfl⟩⟩
    · unfold Tail
      omega
    · unfold Tail
      omega
    · unfold Tail
      omega
    · rw [hb, hx, hy, hz]
      congr 1
      omega

end Pieces

/-- The bytes of a row of characters, one after the other. -/
def spell (cs : List Char) : List UInt8 := cs.flatMap String.utf8EncodeChar

theorem encode_eq_spell (text : String) : encode text = spell text.toList := encode_eq_flatMap text

@[simp] theorem spell_nil : spell [] = [] := rfl

@[simp] theorem spell_cons (c : Char) (cs : List Char) :
    spell (c :: cs) = String.utf8EncodeChar c ++ spell cs := rfl

@[simp] theorem spell_append (cs ds : List Char) : spell (cs ++ ds) = spell cs ++ spell ds :=
  List.flatMap_append

/-- The bytes begin with no character: there are none, or what they begin with is damaged. -/
inductive Unreadable : List UInt8 → Prop where
  | empty : Unreadable []
  | bad {b : UInt8} {bs : List UInt8} {w : Nat} {reason : Reason}
      (h : piece b bs = .bad w reason) : Unreadable (b :: bs)

theorem length_utf8EncodeChar_pos (c : Char) : 0 < (String.utf8EncodeChar c).length := by
  rw [String.length_utf8EncodeChar]
  exact c.utf8Size_pos

theorem exists_spell_append : (bytes : List UInt8) →
    ∃ cs rest, bytes = spell cs ++ rest ∧ Unreadable rest
  | [] => ⟨[], [], rfl, .empty⟩
  | b :: bs =>
    match hp : piece b bs with
    | .bad w reason => ⟨[], b :: bs, rfl, .bad hp⟩
    | .char c w => by
      obtain ⟨more, hmore⟩ := utf8EncodeChar_of_piece hp
      have hpos := length_utf8EncodeChar_pos c
      have hlen : more.length < bs.length + 1 := by
        rw [← List.length_cons, hmore, List.length_append]
        omega
      obtain ⟨cs, rest, hcs, hrest⟩ := exists_spell_append more
      exact ⟨c :: cs, rest, by rw [hmore, hcs, spell_cons, List.append_assoc], hrest⟩
termination_by bytes => bytes.length

/-- A text in front of bytes stands also in front of what can be read of them. -/
theorem prefix_of_spell_append {cs ds : List Char} {rest more : List UInt8}
    (h : spell ds ++ more = spell cs ++ rest) (hrest : Unreadable rest) : ds <+: cs := by
  induction ds generalizing cs with
  | nil => exact List.nil_prefix
  | cons d ds ih =>
    obtain ⟨b, bs, heq, hd⟩ := piece_utf8EncodeChar d (spell ds ++ more)
    rw [spell_cons, List.append_assoc, heq] at h
    cases cs with
    | nil =>
      rw [spell_nil, List.nil_append] at h
      rw [← h] at hrest
      cases hrest with
      | bad hbad => cases hd.symm.trans hbad
    | cons c cs =>
      obtain ⟨b', bs', heq', hc⟩ := piece_utf8EncodeChar c (spell cs ++ rest)
      rw [spell_cons, List.append_assoc, heq'] at h
      obtain ⟨rfl, rfl⟩ := List.cons.inj h
      have hdc : d = c := (Piece.char.inj (hd.symm.trans hc)).1
      subst hdc
      have hmore : spell ds ++ more = spell cs ++ rest :=
        List.append_cancel_left (heq.trans heq'.symm)
      exact List.cons_prefix_cons.mpr ⟨rfl, ih hmore⟩

theorem decodeOnto_skip (read : List Char) (position skip : Nat) (bs : List UInt8) :
    decodeOnto read position skip bs =
      decodeOnto read (position + skip) 0 (bs.drop skip) := by
  induction skip generalizing position bs with
  | zero => rfl
  | succ skip ih =>
    cases bs with
    | nil => rfl
    | cons b bs =>
      rw [decodeOnto, ih, List.drop_succ_cons]
      congr 1
      omega

/-- The step of a reader: the first character, and what is left when its other bytes have been
passed over. -/
theorem exists_piece (c : Char) (rest : List UInt8) :
    ∃ b bs w, String.utf8EncodeChar c ++ rest = b :: bs ∧ piece b bs = .char c (w + 1) ∧
      (String.utf8EncodeChar c).length = w + 1 ∧ bs.drop w = rest := by
  obtain ⟨b, bs, heq, hp⟩ := piece_utf8EncodeChar c rest
  obtain ⟨w, hw⟩ := Nat.exists_eq_add_of_lt (length_utf8EncodeChar_pos c)
  rw [Nat.zero_add] at hw
  rw [hw] at hp
  refine ⟨b, bs, w, heq, hp, hw, ?_⟩
  have hdrop := congrArg (List.drop (w + 1)) heq
  rw [List.drop_left' hw, List.drop_succ_cons] at hdrop
  exact hdrop.symm

theorem decodeOnto_char (read : List Char) (position : Nat) (c : Char) (rest : List UInt8) :
    decodeOnto read position 0 (String.utf8EncodeChar c ++ rest) =
      decodeOnto (c :: read) (position + (String.utf8EncodeChar c).length) 0 rest := by
  obtain ⟨b, bs, w, heq, hp, hw, hrest⟩ := exists_piece c rest
  rw [heq, decodeOnto, hp]
  dsimp only
  rw [Nat.add_sub_cancel, decodeOnto_skip, hrest, hw]
  congr 1
  omega

theorem decodeOnto_spell (read : List Char) (position : Nat) (cs : List Char) (rest : List UInt8) :
    decodeOnto read position 0 (spell cs ++ rest) =
      decodeOnto (cs.reverse ++ read) (position + (spell cs).length) 0 rest := by
  induction cs generalizing read position with
  | nil => rfl
  | cons c cs ih =>
    rw [spell_cons, List.append_assoc, decodeOnto_char, ih, List.length_append, Nat.add_assoc,
      List.reverse_cons, List.append_assoc]
    rfl

theorem decode_spell (cs : List Char) : decode (spell cs) = .ok cs := by
  have h := decodeOnto_spell [] 0 cs []
  rw [List.append_nil, List.append_nil, decodeOnto, List.reverse_reverse] at h
  exact h

theorem decode_eq_ok_iff {bytes : List UInt8} {cs : List Char} :
    decode bytes = .ok cs ↔ bytes = spell cs := by
  constructor
  · intro h
    obtain ⟨ds, rest, rfl, hrest⟩ := exists_spell_append bytes
    rw [decode, decodeOnto_spell] at h
    cases hrest with
    | empty =>
      rw [decodeOnto, List.append_nil, List.reverse_reverse] at h
      rw [Except.ok.inj h, List.append_nil]
    | bad hbad =>
      rw [decodeOnto, hbad] at h
      cases h
  · rintro rfl
    exact decode_spell cs

/-- The longest part in front of the bytes that encodes a text has this length. -/
def ReadableUpTo (bytes : List UInt8) (n : Nat) : Prop :=
  (∃ text, encode text <+: bytes ∧ (encode text).length = n) ∧
    ∀ text, encode text <+: bytes → (encode text).length ≤ n

theorem ReadableUpTo.eq {bytes : List UInt8} {n m : Nat} (hn : ReadableUpTo bytes n)
    (hm : ReadableUpTo bytes m) : n = m := by
  obtain ⟨⟨s, hs, rfl⟩, hmax⟩ := hn
  obtain ⟨⟨t, ht, rfl⟩, hmax'⟩ := hm
  exact Nat.le_antisymm (hmax' s hs) (hmax t ht)

theorem readableUpTo_spell_append {cs : List Char} {rest : List UInt8} (h : Unreadable rest) :
    ReadableUpTo (spell cs ++ rest) (spell cs).length := by
  refine ⟨⟨String.ofList cs, ?_, ?_⟩, fun text ⟨more, hmore⟩ => ?_⟩
  · rw [encode_eq_spell, String.toList_ofList]
    exact List.prefix_append _ _
  · rw [encode_eq_spell, String.toList_ofList]
  · rw [encode_eq_spell] at hmore ⊢
    obtain ⟨ds, hds⟩ := prefix_of_spell_append hmore h
    rw [← hds, spell_append, List.length_append]
    omega

theorem decode_error_iff {bytes : List UInt8} :
    (∃ fault, decode bytes = .error fault) ↔ ∀ text, encode text ≠ bytes := by
  constructor
  · rintro ⟨fault, h⟩ text rfl
    rw [encode_eq_spell, decode_spell] at h
    cases h
  · intro h
    cases hd : decode bytes with
    | error fault => exact ⟨fault, rfl⟩
    | ok cs =>
      refine absurd ?_ (h (String.ofList cs))
      rw [encode_eq_spell, String.toList_ofList, decode_eq_ok_iff.mp hd]

theorem readableUpTo_of_decode {bytes : List UInt8} {fault : Fault}
    (h : decode bytes = .error fault) : ReadableUpTo bytes fault.position := by
  obtain ⟨cs, rest, rfl, hrest⟩ := exists_spell_append bytes
  have hlongest := @readableUpTo_spell_append cs _ hrest
  rw [decode, decodeOnto_spell] at h
  cases hrest with
  | empty =>
    rw [decodeOnto] at h
    cases h
  | bad hbad =>
    rw [decodeOnto, hbad] at h
    cases h
    rwa [Nat.zero_add]

/-- The texts that blame one byte, or a run of bytes, at the given position. -/
inductive Blames (n : Nat) : String → Prop where
  | byte (b : UInt8) (why : String) :
      Blames n ("'utf-8' codec can't decode " ++
        ("byte 0x" ++ hexByte b ++ " in position " ++ toString n) ++ ": " ++ why)
  | run (last : Nat) (why : String) :
      Blames n ("'utf-8' codec can't decode " ++
        ("bytes in position " ++ toString n ++ "-" ++ toString last) ++ ": " ++ why)

theorem blames_message (fault : Fault) : Blames fault.position fault.message := by
  unfold Fault.message
  split
  · exact .byte _ _
  · exact .run _ _

end MarkupTally.Utf8
