import MarkupTally.Proofs.Utf8

/-! Counting the characters of damaged UTF-8. Bytes are split into characters and damaged runs, and a
damaged run goes on as long as it could still become a character. A cut inside a character or a
damaged run changes only the last part, so a longer text never has fewer parts. -/
namespace MarkupTally.Utf8

section Continued

variable {need : Nat} {lo hi : UInt8} {value width : Nat} {bs : List UInt8}

theorem le_width_continued : width ≤ (continued need lo hi value width bs).width := by
  fun_induction continued need lo hi value width bs with
  | case1 => exact Nat.le_refl _
  | case2 => exact Nat.le_refl _
  | case3 need lo hi value width b bs hb ih => omega
  | case4 => exact Nat.le_refl _

theorem width_continued_le :
    (continued need lo hi value width bs).width ≤ width + need ∧
      (continued need lo hi value width bs).width ≤ width + bs.length := by
  fun_induction continued need lo hi value width bs with
  | case1 => exact ⟨Nat.le_refl _, Nat.le_add_right _ _⟩
  | case2 => exact ⟨Nat.le_add_right _ _, Nat.le_refl _⟩
  | case3 need lo hi value width b bs hb ih =>
    rw [List.length_cons]
    omega
  | case4 => exact ⟨Nat.le_add_right _ _, Nat.le_add_right _ _⟩

/-- More bytes change what was read only if the bytes had run out. -/
theorem continued_append (more : List UInt8) :
    continued need lo hi value width (bs ++ more) = continued need lo hi value width bs ∨
      continued need lo hi value width bs = .bad (width + bs.length) .truncated ∧
        width + bs.length ≤ (continued need lo hi value width (bs ++ more)).width := by
  fun_induction continued need lo hi value width bs with
  | case1 => exact .inl (by rw [continued])
  | case2 => exact .inr ⟨rfl, le_width_continued⟩
  | case3 need lo hi value width b bs hb ih =>
    rw [List.cons_append, continued, if_pos hb, List.length_cons, Nat.add_comm bs.length,
      ← Nat.add_assoc]
    exact ih
  | case4 need lo hi value width b bs hb =>
    rw [List.cons_append, continued, if_neg hb]
    exact .inl rfl

theorem exists_continued (need : Nat) (hlo : lo ≤ hi) (value width : Nat) :
    ∃ more c w, continued need lo hi value width more = .char c w := by
  induction need generalizing lo hi value width with
  | zero => exact ⟨[], _, _, rfl⟩
  | succ need ih =>
    obtain ⟨more, c, w, hmore⟩ := @ih 0x80 0xBF (by decide) (value * 64 + lo.toNat % 64) (width + 1)
    refine ⟨lo :: more, c, w, ?_⟩
    rw [continued, if_pos ⟨UInt8.le_refl lo, hlo⟩, hmore]

/-- A damaged run could have become a character up to its last byte. -/
theorem exists_continued_take {w : Nat} {reason : Reason} (hlo : lo ≤ hi)
    (h : continued need lo hi value width bs = .bad w reason) :
    ∃ more c v, continued need lo hi value width (bs.take (w - width) ++ more) = .char c v := by
  fun_induction continued need lo hi value width bs with
  | case1 => cases h
  | case2 lo hi value need =>
    cases h
    rw [List.take_nil]
    exact exists_continued (need + 1) hlo value w
  | case3 need lo hi value width b bs hb ih =>
    obtain ⟨more, c, v, hmore⟩ := ih (by decide) h
    have hwidth : width + 1 ≤ w := by
      have hle := @le_width_continued need 0x80 0xBF (value * 64 + b.toNat % 64) (width + 1) bs
      rwa [h] at hle
    have htake : w - width = w - (width + 1) + 1 := by omega
    refine ⟨more, c, v, ?_⟩
    rw [htake, List.take_succ_cons, List.cons_append, continued, if_pos hb, hmore]
  | case4 need lo hi value width b bs hb =>
    cases h
    rw [Nat.sub_self, List.take_zero]
    exact exists_continued (need + 1) hlo value w

end Continued

section Pieces

variable {b : UInt8} {bs : List UInt8} {c : Char} {w : Nat} {reason : Reason}

/-- Limits on a second byte, each of them narrowed after one first byte, leave some byte. -/
theorem limits_le {p q : Prop} [Decidable p] [Decidable q] {lo hi : UInt8} (hpq : p → ¬q)
    (hlo : lo ≤ 0xBF) (hhi : 0x80 ≤ hi) :
    (if p then lo else 0x80) ≤ if q then hi else 0xBF := by
  by_cases hp : p
  · rw [if_pos hp, if_neg (hpq hp)]
    exact hlo
  · rw [if_neg hp]
    split
    · exact hhi
    · decide

/-- A byte begins no character, or it says how many bytes have to follow it, three at most, and
between which limits the first of them has to be. -/
theorem piece_cases (b : UInt8) :
    (∀ bs, piece b bs = .bad 1 .badStart) ∨
      ∃ need lo hi value, need ≤ 3 ∧ lo ≤ hi ∧
        ∀ bs, piece b bs = continued need lo hi value 1 bs := by
  by_cases h1 : b < 0x80
  · refine .inr ⟨0, 0x80, 0xBF, b.toNat, by omega, by decide, fun bs => ?_⟩
    rw [piece, if_pos h1, continued]
  by_cases h2 : b < 0xC2
  · refine .inl fun bs => ?_
    rw [piece, if_neg h1, if_pos h2]
  by_cases h3 : b < 0xE0
  · refine .inr ⟨1, 0x80, 0xBF, b.toNat - 0xC0, by omega, by decide, fun bs => ?_⟩
    rw [piece, if_neg h1, if_neg h2, if_pos h3]
  by_cases h4 : b < 0xF0
  · refine .inr ⟨2, if b = 0xE0 then 0xA0 else 0x80, if b = 0xED then 0x9F else 0xBF,
      b.toNat - 0xE0, by omega, ?_, fun bs => ?_⟩
    · have hapart : b = 0xE0 → ¬b = 0xED := fun h => by
        rw [h]
        decide
      exact limits_le hapart (by decide) (by decide)
    · rw [piece, if_neg h1, if_neg h2, if_neg h3, if_pos h4]
  by_cases h5 : b < 0xF5
  · refine .inr ⟨3, if b = 0xF0 then 0x90 else 0x80, if b = 0xF4 then 0x8F else 0xBF,
      b.toNat - 0xF0, by omega, ?_, fun bs => ?_⟩
    · have hapart : b = 0xF0 → ¬b = 0xF4 := fun h => by
        rw [h]
        decide
      exact limits_le hapart (by decide) (by decide)
    · rw [piece, if_neg h1, if_neg h2, if_neg h3, if_neg h4, if_pos h5]
  · refine .inl fun bs => ?_
    rw [piece, if_neg h1, if_neg h2, if_neg h3, if_neg h4, if_neg h5]

theorem width_piece (b : UInt8) (bs : List UInt8) :
    1 ≤ (piece b bs).width ∧ (piece b bs).width ≤ 4 ∧ (piece b bs).width ≤ bs.length + 1 := by
  rcases piece_cases b with hbad | ⟨need, lo, hi, value, hneed, -, heq⟩
  · rw [hbad bs, Piece.width]
    omega
  · have hle := @le_width_continued need lo hi value 1 bs
    have hge := @width_continued_le need lo hi value 1 bs
    rw [heq bs]
    omega

/-- More bytes change the first piece only if it is a character that was cut off. It then held all
the bytes, and it does not get shorter. -/
theorem piece_append (b : UInt8) (bs more : List UInt8) :
    piece b (bs ++ more) = piece b bs ∨
      piece b bs = .bad (bs.length + 1) .truncated ∧
        bs.length + 1 ≤ (piece b (bs ++ more)).width := by
  rcases piece_cases b with hbad | ⟨need, lo, hi, value, -, -, heq⟩
  · rw [hbad, hbad]
    exact .inl rfl
  · rw [heq, heq, Nat.add_comm bs.length]
    exact continued_append more

/-- A damaged run is one byte, or it could have become a character up to its last byte. -/
theorem piece_take (h : piece b bs = .bad w reason) :
    w = 1 ∨ ∃ more c v, piece b (bs.take (w - 1) ++ more) = .char c v := by
  rcases piece_cases b with hbad | ⟨need, lo, hi, value, -, hlo, heq⟩
  · rw [hbad] at h
    cases h
    exact .inl rfl
  · rw [heq] at h
    obtain ⟨more, c, v, hmore⟩ := exists_continued_take hlo h
    exact .inr ⟨more, c, v, by rw [heq, hmore]⟩

theorem piece_eq_char (h : String.utf8EncodeChar c <+: b :: bs) :
    piece b bs = .char c (String.utf8EncodeChar c).length := by
  obtain ⟨rest, hrest⟩ := h
  obtain ⟨b', bs', heq, hp⟩ := piece_utf8EncodeChar c rest
  obtain ⟨rfl, rfl⟩ := List.cons.inj (heq.symm.trans hrest)
  exact hp

/-- To prove something of all byte lists, follow the pieces. -/
theorem piece_induction {P : List UInt8 → Prop} (nil : P [])
    (cons : ∀ b bs, P (bs.drop ((piece b bs).width - 1)) → P (b :: bs)) :
    (bytes : List UInt8) → P bytes
  | [] => nil
  | b :: bs => cons b bs (piece_induction nil cons _)
termination_by bytes => bytes.length
decreasing_by
  rw [List.length_drop, List.length_cons]
  omega

end Pieces

section Counts

theorem countOnto_skip (n skip : Nat) (bs : List UInt8) :
    countOnto n skip bs = countOnto n 0 (bs.drop skip) := by
  induction skip generalizing bs with
  | zero => rfl
  | succ skip ih =>
    cases bs with
    | nil => rfl
    | cons b bs => rw [countOnto, ih, List.drop_succ_cons]

theorem countOnto_eq_add (n skip : Nat) (bs : List UInt8) :
    countOnto n skip bs = countOnto 0 skip bs + n := by
  induction bs generalizing n skip with
  | nil =>
    rw [countOnto, countOnto, Nat.zero_add]
  | cons b bs ih =>
    cases skip with
    | zero =>
      rw [countOnto, countOnto, ih (n + 1), ih (0 + 1)]
      omega
    | succ skip =>
      rw [countOnto, countOnto]
      exact ih n skip

@[simp] theorem count_nil : count [] = 0 := rfl

/-- The first piece counts once, whatever its width. -/
theorem count_cons (b : UInt8) (bs : List UInt8) :
    count (b :: bs) = count (bs.drop ((piece b bs).width - 1)) + 1 := by
  rw [count, count, countOnto, countOnto_eq_add, countOnto_skip]

theorem count_le_length (bytes : List UInt8) : count bytes ≤ bytes.length := by
  induction bytes using piece_induction with
  | nil => exact Nat.le_refl 0
  | cons b bs ih =>
    rw [List.length_drop] at ih
    rw [count_cons, List.length_cons]
    omega

theorem length_le_count (bytes : List UInt8) : bytes.length ≤ 4 * count bytes := by
  induction bytes using piece_induction with
  | nil => exact Nat.le_refl 0
  | cons b bs ih =>
    obtain ⟨-, hwidth, -⟩ := width_piece b bs
    rw [List.length_drop] at ih
    rw [count_cons, List.length_cons]
    omega

/-- More bytes never make the count smaller, and each of them adds one at most. -/
theorem count_append_bounds (bytes more : List UInt8) :
    count bytes ≤ count (bytes ++ more) ∧ count (bytes ++ more) ≤ count bytes + more.length := by
  induction bytes using piece_induction with
  | nil =>
    have hle := count_le_length more
    rw [count_nil, List.nil_append]
    omega
  | cons b bs ih =>
    rw [List.cons_append, count_cons, count_cons]
    rcases piece_append b bs more with hsame | ⟨hcut, hwidth⟩
    · -- the first piece stays, and the bytes behind it are followed by the same bytes
      obtain ⟨-, -, hwithin⟩ := width_piece b bs
      have hle : (piece b bs).width - 1 ≤ bs.length := by omega
      rw [hsame, List.drop_append_of_le_length hle]
      omega
    · -- the first piece held all the bytes, so only new ones are left
      have hnone : bs.drop ((piece b bs).width - 1) = [] := by
        rw [hcut, Piece.width, Nat.add_sub_cancel, List.drop_length]
      have hle := count_le_length ((bs ++ more).drop ((piece b (bs ++ more)).width - 1))
      rw [List.length_drop, List.length_append] at hle
      rw [hnone, count_nil]
      omega

end Counts

section Shown

variable {run rest run' rest' : List UInt8}

/-- The bytes are those of a character, or the first of them. -/
def Opens (run : List UInt8) : Prop := ∃ c, run <+: String.utf8EncodeChar c

/-- Where no character can be read, a damaged run is the longest one that opens a character, or one
byte if none does. -/
structure Damaged (run rest : List UInt8) : Prop where
  unread : ∀ c, ¬String.utf8EncodeChar c <+: run ++ rest
  pos : 1 ≤ run.length
  opens : run.length = 1 ∨ Opens run
  longest : ∀ longer, longer <+: run ++ rest → Opens longer → longer.length ≤ run.length

/-- What is shown of bytes that may be damaged: their characters, with U+FFFD in the place of each
damaged run. -/
inductive Shown : List UInt8 → List Char → Prop where
  | nil : Shown [] []
  | char (c : Char) {rest : List UInt8} {cs : List Char} (h : Shown rest cs) :
      Shown (String.utf8EncodeChar c ++ rest) (c :: cs)
  | damaged {run rest : List UInt8} {cs : List Char} (hrun : Damaged run rest)
      (h : Shown rest cs) : Shown (run ++ rest) ('\uFFFD' :: cs)

theorem Damaged.length_le (h : Damaged run rest) (h' : Damaged run' rest')
    (heq : run ++ rest = run' ++ rest') : run.length ≤ run'.length := by
  have hpos := h'.pos
  rcases h.opens with hone | hopens
  · omega
  · refine h'.longest run ?_ hopens
    rw [← heq]
    exact List.prefix_append run rest

/-- Bytes begin with one damaged run at most. -/
theorem Damaged.unique (h : Damaged run rest) (h' : Damaged run' rest')
    (heq : run ++ rest = run' ++ rest') : run = run' ∧ rest = rest' := by
  have hlen : run.length = run'.length :=
    Nat.le_antisymm (h.length_le h' heq) (h'.length_le h heq.symm)
  exact List.append_inj heq hlen

variable {b : UInt8} {bs : List UInt8} {w : Nat} {reason : Reason}

theorem length_le_of_opens (h : piece b bs = .bad w reason) {longer : List UInt8}
    (hpre : longer <+: b :: bs) (hopens : Opens longer) : longer.length ≤ w := by
  cases longer with
  | nil => exact Nat.zero_le w
  | cons b' ls =>
    obtain ⟨rfl, rest, rfl⟩ := List.cons_prefix_cons.mp hpre
    obtain ⟨c, more, hmore⟩ := hopens
    have hchar : piece b' (ls ++ more) = .char c (String.utf8EncodeChar c).length := by
      refine piece_eq_char ?_
      rw [← hmore]
      exact List.prefix_rfl
    -- the run is cut off, for otherwise what follows it would not matter
    have hcut : piece b' ls = .bad (ls.length + 1) .truncated := by
      rcases piece_append b' ls more with hsame | ⟨hcut, -⟩
      · rcases piece_append b' ls rest with hsame' | ⟨hcut, -⟩
        · rw [← hsame', h, hchar] at hsame
          cases hsame
        · exact hcut
      · exact hcut
    rcases piece_append b' ls rest with hsame | ⟨-, hwidth⟩
    · rw [h, hcut] at hsame
      cases hsame
      exact Nat.le_refl _
    · rwa [h] at hwidth

theorem damaged_of_piece (h : piece b bs = .bad w reason) :
    Damaged ((b :: bs).take w) ((b :: bs).drop w) := by
  obtain ⟨hpos, -, hwithin⟩ := width_piece b bs
  rw [h, Piece.width] at hpos hwithin
  have hlen : ((b :: bs).take w).length = w := List.length_take_of_le hwithin
  have hunread (c : Char) : ¬String.utf8EncodeChar c <+: b :: bs := fun hpre => by
    rw [piece_eq_char hpre] at h
    cases h
  refine ⟨?_, ?_, ?_, ?_⟩
  · rwa [List.take_append_drop]
  · rwa [hlen]
  · rw [hlen]
    rcases piece_take h with hone | ⟨more, c, v, hmore⟩
    · exact .inl hone
    refine .inr ⟨c, ?_⟩
    -- the run and the character both begin the completed bytes, and the run holds no character
    obtain ⟨after, hafter⟩ := utf8EncodeChar_of_piece hmore
    have hrun : (b :: bs).take w = b :: bs.take (w - 1) := List.take_cons hpos
    have hpre : (b :: bs).take w <+: String.utf8EncodeChar c ++ after := by
      rw [← hafter, hrun, ← List.cons_append]
      exact List.prefix_append _ _
    rcases List.prefix_or_prefix_of_prefix hpre (List.prefix_append _ after) with hle | hge
    · exact hle
    · exact absurd (hge.trans (List.take_prefix w _)) (hunread c)
  · rw [List.take_append_drop, hlen]
    exact fun longer => length_le_of_opens h

/-- The step of a reader at a damaged run: one piece that holds the run, and what is left. -/
theorem Damaged.exists_piece (h : Damaged run rest) :
    ∃ b bs w reason, run ++ rest = b :: bs ∧ piece b bs = .bad (w + 1) reason ∧
      bs.drop w = rest := by
  cases hbytes : run ++ rest with
  | nil =>
    have hpos := h.pos
    rw [(List.append_eq_nil_iff.mp hbytes).1, List.length_nil] at hpos
    omega
  | cons b bs =>
    cases hp : piece b bs with
    | char c w =>
      obtain ⟨after, hafter⟩ := utf8EncodeChar_of_piece hp
      refine absurd ?_ (h.unread c)
      rw [hbytes, hafter]
      exact List.prefix_append _ _
    | bad w reason =>
      obtain ⟨hpos, -, -⟩ := width_piece b bs
      rw [hp, Piece.width] at hpos
      have heq := hbytes.trans (List.take_append_drop w (b :: bs)).symm
      obtain ⟨-, hrest⟩ := h.unique (damaged_of_piece hp) heq
      refine ⟨b, bs, w - 1, reason, rfl, ?_, ?_⟩
      · rw [hp, Nat.sub_add_cancel hpos]
      · rw [hrest, List.drop_cons hpos]

theorem exists_shown (bytes : List UInt8) : ∃ cs, Shown bytes cs := by
  induction bytes using piece_induction with
  | nil => exact ⟨[], .nil⟩
  | cons b bs ih =>
    obtain ⟨cs, hcs⟩ := ih
    cases hp : piece b bs with
    | char c w =>
      obtain ⟨rest, hrest⟩ := utf8EncodeChar_of_piece hp
      obtain ⟨b', bs', w', heq, hp', -, hdrop⟩ := exists_piece c rest
      obtain ⟨rfl, rfl⟩ := List.cons.inj (hrest.trans heq)
      rw [hp', Piece.width, Nat.add_sub_cancel, hdrop] at hcs
      rw [hrest]
      exact ⟨c :: cs, .char c hcs⟩
    | bad w reason =>
      obtain ⟨hpos, -, -⟩ := width_piece b bs
      rw [hp, Piece.width] at hcs hpos
      rw [← List.drop_cons hpos] at hcs
      rw [← List.take_append_drop w (b :: bs)]
      exact ⟨_, .damaged (damaged_of_piece hp) hcs⟩

theorem Shown.count_eq {bytes : List UInt8} {cs : List Char} (h : Shown bytes cs) :
    count bytes = cs.length := by
  induction h with
  | nil => rfl
  | char c h ih =>
    obtain ⟨b, bs, w, heq, hp, -, hdrop⟩ := exists_piece c _
    rw [heq, count_cons, hp, Piece.width, Nat.add_sub_cancel, hdrop, ih, List.length_cons]
  | damaged hrun h ih =>
    obtain ⟨b, bs, w, reason, heq, hp, hdrop⟩ := hrun.exists_piece
    rw [heq, count_cons, hp, Piece.width, Nat.add_sub_cancel, hdrop, ih, List.length_cons]

/-- Of an undamaged text the text is shown. -/
theorem shown_spell (cs : List Char) : Shown (spell cs) cs := by
  induction cs with
  | nil => exact .nil
  | cons c cs ih => exact .char c ih

theorem count_spell (cs : List Char) : count (spell cs) = cs.length := (shown_spell cs).count_eq

/-- The count is the number of characters that are shown. -/
theorem count_eq_iff {bytes : List UInt8} {k : Nat} :
    count bytes = k ↔ ∃ cs, Shown bytes cs ∧ cs.length = k := by
  constructor
  · intro h
    obtain ⟨cs, hcs⟩ := exists_shown bytes
    exact ⟨cs, hcs, by rw [← hcs.count_eq, h]⟩
  · rintro ⟨cs, hcs, rfl⟩
    exact hcs.count_eq

end Shown

end MarkupTally.Utf8
