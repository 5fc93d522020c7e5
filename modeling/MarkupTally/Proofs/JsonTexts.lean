import Mathlib.Data.List.Nodup
import MarkupTally.Json.Printer
import MarkupTally.Proofs.Numerals

/-! JSON text is read back. What the printer writes for a value without fractions, whose objects
name no field twice, is read as that value, in any layout with only blanks between the parts; if one
of its whole numbers has more digits than are taken, the reading stops there. -/
namespace MarkupTally.Json

/-- A reading ends well, with the value and with the text after it. -/
def Gives {α : Type} (r : Read α) (a : α) (rest : List Char) : Prop :=
  ∃ pos, r = .ok (a, pos, rest)

section Strings

variable {rest : List Char}

theorem hexValue?_hexDigit : ∀ n < 16, hexValue? (Utf8.hexDigit n) = some n := by decide

/-- Four digits in base sixteen are read back as the number below `2 ^ 16` that they write. -/
theorem hex4?_hex (n : Nat) (hn : n < 0x10000) :
    ∃ a b c d, Quoted.hex 4 n = [a, b, c, d] ∧ hex4? a b c d = some n := by
  refine ⟨_, _, _, _, rfl, ?_⟩
  have ha := hexValue?_hexDigit (n / 16 / 16 / 16 % 16) (by omega)
  have hb := hexValue?_hexDigit (n / 16 / 16 % 16) (by omega)
  have hc := hexValue?_hexDigit (n / 16 % 16) (by omega)
  have hd := hexValue?_hexDigit (n % 16) (by omega)
  simp only [hex4?, ha, hb, hc, hd, Option.pure_def, Option.bind_eq_bind, Option.bind_some,
    Option.some.injEq]
  omega

variable (opened : Nat) (read : List Char) (pos : Nat)

theorem stringOnto_unit (n : Nat) (hn : n < 0x10000) (hs : ¬(0xD800 ≤ n ∧ n < 0xDC00))
    (hrest : rest ≠ []) :
    ∃ pos', stringOnto opened read pos (unitEscape n ++ rest) =
      stringOnto opened (charOf n :: read) pos' rest := by
  obtain ⟨a, b, c, d, hhex, hread⟩ := hex4?_hex n hn
  obtain ⟨e, cs, rfl⟩ := List.exists_cons_of_ne_nil hrest
  refine ⟨pos + 6, ?_⟩
  simp only [unitEscape, hhex, List.cons_append, List.nil_append]
  rw [stringOnto]
  simp only [hread, hs, if_false]

/-- Two units make one character beyond the first `2 ^ 16`. -/
theorem stringOnto_pair (n m : Nat) (hn : 0xD800 ≤ n ∧ n < 0xDC00) (hm : 0xDC00 ≤ m ∧ m ≤ 0xDFFF)
    (hrest : rest ≠ []) :
    ∃ pos', stringOnto opened read pos (unitEscape n ++ (unitEscape m ++ rest)) =
      stringOnto opened (Char.ofNat (0x10000 + (n - 0xD800) * 0x400 + (m - 0xDC00)) :: read) pos'
        rest := by
  obtain ⟨a, b, c, d, hhex, hread⟩ := hex4?_hex n (by omega)
  obtain ⟨a', b', c', d', hhex', hread'⟩ := hex4?_hex m (by omega)
  obtain ⟨e, cs, rfl⟩ := List.exists_cons_of_ne_nil hrest
  refine ⟨pos + 12, ?_⟩
  simp only [unitEscape, hhex, hhex', List.cons_append, List.nil_append]
  rw [stringOnto]
  simp only [hread, hn, and_self, if_true, lowHalf, hread', hm, List.drop_succ_cons,
    List.drop_zero]

theorem stringOnto_escaped {c e : Char} (hu : c ≠ 'u') (he : escaped? c = some e) :
    stringOnto opened read pos ('\\' :: c :: rest) =
      stringOnto opened (e :: read) (pos + 2) rest := by
  rw [stringOnto]
  · simp only [he]
  · exact fun _ _ _ _ _ _ h => absurd h hu
  · exact fun h => absurd h hu

theorem stringOnto_plain {c : Char} (hq : c ≠ '\x22') (hb : c ≠ '\\') (hc : 0x20 ≤ c.toNat) :
    stringOnto opened read pos (c :: rest) = stringOnto opened (c :: read) (pos + 1) rest := by
  have hlow : ¬c.toNat < 0x20 := by omega
  rw [stringOnto]
  · simp only [hlow, if_false]
  · exact fun h => absurd h hq
  all_goals
    intros
    contradiction

theorem charOf_toNat (c : Char) : charOf c.toNat = c := by
  have hvalid : c.toNat < 0xD800 ∨ 0xDFFF < c.toNat ∧ c.toNat < 0x110000 := c.valid
  have hs : ¬(0xD800 ≤ c.toNat ∧ c.toNat ≤ 0xDFFF) := by omega
  simp only [charOf, hs, if_false, Char.ofNat_toNat]

/-- What a character is written as is read as that character. -/
theorem stringOnto_escapeChar (c : Char) (rest : List Char) (hrest : rest ≠ []) :
    ∃ pos', stringOnto opened read pos (escapeChar c ++ rest) =
      stringOnto opened (c :: read) pos' rest := by
  have hvalid : c.toNat < 0xD800 ∨ 0xDFFF < c.toNat ∧ c.toNat < 0x110000 := c.valid
  unfold escapeChar
  split_ifs with hmark hn hr ht hf hb hplain hunit
  · rcases hmark with rfl | rfl
    · exact ⟨_, stringOnto_escaped opened read pos (by decide) rfl⟩
    · exact ⟨_, stringOnto_escaped opened read pos (by decide) rfl⟩
  · exact ⟨_, stringOnto_escaped opened read pos (by decide) (hn ▸ rfl)⟩
  · exact ⟨_, stringOnto_escaped opened read pos (by decide) (hr ▸ rfl)⟩
  · exact ⟨_, stringOnto_escaped opened read pos (by decide) (ht ▸ rfl)⟩
  · exact ⟨_, stringOnto_escaped opened read pos (by decide) (hf ▸ rfl)⟩
  · exact ⟨_, stringOnto_escaped opened read pos (by decide) (hb ▸ rfl)⟩
  · obtain ⟨hquote, hslash⟩ := not_or.mp hmark
    exact ⟨_, stringOnto_plain opened read pos hquote hslash hplain.1⟩
  · have hread := stringOnto_unit opened read pos c.toNat (by omega) (by omega) hrest
    rwa [charOf_toNat] at hread
  · have hread := stringOnto_pair opened read pos (0xD800 + (c.toNat - 0x10000) / 0x400)
      (0xDC00 + (c.toNat - 0x10000) % 0x400) (by omega) (by omega) hrest
    have hsum : 0x10000 + (0xD800 + (c.toNat - 0x10000) / 0x400 - 0xD800) * 0x400 +
        (0xDC00 + (c.toNat - 0x10000) % 0x400 - 0xDC00) = c.toNat := by omega
    rwa [hsum, Char.ofNat_toNat, ← List.append_assoc] at hread

theorem gives_stringOnto (cs tail : List Char) :
    Gives (stringOnto opened read pos (cs.flatMap escapeChar ++ '\x22' :: tail))
      (String.ofList (read.reverse ++ cs)) tail := by
  induction cs generalizing read pos with
  | nil => exact ⟨pos + 1, by simp [stringOnto]⟩
  | cons c cs ih =>
    obtain ⟨pos', hc⟩ := stringOnto_escapeChar opened read pos c
      (cs.flatMap escapeChar ++ '\x22' :: tail) (by simp)
    rw [List.flatMap_cons, List.append_assoc, hc]
    simpa using ih (c :: read) pos'

theorem quoteOnto_eq (s : String) (tail : List Char) :
    quoteOnto s tail = '\x22' :: (s.toList.flatMap escapeChar ++ '\x22' :: tail) := by
  simp [quoteOnto, List.foldr_append_eq_append, List.flatMap_def]

theorem gives_quoted (s : String) (tail : List Char) :
    Gives (stringOnto opened [] pos (s.toList.flatMap escapeChar ++ '\x22' :: tail)) s tail := by
  simpa using gives_stringOnto opened [] pos s.toList tail

end Strings

section Layouts

variable {l : Layout}

/-- Only blanks stand around the parts, apart from the marks between them. -/
structure Layout.Lawful (l : Layout) : Prop where
  newline : ∀ depth, ∀ c ∈ l.newline depth, isBlank c = true
  comma : l.comma = [',']
  colon : ∃ blanks, l.colon = ':' :: blanks ∧ ∀ c ∈ blanks, isBlank c = true

theorem Layout.lawful_compact : Layout.compact.Lawful where
  newline depth c hc := by cases hc
  comma := rfl
  colon := ⟨[], rfl, by simp⟩

theorem Layout.lawful_indented : Layout.indented.Lawful where
  newline depth c hc := by
    rcases List.mem_cons.mp hc with rfl | hc
    · decide
    · cases List.eq_of_mem_replicate hc
      decide
  comma := rfl
  colon := ⟨[' '], rfl, List.forall_mem_singleton.mpr rfl⟩

theorem skipBlanks_append {blanks : List Char} (hb : ∀ c ∈ blanks, isBlank c = true)
    (rest : List Char) (hr : ∀ c, rest.head? = some c → isBlank c = false) (pos : Nat) :
    ∃ pos', skipBlanks pos (blanks ++ rest) = (pos', rest) := by
  induction blanks generalizing pos with
  | nil =>
    cases rest with
    | nil => exact ⟨pos, rfl⟩
    | cons c rest => exact ⟨pos, by simp [skipBlanks, hr c rfl]⟩
  | cons c blanks ih =>
    obtain ⟨pos', hrest⟩ := ih (fun d hd => hb d (List.mem_cons_of_mem c hd)) (pos + 1)
    exact ⟨pos', by simp [skipBlanks, hb c List.mem_cons_self, hrest]⟩

theorem isBlank_apart {c : Char} (h : isBlank c = true) :
    isDigit c = false ∧ c ≠ '.' ∧ c ≠ 'e' ∧ c ≠ 'E' := by
  have hc : c = ' ' ∨ c = '\n' ∨ c = '\r' ∨ c = '\t' := by simpa [isBlank] using h
  rcases hc with rfl | rfl | rfl | rfl <;> decide

/-- A closing mark, with blanks before it, ends a number. -/
theorem apart_blanks {blanks : List Char} (hb : ∀ c ∈ blanks, isBlank c = true) {tail : List Char}
    (ht : Apart tail) : Apart (blanks ++ tail) := by
  cases blanks with
  | nil => exact ht
  | cons c blanks => exact apart_cons _ (isBlank_apart (hb c List.mem_cons_self))

mutual

/-- The text after a value is left as it is. -/
theorem write_append (l : Layout) (depth : Nat) (tail more : List Char) : (v : Json) →
    write l depth (tail ++ more) v = write l depth tail v ++ more
  | .arr (v :: vs) => by
    have hitems := writeItems_append l (depth + 1) (l.newline depth ++ ']' :: tail) more vs
    have hv := write_append l (depth + 1)
      (writeItems l (depth + 1) (l.newline depth ++ ']' :: tail) vs) more v
    simp only [List.append_assoc, List.cons_append] at hitems
    simp only [write, hitems, hv, List.append_assoc, List.cons_append]
  | .obj ((k, v) :: fs) => by
    have hfields := writeFields_append l (depth + 1) (l.newline depth ++ '\x7d' :: tail) more fs
    have hv := write_append l (depth + 1)
      (writeFields l (depth + 1) (l.newline depth ++ '\x7d' :: tail) fs) more v
    simp only [List.append_assoc, List.cons_append] at hfields
    simp only [write, quoteOnto_eq, hfields, hv, List.append_assoc, List.cons_append]
  | .null | .bool _ | .int _ | .float _ | .arr [] | .obj [] => by
    simp only [write, atomOnto, List.append_assoc]
  | .str s => by
    simp only [write, atomOnto, quoteOnto_eq, List.append_assoc, List.cons_append]

theorem writeItems_append (l : Layout) (depth : Nat) (tail more : List Char) : (vs : List Json) →
    writeItems l depth (tail ++ more) vs = writeItems l depth tail vs ++ more
  | [] => rfl
  | v :: vs => by
    have hitems := writeItems_append l depth tail more vs
    have hv := write_append l depth (writeItems l depth tail vs) more v
    simp only [writeItems, hitems, hv, List.append_assoc]

theorem writeFields_append (l : Layout) (depth : Nat) (tail more : List Char) :
    (fs : List (String × Json)) →
    writeFields l depth (tail ++ more) fs = writeFields l depth tail fs ++ more
  | [] => rfl
  | (k, v) :: fs => by
    have hfields := writeFields_append l depth tail more fs
    have hv := write_append l depth (writeFields l depth tail fs) more v
    simp only [writeFields, quoteOnto_eq, hfields, hv, List.append_assoc, List.cons_append]

end

theorem length_write (depth : Nat) (tail : List Char) (v : Json) :
    (write l depth tail v).length = (write l depth [] v).length + tail.length := by
  have h := write_append l depth [] tail v
  simp only [List.nil_append] at h
  rw [h, List.length_append]

theorem length_writeItems (depth : Nat) (tail : List Char) (vs : List Json) :
    (writeItems l depth tail vs).length = (writeItems l depth [] vs).length + tail.length := by
  have h := writeItems_append l depth [] tail vs
  simp only [List.nil_append] at h
  rw [h, List.length_append]

theorem length_writeFields (depth : Nat) (tail : List Char) (fs : List (String × Json)) :
    (writeFields l depth tail fs).length = (writeFields l depth [] fs).length + tail.length := by
  have h := writeFields_append l depth [] tail fs
  simp only [List.nil_append] at h
  rw [h, List.length_append]

end Layouts

/-- Values without fractions, in which no object names a field twice. -/
inductive Plain : Json → Prop where
  | null : Plain .null
  | bool (b : Bool) : Plain (.bool b)
  | int (n : Int) : Plain (.int n)
  | str (s : String) : Plain (.str s)
  | arr {vs : List Json} (hvs : ∀ v ∈ vs, Plain v) : Plain (.arr vs)
  | obj {fs : List (String × Json)} (hkeys : (fs.map Prod.fst).Nodup) (hfs : ∀ f ∈ fs, Plain f.2) :
      Plain (.obj fs)

/-- Each of the numbers has as many digits as are taken. -/
def taken (takes : Nat → Bool) (ns : List Int) : Bool := ns.all fun n => takes (Digits.count n)

@[simp] theorem taken_nil (takes : Nat → Bool) : taken takes [] = true := rfl

@[simp] theorem taken_append (takes : Nat → Bool) (ns ms : List Int) :
    taken takes (ns ++ ms) = (taken takes ns && taken takes ms) := List.all_append

/-- A reading of a text that shows the given numbers: it gives the value and the text after it, or
stops at one of the numbers. -/
inductive ReadsAs (takes : Nat → Bool) (ns : List Int) (r : Read Json) (v : Json)
    (rest : List Char) : Prop where
  | value (hns : taken takes ns = true) (hr : Gives r v rest)
  | long (hns : taken takes ns = false) (hr : r = .error .longNumber)

section

variable {takes : Nat → Bool} {ns ms : List Int} {r : Read Json} {v : Json} {rest : List Char}

theorem ReadsAs.after (hns : taken takes ns = true) (h : ReadsAs takes ms r v rest) :
    ReadsAs takes (ns ++ ms) r v rest := by
  cases h with
  | value hms hr => exact .value (by simp [hns, hms]) hr
  | long hms hr => exact .long (by simp [hms]) hr

/-- A number that is too long stops the reading, whatever numbers follow it. -/
theorem ReadsAs.stopped (hns : taken takes ns = false) (hr : r = .error .longNumber) :
    ReadsAs takes (ns ++ ms) r v rest :=
  .long (by simp [hns]) hr

end

/-- What a layout writes for a value begins like a value, and is read as the value as far as its
numbers are taken, whatever follows it. A unit of fuel for each character is enough. -/
structure Readable (l : Layout) (takes : Nat → Bool) (v : Json) : Prop where
  opens : ∀ depth tail, ∃ c cs, write l depth tail v = c :: cs ∧ isBlank c = false ∧ c ≠ ']'
  reads : ∀ depth tail, Apart tail → ∀ fuel pos,
    (write l depth tail v).length ≤ fuel + 1 + tail.length →
    ReadsAs takes v.ints (value takes (fuel + 1) pos (write l depth tail v)) v tail

section Values

variable {l : Layout} {takes : Nat → Bool} {v : Json} {tail : List Char}

theorem Readable.length_pos (h : Readable l takes v) (depth : Nat) :
    0 < (write l depth [] v).length := by
  obtain ⟨c, cs, hcs, -⟩ := h.opens depth []
  simp [hcs]

theorem Readable.head? (h : Readable l takes v) (depth : Nat) (tail : List Char) (c : Char)
    (hc : (write l depth tail v).head? = some c) : isBlank c = false := by
  obtain ⟨d, cs, hcs, hd, -⟩ := h.opens depth tail
  rw [hcs] at hc
  cases hc
  exact hd

theorem value_eq_scalar (fuel pos : Nat) {c : Char} (cs : List Char) (ha : c ≠ '[')
    (ho : c ≠ '\x7b') : value takes (fuel + 1) pos (c :: cs) = scalar takes pos (c :: cs) := by
  rw [value]
  · exact fun _ h => absurd (List.cons.inj h).1 ha
  · exact fun _ h => absurd (List.cons.inj h).1 ho

/-- A value without parts is readable if its own text is. -/
theorem readable_atom (text : List Char)
    (hwrite : ∀ depth tail, write l depth tail v = text ++ tail)
    (hopens : ∃ c cs, text = c :: cs ∧ isBlank c = false ∧ c ≠ ']' ∧ c ≠ '[' ∧ c ≠ '\x7b')
    (hreads : ∀ tail, Apart tail → ∀ pos,
      ReadsAs takes v.ints (scalar takes pos (text ++ tail)) v tail) :
    Readable l takes v := by
  obtain ⟨c, cs, rfl, hblank, hclose, ha, ho⟩ := hopens
  refine ⟨fun depth tail => ⟨c, cs ++ tail, hwrite depth tail, hblank, hclose⟩, ?_⟩
  intro depth tail htail fuel pos _
  rw [hwrite, List.cons_append, value_eq_scalar fuel pos _ ha ho]
  exact hreads tail htail pos

theorem scalar_of_word {pos pos' : Nat} {text rest : List Char} (hquote : text.head? ≠ some '\x22')
    (hword : word? pos text = some (v, pos', rest)) :
    scalar takes pos text = .ok (v, pos', rest) := by
  unfold scalar
  split
  · exact absurd rfl hquote
  · simp [hword]

theorem readable_null : Readable l takes .null := by
  refine readable_atom _ (fun _ _ => rfl) ⟨'n', _, rfl, by decide⟩ fun tail _ pos => ?_
  exact .value rfl ⟨pos + 4, scalar_of_word (by simp) rfl⟩

theorem readable_bool (b : Bool) : Readable l takes (.bool b) := by
  cases b with
  | false =>
    refine readable_atom _ (fun _ _ => rfl) ⟨'f', _, rfl, by decide⟩ fun tail _ pos => ?_
    exact .value rfl ⟨pos + 5, scalar_of_word (by simp) rfl⟩
  | true =>
    refine readable_atom _ (fun _ _ => rfl) ⟨'t', _, rfl, by decide⟩ fun tail _ pos => ?_
    exact .value rfl ⟨pos + 4, scalar_of_word (by simp) rfl⟩

theorem readable_str (s : String) : Readable l takes (.str s) := by
  refine readable_atom ('\x22' :: (s.toList.flatMap escapeChar ++ ['\x22'])) ?_
    ⟨_, _, rfl, by decide⟩ fun tail _ pos => ?_
  · intro depth tail
    simp [write, atomOnto, quoteOnto_eq]
  · obtain ⟨pos', hs⟩ := gives_quoted pos (pos + 1) s tail
    exact .value rfl ⟨pos', by simp [scalar, hs]⟩

/-- The text of a number begins with a digit, or with a sign and a digit. -/
theorem exists_toString_eq (n : Int) :
    ∃ c cs, (toString n).toList = c :: cs ∧
      (isDigit c = true ∨ c = '-' ∧ ∃ d ds, cs = d :: ds ∧ isDigit d = true) := by
  have hdigits (m : Nat) : ∃ d ds, Nat.toDigits 10 m = d :: ds ∧ isDigit d = true := by
    obtain ⟨d, ds, hds⟩ := List.exists_cons_of_ne_nil (Nat.toDigits_ne_nil (n := m) (b := 10))
    exact ⟨d, ds, hds, isDigit_of_mem_toDigits (n := m) (by simp [hds])⟩
  have hrepr : toString n = n.repr := rfl
  rw [hrepr, Int.repr_eq_if]
  split
  · obtain ⟨d, ds, hds, hd⟩ := hdigits n.toNat
    exact ⟨d, ds, by simp [hds], .inl hd⟩
  · obtain ⟨d, ds, hds, hd⟩ := hdigits (-n).toNat
    exact ⟨'-', d :: ds, by simp [hds], .inr ⟨rfl, d, ds, rfl, hd⟩⟩

theorem ne_of_isDigit {c d : Char} (hd : isDigit d = true) (hc : isDigit c = false) : c ≠ d := by
  rintro rfl
  rw [hc] at hd
  cases hd

/-- No word that stands for a value begins like a number. -/
theorem word?_eq_none (pos : Nat) {c : Char} {cs : List Char}
    (h : isDigit c = true ∨ c = '-' ∧ ∃ d ds, cs = d :: ds ∧ isDigit d = true) (tail : List Char) :
    word? pos (c :: cs ++ tail) = none := by
  have hwords : words.find? (fun w => w.1.isPrefixOf (c :: cs ++ tail)) = none := by
    rcases h with hc | ⟨rfl, d, ds, rfl, hd⟩
    · have hne (e : Char) (he : isDigit e = false) : ¬e = c := ne_of_isDigit hc he
      simp [words, hne 'n' rfl, hne 't' rfl, hne 'f' rfl, hne 'N' rfl, hne 'I' rfl, hne '-' rfl]
    · simp [words, ne_of_isDigit hd (rfl : isDigit 'I' = false)]
  rw [word?, hwords]
  rfl

/-- The text of a number begins like no string, no array and no object. -/
theorem number_opens {c : Char} {cs : List Char}
    (h : isDigit c = true ∨ c = '-' ∧ ∃ d ds, cs = d :: ds ∧ isDigit d = true) :
    isBlank c = false ∧ c ≠ '\x22' ∧ c ≠ ']' ∧ c ≠ '[' ∧ c ≠ '\x7b' := by
  rcases h with hc | ⟨rfl, -⟩
  · have hne (e : Char) (he : isDigit e = false) : c ≠ e := (ne_of_isDigit hc he).symm
    refine ⟨?_, hne _ rfl, hne _ rfl, hne _ rfl, hne _ rfl⟩
    rw [← Bool.not_eq_true]
    intro hblank
    rw [(isBlank_apart hblank).1] at hc
    cases hc
  · decide

theorem readable_int (n : Int) : Readable l takes (.int n) := by
  obtain ⟨c, cs, hcs, hc⟩ := exists_toString_eq n
  obtain ⟨hblank, hquote, hopen⟩ := number_opens hc
  refine readable_atom (toString n).toList (fun _ _ => rfl) ⟨c, cs, hcs, hblank, hopen⟩
    fun tail htail pos => ?_
  obtain ⟨pos', hn⟩ := htail.number?_eq takes n pos
  have hscalar : scalar takes pos ((toString n).toList ++ tail) =
      if takes (Digits.count n) then .ok (.int n, pos', tail) else .error .longNumber := by
    rw [hcs] at hn ⊢
    unfold scalar
    split
    · rename_i h
      exact absurd (List.cons.inj h).1 hquote
    · rw [word?_eq_none pos hc tail, hn]
      rfl
  rw [hscalar]
  cases htakes : takes (Digits.count n) with
  | true => exact .value (by simp [ints, taken, htakes]) ⟨pos', rfl⟩
  | false => exact .long (by simp [ints, taken, htakes]) rfl

/-- The rest of the items, up to the closing mark, do not continue a number. -/
theorem apart_writeItems (hl : l.Lawful) (depth : Nat) {close : List Char} (hclose : Apart close)
    (vs : List Json) : Apart (writeItems l depth close vs) := by
  cases vs with
  | nil => exact hclose
  | cons v vs =>
    rw [writeItems, hl.comma]
    exact apart_cons _ (by decide)

theorem apart_writeFields (hl : l.Lawful) (depth : Nat) {close : List Char} (hclose : Apart close)
    (fs : List (String × Json)) : Apart (writeFields l depth close fs) := by
  cases fs with
  | nil => exact hclose
  | cons f fs =>
    obtain ⟨k, v⟩ := f
    rw [writeFields, hl.comma]
    exact apart_cons _ (by decide)

/-- The first of several parts is read with the fuel that is left for it. -/
theorem Readable.reads_first (h : Readable l takes v) (depth pos : Nat) {fuel : Nat}
    {rest : List Char} (hrest : Apart rest) (htail : tail.length < rest.length)
    (hfuel : (write l depth rest v).length ≤ fuel + tail.length) :
    ∃ left, fuel = left + 1 ∧
      ReadsAs takes v.ints (value takes left pos (write l depth rest v)) v rest := by
  have hlength := length_write (l := l) depth rest v
  have hpos := h.length_pos depth
  obtain ⟨left, rfl⟩ : ∃ left, fuel = left + 1 + 1 := ⟨fuel - 2, by omega⟩
  exact ⟨left + 1, rfl, h.reads depth rest hrest left pos (by omega)⟩

theorem skipBlanks_comma (pos : Nat) (rest : List Char) :
    skipBlanks pos (',' :: rest) = (pos, ',' :: rest) := by
  simp [skipBlanks, isBlank]

/-- The items of an array are read one after the other. -/
theorem readsAs_items (hl : l.Lawful) (depth : Nat) (tail : List Char) {blanks : List Char}
    (hblanks : ∀ c ∈ blanks, isBlank c = true) (vs : List Json) (v : Json) (hv : Readable l takes v)
    (hvs : ∀ w ∈ vs, Readable l takes w) (read : List Json) (fuel pos : Nat)
    (hfuel : (write l depth (writeItems l depth (blanks ++ ']' :: tail) vs) v).length ≤
      fuel + tail.length) :
    ReadsAs takes (v.ints ++ itemInts vs)
      (items takes fuel read pos (write l depth (writeItems l depth (blanks ++ ']' :: tail) vs) v))
      (.arr (read.reverse ++ v :: vs)) tail := by
  have hclose : Apart (blanks ++ ']' :: tail) := apart_blanks hblanks (apart_cons _ (by decide))
  have hshort (ws : List Json) :
      tail.length < (writeItems l depth (blanks ++ ']' :: tail) ws).length := by
    rw [length_writeItems]
    simp only [List.length_append, List.length_cons]
    omega
  induction vs generalizing v read fuel pos with
  | nil =>
    obtain ⟨left, rfl, hread⟩ :=
      hv.reads_first depth pos (apart_writeItems hl depth hclose []) (hshort []) hfuel
    cases hread with
    | long hns hread => exact .stopped hns (by rw [items, hread])
    | value hns hread =>
      obtain ⟨pos', hread⟩ := hread
      obtain ⟨pos'', hskip⟩ := skipBlanks_append hblanks (']' :: tail)
        (by rintro c ⟨⟩; decide) pos'
      rw [items, hread]
      simp only [writeItems, hskip]
      exact .value (by simp [itemInts, hns]) ⟨pos'' + 1, by simp⟩
  | cons w ws ih =>
    have hw := hvs w List.mem_cons_self
    obtain ⟨left, rfl, hread⟩ :=
      hv.reads_first depth pos (apart_writeItems hl depth hclose (w :: ws)) (hshort _) hfuel
    have hlength := length_write (l := l) depth
      (writeItems l depth (blanks ++ ']' :: tail) (w :: ws)) v
    have hpos := hv.length_pos depth
    cases hread with
    | long hns hread => exact .stopped hns (by rw [items, hread])
    | value hns hread =>
      obtain ⟨pos', hread⟩ := hread
      rw [items, hread]
      simp only [writeItems, hl.comma, List.cons_append, List.nil_append, List.length_cons,
        List.length_append] at hlength hfuel ⊢
      obtain ⟨pos'', hskip⟩ := skipBlanks_append (hl.newline depth) _
        (hw.head? depth (writeItems l depth (blanks ++ ']' :: tail) ws)) (pos' + 1)
      simp only [skipBlanks_comma, hskip]
      have hrest := ih w hw (fun u hu => hvs u (List.mem_cons_of_mem w hu)) (v :: read) left pos''
        (by omega)
      simpa [itemInts] using hrest.after hns

/-- A field with a name of its own is put behind the others. -/
theorem put_fresh {fs gs : List (String × Json)} {k : String} {v w : Json}
    (h : ((fs ++ (k, w) :: gs).map Prod.fst).Nodup) : put fs k v = fs ++ [(k, v)] := by
  rw [List.map_append, List.map_cons] at h
  have hany : fs.any (fun f => f.1 == k) = false := by
    rw [List.any_eq_false]
    intro f hf hk
    have hmem : k ∈ fs.map Prod.fst := List.mem_map.mpr ⟨f, hf, by simpa using hk⟩
    exact List.disjoint_of_nodup_append h hmem List.mem_cons_self
  simp [put, hany]

/-- The rest of an object after the value of a field was read: it is closed, or another field
follows. -/
def moreFields (takes : Nat → Bool) (fuel : Nat) (read : List (String × Json)) (key : String)
    (r : Read Json) : Read Json :=
  match r with
  | .error e => .error e
  | .ok (v, pos, text) =>
    match skipBlanks pos text with
    | (pos, '\x7d' :: rest) => .ok (.obj (put read key v), pos + 1, rest)
    | (pos, ',' :: rest) =>
      let (pos, rest) := skipBlanks (pos + 1) rest
      fields takes fuel (put read key v) pos rest
    | (pos, _) => .error (.malformed pos)

/-- A field is read up to its value. -/
theorem Readable.fields_first (h : Readable l takes v) (hl : l.Lawful) (depth pos : Nat)
    (k : String) (read : List (String × Json)) {fuel : Nat} {rest : List Char}
    (hrest : Apart rest) (htail : tail.length < rest.length)
    (hfuel : (quoteOnto k (l.colon ++ write l depth rest v)).length ≤ fuel + tail.length) :
    ∃ left r, fuel = left + 1 ∧ (write l depth rest v).length ≤ left + tail.length ∧
      ReadsAs takes v.ints r v rest ∧
      fields takes fuel read pos (quoteOnto k (l.colon ++ write l depth rest v)) =
        moreFields takes left read k r := by
  obtain ⟨gap, hcolon, hgap⟩ := hl.colon
  rw [quoteOnto_eq, hcolon] at hfuel ⊢
  simp only [List.length_cons, List.length_append, List.cons_append] at hfuel ⊢
  have hlength := length_write (l := l) depth rest v
  obtain ⟨left, rfl⟩ : ∃ left, fuel = left + 1 := ⟨fuel - 1, by omega⟩
  obtain ⟨pos₁, hkey⟩ := gives_quoted pos (pos + 1) k (':' :: (gap ++ write l depth rest v))
  have hmark : skipBlanks pos₁ (':' :: (gap ++ write l depth rest v)) =
      (pos₁, ':' :: (gap ++ write l depth rest v)) := by
    simp [skipBlanks, isBlank]
  obtain ⟨pos₂, hskip⟩ := skipBlanks_append hgap _ (h.head? depth rest) (pos₁ + 1)
  have hleft : (write l depth rest v).length ≤ left + 1 + tail.length := by omega
  obtain ⟨_, ⟨⟩, hvalue⟩ := h.reads_first depth pos₂ hrest htail hleft
  refine ⟨left, _, rfl, by omega, hvalue, ?_⟩
  rw [fields]
  simp only [hkey, hmark, hskip]
  rfl

/-- The fields of an object are read one after the other; none of them is named twice. -/
theorem readsAs_fields (hl : l.Lawful) (depth : Nat) (tail : List Char) {blanks : List Char}
    (hblanks : ∀ c ∈ blanks, isBlank c = true) (fs : List (String × Json)) (k : String) (v : Json)
    (hv : Readable l takes v) (hfs : ∀ f ∈ fs, Readable l takes f.2) (read : List (String × Json))
    (hkeys : ((read ++ (k, v) :: fs).map Prod.fst).Nodup) (fuel pos : Nat)
    (hfuel : (quoteOnto k (l.colon ++
      write l depth (writeFields l depth (blanks ++ '\x7d' :: tail) fs) v)).length ≤
      fuel + tail.length) :
    ReadsAs takes (v.ints ++ fieldInts fs) (fields takes fuel read pos (quoteOnto k (l.colon ++
      write l depth (writeFields l depth (blanks ++ '\x7d' :: tail) fs) v)))
      (.obj (read ++ (k, v) :: fs)) tail := by
  have hclose : Apart (blanks ++ '\x7d' :: tail) := apart_blanks hblanks (apart_cons _ (by decide))
  have hshort (gs : List (String × Json)) :
      tail.length < (writeFields l depth (blanks ++ '\x7d' :: tail) gs).length := by
    rw [length_writeFields]
    simp only [List.length_append, List.length_cons]
    omega
  induction fs generalizing k v read fuel pos with
  | nil =>
    obtain ⟨left, r, rfl, -, hread, hfield⟩ := hv.fields_first hl depth pos k read
      (apart_writeFields hl depth hclose []) (hshort []) hfuel
    rw [hfield]
    cases hread with
    | long hns hr => exact .stopped hns (by rw [hr, moreFields])
    | value hns hr =>
      obtain ⟨pos', rfl⟩ := hr
      obtain ⟨pos'', hskip⟩ := skipBlanks_append hblanks ('\x7d' :: tail)
        (by rintro c ⟨⟩; decide) pos'
      simp only [moreFields, writeFields, hskip, put_fresh hkeys]
      exact .value (by simp [fieldInts, hns]) ⟨pos'' + 1, rfl⟩
  | cons f gs ih =>
    obtain ⟨k', w⟩ := f
    have hw := hfs (k', w) List.mem_cons_self
    obtain ⟨left, r, rfl, hleft, hread, hfield⟩ := hv.fields_first hl depth pos k read
      (apart_writeFields hl depth hclose ((k', w) :: gs)) (hshort _) hfuel
    have hlength := length_write (l := l) depth
      (writeFields l depth (blanks ++ '\x7d' :: tail) ((k', w) :: gs)) v
    rw [hfield]
    cases hread with
    | long hns hr => exact .stopped hns (by rw [hr, moreFields])
    | value hns hr =>
      obtain ⟨pos', rfl⟩ := hr
      simp only [moreFields, writeFields, hl.comma, List.cons_append, List.nil_append,
        List.length_cons, List.length_append] at hlength hleft ⊢
      obtain ⟨pos'', hskip⟩ := skipBlanks_append (hl.newline depth) (quoteOnto k' (l.colon ++
        write l depth (writeFields l depth (blanks ++ '\x7d' :: tail) gs) w))
        (by rintro c ⟨⟩; decide) (pos' + 1)
      simp only [skipBlanks_comma, hskip, put_fresh hkeys]
      have hrest := ih k' w hw (fun u hu => hfs u (List.mem_cons_of_mem _ hu)) (read ++ [(k, v)])
        (by simpa using hkeys) left pos'' (by omega)
      simpa [fieldInts] using hrest.after hns

theorem readable_arr (hl : l.Lawful) {vs : List Json} (hvs : ∀ v ∈ vs, Readable l takes v) :
    Readable l takes (.arr vs) := by
  cases vs with
  | nil =>
    refine ⟨fun depth tail => ⟨'[', ']' :: tail, rfl, by decide⟩, ?_⟩
    intro depth tail _ fuel pos _
    exact .value rfl ⟨pos + 1 + 1, by simp [write, atomOnto, value, skipBlanks, isBlank]⟩
  | cons v vs =>
    have hv := hvs v List.mem_cons_self
    refine ⟨fun depth tail => ⟨'[', _, by rw [write], by decide⟩, ?_⟩
    intro depth tail _ fuel pos hfuel
    obtain ⟨pos', hskip⟩ := skipBlanks_append (hl.newline (depth + 1)) _
      (hv.head? (depth + 1) (writeItems l (depth + 1) (l.newline depth ++ ']' :: tail) vs))
      (pos + 1)
    simp only [write, List.length_cons, List.length_append] at hfuel ⊢
    have hitems := readsAs_items hl (depth + 1) tail (hl.newline depth) vs v hv
      (fun w hw => hvs w (List.mem_cons_of_mem v hw)) [] fuel pos' (by omega)
    -- the first item does not begin like the end of the array
    obtain ⟨c, cs, htext, -, hclose⟩ := hv.opens (depth + 1)
      (writeItems l (depth + 1) (l.newline depth ++ ']' :: tail) vs)
    rw [value, hskip]
    rw [htext] at hitems ⊢
    split
    · rename_i h
      exact absurd (List.cons.inj (Prod.mk.inj h).2).1 hclose
    · rename_i h
      cases h
      exact hitems

theorem readable_obj (hl : l.Lawful) {fs : List (String × Json)}
    (hkeys : (fs.map Prod.fst).Nodup) (hfs : ∀ f ∈ fs, Readable l takes f.2) :
    Readable l takes (.obj fs) := by
  cases fs with
  | nil =>
    refine ⟨fun depth tail => ⟨'\x7b', '\x7d' :: tail, rfl, by decide⟩, ?_⟩
    intro depth tail _ fuel pos _
    exact .value rfl ⟨pos + 1 + 1, by simp [write, atomOnto, value, skipBlanks, isBlank]⟩
  | cons f fs =>
    obtain ⟨k, v⟩ := f
    have hv := hfs (k, v) List.mem_cons_self
    refine ⟨fun depth tail => ⟨'\x7b', _, by rw [write], by decide⟩, ?_⟩
    intro depth tail _ fuel pos hfuel
    obtain ⟨pos', hskip⟩ := skipBlanks_append (hl.newline (depth + 1)) (quoteOnto k (l.colon ++
      write l (depth + 1) (writeFields l (depth + 1) (l.newline depth ++ '\x7d' :: tail) fs) v))
      (by rintro c ⟨⟩; decide) (pos + 1)
    simp only [write, List.length_cons, List.length_append] at hfuel ⊢
    have hfields := readsAs_fields hl (depth + 1) tail (hl.newline depth) fs k v hv
      (fun w hw => hfs w (List.mem_cons_of_mem _ hw)) [] hkeys fuel pos' (by omega)
    rw [value, hskip]
    rw [quoteOnto_eq] at hfields ⊢
    split
    · rename_i h
      cases (List.cons.inj (Prod.mk.inj h).2).1
    · rename_i h
      cases h
      exact hfields

theorem Plain.readable (hl : l.Lawful) (h : Plain v) : Readable l takes v := by
  induction h with
  | null => exact readable_null
  | bool b => exact readable_bool b
  | int n => exact readable_int n
  | str s => exact readable_str s
  | arr _ ih => exact readable_arr hl ih
  | obj hkeys _ ih => exact readable_obj hl hkeys ih

/-- The text of a value, with blanks after it, is read as the value, unless one of its numbers is
too long. -/
theorem Plain.readText_write (h : Plain v) (hl : l.Lawful) {blanks : List Char}
    (hblanks : ∀ c ∈ blanks, isBlank c = true) :
    readText takes (String.ofList (write l 0 blanks v)) =
      if taken takes v.ints then .ok v else .error .longNumber := by
  have hv : Readable l takes v := h.readable hl
  have happart : Apart blanks := by simpa using apart_blanks hblanks apart_nil
  obtain ⟨pos, hstart⟩ := skipBlanks_append (List.forall_mem_nil _) _ (hv.head? 0 blanks) 0
  have hread := hv.reads 0 blanks happart (2 * (write l 0 blanks v).length + 1) pos (by omega)
  simp only [List.nil_append] at hstart
  cases hread with
  | value hns hread =>
    obtain ⟨pos', hread⟩ := hread
    obtain ⟨pos'', hend⟩ := skipBlanks_append hblanks [] (by simp) pos'
    rw [List.append_nil] at hend
    simp only [readText, String.toList_ofList, hstart, hread, hend, hns, if_true]
  | long hns hread =>
    simp only [readText, String.toList_ofList, hstart, hread, hns, Bool.false_eq_true, if_false]

theorem Plain.readText_compact (h : Plain v) (takes : Nat → Bool) :
    readText takes v.compact = if taken takes v.ints then .ok v else .error .longNumber :=
  h.readText_write Layout.lawful_compact (List.forall_mem_nil _)

/-- A value is read back from its lines, with a newline at the end of the last of them. -/
theorem Plain.readText_pretty (h : Plain v) (takes : Nat → Bool) :
    readText takes (v.pretty ++ "\n") =
      if taken takes v.ints then .ok v else .error .longNumber := by
  have htext : v.pretty ++ "\n" = String.ofList (write .indented 0 ['\n'] v) := by
    rw [pretty, ← List.nil_append ['\n'], write_append, String.ofList_append]
  rw [htext]
  exact h.readText_write Layout.lawful_indented (List.forall_mem_singleton.mpr rfl)

theorem Plain.parse_pretty (h : Plain v) : parse (v.pretty ++ "\n") = .ok v := by
  rw [parse, h.readText_pretty, if_pos (by simp [taken])]

end Values

end MarkupTally.Json
