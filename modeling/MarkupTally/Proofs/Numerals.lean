import Mathlib.Algebra.GroupWithZero.Nat
import Mathlib.Algebra.Ring.Int.Defs
import Mathlib.Data.List.TakeDrop
import MarkupTally.Json.Reader

/-! Whole numbers as text. A word spells no number of more digits than the word has. In JSON a
number is written with its decimal digits, none of them a zero in front of another, and is read back
from any text in which nothing that continues it follows, unless it has too many digits. -/
namespace MarkupTally

namespace Digits

theorem count_le_iff (n : Int) {k : Nat} (hk : 0 < k) : count n ≤ k ↔ n.natAbs < 10 ^ k :=
  Nat.length_toDigits_le_iff (by decide) hk

theorem count_pow_sub_one_le {k : Nat} (hk : 0 < k) : count (10 ^ k - 1) ≤ k := by
  have hcast : (10 : Int) ^ k = (10 ^ k : Nat) := by simp
  have hpos : 0 < 10 ^ k := Nat.pow_pos (by decide)
  rw [count_le_iff _ hk, hcast]
  omega

theorem lt_count_pow {k : Nat} (hk : 0 < k) : k < count (10 ^ k) := by
  rw [← Nat.not_le, count_le_iff _ hk, Int.natAbs_pow]
  exact Nat.lt_irrefl _

theorem value?_lt {c : Char} {d : Nat} (h : value? c = some d) : d < 10 := by
  obtain ⟨z, hz, rfl⟩ := Option.map_eq_some_iff.mp h
  have hrange : z ≤ c.toNat ∧ c.toNat < z + 10 := by simpa using List.find?_some hz
  omega

section

variable {digit : Char → Option Nat} {cs : List Char} {m n : Nat}

/-- How many digits stand in a text. -/
def digitsIn (digit : Char → Option Nat) (cs : List Char) : Nat :=
  (cs.filter fun c => (digit c).isSome).length

theorem digitsIn_cons_of_eq_some {c : Char} {d : Nat} (h : digit c = some d) :
    digitsIn digit (c :: cs) = digitsIn digit cs + 1 := by
  simp [digitsIn, h]

theorem digitsIn_le_cons (c : Char) : digitsIn digit cs ≤ digitsIn digit (c :: cs) := by
  unfold digitsIn
  rw [List.filter_cons]
  split
  · exact Nat.le_succ _
  · exact Nat.le_refl _

/-- A digit more takes a number to its tenfold at most. -/
theorem shift_lt {d k : Nat} (hd : d < 10) (h : m < (n * 10 + d + 1) * 10 ^ k) :
    m < (n + 1) * 10 ^ (k + 1) :=
  calc m < (n * 10 + d + 1) * 10 ^ k := h
    _ ≤ ((n + 1) * 10) * 10 ^ k := Nat.mul_le_mul_right _ (by omega)
    _ = (n + 1) * 10 ^ (k + 1) := by rw [Nat.pow_succ, Nat.mul_assoc, Nat.mul_comm 10]

theorem natOnto_lt (hdigit : ∀ c d, digit c = some d → d < 10) (h : natOnto digit n cs = some m) :
    m < (n + 1) * 10 ^ digitsIn digit cs := by
  fun_induction natOnto digit n cs with
  | case1 n =>
    cases h
    simp [digitsIn]
  | case2 => cases h
  | case3 n c cs ih =>
    obtain ⟨d, hd, hrest⟩ := Option.bind_eq_some_iff.mp h
    have hlt := shift_lt (hdigit c d hd) (ih d hrest)
    rw [← digitsIn_cons_of_eq_some hd] at hlt
    -- the underscore is passed over, so it need not be shown to be no digit
    exact Nat.lt_of_lt_of_le hlt
      (Nat.mul_le_mul_left _ (Nat.pow_le_pow_right (by decide) (digitsIn_le_cons '_')))
  | case4 n c cs _ _ ih =>
    obtain ⟨d, hd, hrest⟩ := Option.bind_eq_some_iff.mp h
    rw [digitsIn_cons_of_eq_some hd]
    exact shift_lt (hdigit c d hd) (ih d hrest)

theorem nat?_lt (hdigit : ∀ c d, digit c = some d → d < 10) (h : nat? digit cs = some m) :
    m < 10 ^ digitsIn digit cs := by
  cases cs with
  | nil => cases h
  | cons c cs =>
    obtain ⟨d, hd, hrest⟩ := Option.bind_eq_some_iff.mp h
    have hlt : m < (0 * 10 + d + 1) * 10 ^ digitsIn digit cs := by
      simpa using natOnto_lt hdigit hrest
    rw [digitsIn_cons_of_eq_some hd]
    simpa using shift_lt (hdigit c d hd) hlt

theorem signed?_lt (hdigit : ∀ c d, digit c = some d → d < 10) {i : Int}
    (h : signed? digit cs = some i) : i.natAbs < 10 ^ digitsIn digit cs := by
  have hafter (sign : Char) {ds : List Char} {m : Nat} (hm : nat? digit ds = some m) :
      m < 10 ^ digitsIn digit (sign :: ds) :=
    Nat.lt_of_lt_of_le (nat?_lt hdigit hm)
      (Nat.pow_le_pow_right (by decide) (digitsIn_le_cons sign))
  unfold signed? at h
  split at h
  · obtain ⟨m, hm, rfl⟩ := Option.map_eq_some_iff.mp h
    simpa using hafter '-' hm
  · obtain ⟨m, hm, rfl⟩ := Option.map_eq_some_iff.mp h
    simpa using hafter '+' hm
  · obtain ⟨m, hm, rfl⟩ := Option.map_eq_some_iff.mp h
    simpa using nat?_lt hdigit hm

end

/-- A number that a word spells is not too long to be written. -/
theorem count_le_of_int? {word : String} {n : Int} (h : int? word = some n) :
    count n ≤ maxDigits := by
  unfold int? at h
  dsimp only at h
  split at h
  · rename_i hshort
    rw [count_le_iff n (by decide)]
    have hlt : n.natAbs < 10 ^ digitsIn value? (trim word.toList) :=
      signed?_lt (fun _ _ => value?_lt) h
    exact Nat.lt_of_lt_of_le hlt (Nat.pow_le_pow_right (by decide) hshort)
  · cases h

end Digits

namespace Json

theorem isDigit_of_mem_toDigits {n : Nat} {c : Char} (h : c ∈ Nat.toDigits 10 n) :
    isDigit c = true := by
  have hc : c.isDigit = true := Nat.isDigit_of_mem_toDigits (by omega) (by omega) h
  simpa [isDigit, Char.isDigit, Char.le_def] using hc

theorem digitsValue_toDigits (n : Nat) : digitsValue (Nat.toDigits 10 n) = n := by
  have h := Nat.ofDigitChars_ten_toDigits (n := n)
  rw [Nat.ofDigitChars_eq_foldl] at h
  simpa [digitsValue, Nat.mul_comm] using h

/-- A number other than zero is not written with a zero in front. -/
theorem exists_toDigits_eq_cons (n : Nat) (hn : n ≠ 0) :
    ∃ d ds, Nat.toDigits 10 n = d :: ds ∧ d ≠ '0' := by
  induction n using Nat.strongRecOn with
  | _ n ih =>
    rw [Nat.toDigits_eq_if (by omega)]
    split
    · rename_i hlt
      have hdigit : ∀ m < 10, m ≠ 0 → Nat.digitChar m ≠ '0' := by decide
      exact ⟨_, [], rfl, hdigit n hlt hn⟩
    · obtain ⟨d, ds, hds, hd⟩ := ih (n / 10) (by omega) (by omega)
      exact ⟨d, ds ++ [(n % 10).digitChar], by simp [hds], hd⟩

/-- Nothing stands in front that would continue a number. -/
def Apart (tail : List Char) : Prop :=
  ∀ c, tail.head? = some c → isDigit c = false ∧ c ≠ '.' ∧ c ≠ 'e' ∧ c ≠ 'E'

theorem apart_nil : Apart [] := by
  intro c hc
  cases hc

theorem apart_cons {c : Char} (tail : List Char)
    (hc : isDigit c = false ∧ c ≠ '.' ∧ c ≠ 'e' ∧ c ≠ 'E') : Apart (c :: tail) := by
  intro d hd
  cases hd
  exact hc

section

variable {tail : List Char}

theorem Apart.span_isDigit (h : Apart tail) {ds : List Char} (hds : ∀ c ∈ ds, isDigit c = true) :
    (ds ++ tail).span isDigit = (ds, tail) := by
  rw [List.span_eq_takeWhile_dropWhile, List.takeWhile_append_of_pos hds,
    List.dropWhile_append_of_pos hds]
  cases tail with
  | nil => simp
  | cons c tail => simp [(h c rfl).1]

theorem Apart.wholePart?_toDigits (h : Apart tail) (n : Nat) :
    wholePart? (Nat.toDigits 10 n ++ tail) = some (Nat.toDigits 10 n, tail) := by
  by_cases hn : n = 0
  · subst hn
    rfl
  · have hspan := h.span_isDigit fun c hc => isDigit_of_mem_toDigits (n := n) hc
    obtain ⟨d, ds, hds, hd⟩ := exists_toDigits_eq_cons n hn
    have hdigit : isDigit d = true := isDigit_of_mem_toDigits (n := n) (by simp [hds])
    rw [hds, List.cons_append] at hspan ⊢
    rw [wholePart?, hspan]
    · simp [hdigit]
    · exact fun cs hcs => hd (List.cons.inj hcs).1

theorem Apart.fraction_eq (h : Apart tail) : fraction tail = ([], tail) := by
  cases tail with
  | nil => rfl
  | cons c tail =>
    rw [fraction]
    exact fun cs hcs => (h c rfl).2.1 (List.cons.inj hcs).1

theorem Apart.exponent?_eq (h : Apart tail) : exponent? tail = none := by
  cases tail with
  | nil => rfl
  | cons c tail => simp [exponent?, (h c rfl).2.2]

/-- Digits behind a sign, or behind none, are read as a whole number if so many digits are taken. -/
theorem Apart.number?_toDigits (h : Apart tail) (takes : Nat → Bool) (negative : Bool)
    (m pos : Nat) :
    ∃ pos', number? takes pos ((if negative then ['-'] else []) ++ Nat.toDigits 10 m ++ tail) =
      some (if takes (Nat.toDigits 10 m).length then
        .ok (.int (if negative then -(m : Int) else m), pos', tail)
      else .error .longNumber) := by
  obtain ⟨d, ds, hds⟩ := List.exists_cons_of_ne_nil (Nat.toDigits_ne_nil (n := m) (b := 10))
  have hdigit : isDigit d = true := isDigit_of_mem_toDigits (n := m) (by simp [hds])
  have hminus : d ≠ '-' := by
    rintro rfl
    cases hdigit
  have hwhole := h.wholePart?_toDigits m
  have hvalue := digitsValue_toDigits m
  rw [hds] at hwhole hvalue ⊢
  unfold number?
  split
  rename_i negative' body hsign
  have hbody : negative' = negative ∧ body = d :: ds ++ tail := by
    cases negative <;> simp_all
  obtain ⟨rfl, rfl⟩ := hbody
  rw [hwhole]
  refine ⟨pos + negative'.toNat + (d :: ds).length + 0, ?_⟩
  simp [hvalue, h.fraction_eq, h.exponent?_eq, ← apply_ite some]

/-- A number is read back, and the text after it is left, if its digits are not too many. -/
theorem Apart.number?_eq (h : Apart tail) (takes : Nat → Bool) (n : Int) (pos : Nat) :
    ∃ pos', number? takes pos ((toString n).toList ++ tail) =
      some (if takes (Digits.count n) then .ok (.int n, pos', tail) else .error .longNumber) := by
  have hrepr : toString n = n.repr := rfl
  rw [hrepr, Int.repr_eq_if, Digits.count]
  split
  · have hn : ((n.toNat : Nat) : Int) = n := by omega
    have habs : n.natAbs = n.toNat := by omega
    have hread := h.number?_toDigits takes false n.toNat pos
    rw [hn] at hread
    rw [habs]
    simpa using hread
  · have hn : -(((-n).toNat : Nat) : Int) = n := by omega
    have habs : n.natAbs = (-n).toNat := by omega
    have hread := h.number?_toDigits takes true (-n).toNat pos
    rw [if_pos rfl, if_pos rfl, hn] at hread
    rw [habs]
    simpa using hread

end

end Json

end MarkupTally
