import Mathlib.Data.List.Forall2
import Mathlib.Data.List.TakeDrop
import MarkupTally.CommandLine.Census

/-! Command lines. Reading one comes to its end before the fuel does, and gives a reason if it
refuses anything. Whatever can be asked of the census can be written on a command line, with any
path. -/
namespace MarkupTally.CommandLine

/-- The reading of a command line is not cut short: if it refuses, it says why. -/
def Parsed.Told : Parsed → Prop
  | .refused message => message ≠ ""
  | _ => True

/-- What reading an option can come to, with the words that follow it: a refusal says why, and no
words are added. -/
def Effect.Told (rest : List Word) : Effect → Prop
  | .help => True
  | .refused message => message ≠ ""
  | .gave _ left => left.length ≤ rest.length

section Told

variable {rest : List Word}

theorem Flag.refuse_told (f : Flag) (message : String) : (f.refuse message).Told rest := by
  simp [Flag.refuse, Effect.Told]

theorem Flag.give_told (f : Flag) (value : String) {left : List Word}
    (h : left.length ≤ rest.length) : (f.give value left).Told rest := by
  unfold Flag.give
  split
  · exact f.refuse_told _
  · exact h

theorem Flag.raise_told (f : Flag) (rest : List Word) : (f.raise rest).Told rest := by
  unfold Flag.raise
  split
  · exact trivial
  · exact Nat.le_refl _

theorem Usage.letters_told (u : Usage) (f : Flag) (joined : List Char) (rest : List Word) :
    (u.letters f joined rest).Told rest := by
  induction joined generalizing f with
  | nil => exact f.raise_told rest
  | cons c cs ih =>
    unfold Usage.letters
    split
    · exact ih _
    · exact f.refuse_told _

theorem Usage.option_told (u : Usage) (f : Flag) (name : String) (joined : Option String)
    (rest : List Word) : (u.option f name joined rest).Told rest := by
  unfold Usage.option
  split
  · exact f.give_told _ (Nat.le_refl _)
  · split
    · exact f.refuse_told _
    · exact u.letters_told f _ rest
  · exact f.raise_told rest
  · split
    · exact f.give_told _ (by simp)
    · exact f.refuse_told _

end Told

section Reading

variable {w : Word} {words : List Word}

/-- A word that is no option goes to the word besides the options, or at least is taken. -/
theorem length_takeWord_lt (hw : w.isOption = false) (words : List Word) :
    (takeWord (w :: words)).2.length < (w :: words).length := by
  have hdrop (ws : List Word) : (ws.dropWhile Word.isDashes).length ≤ ws.length :=
    (List.dropWhile_sublist _).length_le
  cases w with
  | option f name joined => cases hw
  | unknown text => cases hw
  | plain text =>
    have hle := hdrop words
    simp only [takeWord, List.span_eq_takeWhile_dropWhile, List.dropWhile_cons, Word.isDashes,
      Bool.false_eq_true, if_false, List.length_cons]
    omega
  | dashes =>
    simp only [takeWord, List.span_eq_takeWhile_dropWhile, List.dropWhile_cons, Word.isDashes,
      if_true, List.length_cons]
    have hle := hdrop words
    split
    · rename_i text rest heq
      have hle' := hdrop rest
      rw [heq, List.length_cons] at hle
      dsimp only
      omega
    · have hle' := hdrop (words.dropWhile Word.isDashes)
      dsimp only
      omega

theorem length_loose_lt (hw : w.isOption = false) (words : List Word) :
    ((w :: words).span fun w => !w.isOption).2.length < (w :: words).length := by
  have hle := (List.dropWhile_sublist (l := words) fun w => !w.isOption).length_le
  simp only [List.span_eq_takeWhile_dropWhile, List.dropWhile_cons, hw, Bool.not_false, if_true,
    List.length_cons]
  omega

/-- What comes of the words up to the next option, if the word besides the options is there. -/
def Usage.pass (u : Usage) (fuel : Nat) (p : Progress) (cut : List Word × List Word) : Parsed :=
  let p := { p with extras := p.extras ++ cut.1.map Word.text }
  match cut.2 with
  | [] =>
    if p.extras.isEmpty then .accepted p.given p.word
    else .refused ("unrecognized arguments: " ++ " ".intercalate p.extras)
  | rest => u.read fuel p rest

theorem Usage.read_of_not_option (u : Usage) (fuel : Nat) (p : Progress)
    (hw : w.isOption = false) (words : List Word) :
    u.read (fuel + 1) p (w :: words) =
      if p.pending && !(w :: words).isEmpty then
        u.read fuel (p.setWord (takeWord (w :: words)).1) (takeWord (w :: words)).2
      else u.pass fuel p ((w :: words).span fun w => !w.isOption) := by
  cases w with
  | option f name joined => cases hw
  | unknown text => cases hw
  | plain text => rfl
  | dashes => rfl

theorem Usage.pass_told (u : Usage) {fuel : Nat} (p : Progress) {cut : List Word × List Word}
    (h : cut.2 ≠ [] → ∀ p, (u.read fuel p cut.2).Told) : (u.pass fuel p cut).Told := by
  unfold Usage.pass
  dsimp only
  split
  · split
    · exact trivial
    · simp [Parsed.Told]
  · rename_i hne
    exact h hne _

/-- Every round takes a word, so that the fuel lasts longer than the words. -/
theorem Usage.read_told (u : Usage) {fuel : Nat} (p : Progress) (h : words.length < fuel) :
    (u.read fuel p words).Told := by
  induction fuel generalizing p words with
  | zero => exact absurd h (Nat.not_lt_zero _)
  | succ fuel ih =>
    -- a plain word and the two dashes go the same way
    have hround : ∀ w ws, words = w :: ws → w.isOption = false →
        (u.read (fuel + 1) p words).Told := by
      rintro w ws rfl hw
      have htake := length_takeWord_lt hw ws
      have hloose := length_loose_lt hw ws
      rw [u.read_of_not_option fuel p hw]
      split
      · exact ih _ (by omega)
      · exact u.pass_told p fun _ p => ih p (by omega)
    cases words with
    | nil =>
      have heq : u.read (fuel + 1) p [] = u.pass fuel p ([], []) := by
        simp [Usage.read, Usage.pass]
      rw [heq]
      exact u.pass_told p fun hne => absurd rfl hne
    | cons w words =>
      cases w with
      | option f name joined =>
        have htold := u.option_told f name joined words
        simp only [Usage.read]
        cases heffect : u.option f name joined words with
        | help => exact trivial
        | refused message =>
          rw [heffect] at htold
          exact htold
        | gave g left =>
          rw [heffect] at htold
          have hle : left.length ≤ words.length := htold
          simp only [List.length_cons] at h
          exact ih _ (by omega)
      | unknown text => exact ih _ (by simpa using h)
      | plain text => exact hround _ _ rfl rfl
      | dashes => exact hround _ _ rfl rfl

theorem Usage.word_error_ne (u : Usage) {text message : String}
    (h : u.word text = .error message) : message ≠ "" := by
  unfold Usage.word at h
  repeat' split at h
  all_goals cases h
  simp

theorem Usage.words_cons (u : Usage) {text : String} (htext : text ≠ "--") (rest : List String) :
    u.words (text :: rest) = (u.word text).bind fun w => (u.words rest).map (w :: ·) := by
  rw [Usage.words]
  · cases u.word text <;> rfl
  · exact htext

theorem Usage.words_error_ne (u : Usage) {args : List String} {message : String}
    (h : u.words args = .error message) : message ≠ "" := by
  induction args with
  | nil => cases h
  | cons text rest ih =>
    by_cases htext : text = "--"
    · subst htext
      cases h
    · rw [u.words_cons htext] at h
      cases hw : u.word text with
      | error e =>
        rw [hw] at h
        cases h
        exact u.word_error_ne hw
      | ok w =>
        cases hws : u.words rest with
        | error e =>
          rw [hw, hws] at h
          cases h
          exact ih hws
        | ok ws =>
          rw [hw, hws] at h
          cases h

/-- No command line is refused without a reason. -/
theorem Usage.parse_told (u : Usage) (args : List String) : (u.parse args).Told := by
  unfold Usage.parse
  split
  · rename_i message h
    exact u.words_error_ne h
  · exact u.read_told _ (by omega)

end Reading

section Writing

variable {u : Usage}

/-- A word by itself gives an option, whatever follows. -/
structure Spells (u : Usage) (text : String) (g : Given) : Prop where
  ne_dashes : text ≠ "--"
  reads : ∃ f name joined, u.word text = .ok (.option f name joined) ∧
    ∀ rest, u.option f name joined rest = .gave g rest

theorem find?_eq_none (hnames : ∀ n ∈ u.names, '=' ∉ n.1.toList) {text : String}
    (h : '=' ∈ text.toList) : u.find? text = none := by
  have hnone : (u.names.find? fun n => n.1 == text) = none := by
    rw [List.find?_eq_none]
    intro n hn heq
    rw [← beq_iff_eq.mp heq] at h
    exact hnames n hn h
  rw [Usage.find?, hnone]
  rfl

theorem splitEq_append {name : String} (h : '=' ∉ name.toList) (value : String) :
    splitEq (name ++ "=" ++ value) = (name, some value) := by
  have hall : ∀ c ∈ name.toList, (c != '=') = true := by
    intro c hc
    simp only [bne_iff_ne, ne_eq]
    rintro rfl
    exact h hc
  have hchars : (name ++ "=" ++ value).toList = name.toList ++ '=' :: value.toList := by simp
  simp [splitEq, hchars, List.span_eq_takeWhile_dropWhile, List.takeWhile_append_of_pos hall,
    List.dropWhile_append_of_pos hall]

/-- A value can be joined to the name of its option. -/
theorem spells_joined (hnames : ∀ n ∈ u.names, '=' ∉ n.1.toList) (name value : String) {f : Flag}
    (hf : u.find? name = some f) (hdash : startsWith name "-" = true) (hname : '=' ∉ name.toList)
    (htakes : f.takesValue = true) (hvalue : f.refusal? value = none) :
    Spells u (name ++ "=" ++ value) ⟨f.name, some value⟩ := by
  have heq : '=' ∈ (name ++ "=" ++ value).toList := by simp
  have hne (text : String) (htext : '=' ∉ text.toList) : name ++ "=" ++ value ≠ text := by
    rintro rfl
    exact htext heq
  have hstart : startsWith (name ++ "=" ++ value) "-" = true := by
    simp only [startsWith, List.isPrefixOf_iff_prefix, String.toList_append] at hdash ⊢
    exact (hdash.trans (List.prefix_append _ _)).trans (List.prefix_append _ _)
  refine ⟨hne "--" (by decide), f, name, some value, ?_, fun rest => ?_⟩
  · simp [Usage.word, hstart, find?_eq_none hnames heq, hne "-" (by decide),
      splitEq_append hname, hf]
  · simp [Usage.option, htakes, Flag.give, hvalue]

/-- Words that give options are read one after the other, before the words that follow. -/
theorem read_spelled {texts : List String} {given : List Given} {after : List Word}
    (h : List.Forall₂ (Spells u) texts given) (rest : List String)
    (hrest : u.words rest = .ok after) :
    ∃ ws, u.words (texts ++ rest) = .ok (ws ++ after) ∧ ∀ fuel p,
      u.read (fuel + ws.length) p (ws ++ after) =
        u.read fuel { p with given := p.given ++ given } after := by
  induction h with
  | nil => exact ⟨[], hrest, fun fuel p => by simp⟩
  | @cons text g texts given hs _ ih =>
    obtain ⟨hne, f, name, joined, hw, hgave⟩ := hs
    obtain ⟨ws, hws, hread⟩ := ih
    refine ⟨.option f name joined :: ws, ?_, fun fuel p => ?_⟩
    · rw [List.cons_append, u.words_cons hne, hw, hws]
      rfl
    · have hone : u.read (fuel + ws.length + 1) p (.option f name joined :: (ws ++ after)) =
          u.read (fuel + ws.length) { p with given := p.given ++ [g] } (ws ++ after) := by
        simp only [Usage.read, hgave]
      rw [List.cons_append, List.length_cons, ← Nat.add_assoc, hone, hread]
      simp

/-- A command line of options, two dashes and a word is accepted as it is written. -/
theorem parse_spelled {texts : List String} {given : List Given} (hword : u.takesWord = true)
    (h : List.Forall₂ (Spells u) texts given) (path : String) :
    u.parse (texts ++ ["--", path]) = .accepted given (some path) := by
  obtain ⟨ws, hws, hread⟩ := read_spelled h ["--", path] rfl
  have hfuel : 2 * (ws ++ [Word.dashes, .plain path]).length + 2 =
      ws.length + 4 + 2 + ws.length := by
    simp only [List.length_append, List.length_cons, List.length_nil]
    omega
  rw [List.map_singleton] at hws hread
  simp only [Usage.parse, hws]
  rw [hfuel, hread, hword]
  rfl

end Writing

namespace Census

/-- The option is given, if it was given before. -/
def kept (given : List Given) (name : String) : List Given :=
  if Given.has given name then [⟨name, none⟩] else []

/-- The same options, once each and with no others, and the wish for JSON. -/
def rewritten (given : List Given) : List Given :=
  ⟨"--json", none⟩ :: (kept given "--top-level-only" ++ kept given "--exclude-nested-markup" ++
    kept given "--strict-syntax" ++ kept given "--skip-invalid" ++
    (Given.all given "--exclude").map (⟨"--exclude", some ·⟩) ++
    ((Given.last? given "--jobs").filter fun w => (Digits.int? w).isSome).toList.map
      (⟨"--jobs", some ·⟩))

theorem has_kept (given : List Given) (name other : String) :
    Given.has (kept given name) other = (name == other && Given.has given name) := by
  unfold kept
  cases Given.has given name with
  | true => simp [Given.has]
  | false => simp [Given.has]

theorem filter_kept (given : List Given) {name other : String} (h : name ≠ other) :
    (kept given name).filter (fun g => g.name == other) = [] := by
  unfold kept
  split
  · simp [h]
  · rfl

theorem has_values (values : List String) {name other : String} (h : name ≠ other) :
    Given.has (values.map (⟨name, some ·⟩)) other = false := by
  simp [Given.has, h]

theorem filter_values (values : List String) (name other : String) :
    (values.map (Given.mk name <| some ·)).filter (fun g => g.name == other) =
      if name = other then values.map (⟨name, some ·⟩) else [] := by
  split <;> simp_all

theorem has_append (given more : List Given) (name : String) :
    Given.has (given ++ more) name = (Given.has given name || Given.has more name) := by
  simp [Given.has]

theorem options_rewritten (given : List Given) : options (rewritten given) = options given := by
  have hcons (name : String) (hname : "--json" ≠ name) (gs : List Given) :
      Given.has (⟨"--json", none⟩ :: gs) name = Given.has gs name := by
    simp [Given.has, hname]
  have hall : Given.all (rewritten given) "--exclude" = Given.all given "--exclude" := by
    rw [Given.all]
    simp [rewritten, filter_kept, filter_values, List.filterMap_map]
  have hlast : (Given.last? (rewritten given) "--jobs").bind Digits.int? =
      (Given.last? given "--jobs").bind Digits.int? := by
    have hjobs : (rewritten given).filter (fun g => g.name == "--jobs") =
        ((Given.last? given "--jobs").filter fun w => (Digits.int? w).isSome).toList.map
          (⟨"--jobs", some ·⟩) := by
      simp [rewritten, filter_kept, filter_values]
    rw [Given.last?, hjobs]
    cases Given.last? given "--jobs" with
    | none => rfl
    | some w =>
      cases hw : Digits.int? w with
      | none => simp [Option.filter, hw]
      | some n => simp [Option.filter, hw]
  have hhas (name : String) (hname : name ∈ ["--top-level-only", "--exclude-nested-markup",
      "--strict-syntax", "--skip-invalid"]) :
      Given.has (rewritten given) name = Given.has given name := by
    simp only [List.mem_cons, List.not_mem_nil, or_false] at hname
    rcases hname with rfl | rfl | rfl | rfl
    all_goals simp [rewritten, hcons, has_append, has_kept, has_values]
  simp only [options, hall, hlast]
  rw [hhas _ (by simp), hhas _ (by simp), hhas _ (by simp), hhas _ (by simp)]

/-- The options can be written, each as one word. -/
def Writable (given : List Given) : Prop := ∃ texts, List.Forall₂ (Spells usage) texts given

theorem Writable.append {given more : List Given} (h : Writable given) (h' : Writable more) :
    Writable (given ++ more) := by
  obtain ⟨texts, htexts⟩ := h
  obtain ⟨texts', htexts'⟩ := h'
  exact ⟨texts ++ texts', List.rel_append htexts htexts'⟩

theorem writable_flag {name : String}
    (hname : name ∈ ["--json", "--top-level-only", "--exclude-nested-markup", "--strict-syntax",
      "--skip-invalid"]) : Writable [⟨name, none⟩] := by
  refine ⟨[name], .cons ?_ .nil⟩
  simp only [List.mem_cons, List.not_mem_nil, or_false] at hname
  rcases hname with rfl | rfl | rfl | rfl | rfl
  all_goals exact ⟨by decide, _, _, _, rfl, fun rest => rfl⟩

theorem writable_kept (given : List Given) {name : String} (h : Writable [⟨name, none⟩]) :
    Writable (kept given name) := by
  unfold kept
  split
  · exact h
  · exact ⟨[], .nil⟩

theorem writable_values {name : String} {values : List String} {f : Flag}
    (hf : usage.find? name = some f) (hname : f.name = name) (hdash : startsWith name "-" = true)
    (heq : '=' ∉ name.toList) (htakes : f.takesValue = true)
    (hvalues : ∀ w ∈ values, f.refusal? w = none) :
    Writable (values.map (⟨name, some ·⟩)) := by
  have hnames : ∀ n ∈ usage.names, '=' ∉ n.1.toList := by decide
  refine ⟨values.map (name ++ "=" ++ ·), ?_⟩
  induction values with
  | nil => exact .nil
  | cons w values ih =>
    obtain ⟨hw, hvalues⟩ := List.forall_mem_cons.mp hvalues
    have hspells := spells_joined hnames name w hf hdash heq htakes hw
    rw [hname] at hspells
    exact .cons hspells (ih hvalues)

theorem writable_rewritten (given : List Given) : Writable (rewritten given) := by
  have hdirs : Writable ((Given.all given "--exclude").map (⟨"--exclude", some ·⟩)) :=
    writable_values rfl rfl (by decide) (by decide) rfl fun w _ => rfl
  have hjobs : Writable
      (((Given.last? given "--jobs").filter fun w => (Digits.int? w).isSome).toList.map
        (⟨"--jobs", some ·⟩)) := by
    refine writable_values rfl rfl (by decide) (by decide) rfl fun w hw => ?_
    have hint : (Digits.int? w).isSome = true := by
      rw [Option.mem_toList, Option.filter_eq_some_iff] at hw
      exact hw.2
    simp [wholeNumber, hint]
  have hflag (name : String) (hname : name ∈ ["--top-level-only", "--exclude-nested-markup",
      "--strict-syntax", "--skip-invalid"]) : Writable (kept given name) :=
    writable_kept given (writable_flag (List.mem_cons_of_mem _ hname))
  refine (writable_flag (by simp)).append ?_
  exact ((((hflag _ (by simp)).append (hflag _ (by simp))).append (hflag _ (by simp))).append
    (hflag _ (by simp)) |>.append hdirs).append hjobs

/-- Any path can be asked for, and with it any options that can be given at all. -/
theorem exists_parse_eq (given : List Given) (path : String) :
    ∃ args, usage.parse args = .accepted (rewritten given) (some path) := by
  obtain ⟨texts, htexts⟩ := writable_rewritten given
  exact ⟨texts ++ ["--", path], parse_spelled rfl htexts path⟩

end Census

end MarkupTally.CommandLine
