import MarkupTally.CommandLine.Census
import MarkupTally.Model.Options
import MarkupTally.Proofs.JsonTexts

/-! Records and their JSON. A record that is shown and read again is the same record, and whatever
was read once is, when shown, read as itself; the total of a report is shown and never read. A
census has a text if none of its numbers is too long to be written. -/
namespace MarkupTally

namespace Checked

variable {α β : Type}

@[simp] theorem map_ok (f : α → β) (a : α) : f <$> (ok a) = ok (f a) := rfl

@[simp] theorem seq_ok (f : α → β) (a : α) : (ok f <*> ok a : Checked β) = ok (f a) := rfl

@[simp] theorem under_ok (step : Step) (a : α) : under step (ok a) = ok a := rfl

@[simp] theorem string_str (s : String) : string (.str s) = ok s := rfl

@[simp] theorem int_int (n : Int) : int (.int n) = ok n := rfl

@[simp] theorem bool_bool (b : Bool) : bool (.bool b) = ok b := rfl

@[simp] theorem stringOrNull_ofOption (s : Option String) : stringOrNull (.ofOption s) = ok s := by
  cases s <;> rfl

/-- The fields of an object are looked through in order. -/
@[simp] theorem field_cons (k name : String) (part : Json) (fs : List (String × Json))
    (read : Json → Checked α) (default : Option α) :
    field (.obj ((k, part) :: fs)) name read default =
      if k = name then (read part).under (.field name) else field (.obj fs) name read default := by
  unfold field
  by_cases h : k = name
  · simp [Json.get?, h]
  · simp [Json.get?, h]

@[simp] theorem object_obj (refusal : Fault) (read : Json → Checked α) (fs : List (String × Json)) :
    object refusal read (.obj fs) = read (.obj fs) := rfl

theorem items_map {read : Json → Checked α} {toJson : α → Json} (as : List α)
    (h : ∀ a, read (toJson a) = ok a) (i : Nat) : items read i (as.map toJson) = ok as := by
  induction as generalizing i with
  | nil => rfl
  | cons a as ih =>
    simp only [List.map_cons, items, h, ih]
    rfl

theorem list_map {read : Json → Checked α} {toJson : α → Json} (h : ∀ a, read (toJson a) = ok a)
    (as : List α) : list read (.arr (as.map toJson)) = ok as :=
  items_map as h 0

@[simp] theorem list_strs (ss : List String) : list string (.strs ss) = ok ss :=
  list_map string_str ss

theorem map_eq_ok {f : α → β} {c : Checked α} {b : β} (h : f <$> c = ok b) :
    ∃ a, c = ok a ∧ f a = b := by
  cases c with
  | ok a => exact ⟨a, rfl, by simpa using h⟩
  | bad is => cases h

theorem seq_eq_ok {f : Checked (α → β)} {c : Checked α} {b : β} (h : f <*> c = ok b) :
    ∃ g a, f = ok g ∧ c = ok a ∧ g a = b := by
  cases f with
  | ok g =>
    cases c with
    | ok a => exact ⟨g, a, rfl, rfl, by simpa using h⟩
    | bad is => cases h
  | bad is => cases c <;> cases h

theorem of_ensure_eq_ok {p : α → Bool} {f : Fault} {c : Checked α} {a : α}
    (h : c.ensure p f = ok a) : p a = true := by
  cases c with
  | ok b =>
    simp only [ensure] at h
    split at h
    · cases h
      assumption
    · cases h
  | bad is => cases h

theorem under_eq_ok {step : Step} {c : Checked α} {a : α} (h : under step c = ok a) : c = ok a := by
  cases c with
  | ok b => exact h
  | bad is => cases h

/-- A field that was read was there, or has a default. -/
theorem field_eq_ok {v : Json} {name : String} {read : Json → Checked α} {default : Option α}
    {a : α} (h : field v name read default = ok a) :
    (∃ part, read part = ok a) ∨ default = some a := by
  have hpart := under_eq_ok h
  split at hpart
  · exact .inl ⟨_, hpart⟩
  · cases default with
    | none => cases hpart
    | some b =>
      cases hpart
      exact .inr rfl

end Checked

theorem FunctionKind.ofName?_name (k : FunctionKind) : ofName? k.name = some k := by
  cases k <;> rfl

theorem Classification.ofName?_name (c : Classification) : ofName? c.name = some c := by
  cases c <;> rfl

theorem FileInfo.read_toJson (i : FileInfo) : read i.toJson = .ok i := by
  simp [read, toJson, readFields]

theorem FunctionFacts.read_toJson (f : FunctionFacts) : read f.toJson = .ok f := by
  simp [read, toJson, readFields, Checked.among, FunctionKind.ofName?_name,
    Classification.ofName?_name]

theorem FileFacts.read_toJson (f : FileFacts) : read f.toJson = .ok f := by
  simp [read, toJson, readFields, Checked.list_map FunctionFacts.read_toJson]

theorem Report.read_toJson (r : Report) : read r.toJson = .ok r := by
  simp [read, toJson, readFields]

theorem Census.read_toJson (c : Census) : read c.toJson = .ok c := by
  simp [read, toJson, readFields, Report.read_toJson,
    Checked.list_map FileFacts.read_toJson]

theorem Options.readFields_toJson (o : Options) (h : 1 ≤ o.jobs) :
    readFields o.toJson = .ok o := by
  simp [toJson, readFields, Checked.ensure, h]

/-- No number of jobs below one is ever read. -/
theorem Options.one_le_jobs {v : Json} {o : Options} (h : read v = .ok o) : 1 ≤ o.jobs := by
  have hfields : readFields v = .ok o := by
    unfold read Checked.object at h
    split at h
    · exact h
    · cases h
  obtain ⟨_, jobs, hsix, hjobs, rfl⟩ := Checked.seq_eq_ok hfields
  obtain ⟨_, _, hfive, -, rfl⟩ := Checked.seq_eq_ok hsix
  obtain ⟨_, _, hfour, -, rfl⟩ := Checked.seq_eq_ok hfive
  obtain ⟨_, _, hthree, -, rfl⟩ := Checked.seq_eq_ok hfour
  obtain ⟨_, _, htwo, -, rfl⟩ := Checked.seq_eq_ok hthree
  obtain ⟨_, _, hone, -, rfl⟩ := Checked.seq_eq_ok htwo
  obtain ⟨_, -, rfl⟩ := Checked.map_eq_ok hone
  rcases Checked.field_eq_ok hjobs with ⟨part, hpart⟩ | hdefault
  · simpa using Checked.of_ensure_eq_ok hpart
  · cases hdefault
    exact Int.le_refl 1

theorem Options.read_toJson (o : Options) (h : 1 ≤ o.jobs) : read o.toJson = .ok o :=
  readFields_toJson o h

namespace Json

theorem find?_replaced (fs : List (String × Json)) {key name : String} (w : Json)
    (h : key ≠ name) :
    (fs.map fun f => if f.1 == key then (key, w) else f).find? (fun f => f.1 == name) =
      fs.find? fun f => f.1 == name := by
  induction fs with
  | nil => rfl
  | cons f fs ih =>
    rw [List.map_cons, List.find?_cons, List.find?_cons, ih]
    by_cases hf : f.1 = key
    · have hname : (key == name) = false := by simpa using h
      simp [hf, hname]
    · simp [hf]

/-- A field put into an object is none of the other fields. -/
theorem get?_put_of_ne (fs : List (String × Json)) {key name : String} (w : Json)
    (h : key ≠ name) : (Json.obj (put fs key w)).get? name = (Json.obj fs).get? name := by
  unfold put
  split
  · simp only [get?, find?_replaced fs w h]
  · simp [get?, List.find?_append, h]

theorem plain_strs (ss : List String) : Plain (.strs ss) := by
  refine .arr fun v hv => ?_
  obtain ⟨s, -, rfl⟩ := List.mem_map.mp hv
  exact .str s

theorem plain_ofOption (s : Option String) : Plain (.ofOption s) := by
  cases s with
  | none => exact .null
  | some s => exact .str s

theorem plain_map {α : Type} {toJson : α → Json} (h : ∀ a, Plain (toJson a)) (as : List α) :
    Plain (.arr (as.map toJson)) := by
  refine .arr fun v hv => ?_
  obtain ⟨a, -, rfl⟩ := List.mem_map.mp hv
  exact h a

end Json

theorem FunctionFacts.plain_toJson (f : FunctionFacts) : f.toJson.Plain := by
  refine .obj (by simp) ?_
  simp [Json.plain_ofOption, Json.Plain.str, Json.Plain.int, Json.Plain.bool]

theorem FileFacts.plain_toJson (f : FileFacts) : f.toJson.Plain := by
  refine .obj (by simp) ?_
  simp [Json.plain_ofOption, Json.Plain.str, Json.plain_map FunctionFacts.plain_toJson]

theorem Report.plain_toJson (r : Report) : r.toJson.Plain := by
  refine .obj (by simp) ?_
  simp [Json.plain_strs, Json.Plain.str, Json.Plain.int]

theorem Census.plain_toJson (c : Census) : c.toJson.Plain := by
  refine .obj (by simp) ?_
  simp [Report.plain_toJson, Json.plain_map FileFacts.plain_toJson]

theorem Options.plain_toJson (o : Options) : o.toJson.Plain := by
  refine .obj (by simp) ?_
  simp [Json.plain_strs, Json.Plain.bool, Json.Plain.int]

theorem Report.read_put_total (fs : List (String × Json)) (w : Json) :
    read (.obj (Json.put fs "total_functions" w)) = read (.obj fs) := by
  have hget (name : String) (h : "total_functions" ≠ name) := Json.get?_put_of_ne fs w h
  simp only [read, Checked.object, readFields, Checked.field]
  rw [hget "root" (by decide), hget "files_analyzed" (by decide),
    hget "markup_producing_count" (by decide), hget "plain_count" (by decide),
    hget "skipped_files" (by decide)]

/-- The whole numbers that a census shows: the counts of its report with their total, and the place
of each function. -/
def Census.numbers (c : Census) : List Int :=
  [c.report.filesAnalyzed, c.report.markupCount, c.report.plainCount, c.report.total] ++
    c.files.flatMap fun f => f.functions.flatMap fun g => [g.line, g.column]

/-- None of the numbers that a census shows has too many digits to be written. -/
def Census.ShortNumbers (c : Census) : Prop := ∀ n ∈ c.numbers, Digits.count n ≤ Digits.maxDigits

@[simp] theorem Json.ints_ofOption (s : Option String) : (Json.ofOption s).ints = [] := by
  cases s <;> simp [Json.ofOption, Json.ints]

theorem Json.itemInts_map {α : Type} (toJson : α → Json) (as : List α) :
    itemInts (as.map toJson) = as.flatMap fun a => (toJson a).ints := by
  induction as with
  | nil => rfl
  | cons a as ih => rw [List.map_cons, itemInts, ih, List.flatMap_cons]

@[simp] theorem Json.ints_strs (ss : List String) : (Json.strs ss).ints = [] := by
  simp [Json.strs, Json.ints, Json.itemInts_map]

theorem FunctionFacts.ints_toJson (f : FunctionFacts) : f.toJson.ints = [f.line, f.column] := by
  simp [toJson, Json.ints, Json.fieldInts]

theorem FileFacts.ints_toJson (f : FileFacts) :
    f.toJson.ints = f.functions.flatMap fun g => [g.line, g.column] := by
  simp [toJson, Json.ints, Json.fieldInts, Json.itemInts_map, FunctionFacts.ints_toJson]

theorem Report.ints_toJson (r : Report) :
    r.toJson.ints = [r.filesAnalyzed, r.markupCount, r.plainCount, r.total] := by
  simp [toJson, Json.ints, Json.fieldInts]

theorem Census.ints_toJson (c : Census) : c.toJson.ints = c.numbers := by
  simp [toJson, numbers, Json.ints, Json.fieldInts, Json.itemInts_map, Report.ints_toJson,
    FileFacts.ints_toJson]

theorem Options.ints_toJson (o : Options) : o.toJson.ints = [o.jobs] := by
  simp [toJson, Json.ints, Json.fieldInts]

theorem Census.taken_iff (c : Census) :
    Json.taken (· ≤ Digits.maxDigits) c.toJson.ints = true ↔ c.ShortNumbers := by
  simp [Json.taken, c.ints_toJson, ShortNumbers]

/-- What is written of a census is read as the census. -/
theorem Census.ShortNumbers.written {c : Census} (h : c.ShortNumbers) :
    c.toJson.dump = some c.toJson.pretty ∧ Json.load (c.toJson.pretty ++ "\n") = .ok c.toJson := by
  have htaken := c.taken_iff.mpr h
  exact ⟨if_pos htaken, (c.plain_toJson.readText_pretty _).trans (if_pos htaken)⟩

/-- A number that is too long keeps a census from being written, and its text from being read. -/
theorem Census.not_written {c : Census} (h : ¬c.ShortNumbers) :
    c.toJson.dump = none ∧ Json.load (c.toJson.pretty ++ "\n") = .error .longNumber := by
  have htaken := mt c.taken_iff.mp h
  exact ⟨if_neg htaken, (c.plain_toJson.readText_pretty _).trans (if_neg htaken)⟩

/-- A run that ends well and was to be shown as JSON prints the lines of its census. -/
theorem CommandLine.Census.out_printed {r : Request} {run : Analysis.Run} {c : MarkupTally.Census}
    (hjson : r.json = true) (hrun : run.result = .ok c) (root : String) (files : List FileInfo) :
    (printed r root files run).out = c.toJson.pretty ++ "\n" := by
  simp only [printed, hrun, hjson, if_true]

/-- What can be read at all is, when shown, read as it was. -/
def Settles {α : Type} (read : Json → Checked α) (toJson : α → Json) : Prop :=
  ∀ v a, read v = .ok a → read (toJson a) = .ok a

/-- A census without a number that is too long has a text, which the command prints, and is read
back from it. Any other has none, and lines that show it all the same are not read. Whatever stands
in a text as the total of the report is passed over, and the total shown is the sum of the two
counts. Every record settles when it is shown and read again, and options that are read ask for at
least one job. -/
theorem records_read_back_unless_long :
    (∀ c : Census, c.ShortNumbers → ∃ text v, c.toJson.dump = some text ∧
      Json.load (text ++ "\n") = .ok v ∧ Census.read v = .ok c ∧
      ∀ r root files run, r.json = true → run.result = .ok c →
        (CommandLine.Census.printed r root files run).out = text ++ "\n") ∧
    (∀ c : Census, ¬c.ShortNumbers → c.toJson.dump = none ∧
      Json.load (c.toJson.pretty ++ "\n") = .error .longNumber) ∧
    (∀ fs w, Report.read (.obj (Json.put fs "total_functions" w)) = Report.read (.obj fs)) ∧
    (∀ r : Report, r.toJson.get? "total_functions" = some (.int (r.markupCount + r.plainCount))) ∧
    Settles Options.read Options.toJson ∧ Settles FileInfo.read FileInfo.toJson ∧
    Settles FunctionFacts.read FunctionFacts.toJson ∧ Settles FileFacts.read FileFacts.toJson ∧
    Settles Report.read Report.toJson ∧ Settles Census.read Census.toJson ∧
    ∀ v o, Options.read v = .ok o → 1 ≤ o.jobs := by
  refine ⟨fun c hc => ?_, fun c hc => Census.not_written hc, Report.read_put_total,
    fun r => rfl, ?_, fun _ i _ => i.read_toJson, fun _ f _ => f.read_toJson,
    fun _ f _ => f.read_toJson, fun _ r _ => r.read_toJson, fun _ c _ => c.read_toJson,
    fun _ _ h => Options.one_le_jobs h⟩
  · obtain ⟨hdump, hload⟩ := hc.written
    exact ⟨_, c.toJson, hdump, hload, c.read_toJson,
      fun _ root files _ hjson hrun => CommandLine.Census.out_printed hjson hrun root files⟩
  · intro v o h
    exact o.read_toJson (Options.one_le_jobs h)

/-- The largest count that can be written is read back. A number of jobs in quotes, with a sign, a
zero in front and a fraction, settles as a number. -/
theorem records_read_back_unless_long_largest :
    let c : Census := { report := { plainCount := 10 ^ Digits.maxDigits - 1 } }
    c.ShortNumbers ∧
      (∃ text v, c.toJson.dump = some text ∧ Json.load (text ++ "\n") = .ok v ∧
        Census.read v = .ok c) ∧
      Options.read (.obj [("jobs", .str " +0_3.0\n"), ("strict_syntax", .int 1)]) =
        .ok { jobs := 3, strict := true } ∧
      Options.read (Options.toJson { jobs := 3, strict := true }) =
        .ok { jobs := 3, strict := true } := by
  intro c
  have hc : c.ShortNumbers := by
    intro n hn
    have hn : n = 0 ∨ n = 10 ^ Digits.maxDigits - 1 := by
      simpa [c, Census.numbers, Report.total] using hn
    rcases hn with hn | hn
    · rw [hn]
      decide
    · rw [hn]
      exact Digits.count_pow_sub_one_le (by decide)
  have h : Options.read (.obj [("jobs", .str " +0_3.0\n"), ("strict_syntax", .int 1)]) =
      .ok { jobs := 3, strict := true } := by
    rfl
  obtain ⟨text, v, htext, hload, hread, -⟩ := records_read_back_unless_long.1 c hc
  exact ⟨hc, ⟨text, v, htext, hload, hread⟩, h, records_read_back_unless_long.2.2.2.2.1 _ _ h⟩

/-- A count of one digit more is not written, and neither are two counts that could be written by
themselves if their total is as long. -/
theorem long_counts_not_written :
    let one : Census := { report := { plainCount := 10 ^ Digits.maxDigits } }
    let two : Census := { report := { markupCount := 10 ^ Digits.maxDigits - 1, plainCount := 1 } }
    one.toJson.dump = none ∧ two.toJson.dump = none ∧
      Json.load (one.toJson.pretty ++ "\n") = .error .longNumber ∧
      Json.load (two.toJson.pretty ++ "\n") = .error .longNumber := by
  intro one two
  have hlong {c : Census} (h : (10 ^ Digits.maxDigits : Int) ∈ c.numbers) : ¬c.ShortNumbers :=
    fun hshort => Nat.not_le.mpr (Digits.lt_count_pow (by decide)) (hshort _ h)
  obtain ⟨hone, hone'⟩ := Census.not_written (hlong (c := one) (by simp [one, Census.numbers]))
  obtain ⟨htwo, htwo'⟩ :=
    Census.not_written (hlong (c := two) (by simp [two, Census.numbers, Report.total]))
  exact ⟨hone, htwo, hone', htwo'⟩

end MarkupTally
