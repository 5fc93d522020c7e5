import MarkupTally.Proofs.Skipping
import MarkupTally.Proofs.Tally
import MarkupTally.Proofs.Positions

/-! Errors in a source. Where they are not fatal they get a warning, and where they are fatal the
same place is to blame; a text without errors is counted alike. A run that skips loses exactly the
files with errors when these become fatal. -/
namespace MarkupTally.Analysis

open Utf8

/-- The warning about a text with an error, whose place may be unknown. -/
def warning (path : String) (place : Option (Nat × Nat)) : Message where
  level := .warning
  origin := .reading
  text := path ++ ": syntax error at line " ++ place.elim "None" (fun p => toString p.1) ++
    ", column " ++ place.elim "None" (fun p => toString p.2) ++ "; analyzing the recovered tree"

/-- Why a text with an error fails. -/
def faultReason : Option (Nat × Nat) → String
  | none => "syntax error"
  | some (line, column) =>
    "syntax error at line " ++ toString line ++ ", column " ++ toString column

/-- The failure of a text with an error. -/
def faultError (path : String) (place : Option (Nat × Nat)) : CensusError :=
  .badSource path (place.map fun p => Int.ofNat p.1) (place.map fun p => Int.ofNat p.2)

theorem reason?_faultError (path : String) (place : Option (Nat × Nat)) :
    (faultError path place).reason? = some (faultReason place) := by
  cases place <;> rfl

section Text

variable (g : Grammar) (text path : String) {l : Language}

theorem tree_strict (h : (g l text).info.faulty = true) :
    tree g text path l.name true =
      .pure (.error (.census (faultError path (faultPlace (encode text) (g l text))))) := by
  simp only [tree, l.ofName?_name, h, if_true]
  rfl

theorem tree_lax (h : (g l text).info.faulty = true) :
    tree g text path l.name false =
      ⟨[warning path (faultPlace (encode text) (g l text))], .ok (g l text)⟩ := by
  simp only [tree, l.ofName?_name, h, if_true, Bool.false_eq_true, if_false]
  cases faultPlace (encode text) (g l text) <;> rfl

theorem tree_clean (h : (g l text).info.faulty = false) (strict : Bool) :
    tree g text path l.name strict = .pure (.ok (g l text)) := by
  simp only [tree, l.ofName?_name, h, Bool.false_eq_true, if_false]

variable (relPath : String) {o : Options}

theorem source_strict (hs : o.strict = true) (h : (g l text).info.faulty = true) :
    source g text path l.name relPath o =
      .pure (.error (.census (faultError path (faultPlace (encode text) (g l text))))) := by
  simp only [source, hs, tree_strict g text path h]
  rfl

theorem source_lax (hs : o.strict = false) (h : (g l text).info.faulty = true)
    (hn : (g l text).NamesReadable (encode text)) :
    ∃ fns, source g text path l.name relPath o =
      ⟨[warning path (faultPlace (encode text) (g l text)),
        ⟨.debug, .counting, path ++ ": " ++ toString fns.length ++ " functions"⟩],
        .ok ⟨path, if relPath = "" then path else relPath, l.name, fns, none⟩⟩ := by
  obtain ⟨fns, hfns⟩ := treeFacts_ok o hn
  exact ⟨fns, by simp only [source, hs, tree_lax g text path h, hfns, List.singleton_append]⟩

theorem source_clean (h : (g l text).info.faulty = false) :
    source g text path l.name relPath { o with strict := true } =
      source g text path l.name relPath { o with strict := false } := by
  simp only [source, tree_clean g text path h]
  rfl

end Text

/-- Where the text of a file has its first error, if the file can be read and has one. The place may
be unknown. -/
def fault? (g : Grammar) (v : Volume) (info : FileInfo) : Option (Option (Nat × Nat)) :=
  match Language.ofName? info.language, fileText v info.path with
  | some l, .ok text =>
    if (g l text).info.faulty then some (faultPlace (encode text) (g l text)) else none
  | _, _ => none

/-- A file of a known language whose functions have names that can be read if the file can. -/
structure Supported (g : Grammar) (v : Volume) (info : FileInfo) : Prop where
  language : info.language = "typescript" ∨ info.language = "tsx"
  names : ∀ l text, Language.ofName? info.language = some l → fileText v info.path = .ok text →
    (g l text).NamesReadable (encode text)

/-- What two runs that skip note of a file when errors are fatal only to the second: the same, or
the second has the place of the error instead of the functions. -/
inductive Hardened (g : Grammar) (v : Volume) (info : FileInfo) : FileFacts × FileFacts → Prop where
  | kept (f : FileFacts) (h : fault? g v info = none) : Hardened g v info (f, f)
  | dropped (fns : List FunctionFacts) (place : Option (Nat × Nat))
      (h : fault? g v info = some place) :
      Hardened g v info
        (⟨info.path, if info.relPath = "" then info.path else info.relPath, info.language, fns,
            none⟩,
          ⟨info.path, info.relPath, info.language, [], some (faultReason place)⟩)

section Files

variable {g : Grammar} {v : Volume} {info : FileInfo} {o : Options}

theorem Supported.exists_ofName (h : Supported g v info) :
    ∃ l, Language.ofName? info.language = some l := by
  rcases h.language with hl | hl
  · exact ⟨.typescript, by rw [hl]; rfl⟩
  · exact ⟨.tsx, by rw [hl]; rfl⟩

theorem name_of_ofName? {language : String} {l : Language}
    (h : Language.ofName? language = some l) : language = l.name := by
  unfold Language.ofName? at h
  split at h <;> cases h <;> rfl

theorem fault?_eq_some {place : Option (Nat × Nat)} (h : fault? g v info = some place) :
    ∃ l text, Language.ofName? info.language = some l ∧ fileText v info.path = .ok text ∧
      (g l text).info.faulty = true ∧ faultPlace (encode text) (g l text) = place := by
  unfold fault? at h
  split at h
  · rename_i l text hl ht
    split at h
    · exact ⟨l, text, hl, ht, ‹_›, Option.some.inj h⟩
    · cases h
  · cases h

theorem file_clean (h : fault? g v info = none) :
    file g v info { o with strict := true } = file g v info { o with strict := false } := by
  unfold file
  cases ht : fileText v info.path with
  | error a => rfl
  | ok text =>
    dsimp only
    cases hl : Language.ofName? info.language with
    | none =>
      simp only [source, tree, hl]
      rfl
    | some l =>
      have hf : (g l text).info.faulty = false := by simpa [fault?, hl, ht] using h
      rw [name_of_ofName? hl]
      exact source_clean g text info.path info.relPath hf

theorem fileOrSkip_of_ok {f : FileFacts} (h : (file g v info o).value = .ok f) :
    fileOrSkip g v o info = file g v info o := by
  simp only [fileOrSkip, h]

theorem fileOrSkip_of_reason (hs : o.skipInvalid = true) {e : CensusError} {reason : String}
    (h : (file g v info o).value = .error (.census e)) (hr : e.reason? = some reason) :
    (fileOrSkip g v o info).value =
      .ok ⟨info.path, info.relPath, info.language, [], some reason⟩ := by
  simp only [fileOrSkip, h, hs, hr]

theorem Supported.exists_fileOrSkip (h : Supported g v info) (hp : '\x00' ∉ info.path.toList)
    (hs : o.skipInvalid = true) : ∃ f, (fileOrSkip g v o info).value = .ok f := by
  have hfile : (∃ f, (file g v info o).value = .ok f) ∨
      ∃ a, (file g v info o).value = .error a ∧ OfFile a := by
    unfold file
    rcases fileText_cases v hp with ⟨text, ht⟩ | ⟨a, ht, ha⟩
    · obtain ⟨l, hl⟩ := h.exists_ofName
      rcases source_cases g text info.path info.relPath o hl (h.names l text hl ht) with
        ⟨fns, hv⟩ | hv
      · exact .inl ⟨_, by rw [ht]; exact hv⟩
      · exact .inr (by rw [ht]; exact hv)
    · exact .inr ⟨a, by rw [ht]; rfl, ha⟩
  rcases hfile with ⟨f, hf⟩ | ⟨-, hf, e, reason, rfl, hr⟩
  · exact ⟨f, fileOrSkip_ok hf⟩
  · exact ⟨_, fileOrSkip_of_reason hs hf hr⟩

/-- A file with an error is counted with a warning where errors are not fatal. -/
theorem fileOrSkip_lax (h : Supported g v info) {place : Option (Nat × Nat)}
    (hplace : fault? g v info = some place) (hs : o.strict = false) :
    ∃ fns, warning info.path place ∈ (fileOrSkip g v o info).log ∧
      (fileOrSkip g v o info).value = .ok ⟨info.path,
        if info.relPath = "" then info.path else info.relPath, info.language, fns, none⟩ := by
  obtain ⟨l, text, hl, ht, hf, rfl⟩ := fault?_eq_some hplace
  obtain ⟨fns, hsource⟩ := source_lax g text info.path info.relPath hs hf (h.names l text hl ht)
  rw [← name_of_ofName? hl] at hsource
  have hfile : file g v info o = source g text info.path info.language info.relPath o := by
    rw [file, ht]
  rw [hsource] at hfile
  rw [fileOrSkip_of_ok (congrArg Logged.value hfile), hfile]
  exact ⟨fns, List.mem_cons_self, rfl⟩

/-- Where errors are fatal, a run that skips drops the file for the same place. -/
theorem fileOrSkip_strict {place : Option (Nat × Nat)} (hplace : fault? g v info = some place)
    (hs : o.strict = true) (hskip : o.skipInvalid = true) :
    (fileOrSkip g v o info).value =
      .ok ⟨info.path, info.relPath, info.language, [], some (faultReason place)⟩ := by
  obtain ⟨l, text, hl, ht, hf, rfl⟩ := fault?_eq_some hplace
  have hsource := source_strict g text info.path info.relPath hs hf
  rw [← name_of_ofName? hl] at hsource
  have hfile : (file g v info o).value =
      .error (.census (faultError info.path (faultPlace (encode text) (g l text)))) := by
    rw [file, ht]
    exact congrArg Logged.value hsource
  exact fileOrSkip_of_reason hskip hfile (reason?_faultError _ _)

theorem fileOrSkip_clean (h : fault? g v info = none) :
    fileOrSkip g v { o with strict := true } info =
      fileOrSkip g v { o with strict := false } info := by
  unfold fileOrSkip
  rw [file_clean h]

theorem Supported.hardened (h : Supported g v info) (hp : '\x00' ∉ info.path.toList) :
    ∃ p, Hardened g v info p ∧
      (fileOrSkip g v { o with strict := false, skipInvalid := true } info).value = .ok p.1 ∧
      (fileOrSkip g v { o with strict := true, skipInvalid := true } info).value = .ok p.2 := by
  cases hplace : fault? g v info with
  | none =>
    obtain ⟨f, hf⟩ := h.exists_fileOrSkip hp
      (o := { o with strict := false, skipInvalid := true }) rfl
    refine ⟨(f, f), .kept f hplace, hf, ?_⟩
    rw [← hf]
    exact congrArg Logged.value (fileOrSkip_clean (o := { o with skipInvalid := true }) hplace)
  | some place =>
    obtain ⟨fns, -, hlax⟩ := fileOrSkip_lax h hplace
      (o := { o with strict := false, skipInvalid := true }) rfl
    exact ⟨_, .dropped fns place hplace, hlax, fileOrSkip_strict hplace rfl rfl⟩

end Files

section Runs

variable {g : Grammar} {v : Volume} {files : List FileInfo} {o : Options}

theorem serial_eq_map (work : FileInfo → Outcome) (h : ∀ i ∈ files, stops (work i) = false) :
    Pool.serial work stops files = files.map work := by
  induction files with
  | nil => rfl
  | cons i files ih =>
    rw [List.forall_mem_cons] at h
    rw [Pool.serial, h.1, ih h.2]
    rfl

/-- A run that ends well leaves the messages of all its files behind. -/
theorem log_subset_paths {root : String} {facts : List FileFacts}
    (h : files.map (fun i => (fileOrSkip g v o i).value) = facts.map .ok) {i : FileInfo}
    (hi : i ∈ files) : (fileOrSkip g v o i).log ⊆ (paths g v files o root).log := by
  have hgoes : ∀ i ∈ files, stops (fileOrSkip g v o i) = false := by
    intro i hi
    obtain ⟨f, hf⟩ := exists_ok_of_map_eq h hi
    exact stops_ok hf
  intro m hm
  simp only [paths, fold, outcomes_eq_serial, serial_eq_map _ hgoes, List.flatMap_map]
  exact List.mem_flatMap.mpr ⟨i, hi, hm⟩

theorem exists_hardened (h : ∀ i ∈ files, Supported g v i)
    (hp : ∀ i ∈ files, '\x00' ∉ i.path.toList) :
    ∃ pairs : List (FileFacts × FileFacts), List.Forall₂ (Hardened g v) files pairs ∧
      files.map (fun i =>
        (fileOrSkip g v { o with strict := false, skipInvalid := true } i).value) =
          (pairs.map Prod.fst).map .ok ∧
      files.map (fun i =>
        (fileOrSkip g v { o with strict := true, skipInvalid := true } i).value) =
          (pairs.map Prod.snd).map .ok := by
  induction files with
  | nil => exact ⟨[], .nil, rfl, rfl⟩
  | cons i files ih =>
    rw [List.forall_mem_cons] at h hp
    obtain ⟨p, hfacts, hlax, hstrict⟩ := h.1.hardened (o := o) hp.1
    obtain ⟨pairs, hpairs, hlaxes, hstricts⟩ := ih h.2 hp.2
    refine ⟨p :: pairs, .cons hfacts hpairs, ?_, ?_⟩
    · simp only [List.map_cons, hlax, hlaxes]
    · simp only [List.map_cons, hstrict, hstricts]

theorem tally_cons (root : String) (f : FileFacts) (facts : List FileFacts) :
    (Report.tally root (f :: facts)).filesAnalyzed =
        (if f.error.isNone then 1 else 0) + (Report.tally root facts).filesAnalyzed ∧
      (Report.tally root (f :: facts)).skippedFiles.length =
        (if f.error.isSome then 1 else 0) + (Report.tally root facts).skippedFiles.length := by
  cases he : f.error with
  | none => simp [Report.tally, he, Int.add_comm]
  | some reason => simp [Report.tally, he, Nat.add_comm]

/-- Exactly the files with an error change sides. -/
theorem tally_hardened (root : String) {pairs : List (FileFacts × FileFacts)}
    (h : List.Forall₂ (Hardened g v) files pairs) :
    let lax := Report.tally root (pairs.map Prod.fst)
    let strict := Report.tally root (pairs.map Prod.snd)
    let broken := files.countP fun i => (fault? g v i).isSome
    strict.filesAnalyzed + broken = lax.filesAnalyzed ∧
      strict.skippedFiles.length = lax.skippedFiles.length + broken := by
  induction h with
  | nil => exact ⟨rfl, rfl⟩
  | @cons i p files pairs hi _ ih =>
    obtain ⟨hlaxFiles, hlaxSkipped⟩ := tally_cons root p.1 (pairs.map Prod.fst)
    obtain ⟨hstrictFiles, hstrictSkipped⟩ := tally_cons root p.2 (pairs.map Prod.snd)
    simp only [List.map_cons, List.countP_cons, hlaxFiles, hlaxSkipped, hstrictFiles,
      hstrictSkipped]
    cases hi with
    | kept f hf =>
      rw [hf]
      simp only [Option.isSome_none, Bool.false_eq_true, if_false]
      omega
    | dropped fns place hf =>
      rw [hf]
      simp only [Option.isSome_none, Option.isNone_none, Option.isSome_some, Option.isNone_some,
        Bool.false_eq_true, if_false, if_true]
      omega

theorem skipping_null_path {root : String} (h : ∀ i ∈ files, Supported g v i)
    (hs : o.skipInvalid = true) (hn : ∃ i ∈ files, '\x00' ∈ i.path.toList) :
    (paths g v files o root).result = .error (.badPath "embedded null byte") := by
  cases ends_paths g v files o root with
  | counted facts hfacts _ _ =>
    obtain ⟨i, hi, hp⟩ := hn
    obtain ⟨f, hf⟩ := exists_ok_of_map_eq hfacts hi
    rw [fileOrSkip_nullPath hp] at hf
    cases hf
  | failed before after i facts a hfiles _ hvalue _ hresult =>
    -- no other file of the list can end the run
    by_cases hp : '\x00' ∈ i.path.toList
    · rw [fileOrSkip_nullPath hp] at hvalue
      cases hvalue
      exact hresult
    · obtain ⟨f, hf⟩ := (h i (by simp [hfiles])).exists_fileOrSkip hp hs
      rw [hvalue] at hf
      cases hf

end Runs

/-- A text fails for its errors exactly if there is a warning about them where they are not fatal,
and with the same place; all other texts are counted alike. So when errors become fatal to a run
that skips, exactly the files with errors are dropped, each for the place that the warning gave. -/
theorem strict_drops_faulty (g : Grammar) (o : Options) :
    (∀ (text path relPath : String) (l : Language),
      let faulty := (g l text).info.faulty = true
      let place := faultPlace (encode text) (g l text)
      let lax := tree g text path l.name false
      let strict := tree g text path l.name true
      ((∃ line column, strict.value = .error (.census (.badSource path line column))) ↔ faulty) ∧
      ((∃ place, warning path place ∈ lax.log) ↔ faulty) ∧
      (faulty → lax = ⟨[warning path place], .ok (g l text)⟩ ∧
        strict = .pure (.error (.census (faultError path place)))) ∧
      (¬faulty → source g text path l.name relPath { o with strict := true } =
        source g text path l.name relPath { o with strict := false })) ∧
    ∀ (v : Volume) (files : List FileInfo) (root : String), (∀ i ∈ files, Supported g v i) →
      let lax := paths g v files { o with strict := false, skipInvalid := true } root
      let strict := paths g v files { o with strict := true, skipInvalid := true } root
      let broken := files.countP fun i => (fault? g v i).isSome
      ((∃ i ∈ files, '\x00' ∈ i.path.toList) ∧
        lax.result = .error (.badPath "embedded null byte") ∧
        strict.result = .error (.badPath "embedded null byte")) ∨
      ∃ (c d : Census) (pairs : List (FileFacts × FileFacts)),
        lax.result = .ok c ∧ strict.result = .ok d ∧
        c.files = pairs.map Prod.fst ∧ d.files = pairs.map Prod.snd ∧
        List.Forall₂ (Hardened g v) files pairs ∧
        (∀ i ∈ files, ∀ place, fault? g v i = some place → warning i.path place ∈ lax.log) ∧
        d.report.filesAnalyzed + broken = c.report.filesAnalyzed ∧
        d.report.skippedFiles.length = c.report.skippedFiles.length + broken := by
  refine ⟨?_, ?_⟩
  · intro text path relPath l faulty place lax strict
    by_cases hf : faulty
    · have hlax : lax = _ := tree_lax g text path hf
      have hstrict : strict = _ := tree_strict g text path hf
      rw [hlax, hstrict]
      exact ⟨⟨fun _ => hf, fun _ => ⟨_, _, rfl⟩⟩,
        ⟨fun _ => hf, fun _ => ⟨_, List.mem_singleton_self _⟩⟩, fun _ => ⟨rfl, rfl⟩,
        fun hn => absurd hf hn⟩
    · have hclean := Bool.eq_false_of_not_eq_true hf
      have hlax : lax = _ := tree_clean g text path hclean false
      have hstrict : strict = _ := tree_clean g text path hclean true
      rw [hlax, hstrict]
      refine ⟨⟨fun ⟨_, _, h⟩ => ?_, fun h => absurd h hf⟩, ⟨fun ⟨_, h⟩ => ?_, fun h => absurd h hf⟩,
        fun h => absurd h hf, fun _ => source_clean g text path relPath hclean⟩
      · cases h
      · cases h
  · intro v files root h lax strict broken
    by_cases hn : ∃ i ∈ files, '\x00' ∈ i.path.toList
    · exact .inl ⟨hn, skipping_null_path h rfl hn, skipping_null_path h rfl hn⟩
    · obtain ⟨pairs, hpairs, hlax, hstrict⟩ :=
        exists_hardened (o := o) h fun i hi hp => hn ⟨i, hi, hp⟩
      refine .inr ⟨_, _, pairs, (ends_paths g v files _ root).result_eq hlax,
        (ends_paths g v files _ root).result_eq hstrict, rfl, rfl, hpairs, ?_, ?_⟩
      · intro i hi place hplace
        obtain ⟨fns, hwarned, -⟩ := fileOrSkip_lax (h i hi) hplace
          (o := { o with strict := false, skipInvalid := true }) rfl
        exact log_subset_paths hlax hi hwarned
      · dsimp only
        rw [Report.foldl_addFile_root, Report.foldl_addFile_root]
        exact tally_hardened root hpairs

/-- Every text but the empty one is read as an error. -/
def emptyOrFault : Grammar := fun _ text =>
  .mk { id := 0, kind := if text = "" then "program" else "ERROR", start := 0, stop := 0, row := 0,
        column := 0, faulty := text ≠ "" } []

theorem namesReadable_emptyOrFault (l : Language) (text : String) (source : List UInt8) :
    (emptyOrFault l text).NamesReadable source := by
  intro s hs hf
  cases hs with
  | here =>
    by_cases ht : text = "" <;>
      simp [emptyOrFault, ht, Site.root, Node.isFunction, Node.kind, Node.info,
        Node.functionKinds] at hf
  | down _ hc _ => cases hc

/-- Of three files one has an error, one is missing and one is empty: only the first is lost. -/
theorem strict_drops_faulty_one_of_three :
    let v : Volume := ⟨.folder [("a.ts", .file [0x28]), ("c.ts", .file [])], "/"⟩
    let files : List FileInfo := [⟨"/a.ts", "a.ts", "typescript"⟩, ⟨"", "b.ts", "typescript"⟩,
      ⟨"/c.ts", "c.ts", "typescript"⟩]
    (∀ i ∈ files, Supported emptyOrFault v i) ∧
    ∃ c d,
      (paths emptyOrFault v files { strict := false, skipInvalid := true } "").result = .ok c ∧
      (paths emptyOrFault v files { strict := true, skipInvalid := true } "").result = .ok d ∧
      d.report.filesAnalyzed + 1 = c.report.filesAnalyzed ∧
      d.report.skippedFiles.length = c.report.skippedFiles.length + 1 := by
  intro v files
  have hsupported : ∀ i ∈ files, Supported emptyOrFault v i := by
    intro i hi
    refine ⟨.inl ?_, fun l text _ _ => namesReadable_emptyOrFault l text _⟩
    revert i
    decide
  have hbroken : files.countP (fun i => (fault? emptyOrFault v i).isSome) = 1 := by
    have hparts : Path.parts "/a.ts" = ["", "a.ts"] ∧ Path.parts "/c.ts" = ["", "c.ts"] :=
      ⟨rfl, rfl⟩
    have hread : v.read "/a.ts" = .ok [0x28] ∧ v.read "/c.ts" = .ok [] := by
      constructor <;>
        simp [Volume.read, Volume.locate, Volume.follow, Path.isAbsolute, hparts, v, Entry.at?,
          Entry.find?, Entry.entries, String.isEmpty]
    have ha : fileText v "/a.ts" = .ok "(" := by
      rw [fileText, hread.1]
      rfl
    have hb : fileText v "" = .error (.census (.badFile "" (ReadFault.noEntry.message ""))) := rfl
    have hc : fileText v "/c.ts" = .ok "" := by
      rw [fileText, hread.2]
      rfl
    simp only [files, List.countP_cons, List.countP_nil, fault?, ha, hb, hc]
    rfl
  have h := (strict_drops_faulty emptyOrFault {}).2 v files "" hsupported
  dsimp only at h
  rw [hbroken] at h
  obtain ⟨⟨i, hi, hp⟩, -⟩ | ⟨c, d, -, hlax, hstrict, -, -, -, -, hfiles, hskipped⟩ := h
  · exact absurd hp (by revert i; decide)
  · exact ⟨hsupported, c, d, hlax, hstrict, hfiles, hskipped⟩

end MarkupTally.Analysis
