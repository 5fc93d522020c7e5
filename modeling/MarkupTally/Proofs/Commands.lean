import MarkupTally.Proofs.Arguments
import MarkupTally.Proofs.Skipping

/-! How the command ends. It counts a folder to the end and exits with zero, or it exits with one,
says why, and has shown no more than how far it came. Which of the two happens, and how far it
comes, is told by the arguments and by the files, one after the other in the order of the scan. -/
namespace MarkupTally

namespace Analysis

variable {g : Grammar} {v : Volume} {o : Options} {info : FileInfo} {f : FileFacts}

theorem path_of_source {text path language relPath : String}
    (h : (source g text path language relPath o).value = .ok f) : f.path = path := by
  obtain ⟨root, fs, -, -, rfl⟩ := eq_of_source h
  rfl

/-- The facts of a file go by the path of the file, also if it was passed over. -/
theorem path_of_fileOrSkip (h : (fileOrSkip g v o info).value = .ok f) : f.path = info.path := by
  rcases fileOrSkip_cases g v o info with hvalue | ⟨reason, hvalue⟩
  · rw [hvalue] at h
    unfold file at h
    split at h
    · cases h
    · exact path_of_source h
  · cases hvalue.symm.trans h
    rfl

theorem map_path_of_map_eq {files : List FileInfo} {facts : List FileFacts}
    (h : files.map (fun i => (fileOrSkip g v o i).value) = facts.map .ok) :
    facts.map FileFacts.path = files.map FileInfo.path := by
  induction files generalizing facts with
  | nil =>
    cases facts with
    | nil => rfl
    | cons f facts => cases h
  | cons info files ih =>
    cases facts with
    | nil => cases h
    | cons f facts =>
      obtain ⟨hf, hfacts⟩ := List.cons.inj h
      rw [List.map_cons, List.map_cons, path_of_fileOrSkip hf, ih hfacts]

end Analysis

/-- A folder can be searched for files. -/
theorem Scan.exists_files {v : Volume} {root : String} (h : v.isFolder root = true) (o : Options) :
    ∃ files, Scan.folder v root o = .ok files := by
  unfold Volume.isFolder at h
  unfold Scan.folder
  cases hl : v.locate root with
  | ok place => exact ⟨_, rfl⟩
  | error f => simp [hl] at h

namespace CommandLine.Census

variable {g : Grammar} {v : Volume} {args : List String} {r : Request}

/-- The arguments are accepted, with a path that is not empty and with at least one job. -/
inductive Asks (args : List String) : Request → Prop where
  | intro {given : List Given} {path : String}
      (hparse : usage.parse args = .accepted given (some path)) (hpath : path ≠ "")
      (hjobs : 1 ≤ (options given).jobs) : Asks args (asked given path)

/-- The root that is asked for, read from the working folder. -/
def Request.root (v : Volume) (r : Request) : String := Path.absolute v.cwd r.path

/-- What tells how far a run has come: the number of files, and a line for each that is done. -/
def progress (root : String) (files done : List FileInfo) : String :=
  "Analyzing " ++ toString files.length ++ " files in " ++ root ++ "...\n" ++
    String.join (done.map fun i => "Processing file: " ++ i.path ++ "\n")

theorem request_of_ne {given : List Given} {path : String} (hpath : path ≠ "") :
    request given (some path) =
      if (options given).jobs < 1 then .error (.usage (jobsRefusal (options given).jobs))
      else .ok (asked given path) := by
  simp only [request, Option.getD_some]

theorem jobsRefusal_ne (jobs : Int) : jobsRefusal jobs ≠ "" := by
  intro h
  unfold jobsRefusal at h
  exact absurd (String.append_eq_empty_iff.mp h).2 (by decide)

/-- A request comes of a path that is not empty and at least one job, and of nothing else. -/
theorem request_cases (given : List Given) (word : Option String) :
    (∃ path, word = some path ∧ path ≠ "" ∧ 1 ≤ (options given).jobs) ∨
    (∀ path, word = some path → path ≠ "" → ¬1 ≤ (options given).jobs) ∧
      ∃ message, message ≠ "" ∧ request given word = .error (.usage message) := by
  cases word with
  | none => exact .inr ⟨fun _ h => (Option.some_ne_none _ h.symm).elim, _, by decide, rfl⟩
  | some path =>
    by_cases hpath : path = ""
    · subst hpath
      refine .inr ⟨fun _ h hne => ?_, _, by decide, rfl⟩
      cases h
      exact absurd rfl hne
    · by_cases hjobs : (options given).jobs < 1
      · exact .inr ⟨fun _ _ _ => by omega, _, jobsRefusal_ne (options given).jobs,
          by rw [request_of_ne hpath, if_pos hjobs]⟩
      · exact .inl ⟨path, rfl, hpath, by omega⟩

/-- The command goes to work on what it is asked for. -/
theorem Asks.run_eq (hr : Asks args r) (g : Grammar) (v : Volume) :
    run g v args = perform g v r := by
  obtain ⟨hparse, hpath, hjobs⟩ := hr
  simp only [run, hparse, request_of_ne hpath, if_neg (Int.not_lt.mpr hjobs)]

/-- Arguments that ask for nothing are refused. -/
theorem run_cases (g : Grammar) (v : Volume) (hhelp : usage.parse args ≠ .help) :
    (∃ r, Asks args r) ∨
    (¬∃ r, Asks args r) ∧ ∃ message, message ≠ "" ∧ run g v args = refuse (.usage message) := by
  have htold := usage.parse_told args
  unfold run
  cases hparse : usage.parse args with
  | help => exact absurd hparse hhelp
  | refused message =>
    rw [hparse] at htold
    refine .inr ⟨?_, message, htold, rfl⟩
    rintro ⟨_, hparse', -, -⟩
    rw [hparse] at hparse'
    cases hparse'
  | accepted given word =>
    rcases request_cases given word with ⟨path, rfl, hpath, hjobs⟩ | ⟨hnone, message, hne, hr⟩
    · exact .inl ⟨asked given path, .intro hparse hpath hjobs⟩
    · refine .inr ⟨?_, message, hne, by simp only [hr]⟩
      rintro ⟨_, hparse', hpath, hjobs⟩
      rw [hparse] at hparse'
      cases hparse'
      exact hnone _ rfl hpath hjobs

/-- A request for a folder prints what a run over the files of the folder gives. -/
theorem perform_folder (g : Grammar) {files : List FileInfo} (hroot : v.isFolder (r.root v) = true)
    (hfiles : Scan.folder v (r.root v) r.options = .ok files) :
    perform g v r =
      printed r (r.root v) files (Analysis.paths g v files r.options (r.root v)) := by
  have hroot' : v.isFolder (Path.absolute v.cwd r.path) = true := hroot
  simp only [perform, hroot', if_true]
  unfold count
  rw [show Path.absolute v.cwd r.path = r.root v from rfl, hfiles]

theorem perform_no_folder (g : Grammar) (hroot : v.isFolder (r.root v) = false) :
    perform g v r =
      { exit := 1, err := "Error: " ++ (CensusError.badRoot (r.root v)).message ++ "\n" } := by
  have hroot' : v.isFolder (Path.absolute v.cwd r.path) = false := hroot
  simp only [perform, hroot', Bool.false_eq_true, if_false]
  rfl

section Printed

variable {root : String} {files : List FileInfo} {done : Analysis.Run}

theorem printed_ok {census : Census} (h : done.result = .ok census) :
    printed r root files done =
      { exit := 0
        out :=
          if r.json then census.toJson.pretty ++ "\n"
          else
            "Analyzing " ++ toString files.length ++ " files in " ++ root ++ "...\n" ++
              processing done.seen ++ (if r.list then listings census.files else "") ++ "\n" ++
              census.report.summary ++ "\n"
        err := shown r.level done.log } := by
  unfold printed
  rw [h]
  cases r.json <;> rfl

theorem printed_error {a : Abort} (h : done.result = .error a) :
    printed r root files done =
      failed r
        (if r.json then ""
          else
            "Analyzing " ++ toString files.length ++ " files in " ++ root ++ "...\n" ++
              processing done.seen)
        done.log a := by
  unfold printed
  rw [h]

end Printed

/-- The lines for the files handed over are those of the files that were counted. -/
theorem processing_eq {o : Options} {done : List FileInfo} {facts : List FileFacts}
    (h : done.map (fun i => (Analysis.fileOrSkip g v o i).value) = facts.map .ok) :
    processing facts = String.join (done.map fun i => "Processing file: " ++ i.path ++ "\n") := by
  have hlines := congrArg (List.map fun p => "Processing file: " ++ p ++ "\n")
    (Analysis.map_path_of_map_eq h)
  simp only [List.map_map] at hlines
  exact congrArg String.join hlines

/-- The command was stopped: by its arguments, by a path that is no folder, or by the first file
that fails. It says why, and has shown at most how far it came. -/
inductive Stopped (g : Grammar) (v : Volume) (args : List String) (e : Ending) : Prop where
  | refused (message : String) (hnone : ¬∃ r, Asks args r) (hmessage : message ≠ "")
      (hout : e.out = "")
      (herr : e.err = "Error: " ++ message ++ "\nUsage: markup-census <path-to-folder>\n")
  | noFolder (r : Request) (hr : Asks args r) (hroot : v.isFolder (r.root v) = false)
      (hout : e.out = "")
      (herr : e.err = "Error: " ++ (CensusError.badRoot (r.root v)).message ++ "\n")
  | failed (r : Request) (files before after : List FileInfo) (info : FileInfo) (a : Abort)
      (log : String) (hr : Asks args r) (hroot : v.isFolder (r.root v) = true)
      (hfiles : Scan.folder v (r.root v) r.options = .ok files)
      (hcut : files = before ++ info :: after)
      (hbefore : ∀ i ∈ before, ∃ f, (Analysis.fileOrSkip g v r.options i).value = .ok f)
      (hinfo : (Analysis.fileOrSkip g v r.options info).value = .error a)
      (hout : e.out = if r.json then "" else progress (r.root v) files before)
      (herr : e.err = log ++ "An error occurred during analysis: " ++ a.message ++ "\n")

/-- The command has counted every file of the folder, and shown what was asked for. -/
inductive Counted (g : Grammar) (v : Volume) (args : List String) (e : Ending) : Prop where
  | intro (r : Request) (files : List FileInfo) (census : Census) (hr : Asks args r)
      (hroot : v.isFolder (r.root v) = true)
      (hfiles : Scan.folder v (r.root v) r.options = .ok files)
      (hall : files.map (fun i => (Analysis.fileOrSkip g v r.options i).value) =
        census.files.map .ok)
      (hreport : census.report = census.files.foldl Report.addFile { root := r.root v })
      (hout : e.out =
        if r.json then census.toJson.pretty ++ "\n"
        else
          progress (r.root v) files files ++ (if r.list then listings census.files else "") ++
            "\n" ++ census.report.summary ++ "\n")

/-- A run over the files of a folder that was asked for is printed as one of the two. -/
theorem printed_ends {files : List FileInfo} {done : Analysis.Run} (hr : Asks args r)
    (hroot : v.isFolder (r.root v) = true)
    (hfiles : Scan.folder v (r.root v) r.options = .ok files)
    (hdone : Analysis.Ends (fun i => (Analysis.fileOrSkip g v r.options i).value) (r.root v) files
      done) :
    (printed r (r.root v) files done).exit = 1 ∧
      Stopped g v args (printed r (r.root v) files done) ∨
    (printed r (r.root v) files done).exit = 0 ∧
      Counted g v args (printed r (r.root v) files done) := by
  cases hdone with
  | counted facts hfacts hseen hresult =>
    rw [printed_ok hresult, hseen, processing_eq hfacts]
    exact .inr ⟨rfl, .intro r files _ hr hroot hfiles hfacts rfl rfl⟩
  | failed before after info facts a hcut hfacts hinfo hseen hresult =>
    have hbefore : ∀ i ∈ before, ∃ f, (Analysis.fileOrSkip g v r.options i).value = .ok f :=
      fun i hi => Analysis.exists_ok_of_map_eq hfacts hi
    rw [printed_error hresult, hseen, processing_eq hfacts]
    refine .inl ⟨rfl, ?_⟩
    exact .failed r files before after info a _ hr hroot hfiles hcut hbefore hinfo rfl rfl

/-- A folder that was asked for is counted, by workers that make any moves. -/
theorem Asks.run_eq_printed {files : List FileInfo} {moves : List Pool.Move} {done : Analysis.Run}
    (hr : Asks args r) (hroot : v.isFolder (r.root v) = true)
    (hfiles : Scan.folder v (r.root v) r.options = .ok files)
    (hdone : Analysis.pathsBy moves g v files r.options (r.root v) = some done) :
    run g v args = printed r (r.root v) files done := by
  obtain ⟨outcomes, houtcomes, rfl⟩ := Option.map_eq_some_iff.mp hdone
  rw [hr.run_eq, perform_folder g hroot hfiles, Analysis.outcomesBy_eq houtcomes]
  rfl

theorem run_ends (g : Grammar) (v : Volume) (hhelp : usage.parse args ≠ .help) :
    (run g v args).exit = 1 ∧ Stopped g v args (run g v args) ∨
    (run g v args).exit = 0 ∧ Counted g v args (run g v args) := by
  rcases run_cases g v hhelp with ⟨r, hr⟩ | ⟨hnone, message, hne, hrun⟩
  · rw [hr.run_eq]
    cases hroot : v.isFolder (r.root v) with
    | false =>
      rw [perform_no_folder g hroot]
      exact .inl ⟨rfl, .noFolder r hr hroot rfl rfl⟩
    | true =>
      obtain ⟨files, hfiles⟩ := Scan.exists_files hroot r.options
      rw [perform_folder g hroot hfiles]
      exact printed_ends hr hroot hfiles (Analysis.ends_paths g v files r.options (r.root v))
  · rw [hrun]
    exact .inl ⟨rfl, .refused message hnone hne rfl rfl⟩

theorem Stopped.err_ne {e : Ending} (h : Stopped g v args e) : e.err ≠ "" := by
  cases h with
  | refused message _ _ _ herr => simp [herr]
  | noFolder r _ _ _ herr => simp [herr]
  | failed _ _ _ _ _ a log _ _ _ _ _ _ _ herr => simp [herr]

/-- A folder was asked for, and every file in it can be counted or passed over. -/
def Countable (g : Grammar) (v : Volume) (args : List String) : Prop :=
  ∃ r files, Asks args r ∧ v.isFolder (r.root v) = true ∧
    Scan.folder v (r.root v) r.options = .ok files ∧
    ∀ info ∈ files, ∃ f, (Analysis.fileOrSkip g v r.options info).value = .ok f

theorem Counted.countable {e : Ending} (h : Counted g v args e) : Countable g v args := by
  obtain ⟨r, files, census, hr, hroot, hfiles, hall, -, -⟩ := h
  exact ⟨r, files, hr, hroot, hfiles, fun _ hi => Analysis.exists_ok_of_map_eq hall hi⟩

theorem Countable.exit_eq (h : Countable g v args) : (run g v args).exit = 0 := by
  obtain ⟨r, files, hr, hroot, hfiles, hall⟩ := h
  obtain ⟨census, hresult⟩ :=
    (Analysis.ends_paths g v files r.options (r.root v)).ok_iff.mpr hall
  rw [hr.run_eq, perform_folder g hroot hfiles, printed_ok hresult]

/-- Arguments that do not ask for help end the command with zero if a folder was asked for of which
every file can be counted or passed over, and then it has shown a line for each of them before the
report. Otherwise they end it with one, and it says why: it has shown nothing, or how many files
there are and a line for each one before the first that fails. The workers cannot change how it
ends and what it has shown; only what they say on the way comes in an order of their own. -/
theorem exit_zero_iff_countable (g : Grammar) (v : Volume) (args : List String)
    (hhelp : usage.parse args ≠ .help) :
    let e := run g v args
    (e.exit = 0 ∨ e.exit = 1) ∧ (e.exit = 0 ↔ Countable g v args) ∧
    (e.exit = 1 → e.err ≠ "" ∧ Stopped g v args e) ∧ (e.exit = 0 → Counted g v args e) ∧
    ∀ r files moves done, Asks args r → v.isFolder (r.root v) = true →
      Scan.folder v (r.root v) r.options = .ok files →
      Analysis.pathsBy moves g v files r.options (r.root v) = some done →
      e.exit = (printed r (r.root v) files done).exit ∧
        e.out = (printed r (r.root v) files done).out := by
  intro e
  have hmoves : ∀ r files moves done, Asks args r → v.isFolder (r.root v) = true →
      Scan.folder v (r.root v) r.options = .ok files →
      Analysis.pathsBy moves g v files r.options (r.root v) = some done →
      e.exit = (printed r (r.root v) files done).exit ∧
        e.out = (printed r (r.root v) files done).out := by
    intro r files moves done hr hroot hfiles hdone
    have hrun := hr.run_eq_printed hroot hfiles hdone
    exact ⟨congrArg Ending.exit hrun, congrArg Ending.out hrun⟩
  rcases run_ends g v hhelp with ⟨hexit, h⟩ | ⟨hexit, h⟩
  · have hne : e.exit ≠ 0 := fun h0 => absurd (hexit.symm.trans h0) (by decide)
    exact ⟨.inr hexit, ⟨fun h0 => absurd h0 hne, Countable.exit_eq⟩, fun _ => ⟨h.err_ne, h⟩,
      fun h0 => absurd h0 hne, hmoves⟩
  · have hne : e.exit ≠ 1 := fun h1 => absurd (hexit.symm.trans h1) (by decide)
    exact ⟨.inl hexit, ⟨fun _ => h.countable, Countable.exit_eq⟩, fun h1 => absurd h1 hne,
      fun _ => h, hmoves⟩

/-! A folder with a single file that is no text. -/
namespace NoText

def volume : Volume := ⟨.folder [("a.ts", .file [0xFF])], "/"⟩

def info : FileInfo := ⟨"/a.ts", "a.ts", "typescript"⟩

theorem locate_root : volume.locate "/" = .ok ([], volume.root) := by
  simp [volume, Volume.locate, Path.parts, Path.splitOnto, Path.isAbsolute, Volume.follow,
    Entry.at?]

theorem isFolder_root : volume.isFolder "/" = true := by
  rw [Volume.isFolder, locate_root]
  rfl

theorem read_info : volume.read "/a.ts" = .ok [0xFF] := by
  simp [volume, Volume.read, Volume.locate, Path.parts, Path.splitOnto, Path.isAbsolute,
    Volume.follow, Entry.at?, Entry.find?, Entry.entries]

theorem scan_root (b : Bool) : Scan.folder volume "/" { skipInvalid := b } = .ok [info] := by
  have hlower : (".ts" : String).map Char.toLower = ".ts" := by
    rw [← String.toList_inj, String.toList_map]
    rfl
  have hext : Path.extension "a.ts" = ".ts" := rfl
  have hrow : Scan.fileRow { skipInvalid := b } "/" "" "a.ts" = [("a.ts", .file info)] := by
    simp [info, Scan.fileRow, Scan.wanted?, Language.ofFile?, hext, hlower, Language.ofExtension?,
      Language.name, Path.join, Path.isAbsolute]
  rw [Scan.folder, locate_root]
  simp [volume, Scan.files, Scan.rows, Scan.arrange, hrow, Scan.Row.file?, Scan.Row.below]

theorem file_info (o : Options) :
    ∃ reason, (Analysis.file Analysis.emptyProgram volume info o).value =
      .error (.census (.badFile "/a.ts" reason)) := by
  obtain ⟨fault, hfault⟩ : ∃ fault, FileText.ofBytes [0xFF] = .error fault := ⟨_, rfl⟩
  exact ⟨fault.message, by simp [info, Analysis.file, Analysis.fileText, read_info, hfault,
    Logged.pure]⟩

theorem root_eq : Path.absolute volume.cwd "." = "/" := by decide

end NoText

/-- A file that is no text is passed over, and the command ends well. -/
theorem exit_zero_iff_countable_one_passed_over :
    let args := ["--skip-invalid", "."]
    let e := run Analysis.emptyProgram NoText.volume args
    usage.parse args ≠ .help ∧ e.exit = 0 ∧
      Counted Analysis.emptyProgram NoText.volume args e := by
  intro args e
  let r := asked [⟨"--skip-invalid", none⟩] "."
  have hparse : usage.parse args = .accepted [⟨"--skip-invalid", none⟩] (some ".") := rfl
  have hhelp : usage.parse args ≠ .help := by simp [hparse]
  have hoptions : r.options = { skipInvalid := true } := rfl
  have hroot : r.root NoText.volume = "/" := NoText.root_eq
  have hvalue : ∃ f, (Analysis.fileOrSkip Analysis.emptyProgram NoText.volume r.options
      NoText.info).value = .ok f := by
    rw [hoptions]
    obtain ⟨reason, hfile⟩ := NoText.file_info { skipInvalid := true }
    simp [Analysis.fileOrSkip, hfile, CensusError.reason?]
  have hcountable : Countable Analysis.emptyProgram NoText.volume args := by
    refine ⟨r, [NoText.info], .intro hparse (by decide) (by decide), ?_, ?_, by simpa using hvalue⟩
    · rw [hroot]
      exact NoText.isFolder_root
    · rw [hroot, hoptions]
      exact NoText.scan_root true
  have h := exit_zero_iff_countable Analysis.emptyProgram NoText.volume args hhelp
  exact ⟨hhelp, h.2.1.mpr hcountable, h.2.2.2.1 (h.2.1.mpr hcountable)⟩

end CommandLine.Census

end MarkupTally
