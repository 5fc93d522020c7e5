import MarkupTally.Proofs.Commands
import MarkupTally.Proofs.Paths
import MarkupTally.Proofs.Records
import MarkupTally.Service

/-! The command and the service. Both are asked for a path and for options, each in its own words,
and both count the same folder the same way: what the one prints is what the other answers, and
where the one fails so does the other, with the same reason. -/
namespace MarkupTally

namespace Analysis

variable {g : Grammar} {v : Volume} {o : Options} {info : FileInfo}

theorem treeFacts_ne_census {source : List UInt8} {root : Node} {e : CensusError} :
    treeFacts source o root ≠ .error (.census e) := by
  have henum := Node.enumerated_functions source o.topLevelOnly root
  unfold treeFacts
  generalize root.functions source o.topLevelOnly = result at henum ⊢
  cases henum with
  | named fs => exact fun h => nomatch h
  | unreadable => exact fun h => nomatch h

theorem ofFile_of_tree {text path language : String} {strict : Bool} {e : CensusError}
    (h : (tree g text path language strict).value = .error (.census e)) : OfFile (.census e) := by
  unfold tree at h
  split at h
  · cases h
  · dsimp only at h
    split at h
    · split at h
      · cases h
        exact ofFile_badSource _ _ _
      · cases h
    · cases h

theorem ofFile_of_source {text path language relPath : String} {e : CensusError}
    (h : (source g text path language relPath o).value = .error (.census e)) :
    OfFile (.census e) := by
  unfold source at h
  dsimp only at h
  split at h
  · rename_i a ha
    cases h
    exact ofFile_of_tree ha
  · split at h
    · rename_i a ha
      cases h
      exact absurd ha treeFacts_ne_census
    · cases h

theorem ofFile_of_fileText {path : String} {e : CensusError}
    (h : fileText v path = .error (.census e)) : OfFile (.census e) := by
  unfold fileText at h
  split at h
  · cases h
  · cases h
    exact ⟨_, _, rfl, rfl⟩
  · split at h
    · cases h
      exact ⟨_, _, rfl, rfl⟩
    · cases h

/-- What the census reports of a file has a reason: the file is to blame. -/
theorem ofFile_of_fileOrSkip {e : CensusError}
    (h : (fileOrSkip g v o info).value = .error (.census e)) : OfFile (.census e) := by
  have hfile (h : (file g v info o).value = .error (.census e)) : OfFile (.census e) := by
    unfold file at h
    split at h
    · rename_i a ha
      cases h
      exact ofFile_of_fileText ha
    · exact ofFile_of_source h
  rcases fileOrSkip_cases g v o info with hvalue | ⟨reason, hvalue⟩
  · exact hfile (hvalue.symm.trans h)
  · cases hvalue.symm.trans h

/-- Among the files below a root, the first one that fails does so with the given failure. -/
inductive FailsWith (g : Grammar) (v : Volume) (root : String) (o : Options) (a : Abort) :
    Prop where
  | intro (files before after : List FileInfo) (info : FileInfo) (facts : List FileFacts)
      (hfiles : Scan.folder v root o = .ok files) (hcut : files = before ++ info :: after)
      (hbefore : before.map (fun i => (fileOrSkip g v o i).value) = facts.map .ok)
      (hinfo : (fileOrSkip g v o info).value = .error a)

theorem FailsWith.result_eq {root : String} {a : Abort} {files : List FileInfo}
    (h : FailsWith g v root o a) (hfiles : Scan.folder v root o = .ok files) :
    (paths g v files o root).result = .error a := by
  obtain ⟨files', before, after, info, facts, hfiles', hcut, hbefore, hinfo⟩ := h
  cases hfiles.symm.trans hfiles'
  exact (ends_paths g v files o root).result_error hcut hbefore hinfo

theorem FailsWith.ofFile {root : String} {e : CensusError}
    (h : FailsWith g v root o (.census e)) : OfFile (.census e) := by
  obtain ⟨-, -, -, info, -, -, -, -, hinfo⟩ := h
  exact ofFile_of_fileOrSkip hinfo

end Analysis

namespace Service

variable {g : Grammar} {v : Volume} {q : Request} {o : Order}

/-- The request is sent to the right place in the right way, and its body is the order. -/
structure Orders (q : Request) (o : Order) : Prop where
  place : route q.path = "/analyze"
  method : q.method.map Char.toUpper = "POST"
  body : order q.body = .ok o

theorem Orders.respond_eq (h : Orders q o) (g : Grammar) (v : Volume) :
    respond g v q = analyze g v o := by
  simp [respond, h.place, h.method, h.body]

/-- The order as JSON. -/
def Order.toJson (o : Order) : Json :=
  .obj [("root_path", .str o.rootPath), ("options", o.options.toJson)]

theorem Order.read_toJson (o : Order) (h : 1 ≤ o.options.jobs) : read o.toJson = .ok o := by
  have hoptions : Checked.object .notObject Options.readFields o.options.toJson = .ok o.options :=
    o.options.readFields_toJson h
  simp [read, toJson, hoptions]

theorem Order.plain_toJson (o : Order) : o.toJson.Plain := by
  refine .obj (by simp) ?_
  simp [Json.Plain.str, o.options.plain_toJson]

theorem Order.ints_toJson (o : Order) : o.toJson.ints = [o.options.jobs] := by
  simp [toJson, Json.ints, Json.fieldInts, o.options.ints_toJson]

theorem order_compact (o : Order) (h : 1 ≤ o.options.jobs)
    (hshort : Digits.count o.options.jobs ≤ Digits.maxDigits) :
    order (some o.toJson.compact) = .ok o := by
  have hchars : ∃ cs, o.toJson.compact.toList = '\x7b' :: cs := by
    rw [Json.compact, String.toList_ofList, Order.toJson, Json.write]
    exact ⟨_, rfl⟩
  obtain ⟨cs, hcs⟩ := hchars
  have hne : o.toJson.compact ≠ "" := by
    intro hempty
    rw [hempty] at hcs
    cases hcs
  have hmark : withoutMark o.toJson.compact = o.toJson.compact := by
    rw [withoutMark, hcs]
    rfl
  unfold order
  rw [Option.getD_some]
  split
  · rename_i hempty
    exact absurd hempty hne
  · have hread := o.read_toJson h
    have htaken : Json.taken (· ≤ Digits.maxDigits) o.toJson.ints = true := by
      simpa [Json.taken, o.ints_toJson] using hshort
    have hload : Json.load o.toJson.compact = .ok o.toJson :=
      (o.plain_toJson.readText_compact _).trans (if_pos htaken)
    rw [hmark, hload]
    rw [Order.toJson] at hread ⊢
    simp only [hread]

/-- Every order for at least one job can be sent, if the number of jobs can be written. -/
theorem exists_orders (o : Order) (h : 1 ≤ o.options.jobs)
    (hshort : Digits.count o.options.jobs ≤ Digits.maxDigits) : ∃ q, Orders q o := by
  have hplace : route "/analyze" = "/analyze" := by decide
  have hmethod : "POST".map Char.toUpper = "POST" := by
    rw [← String.toList_inj, String.toList_map]
    rfl
  exact ⟨{ body := some o.toJson.compact }, hplace, hmethod, order_compact o h hshort⟩

/-- What is answered when a folder was counted. -/
def answer : Except Abort Census → Except Abort Response
  | .ok census => .ok ⟨200, census.toJson⟩
  | .error (.census e) =>
    match e with
    | .badFile .. | .badSource .. => .ok (detail 422 (.str e.message))
    | _ => .error (.census e)
  | .error a => .error a

theorem answer_ofFile {e : CensusError} (h : Analysis.OfFile (.census e)) :
    answer (.error (.census e)) = .ok (detail 422 (.str e.message)) := by
  obtain ⟨e', reason, he, hreason⟩ := h
  cases he
  cases e with
  | badFile => rfl
  | badSource => rfl
  | _ => cases hreason

theorem answer_error_ne (a : Abort) (body : Json) : answer (.error a) ≠ .ok ⟨200, body⟩ := by
  cases a with
  | census e => cases e <;> simp [answer, detail]
  | _ => simp [answer]

/-- The service looks for the root a second time, and finds it where it was. -/
theorem analyze_folder {root : String} {files : List FileInfo}
    (hcwd : Path.isAbsolute v.cwd = true) (hroot : Path.absolute v.cwd o.rootPath = root)
    (hfolder : v.isFolder root = true) (hfiles : Scan.folder v root o.options = .ok files) :
    analyze g v o = answer (Analysis.paths g v files o.options root).result := by
  have hagain : Path.absolute v.cwd root = root := by
    rw [← hroot]
    exact (Path.canonical_absolute hcwd o.rootPath).absolute_eq v.cwd
  have hvalue : (Analysis.folder g v root o.options).value =
      (Analysis.paths g v files o.options root).result := by
    simp only [Analysis.folder, hagain, hfolder, hfiles, if_true]
  simp only [analyze, hroot, hfolder, if_true, hvalue]
  rfl

theorem analyze_no_folder {root : String} (hroot : Path.absolute v.cwd o.rootPath = root)
    (hfolder : v.isFolder root = false) :
    analyze g v o = .ok (detail 400 (.str ("Invalid root_path: " ++ root))) := by
  simp only [analyze, hroot, hfolder, Bool.false_eq_true, if_false]

end Service

/-- How the command ends and what the service answers go together, for a root and for options. What
the census reports of a failure, both report; it is always the failure of a file. -/
structure Agree (g : Grammar) (v : Volume) (root : String) (o : Options) (e : CommandLine.Ending)
    (response : Except Abort Service.Response) : Prop where
  exit_iff : v.isFolder root = true → (e.exit = 0 ↔ ∃ body, response = .ok ⟨200, body⟩)
  out : ∀ body, response = .ok ⟨200, body⟩ → Json.parse e.out = .ok body
  failed : v.isFolder root = true → ∀ err, Analysis.FailsWith g v root o (.census err) →
    Analysis.OfFile (.census err) ∧ e.exit = 1 ∧ e.out = "" ∧
    (∃ log, e.err = log ++ "An error occurred during analysis: " ++ err.message ++ "\n") ∧
    response = .ok (Service.detail 422 (.str err.message))
  no_folder : v.isFolder root = false → e.exit = 1 ∧ ∃ body, response = .ok ⟨400, body⟩

namespace CommandLine.Census

variable {g : Grammar} {v : Volume} {args : List String} {r : Request}

/-- What the command prints of a run is what the service answers to it. -/
theorem agree_printed {files : List FileInfo} (hjson : r.json = true)
    (hfolder : v.isFolder (r.root v) = true)
    (hfiles : Scan.folder v (r.root v) r.options = .ok files) :
    let run := Analysis.paths g v files r.options (r.root v)
    Agree g v (r.root v) r.options (printed r (r.root v) files run)
      (Service.answer run.result) := by
  intro run
  cases hresult : run.result with
  | ok census =>
    rw [printed_ok hresult]
    refine ⟨fun _ => ⟨fun _ => ⟨_, rfl⟩, fun _ => rfl⟩, ?_, ?_, ?_⟩
    · intro body hbody
      cases hbody
      simp only [hjson, if_true]
      exact census.plain_toJson.parse_pretty
    · intro _ err herr
      cases hresult.symm.trans (herr.result_eq hfiles)
    · intro hnone
      cases hfolder.symm.trans hnone
  | error a =>
    rw [printed_error hresult]
    refine ⟨fun _ => ?_, ?_, ?_, ?_⟩
    · simp [failed, Service.answer_error_ne]
    · exact fun body hbody => absurd hbody (Service.answer_error_ne a body)
    · intro _ err herr
      cases hresult.symm.trans (herr.result_eq hfiles)
      simp only [failed, hjson, if_true]
      exact ⟨herr.ofFile, trivial, trivial, ⟨_, rfl⟩, Service.answer_ofFile herr.ofFile⟩
    · intro hnone
      cases hfolder.symm.trans hnone

/-- The arguments ask for a path with the given options, and for JSON. -/
def AsksJson (args : List String) (path : String) (o : Options) : Prop :=
  ∃ r, Asks args r ∧ r.json = true ∧ r.path = path ∧ r.options = o

theorem exists_asksJson (given : List Given) {path : String} (hpath : path ≠ "")
    (hjobs : 1 ≤ (options given).jobs) : ∃ args, AsksJson args path (options given) := by
  obtain ⟨args, hargs⟩ := exists_parse_eq given path
  have hoptions := options_rewritten given
  rw [← hoptions] at hjobs
  have hjson : Given.has (rewritten given) "--json" = true := by simp [rewritten, Given.has]
  exact ⟨args, asked (rewritten given) path, .intro hargs hpath hjobs, hjson, rfl, hoptions⟩

/-- A number of jobs that the command was given can be written. -/
theorem count_jobs_le (given : List Given) :
    Digits.count (options given).jobs ≤ Digits.maxDigits := by
  unfold options
  dsimp only
  cases h : (Given.last? given "--jobs").bind Digits.int? with
  | none =>
    rw [Option.getD_none]
    decide
  | some n =>
    obtain ⟨word, -, hword⟩ := Option.bind_eq_some_iff.mp h
    exact Digits.count_le_of_int? hword

theorem AsksJson.agree {path : String} {o : Options} {q : Service.Request}
    (hargs : AsksJson args path o) (hq : Service.Orders q ⟨path, o⟩) (g : Grammar)
    (hcwd : Path.isAbsolute v.cwd = true) :
    Agree g v (Path.absolute v.cwd path) o (run g v args) (Service.respond g v q) := by
  obtain ⟨r, hr, hjson, rfl, rfl⟩ := hargs
  have hroot : Path.absolute v.cwd r.path = r.root v := rfl
  rw [hr.run_eq, hq.respond_eq, hroot]
  cases hfolder : v.isFolder (r.root v) with
  | true =>
    obtain ⟨files, hfiles⟩ := Scan.exists_files hfolder r.options
    rw [perform_folder g hfolder hfiles,
      Service.analyze_folder (o := ⟨r.path, r.options⟩) hcwd hroot hfolder hfiles]
    exact agree_printed hjson hfolder hfiles
  | false =>
    rw [perform_no_folder g hfolder,
      Service.analyze_no_folder (o := ⟨r.path, r.options⟩) hroot hfolder]
    refine ⟨?_, ?_, ?_, fun _ => ⟨rfl, _, rfl⟩⟩
    · intro htrue
      cases hfolder.symm.trans htrue
    · intro body hbody
      cases hbody
    · intro htrue
      cases hfolder.symm.trans htrue

end CommandLine.Census

open CommandLine in
/-- Any path and any options that the command can be given can be asked of the command and of the
service, and however they are asked, the two agree. -/
theorem command_agrees_with_service (g : Grammar) (v : Volume)
    (hcwd : Path.isAbsolute v.cwd = true) (path : String) (hpath : path ≠ "") (given : List Given)
    (hjobs : 1 ≤ (Census.options given).jobs) :
    let o := Census.options given
    (∃ args, Census.AsksJson args path o) ∧ (∃ q, Service.Orders q ⟨path, o⟩) ∧
    ∀ args q, Census.AsksJson args path o → Service.Orders q ⟨path, o⟩ →
      Agree g v (Path.absolute v.cwd path) o (Census.run g v args) (Service.respond g v q) :=
  ⟨Census.exists_asksJson given hpath hjobs,
    Service.exists_orders _ hjobs (Census.count_jobs_le given),
    fun _ _ hargs hq => hargs.agree hq g hcwd⟩

open CommandLine Census in
/-- A file that is no text fails both, with the same reason. -/
theorem command_agrees_with_service_no_text :
    let e := run Analysis.emptyProgram NoText.volume ["--json", "."]
    AsksJson ["--json", "."] "." {} ∧
    ∃ q reason, Service.Orders q ⟨".", {}⟩ ∧ e.exit = 1 ∧ e.out = "" ∧
      (∃ log, e.err =
        log ++ "An error occurred during analysis: " ++ ("/a.ts: " ++ reason) ++ "\n") ∧
      Service.respond Analysis.emptyProgram NoText.volume q =
        .ok (Service.detail 422 (.str ("/a.ts: " ++ reason))) := by
  intro e
  obtain ⟨-, ⟨q, hq⟩, hagree⟩ := command_agrees_with_service Analysis.emptyProgram NoText.volume
    (by decide) "." (by decide) [] (by decide)
  have hargs : AsksJson ["--json", "."] "." {} :=
    ⟨asked [⟨"--json", none⟩] ".", .intro rfl (by decide) (by decide), rfl, rfl, rfl⟩
  have h := hagree _ q hargs hq
  rw [NoText.root_eq] at h
  obtain ⟨reason, hfile⟩ := NoText.file_info {}
  have hfails : Analysis.FailsWith Analysis.emptyProgram NoText.volume "/" {}
      (.census (.badFile "/a.ts" reason)) := by
    refine .intro [NoText.info] [] [] NoText.info [] (NoText.scan_root false) rfl rfl ?_
    rw [Analysis.fileOrSkip_halting rfl]
    exact hfile
  obtain ⟨-, hexit, hout, herr, hanswer⟩ := h.failed NoText.isFolder_root _ hfails
  exact ⟨hargs, q, reason, hq, hexit, hout, herr, hanswer⟩

end MarkupTally
