import MarkupTally.Analysis
import MarkupTally.Proofs.Schedule

/-! Runs over a list of files. How a run ends is decided by the files alone, one after the other:
neither the number of workers nor the moves that they make can be seen in it. -/
namespace MarkupTally.Analysis

variable {g : Grammar} {v : Volume} {o : Options} {files : List FileInfo}

/-- The end of a run over files of which each has a value of its own: all of them have facts, and
these are counted, or the first one without facts ends the run. -/
inductive Ends (value : FileInfo → Except Abort FileFacts) (root : String)
    (files : List FileInfo) (run : Run) : Prop where
  | counted (facts : List FileFacts) (hfacts : files.map value = facts.map .ok)
      (hseen : run.seen = facts)
      (hresult : run.result = .ok ⟨facts.foldl Report.addFile { root := root }, facts⟩) :
      Ends value root files run
  | failed (before after : List FileInfo) (info : FileInfo) (facts : List FileFacts) (a : Abort)
      (hfiles : files = before ++ info :: after) (hfacts : before.map value = facts.map .ok)
      (hinfo : value info = .error a) (hseen : run.seen = facts) (hresult : run.result = .error a) :
      Ends value root files run

section Ends

variable {value : FileInfo → Except Abort FileFacts} {root : String} {files : List FileInfo}
  {facts : List FileFacts} {run : Run}

theorem exists_ok_of_map_eq (h : files.map value = facts.map .ok) {info : FileInfo}
    (hi : info ∈ files) : ∃ f, value info = .ok f := by
  have hv : value info ∈ facts.map .ok := h ▸ List.mem_map_of_mem hi
  obtain ⟨f, -, hf⟩ := List.mem_map.mp hv
  exact ⟨f, hf.symm⟩

theorem getElem?_of_map_eq (h : files.map value = facts.map .ok) {i : Nat} {info : FileInfo}
    (hi : files[i]? = some info) : ∃ f, facts[i]? = some f ∧ value info = .ok f := by
  have hv : (facts.map (Except.ok (ε := Abort)))[i]? = some (value info) := by
    rw [← h, List.getElem?_map, hi]
    rfl
  rw [List.getElem?_map] at hv
  obtain ⟨f, hf, hfv⟩ := Option.map_eq_some_iff.mp hv
  exact ⟨f, hf, hfv.symm⟩

/-- If all files have facts, these are what the run counts. -/
theorem Ends.result_eq (h : Ends value root files run) (hfacts : files.map value = facts.map .ok) :
    run.result = .ok ⟨facts.foldl Report.addFile { root := root }, facts⟩ := by
  cases h with
  | counted facts' hfacts' _ hresult =>
    have heq : facts = facts' :=
      (List.map_inj_right fun _ _ => Except.ok.inj).mp (hfacts.symm.trans hfacts')
    rw [hresult, heq]
  | failed before after info facts' a hfiles _ hinfo _ _ =>
    obtain ⟨f, hf⟩ := exists_ok_of_map_eq hfacts (by simp [hfiles] : info ∈ files)
    rw [hinfo] at hf
    cases hf

/-- The first file without facts ends the run, and no other one can. -/
theorem Ends.result_error (h : Ends value root files run) {before after : List FileInfo}
    {info : FileInfo} {a : Abort} (hfiles : files = before ++ info :: after)
    (hbefore : before.map value = facts.map .ok) (hinfo : value info = .error a) :
    run.result = .error a := by
  have hfails : ¬∃ f, value info = .ok f := by simp [hinfo]
  cases h with
  | counted facts' hfacts' _ _ =>
    exact absurd (exists_ok_of_map_eq hfacts' (by simp [hfiles])) hfails
  | failed before' after' info' facts' a' hfiles' hfacts' hinfo' _ hresult =>
    have hfails' : ¬∃ f, value info' = .ok f := by simp [hinfo']
    -- if the two cuts were apart, the earlier file would be among those before the later one
    rcases List.append_eq_append_iff.mp (hfiles.symm.trans hfiles') with
      ⟨gap, hgap, hrest⟩ | ⟨gap, hgap, hrest⟩
    · cases gap with
      | nil =>
        cases (List.cons.inj hrest).1
        cases hinfo.symm.trans hinfo'
        exact hresult
      | cons i gap =>
        cases (List.cons.inj hrest).1
        exact absurd (exists_ok_of_map_eq hfacts' (by simp [hgap])) hfails
    · cases gap with
      | nil =>
        cases (List.cons.inj hrest).1
        cases hinfo.symm.trans hinfo'
        exact hresult
      | cons i gap =>
        cases (List.cons.inj hrest).1
        exact absurd (exists_ok_of_map_eq hbefore (by simp [hgap])) hfails'

theorem Ends.map_eq (h : Ends value root files run) {c : Census} (hc : run.result = .ok c) :
    files.map value = c.files.map .ok ∧
      c.report = c.files.foldl Report.addFile { root := root } := by
  cases h with
  | counted facts hfacts _ hresult =>
    rw [hresult] at hc
    cases hc
    exact ⟨hfacts, rfl⟩
  | failed before after info facts a _ _ _ _ hresult =>
    rw [hresult] at hc
    cases hc

theorem Ends.ok_iff (h : Ends value root files run) :
    (∃ c, run.result = .ok c) ↔ ∀ info ∈ files, ∃ f, value info = .ok f := by
  cases h with
  | counted facts hfacts _ hresult =>
    exact ⟨fun _ info hi => exists_ok_of_map_eq hfacts hi, fun _ => ⟨_, hresult⟩⟩
  | failed before after info facts a hfiles _ hinfo _ hresult =>
    constructor
    · rintro ⟨c, hc⟩
      rw [hresult] at hc
      cases hc
    · intro hall
      obtain ⟨f, hf⟩ := hall info (by simp [hfiles])
      rw [hinfo] at hf
      cases hf

end Ends

theorem stops_ok {d : Outcome} {f : FileFacts} (h : d.value = .ok f) : stops d = false := by
  simp [stops, h]

theorem stops_error {d : Outcome} {a : Abort} (h : d.value = .error a) : stops d = true := by
  simp [stops, h]

theorem fold_error (root : String) {d : Outcome} {a : Abort} (h : d.value = .error a) :
    (fold root [d]).seen = [] ∧ (fold root [d]).result = .error a := by
  simp [fold, h, Except.toOption]

theorem fold_cons_seen (root : String) {d : Outcome} {f : FileFacts} (h : d.value = .ok f)
    (done : List Outcome) :
    (fold root (d :: done)).seen = f :: (fold root done).seen := by
  simp [fold, h, Except.toOption]

theorem fold_cons_result (root : String) {d : Outcome} {f : FileFacts} (h : d.value = .ok f)
    (done : List Outcome) :
    (fold root (d :: done)).result = (fold root done).result.map fun _ =>
      ⟨(f :: (fold root done).seen).foldl Report.addFile { root := root },
        f :: (fold root done).seen⟩ := by
  simp only [fold, List.findSome?_cons, List.filterMap_cons, h, Except.toOption]
  split
  · rename_i hf
    rw [hf]
    rfl
  · rename_i hf
    rw [hf]
    rfl

theorem ends_fold_serial (work : FileInfo → Outcome) (root : String) (files : List FileInfo) :
    Ends (fun i => (work i).value) root files (fold root (Pool.serial work stops files)) := by
  -- on the files, as one worker takes them
  induction files with
  | nil => exact .counted [] rfl rfl rfl
  | cons info files ih =>
    cases hv : (work info).value with
    | error a =>
      have hs : Pool.serial work stops (info :: files) = [work info] := by
        simp [Pool.serial, stops_error hv]
      obtain ⟨hseen, hresult⟩ := fold_error root hv
      exact .failed [] files info [] a rfl rfl hv (by rw [hs, hseen]) (by rw [hs, hresult])
    | ok f =>
      have hs : Pool.serial work stops (info :: files) =
          work info :: Pool.serial work stops files := by
        simp [Pool.serial, stops_ok hv]
      rw [hs]
      have hseen := fold_cons_seen root hv (Pool.serial work stops files)
      have hresult := fold_cons_result root hv (Pool.serial work stops files)
      cases ih with
      | counted facts hfacts hseen' hresult' =>
        rw [hseen'] at hseen hresult
        rw [hresult'] at hresult
        exact .counted (f :: facts) (by simp [hfacts, hv]) hseen hresult
      | failed before after info' facts a hfiles hfacts hinfo hseen' hresult' =>
        rw [hseen'] at hseen
        rw [hresult'] at hresult
        exact .failed (info :: before) after info' (f :: facts) a (by simp [hfiles])
          (by simp [hfacts, hv]) hinfo hseen hresult

theorem outcomes_eq_serial (g : Grammar) (v : Volume) (o : Options) (files : List FileInfo) :
    outcomes g v o files = Pool.serial (fileOrSkip g v o) stops files := by
  unfold outcomes
  split
  · rfl
  · rename_i h
    have hp : 0 < (pool g v o files).size := by
      simp only [pool]
      omega
    obtain ⟨moves, hmoves⟩ := Pool.exists_run_inTurn hp
    exact Pool.run_eq_serial hmoves

theorem ends_paths (g : Grammar) (v : Volume) (files : List FileInfo) (o : Options)
    (root : String) :
    Ends (fun i => (fileOrSkip g v o i).value) root files (paths g v files o root) := by
  unfold paths
  rw [outcomes_eq_serial]
  exact ends_fold_serial _ root files

theorem outcomes_jobs (g : Grammar) (v : Volume) (o : Options) (k : Int) (files : List FileInfo) :
    outcomes g v { o with jobs := k } files = outcomes g v o files := by
  rw [outcomes_eq_serial, outcomes_eq_serial]
  rfl

theorem outcomesBy_eq {moves : List Pool.Move} {done : List Outcome}
    (h : outcomesBy moves g v o files = some done) : done = outcomes g v o files := by
  rw [outcomes_eq_serial]
  unfold outcomesBy at h
  split at h
  · exact (Option.some.inj h).symm
  · exact Pool.run_eq_serial h

theorem seen_first {done more : List Outcome} (root : String) (h : done <+: more) :
    (fold root done).seen <+: (fold root more).seen := h.filterMap _

/-- Workers that make any moves, more than one of them at work, end the run as a single worker does:
with the facts of all files in order, or with the failure of the first file in order that fails. At
no time have they handed over anything else. They cannot go on forever, and when no move is left the
run has ended. -/
theorem pathsBy_agrees_with_one_job (g : Grammar) (v : Volume) (files : List FileInfo)
    (o : Options) (root : String) (hjobs : 1 < o.jobs) :
    let alone := paths g v files { o with jobs := 1 } root
    Ends (fun i => (fileOrSkip g v o i).value) root files alone ∧
    (∀ moves run, pathsBy moves g v files o root = some run →
      run.result = alone.result ∧ run.seen = alone.seen) ∧
    (∃ moves, pathsBy moves g v files o root = some (paths g v files o root)) ∧
    ∀ moves s, (pool g v o files).steps {} moves = some s →
      (fold root s.handed).seen <+: alone.seen ∧ moves.length ≤ 3 * files.length + 1 ∧
      ((∀ m, (pool g v o files).step s m = none) →
        ∃ run, pathsBy moves g v files o root = some run) := by
  intro alone
  have halone : alone = paths g v files o root := by
    simp only [alone, paths, outcomes_jobs]
  have hsize : 0 < (pool g v o files).size := by
    simp only [pool]
    omega
  refine ⟨?_, ?_, ?_, ?_⟩
  · rw [halone]
    exact ends_paths g v files o root
  · intro moves run h
    obtain ⟨done, hdone, rfl⟩ := Option.map_eq_some_iff.mp h
    rw [halone, outcomesBy_eq hdone]
    exact ⟨rfl, rfl⟩
  · obtain ⟨moves, hmoves⟩ := Pool.exists_run_inTurn hsize
    refine ⟨moves, ?_⟩
    simp only [pathsBy, paths, outcomesBy, outcomes, hmoves]
    split <;> rfl
  · intro moves s hs
    refine ⟨?_, Pool.length_le_of_steps hs, fun hstuck => ?_⟩
    · rw [halone, paths, outcomes_eq_serial]
      exact seen_first root (Pool.inv_steps (Pool.inv_init _) hs).handed_first
    · have hrun := Pool.run_of_stuck hsize hs hstuck
      simp only [pathsBy, outcomesBy, hrun]
      split <;> exact ⟨_, rfl⟩

/-- Every text is read as a program without functions. -/
def emptyProgram : Grammar := fun _ _ =>
  .mk { id := 0, kind := "program", start := 0, stop := 0, row := 0, column := 0 } []

/-- The second file fails first, and the run ends with the failure of the first one. -/
theorem pathsBy_agrees_second_finished_first :
    let files : List FileInfo := [⟨"\x00", "a.ts", "typescript"⟩, ⟨"", "b.ts", "typescript"⟩]
    let v : Volume := ⟨.folder [], "/"⟩
    ∃ run, pathsBy [.start, .start, .finish 1, .finish 0, .take, .close] emptyProgram v files
        { jobs := 2 } "" = some run ∧ run.result = .error (.badPath "embedded null byte") := by
  intro files v
  have hsome : (pathsBy [.start, .start, .finish 1, .finish 0, .take, .close] emptyProgram v files
      { jobs := 2 } "").isSome = true := by decide
  obtain ⟨run, hrun⟩ := Option.isSome_iff_exists.mp hsome
  have h := pathsBy_agrees_with_one_job emptyProgram v files { jobs := 2 } "" (by decide)
  exact ⟨run, hrun, (h.2.1 _ _ hrun).1.trans rfl⟩

end MarkupTally.Analysis
