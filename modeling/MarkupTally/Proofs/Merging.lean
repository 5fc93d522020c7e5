import Mathlib.Data.List.Basic
import MarkupTally.Proofs.Skipping
import MarkupTally.Proofs.Tally

/-! Merging the reports of two runs. The order of the two shows in nothing but the skipped files,
which are put one list after the other; so it shows unless the two lists commute, and lists commute
if and only if they repeat one list. -/
namespace MarkupTally

variable {α : Type} {part xs ys : List α}

/-- A list is another one, some number of times over. -/
def Repeats (part xs : List α) : Prop := ∃ n, xs = (List.replicate n part).flatten

theorem repeats_nil (part : List α) : Repeats part [] := ⟨0, rfl⟩

theorem repeats_self (part : List α) : Repeats part part := ⟨1, by simp⟩

theorem Repeats.append (hx : Repeats part xs) (hy : Repeats part ys) : Repeats part (xs ++ ys) := by
  obtain ⟨m, rfl⟩ := hx
  obtain ⟨n, rfl⟩ := hy
  exact ⟨m + n, by rw [List.replicate_add, List.flatten_append]⟩

theorem Repeats.append_comm (hx : Repeats part xs) (hy : Repeats part ys) :
    xs ++ ys = ys ++ xs := by
  obtain ⟨m, rfl⟩ := hx
  obtain ⟨n, rfl⟩ := hy
  rw [← List.flatten_append, ← List.flatten_append, ← List.replicate_add, ← List.replicate_add,
    Nat.add_comm]

theorem exists_repeats_of_append_comm {xs ys : List α} (h : xs ++ ys = ys ++ xs) :
    ∃ part, Repeats part xs ∧ Repeats part ys := by
  by_cases hx : xs = []
  · exact ⟨ys, hx ▸ repeats_nil ys, repeats_self ys⟩
  by_cases hy : ys = []
  · exact ⟨xs, repeats_self xs, hy ▸ repeats_nil xs⟩
  have hxlen : 0 < xs.length := List.length_pos_iff.mpr hx
  have hylen : 0 < ys.length := List.length_pos_iff.mpr hy
  -- as in the subtractive algorithm for common divisors, the shorter list is taken off the longer
  rcases List.append_eq_append_iff.mp h with ⟨rest, hys, hrest⟩ | ⟨rest, hxs, hrest⟩
  · have hlen : ys.length = xs.length + rest.length := by rw [hys, List.length_append]
    obtain ⟨part, hpx, hpr⟩ := exists_repeats_of_append_comm (hys.symm.trans hrest)
    exact ⟨part, hpx, hys ▸ hpx.append hpr⟩
  · have hlen : xs.length = ys.length + rest.length := by rw [hxs, List.length_append]
    obtain ⟨part, hpy, hpr⟩ := exists_repeats_of_append_comm (hxs.symm.trans hrest)
    exact ⟨part, hxs ▸ hpy.append hpr, hpy⟩
termination_by xs.length + ys.length

theorem append_comm_iff_repeats :
    xs ++ ys = ys ++ xs ↔ ∃ part, Repeats part xs ∧ Repeats part ys :=
  ⟨exists_repeats_of_append_comm, fun ⟨_, hx, hy⟩ => hx.append_comm hy⟩

/-- Lists without a common element commute only if one of them is empty. -/
theorem append_comm_iff_of_disjoint (h : xs.Disjoint ys) :
    xs ++ ys = ys ++ xs ↔ xs = [] ∨ ys = [] := by
  constructor
  · intro hcomm
    cases xs with
    | nil => exact .inl rfl
    | cons x xs =>
      cases ys with
      | nil => exact .inr rfl
      | cons y ys =>
        have hxy : x = y := (List.cons.inj hcomm).1
        exact absurd (hxy ▸ List.mem_cons_self) (h List.mem_cons_self)
  · rintro (rfl | rfl) <;> simp

namespace Report

/-- The two orders of a merge give the same root and the same counts. -/
theorem merge_eq_swap {r s : Report} (h : r.root = s.root) :
    r.merge s = { s.merge r with skippedFiles := r.skippedFiles ++ s.skippedFiles } := by
  ext1
  · simp [merge, h]
  · exact Int.add_comm ..
  · exact Int.add_comm ..
  · exact Int.add_comm ..
  · rfl

theorem merge_comm_iff {r s : Report} (h : r.root = s.root) :
    r.merge s = s.merge r ↔
      r.skippedFiles ++ s.skippedFiles = s.skippedFiles ++ r.skippedFiles := by
  constructor
  · exact congrArg skippedFiles
  · intro hskipped
    rw [merge_eq_swap h, hskipped]
    rfl

end Report

namespace Volume

/-- On an empty disk a path leads back to the only folder, or nowhere. -/
theorem follow_empty (cwd : String) (links : Nat) (todo : List String) :
    let v : Volume := ⟨.folder [], cwd⟩
    v.follow links [] todo = .ok ([], .folder []) ∨ v.follow links [] todo = .error .noEntry := by
  intro v
  induction todo with
  | nil => exact .inl (by rw [follow]; rfl)
  | cons part rest ih =>
    rw [follow]
    split
    · exact ih
    · split
      · exact ih
      · exact .inr rfl

theorem read_empty (cwd path : String) :
    ∃ fault, (⟨.folder [], cwd⟩ : Volume).read path = .error fault := by
  unfold read
  have hlocate : (⟨.folder [], cwd⟩ : Volume).locate path = .ok ([], .folder []) ∨
      ∃ fault, (⟨.folder [], cwd⟩ : Volume).locate path = .error fault := by
    unfold locate
    split
    · exact .inr ⟨_, rfl⟩
    · split
      · exact .inr ⟨_, rfl⟩
      · exact (follow_empty cwd _ _).imp_right fun h => ⟨_, h⟩
  rcases hlocate with h | ⟨fault, h⟩
  · exact ⟨.isFolder, by rw [h]⟩
  · exact ⟨fault, by rw [h]⟩

end Volume

namespace Analysis

variable {g : Grammar} {v : Volume} {o : Options} {info : FileInfo} {f : FileFacts}

theorem error_of_file (h : (file g v info o).value = .ok f) : f.error = none := by
  unfold file at h
  split at h
  · cases h
  · obtain ⟨root, fs, -, -, rfl⟩ := eq_of_source h
    rfl

/-- A run notes an error for exactly the files that cannot be counted, under their own names. -/
theorem noted_of_fileOrSkip (h : (fileOrSkip g v o info).value = .ok f) :
    f.error.isSome = stops (file g v info o) ∧
      (stops (file g v info o) = true → f.relPath = info.relPath) := by
  cases hfile : (file g v info o).value with
  | ok f' =>
    have hf : f' = f := by simpa [fileOrSkip_ok hfile] using h
    rw [stops_ok hfile, ← hf, error_of_file hfile]
    simp
  | error a =>
    rw [stops_error hfile]
    rcases fileOrSkip_cases g v o info with hvalue | ⟨reason, hvalue⟩
    · rw [hvalue, hfile] at h
      cases h
    · cases hvalue.symm.trans h
      exact ⟨rfl, fun _ => rfl⟩

/-- The names of the files that cannot be counted, in their order. -/
def uncounted (g : Grammar) (v : Volume) (o : Options) (files : List FileInfo) : List String :=
  (files.filter fun info => stops (file g v info o)).map FileInfo.relPath

theorem skipped_eq_uncounted {files : List FileInfo} {facts : List FileFacts}
    (h : files.map (fun info => (fileOrSkip g v o info).value) = facts.map .ok) :
    (facts.filter fun f => f.error.isSome).map FileFacts.relPath = uncounted g v o files := by
  unfold uncounted
  induction files generalizing facts with
  | nil =>
    cases facts with
    | nil => rfl
    | cons f facts => cases h
  | cons info files ih =>
    cases facts with
    | nil => cases h
    | cons f facts =>
      obtain ⟨hinfo, hrest⟩ := List.cons.inj h
      obtain ⟨herror, hname⟩ := noted_of_fileOrSkip hinfo
      cases hs : stops (file g v info o) with
      | false =>
        rw [hs] at herror
        simpa [herror, hs] using ih hrest
      | true =>
        rw [hs] at herror
        simpa [herror, hs, hname hs] using ih hrest

theorem report_of_paths {files : List FileInfo} {root : String} {c : Census}
    (hc : (paths g v files o root).result = .ok c) :
    c.report.root = root ∧ c.report.skippedFiles = uncounted g v o files := by
  obtain ⟨hmap, hreport⟩ := (ends_paths g v files o root).map_eq hc
  rw [hreport, Report.foldl_addFile_root]
  exact ⟨rfl, skipped_eq_uncounted hmap⟩

/-- A run that does not skip and ends well has counted every file. -/
theorem uncounted_of_halting {files : List FileInfo} {root : String} {c : Census}
    (hs : o.skipInvalid = false) (hc : (paths g v files o root).result = .ok c) :
    uncounted g v o files = [] := by
  obtain ⟨hmap, -⟩ := (ends_paths g v files o root).map_eq hc
  have hnone : ∀ info ∈ files, ¬stops (file g v info o) = true := by
    intro info hi
    obtain ⟨f, hf⟩ := exists_ok_of_map_eq hmap hi
    rw [fileOrSkip_halting hs] at hf
    simp [stops_ok hf]
  simp [uncounted, List.filter_eq_nil_iff.mpr hnone]

theorem file_unreadable {fault : ReadFault} (hp : '\x00' ∉ info.path.toList)
    (h : v.read info.path = .error fault) :
    ∃ reason, (file g v info o).value = .error (.census (.badFile info.path reason)) := by
  have hfault : fault ≠ .nullPath := by
    intro hnull
    rw [hnull] at h
    exact hp ((v.read_eq_nullPath_iff info.path).mp h)
  refine ⟨fault.message info.path, ?_⟩
  simp only [file, fileText, h]
  rfl

/-- A run that skips goes on past files that cannot be read, and notes them all. -/
theorem paths_unreadable (g : Grammar) (v : Volume) (files : List FileInfo) (root : String)
    (hs : o.skipInvalid = true) (hp : ∀ info ∈ files, '\x00' ∉ info.path.toList)
    (h : ∀ info ∈ files, ∃ fault, v.read info.path = .error fault) :
    ∃ c, (paths g v files o root).result = .ok c ∧
      c.report.skippedFiles = files.map FileInfo.relPath := by
  have hfails : ∀ info ∈ files, ∃ reason,
      (file g v info o).value = .error (.census (.badFile info.path reason)) := by
    intro info hi
    obtain ⟨fault, hfault⟩ := h info hi
    exact file_unreadable (hp info hi) hfault
  have hnotes : ∀ info ∈ files, ∃ f, (fileOrSkip g v o info).value = .ok f := by
    intro info hi
    obtain ⟨reason, hreason⟩ := hfails info hi
    simp [fileOrSkip, hreason, hs, CensusError.reason?]
  have hall : files.filter (fun info => stops (file g v info o)) = files := by
    refine List.filter_eq_self.mpr fun info hi => ?_
    obtain ⟨reason, hreason⟩ := hfails info hi
    exact stops_error hreason
  obtain ⟨c, hc⟩ := (ends_paths g v files o root).ok_iff.mpr hnotes
  refine ⟨c, hc, ?_⟩
  rw [(report_of_paths hc).2, uncounted, hall]

/-- The reports of two runs, merged in the two orders, differ in nothing but the order of the
skipped files. They are equal exactly if the files that the two runs skipped repeat one list of
names; if no name was skipped by both, exactly if one of them skipped nothing. -/
theorem merged_runs_comm_iff (g : Grammar) (v w : Volume) (xs ys : List FileInfo) (o : Options)
    (root : String) (c d : Census) (hc : (paths g v xs o root).result = .ok c)
    (hd : (paths g w ys o root).result = .ok d) :
    let left := uncounted g v o xs
    let right := uncounted g w o ys
    let one := c.report.merge d.report
    let other := d.report.merge c.report
    one = { other with skippedFiles := left ++ right } ∧
    other.skippedFiles = right ++ left ∧
    one.skippedFiles.Perm other.skippedFiles ∧
    (one = other ↔ ∃ part, Repeats part left ∧ Repeats part right) ∧
    (left.Disjoint right → (one = other ↔ left = [] ∨ right = [])) ∧
    (o.skipInvalid = false → one = other) := by
  intro left right one other
  obtain ⟨hcroot, hleft⟩ := report_of_paths hc
  obtain ⟨hdroot, hright⟩ := report_of_paths hd
  have hroot : c.report.root = d.report.root := hcroot.trans hdroot.symm
  have hiff : one = other ↔ left ++ right = right ++ left := by
    rw [Report.merge_comm_iff hroot, hleft, hright]
  refine ⟨?_, ?_, List.perm_append_comm, ?_, ?_, ?_⟩
  · simp only [left, right, ← hleft, ← hright]
    exact Report.merge_eq_swap hroot
  · simp only [left, right, ← hleft, ← hright]
    rfl
  · rw [hiff]
    exact append_comm_iff_repeats
  · intro hdisjoint
    rw [hiff]
    exact append_comm_iff_of_disjoint hdisjoint
  · intro hs
    have hnil : left = [] := uncounted_of_halting hs hc
    rw [hiff, hnil]
    simp

/-- One run skips a file twice and the other one skips it once: the order does not show. -/
theorem merged_runs_comm_same_file :
    let missing : FileInfo := ⟨"/a.ts", "a.ts", "typescript"⟩
    let v : Volume := ⟨.folder [], "/"⟩
    let o : Options := { skipInvalid := true }
    ∃ c d, (paths emptyProgram v [missing, missing] o "/").result = .ok c ∧
      (paths emptyProgram v [missing] o "/").result = .ok d ∧
      c.report.skippedFiles = ["a.ts", "a.ts"] ∧ d.report.skippedFiles = ["a.ts"] ∧
      c.report.merge d.report = d.report.merge c.report := by
  intro missing v o
  have hs : o.skipInvalid = true := rfl
  obtain ⟨c, hc, hcs⟩ := paths_unreadable emptyProgram v [missing, missing] "/" hs (by decide)
    fun info _ => Volume.read_empty "/" info.path
  obtain ⟨d, hd, hds⟩ := paths_unreadable emptyProgram v [missing] "/" hs (by decide)
    fun info _ => Volume.read_empty "/" info.path
  refine ⟨c, d, hc, hd, hcs, hds, ?_⟩
  have h := merged_runs_comm_iff emptyProgram v v [missing, missing] [missing] o "/" c d hc hd
  rw [← (report_of_paths hc).2, ← (report_of_paths hd).2, hcs, hds] at h
  exact h.2.2.2.1.mpr ⟨["a.ts"], ⟨2, rfl⟩, ⟨1, rfl⟩⟩

/-- Two runs of which each skips another file. -/
theorem merged_runs_not_comm :
    let v : Volume := ⟨.folder [], "/"⟩
    let o : Options := { skipInvalid := true }
    ∃ c d, (paths emptyProgram v [⟨"/a.ts", "a.ts", "typescript"⟩] o "/").result = .ok c ∧
      (paths emptyProgram v [⟨"/b.ts", "b.ts", "typescript"⟩] o "/").result = .ok d ∧
      (c.report.merge d.report).skippedFiles = ["a.ts", "b.ts"] ∧
      (d.report.merge c.report).skippedFiles = ["b.ts", "a.ts"] ∧
      c.report.merge d.report ≠ d.report.merge c.report := by
  intro v o
  have hs : o.skipInvalid = true := rfl
  obtain ⟨c, hc, hcs⟩ := paths_unreadable emptyProgram v [⟨"/a.ts", "a.ts", "typescript"⟩] "/" hs
    (by decide) fun info _ => Volume.read_empty "/" info.path
  obtain ⟨d, hd, hds⟩ := paths_unreadable emptyProgram v [⟨"/b.ts", "b.ts", "typescript"⟩] "/" hs
    (by decide) fun info _ => Volume.read_empty "/" info.path
  have hone : (c.report.merge d.report).skippedFiles = ["a.ts", "b.ts"] := by
    simp [Report.merge, hcs, hds]
  have hother : (d.report.merge c.report).skippedFiles = ["b.ts", "a.ts"] := by
    simp [Report.merge, hcs, hds]
  refine ⟨c, d, hc, hd, hone, hother, ?_⟩
  intro h
  rw [h, hother] at hone
  revert hone
  decide

end Analysis

end MarkupTally
