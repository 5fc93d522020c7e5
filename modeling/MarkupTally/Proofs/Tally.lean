import MarkupTally.Model.Report

/-! What a report counts. Adding file after file, and merging the reports of parts, both give the
counts over the whole list of files; so a list may be cut and its parts merged in any way. -/
namespace MarkupTally

/-- The functions of the files that have no error. -/
def countedFunctions (files : List FileFacts) : List FunctionFacts :=
  (files.filter fun f => f.error.isNone).flatMap FileFacts.functions

/-- How many functions of the files without an error are classified in the given way. -/
def classified (c : Classification) (files : List FileFacts) : Nat :=
  (countedFunctions files).countP fun fn => fn.classification = c

namespace Report

/-- The report of a list of files, read off the list. -/
def tally (root : String) (files : List FileFacts) : Report where
  root := root
  filesAnalyzed := files.countP fun f => f.error.isNone
  markupCount := classified .markup files
  plainCount := classified .plain files
  skippedFiles := (files.filter fun f => f.error.isSome).map FileFacts.relPath

theorem merge_assoc (r s t : Report) : (r.merge s).merge t = r.merge (s.merge t) := by
  by_cases hr : r.root = ""
  · simp only [merge, hr, if_true, Int.add_assoc, List.append_assoc]
  · simp only [merge, hr, if_false, Int.add_assoc, List.append_assoc]

theorem empty_merge (r : Report) : merge {} r = r := by
  simp [merge]

theorem merge_empty (r : Report) : merge r {} = r := by
  have hroot : (if r.root = "" then "" else r.root) = r.root := by
    split
    · rename_i h
      exact h.symm
    · rfl
  simp [merge, hroot]

theorem tally_append (root : String) (files more : List FileFacts) :
    tally root (files ++ more) = (tally root files).merge (tally root more) := by
  ext1
  · exact (ite_self root).symm
  all_goals simp [tally, merge, classified, countedFunctions]

theorem record_eq (r : Report) (c : Classification) :
    r.record c =
      { r with
        markupCount := r.markupCount + if c = .markup then 1 else 0
        plainCount := r.plainCount + if c = .plain then 1 else 0 } := by
  cases c <;> simp [record]

/-- Recording functions adds to the two counts and to nothing else. -/
theorem foldl_record (fns : List FunctionFacts) (r : Report) :
    fns.foldl (fun r fn => r.record fn.classification) r =
      { r with
        markupCount := r.markupCount + fns.countP fun fn => fn.classification = .markup
        plainCount := r.plainCount + fns.countP fun fn => fn.classification = .plain } := by
  induction fns generalizing r with
  | nil => simp
  | cons fn fns ih =>
    rw [List.foldl_cons, ih, record_eq]
    simp only [List.countP_cons, decide_eq_true_eq, mk.injEq, true_and, and_true]
    cases fn.classification <;> simp <;> omega

theorem addFile_eq_merge (r : Report) (f : FileFacts) :
    r.addFile f = r.merge (tally r.root [f]) := by
  cases he : f.error with
  | some e => simp [addFile, he, merge, tally, classified, countedFunctions]
  | none => simp [addFile, he, foldl_record, merge, tally, classified, countedFunctions]

/-- Adding files to a report merges it with what is read off their list. -/
theorem foldl_addFile (files : List FileFacts) (r : Report) :
    files.foldl addFile r = r.merge (tally r.root files) := by
  induction files generalizing r with
  | nil => simp [tally, classified, countedFunctions, merge]
  | cons f files ih =>
    have hroot : (r.addFile f).root = r.root := by
      rw [addFile_eq_merge]
      simp [merge, tally]
    rw [List.foldl_cons, ih, hroot, addFile_eq_merge, merge_assoc, ← tally_append,
      List.singleton_append]

theorem foldl_addFile_root (root : String) (files : List FileFacts) :
    files.foldl addFile { root := root } = tally root files := by
  rw [foldl_addFile]
  simp [merge, tally]

theorem classified_add (files : List FileFacts) :
    classified .markup files + classified .plain files = (countedFunctions files).length := by
  unfold classified
  rw [List.length_eq_countP_add_countP fun fn => fn.classification = .markup]
  congr 2
  funext fn
  cases fn.classification <;> rfl

/-- Every file is counted or skipped, and none is both. -/
theorem analyzed_add_skipped (files : List FileFacts) :
    files.countP (fun f => f.error.isNone) + (files.filter fun f => f.error.isSome).length =
      files.length := by
  rw [← List.countP_eq_length_filter, List.length_eq_countP_add_countP fun f => f.error.isNone]
  congr 2
  funext f
  cases f.error <;> rfl

/-- The counts do not depend on the order of the files, and the skipped files follow it. -/
theorem tally_perm (root : String) {files more : List FileFacts} (h : files.Perm more) :
    (tally root files).filesAnalyzed = (tally root more).filesAnalyzed ∧
    (tally root files).markupCount = (tally root more).markupCount ∧
    (tally root files).plainCount = (tally root more).plainCount ∧
    (tally root files).skippedFiles.Perm (tally root more).skippedFiles := by
  have hfns : (countedFunctions files).Perm (countedFunctions more) :=
    (h.filter _).flatMap_right _
  have hclass (c : Classification) : classified c files = classified c more := hfns.countP_eq _
  refine ⟨?_, ?_, ?_, (h.filter _).map _⟩
  · simp only [tally, h.countP_eq]
  · simp only [tally, hclass]
  · simp only [tally, hclass]

/-- A way to cut a list of files into consecutive chunks, and to merge the reports of the chunks two
by two. -/
inductive Cut where
  | chunk (files : List FileFacts)
  | join (left right : Cut)

namespace Cut

def files : Cut → List FileFacts
  | chunk files => files
  | join left right => left.files ++ right.files

/-- Every chunk is counted from an empty report of the same root. -/
def report (root : String) : Cut → Report
  | chunk files => files.foldl addFile { root := root }
  | join left right => (left.report root).merge (right.report root)

theorem report_eq_tally (root : String) (c : Cut) : c.report root = tally root c.files := by
  induction c with
  | chunk files => exact foldl_addFile_root root files
  | join left right hl hr => rw [report, hl, hr, files, tally_append]

end Cut

/-- However a list of files is cut and its parts are merged, the report is that of adding file after
file, and it counts every function of a file without an error once. -/
theorem cut_report_eq_foldl (root : String) (files : List FileFacts) :
    let whole := files.foldl addFile { root := root }
    (∀ c : Cut, c.files = files → c.report root = whole) ∧
    (∀ r s t : Report, (r.merge s).merge t = r.merge (s.merge t)) ∧
    (∀ r : Report, merge {} r = r ∧ merge r {} = r) ∧
    whole.root = root ∧
    whole.filesAnalyzed = files.countP (fun f => f.error.isNone) ∧
    whole.skippedFiles = (files.filter fun f => f.error.isSome).map FileFacts.relPath ∧
    whole.filesAnalyzed + whole.skippedFiles.length = files.length ∧
    whole.markupCount = classified .markup files ∧
    whole.plainCount = classified .plain files ∧
    whole.total = (countedFunctions files).length ∧
    ∀ others : List FileFacts, others.Perm files →
      let same := others.foldl addFile { root := root }
      same.filesAnalyzed = whole.filesAnalyzed ∧ same.markupCount = whole.markupCount ∧
      same.plainCount = whole.plainCount ∧ same.skippedFiles.Perm whole.skippedFiles := by
  intro whole
  have hwhole : whole = tally root files := foldl_addFile_root root files
  refine ⟨?_, merge_assoc, fun r => ⟨empty_merge r, merge_empty r⟩, ?_⟩
  · intro c hc
    rw [hwhole, ← hc, c.report_eq_tally]
  rw [hwhole]
  refine ⟨rfl, rfl, rfl, ?_, rfl, rfl, ?_, ?_⟩
  · rw [← analyzed_add_skipped files]
    simp [tally]
  · rw [← classified_add files]
    simp [total, tally]
  · intro others h
    rw [foldl_addFile_root]
    exact tally_perm root h

/-- The functions of the file in the middle are not counted, wherever the list is cut. -/
theorem cut_report_eq_foldl_skipped_between :
    let fn : FunctionFacts := ⟨none, .declaration, 1, 1, .markup, true⟩
    let a : FileFacts := ⟨"/r/a.tsx", "a.tsx", "tsx", [fn], none⟩
    let b : FileFacts := { a with relPath := "b.tsx", error := some "syntax error" }
    let c : Cut := .join (.chunk [a, b]) (.join (.chunk []) (.chunk [a]))
    c.report "/r" = [a, b, a].foldl addFile { root := "/r" } ∧ (c.report "/r").markupCount = 2 := by
  intro fn a b c
  have h := (cut_report_eq_foldl "/r" [a, b, a]).1 c rfl
  exact ⟨h, h ▸ rfl⟩

end Report

end MarkupTally
