import MarkupTally.Proofs.Enumeration
import MarkupTally.Proofs.Runs

/-! Files that fail. Counting a file fails because it cannot be read, because its bytes are no text,
or because its syntax is wrong; a run that skips notes each such file and goes on, and a run that
does not skip ends with the first of them. A path with a null character in it is no failure of this
kind, and ends every run. -/
namespace MarkupTally

namespace Volume

theorem follow_ne_nullPath (v : Volume) (links : Nat) (here todo : List String) :
    v.follow links here todo ≠ .error .nullPath := by
  fun_induction follow v links here todo with
  | case1 _ here => cases v.root.at? here <;> simp
  | case2 => assumption
  | case3 => assumption
  | case5 => assumption
  | case9 _ _ _ _ _ _ _ _ ih => simpa using ih
  | case4 | case6 | case7 | case8 => simp

/-- Only the path itself is to blame for that refusal, never what is on the disk. -/
theorem read_eq_nullPath_iff (v : Volume) (path : String) :
    v.read path = .error .nullPath ↔ '\x00' ∈ path.toList := by
  unfold read locate
  by_cases he : path.isEmpty = true
  · have hnil : path.toList = [] := by simpa [String.isEmpty_iff] using he
    simp [he, hnil]
  · by_cases hc : '\x00' ∈ path.toList
    · simp [he, hc]
    · simp only [he, hc, Bool.false_eq_true, if_false, List.contains_iff_mem, iff_false]
      split
      · simp
      · simp
      · -- the way through the folders has no refusal of its own
        rename_i f hf
        intro h
        cases h
        exact follow_ne_nullPath v _ _ _ hf

end Volume

namespace Node

/-- The names of all functions of a tree can be read from the source. -/
def NamesReadable (source : List UInt8) (root : Node) : Prop :=
  ∀ s, Walk.Reaches (fun _ => .follow) (Site.root root) s → s.node.isFunction = true →
    ∃ name, s.name? source = .ok name

theorem isFunction_of_mem_functionSites {top : Bool} {root : Node} {s : Site}
    (h : s ∈ root.functionSites top) :
    Walk.Reaches (fun _ => .follow) (Site.root root) s ∧ s.node.isFunction = true := by
  obtain ⟨⟨r, hr, hs⟩, -⟩ := (Walk.mem_found_iff s _).mp h
  cases List.mem_singleton.mp hr
  exact ⟨hs.all, isFunction_of_mem h⟩

end Node

namespace Analysis

theorem treeFacts_ok {source : List UInt8} {root : Node} (o : Options)
    (h : root.NamesReadable source) : ∃ fns, treeFacts source o root = .ok fns := by
  have henum := Node.enumerated_functions source o.topLevelOnly root
  unfold treeFacts
  generalize root.functions source o.topLevelOnly = result at henum ⊢
  cases henum with
  | named fs => exact ⟨fs.map (functionFacts source o), rfl⟩
  | unreadable before after s fault hsites _ hs =>
    obtain ⟨hr, hf⟩ := Node.isFunction_of_mem_functionSites (s := s) (by rw [hsites]; simp)
    obtain ⟨name, hname⟩ := h s hr hf
    rw [hs] at hname
    cases hname

/-- A text of a known language is read, or has an error that is fatal. -/
theorem tree_cases (g : Grammar) (text path : String) {language : String} {l : Language}
    (strict : Bool) (hl : Language.ofName? language = some l) :
    (tree g text path language strict).value = .ok (g l text) ∨
    ∃ line column, (tree g text path language strict).value =
      .error (.census (.badSource path line column)) := by
  simp only [tree, hl]
  split
  · split
    · exact .inr ⟨_, _, rfl⟩
    · exact .inl rfl
  · exact .inl rfl

/-- A failure with a reason of its own: a single file is to blame, and not the run. -/
def OfFile (a : Abort) : Prop := ∃ e reason, a = .census e ∧ e.reason? = some reason

theorem ofFile_badSource (path : String) (line column : Option Int) :
    OfFile (.census (.badSource path line column)) := by
  cases line <;> exact ⟨_, _, rfl, rfl⟩

theorem source_cases (g : Grammar) (text path relPath : String) {language : String} {l : Language}
    (o : Options) (hl : Language.ofName? language = some l)
    (hn : (g l text).NamesReadable (Utf8.encode text)) :
    (∃ fns, (source g text path language relPath o).value =
      .ok { path, relPath := if relPath = "" then path else relPath, language, functions := fns }) ∨
    ∃ a, (source g text path language relPath o).value = .error a ∧ OfFile a := by
  rcases tree_cases g text path o.strict hl with h | ⟨line, column, h⟩
  · obtain ⟨fns, hfns⟩ := treeFacts_ok o hn
    exact .inl ⟨fns, by simp only [source, h, hfns]⟩
  · exact .inr ⟨_, by simp only [source, h], ofFile_badSource path line column⟩

theorem fileText_cases (v : Volume) {path : String} (hp : '\x00' ∉ path.toList) :
    (∃ text, fileText v path = .ok text) ∨ ∃ a, fileText v path = .error a ∧ OfFile a := by
  unfold fileText
  split
  · rename_i h
    exact absurd ((v.read_eq_nullPath_iff path).mp h) hp
  · exact .inr ⟨_, rfl, _, _, rfl, rfl⟩
  · split
    · exact .inr ⟨_, rfl, _, _, rfl, rfl⟩
    · exact .inl ⟨_, rfl⟩

theorem fileText_nullPath (v : Volume) {path : String} (hp : '\x00' ∈ path.toList) :
    fileText v path = .error (.badPath "embedded null byte") := by
  unfold fileText
  rw [(v.read_eq_nullPath_iff path).mpr hp]
  rfl

/-- A file of a known language, with a relative path, whose functions have names that can be read if
the file can. -/
structure Regular (g : Grammar) (v : Volume) (info : FileInfo) : Prop where
  language : info.language = "typescript" ∨ info.language = "tsx"
  relPath : info.relPath ≠ ""
  names : ∀ l text, Language.ofName? info.language = some l → fileText v info.path = .ok text →
    (g l text).NamesReadable (Utf8.encode text)

variable {g : Grammar} {v : Volume} {info : FileInfo}

theorem Regular.ofName? (h : Regular g v info) : ∃ l, Language.ofName? info.language = some l := by
  rcases h.language with hl | hl
  · exact ⟨.typescript, by rw [hl]; rfl⟩
  · exact ⟨.tsx, by rw [hl]; rfl⟩

/-- Counting a file gives facts under its own names, or fails with a reason. -/
theorem file_cases (h : Regular g v info) (hp : '\x00' ∉ info.path.toList) (o : Options) :
    (∃ fns, (file g v info o).value = .ok ⟨info.path, info.relPath, info.language, fns, none⟩) ∨
    ∃ a, (file g v info o).value = .error a ∧ OfFile a := by
  unfold file
  rcases fileText_cases v hp with ⟨text, ht⟩ | ⟨a, ht, ha⟩
  · obtain ⟨l, hl⟩ := h.ofName?
    have hs := source_cases g text info.path info.relPath o hl (h.names l text hl ht)
    simpa only [ht, h.relPath, if_false] using hs
  · exact .inr ⟨a, by simp only [ht]; rfl, ha⟩

theorem file_nullPath (hp : '\x00' ∈ info.path.toList) (o : Options) :
    (file g v info o).value = .error (.badPath "embedded null byte") := by
  simp only [file, fileText_nullPath v hp]
  rfl

variable {o : Options}

theorem file_skipInvalid (b : Bool) :
    file g v info { o with skipInvalid := b } = file g v info o := rfl

theorem fileOrSkip_ok {f : FileFacts} (h : (file g v info o).value = .ok f) :
    (fileOrSkip g v o info).value = .ok f := by
  simp only [fileOrSkip, h]

theorem fileOrSkip_halting (hs : o.skipInvalid = false) :
    fileOrSkip g v o info = file g v info o := by
  simp only [fileOrSkip, hs]
  split <;> rfl

theorem fileOrSkip_nullPath (hp : '\x00' ∈ info.path.toList) :
    (fileOrSkip g v o info).value = .error (.badPath "embedded null byte") := by
  simp only [fileOrSkip, file_nullPath hp]

/-- A file comes to what counting it gives, or was passed over. -/
theorem fileOrSkip_cases (g : Grammar) (v : Volume) (o : Options) (info : FileInfo) :
    (fileOrSkip g v o info).value = (file g v info o).value ∨
    ∃ reason, (fileOrSkip g v o info).value =
      .ok ⟨info.path, info.relPath, info.language, [], some reason⟩ := by
  unfold fileOrSkip
  dsimp only
  split
  · split
    · exact .inr ⟨_, rfl⟩
    · exact .inl rfl
  · exact .inl rfl

/-- What a run that skips notes of a file: the facts that counting it gives, or why it gives
none. -/
structure Notes (value : Except Abort FileFacts) (info : FileInfo) (f : FileFacts) : Prop where
  path : f.path = info.path
  relPath : f.relPath = info.relPath
  language : f.language = info.language
  counted : ∀ facts, value = .ok facts → f = facts
  failed : ∀ a, value = .error a →
    ∃ e reason, a = .census e ∧ e.reason? = some reason ∧ f.functions = [] ∧ f.error = some reason

theorem fileOrSkip_notes (h : Regular g v info) (hp : '\x00' ∉ info.path.toList) (o : Options) :
    ∃ f, (fileOrSkip g v { o with skipInvalid := true } info).value = .ok f ∧
      Notes (file g v info o).value info f := by
  rw [← file_skipInvalid true]
  rcases file_cases h hp { o with skipInvalid := true } with ⟨fns, hf⟩ | ⟨a, hf, e, reason, rfl, hr⟩
  · refine ⟨_, fileOrSkip_ok hf, rfl, rfl, rfl, ?_, ?_⟩
    · intro facts hfacts
      rw [hf] at hfacts
      exact Except.ok.inj hfacts
    · intro a ha
      rw [hf] at ha
      cases ha
  · refine ⟨⟨info.path, info.relPath, info.language, [], some reason⟩, ?_, rfl, rfl, rfl, ?_, ?_⟩
    · simp only [fileOrSkip, hf, hr]
    · intro facts hfacts
      rw [hf] at hfacts
      cases hfacts
    · intro a ha
      rw [hf] at ha
      cases ha
      exact ⟨e, reason, rfl, hr, rfl, rfl⟩

variable {files : List FileInfo} {root : String}

/-- A run that does not skip ends as counting the files one after the other does. -/
theorem ends_halting (g : Grammar) (v : Volume) (files : List FileInfo) (o : Options)
    (root : String) :
    Ends (fun i => (file g v i o).value) root files
      (paths g v files { o with skipInvalid := false } root) := by
  have hvalue : (fun i => (fileOrSkip g v { o with skipInvalid := false } i).value) =
      fun i => (file g v i o).value := by
    funext i
    rw [fileOrSkip_halting rfl, file_skipInvalid]
  exact hvalue ▸ ends_paths g v files { o with skipInvalid := false } root

theorem skipping_ok_iff (hreg : ∀ info ∈ files, Regular g v info) :
    (∃ c, (paths g v files { o with skipInvalid := true } root).result = .ok c) ↔
      ∀ info ∈ files, '\x00' ∉ info.path.toList := by
  rw [(ends_paths g v files { o with skipInvalid := true } root).ok_iff]
  refine forall_congr' fun info => imp_congr_right fun hi => ?_
  constructor
  · rintro ⟨f, hf⟩ hp
    rw [fileOrSkip_nullPath hp] at hf
    cases hf
  · intro hp
    obtain ⟨f, hf, -⟩ := fileOrSkip_notes (hreg info hi) hp o
    exact ⟨f, hf⟩

/-- A run that skips and ends well has noted every file in its place. -/
theorem skipping_notes (hreg : ∀ info ∈ files, Regular g v info) {c : Census}
    (hc : (paths g v files { o with skipInvalid := true } root).result = .ok c) :
    c.report = c.files.foldl Report.addFile { root := root } ∧ c.files.length = files.length ∧
    ∀ (i : Nat) (info : FileInfo), files[i]? = some info →
      ∃ f, c.files[i]? = some f ∧ Notes (file g v info o).value info f := by
  obtain ⟨hmap, hreport⟩ := (ends_paths g v files { o with skipInvalid := true } root).map_eq hc
  refine ⟨hreport, ?_, ?_⟩
  · simpa using (congrArg List.length hmap).symm
  · intro i info hi
    obtain ⟨f, hf, hvalue⟩ := getElem?_of_map_eq hmap hi
    have hmem := List.mem_of_getElem? hi
    have hp := (skipping_ok_iff hreg).mp ⟨c, hc⟩ info hmem
    obtain ⟨f', hf', hnotes⟩ := fileOrSkip_notes (hreg info hmem) hp o
    rw [hvalue] at hf'
    cases hf'
    exact ⟨f, hf, hnotes⟩

/-- Where nothing fails there is nothing to skip. -/
theorem skipping_of_halting {c : Census}
    (hc : (paths g v files { o with skipInvalid := false } root).result = .ok c) :
    (paths g v files { o with skipInvalid := true } root).result = .ok c := by
  obtain ⟨hmap, hreport⟩ := (ends_halting g v files o root).map_eq hc
  have hskip : files.map (fun i => (fileOrSkip g v { o with skipInvalid := true } i).value) =
      c.files.map .ok := by
    rw [← hmap]
    refine List.map_congr_left fun info hi => ?_
    obtain ⟨f, hf⟩ := exists_ok_of_map_eq hmap hi
    rw [hf]
    exact fileOrSkip_ok hf
  rw [(ends_paths g v files { o with skipInvalid := true } root).result_eq hskip, ← hreport]

theorem halting_error {a : Abort} (hreg : ∀ info ∈ files, Regular g v info)
    (ha : (paths g v files { o with skipInvalid := false } root).result = .error a) :
    ∃ before info after, files = before ++ info :: after ∧
      (∀ i ∈ before, ∃ f, (file g v i o).value = .ok f) ∧ (file g v info o).value = .error a ∧
      ('\x00' ∉ info.path.toList → OfFile a) := by
  cases ends_halting g v files o root with
  | counted facts _ _ hresult =>
    rw [hresult] at ha
    cases ha
  | failed before after info facts a' hfiles hfacts hinfo _ hresult =>
    rw [hresult] at ha
    cases ha
    refine ⟨before, info, after, hfiles, fun i hi => exists_ok_of_map_eq hfacts hi, hinfo, ?_⟩
    intro hp
    rcases file_cases (hreg info (by simp [hfiles])) hp o with ⟨fns, hf⟩ | ⟨b, hf, hb⟩
    · rw [hinfo] at hf
      cases hf
    · rw [hinfo] at hf
      cases hf
      exact hb

/-- A run that skips ends well exactly if no path has a null character in it; it then notes every
file, in order. A run that does not skip ends well exactly if every file can be counted, and then as
the other run; otherwise it ends with the failure of the first file that cannot. -/
theorem paths_skipping_iff_no_null (g : Grammar) (v : Volume) (files : List FileInfo) (o : Options)
    (root : String) (hreg : ∀ info ∈ files, Regular g v info) :
    let skipping := paths g v files { o with skipInvalid := true } root
    let halting := paths g v files { o with skipInvalid := false } root
    ((∃ c, skipping.result = .ok c) ↔ ∀ info ∈ files, '\x00' ∉ info.path.toList) ∧
    (∀ c, skipping.result = .ok c →
      c.report = c.files.foldl Report.addFile { root := root } ∧ c.files.length = files.length ∧
      ∀ (i : Nat) (info : FileInfo), files[i]? = some info →
        ∃ f, c.files[i]? = some f ∧ Notes (file g v info o).value info f) ∧
    ((∃ c, halting.result = .ok c) ↔ ∀ info ∈ files, ∃ f, (file g v info o).value = .ok f) ∧
    (∀ c, halting.result = .ok c → skipping.result = .ok c) ∧
    ∀ a, halting.result = .error a →
      ∃ before info after, files = before ++ info :: after ∧
        (∀ i ∈ before, ∃ f, (file g v i o).value = .ok f) ∧ (file g v info o).value = .error a ∧
        ('\x00' ∉ info.path.toList → OfFile a) :=
  ⟨skipping_ok_iff hreg, fun _ hc => skipping_notes hreg hc, (ends_halting g v files o root).ok_iff,
    fun _ hc => skipping_of_halting hc, fun _ ha => halting_error hreg ha⟩

/-- One file is there and one is not: the run that skips notes both. -/
theorem paths_skipping_missing_file :
    let files : List FileInfo := [⟨"/a.ts", "a.ts", "typescript"⟩, ⟨"", "b.ts", "tsx"⟩]
    let v : Volume := ⟨.folder [("a.ts", .file [])], "/"⟩
    (∀ info ∈ files, Regular emptyProgram v info) ∧
      ∃ c, (paths emptyProgram v files { skipInvalid := true } "").result = .ok c ∧
        c.files.length = 2 := by
  intro files v
  have hnames (l : Language) (text : String) (source : List UInt8) :
      (emptyProgram l text).NamesReadable source := by
    intro s hs hf
    cases hs with
    | here => cases hf
    | down _ hc _ => cases hc
  have hreg : ∀ info ∈ files, Regular emptyProgram v info := by
    intro info hi
    refine ⟨?_, ?_, fun l text _ _ => hnames l text _⟩
    · revert info
      decide
    · revert info
      decide
  have h := paths_skipping_iff_no_null emptyProgram v files {} "" hreg
  obtain ⟨c, hc⟩ := h.1.mpr (by decide)
  exact ⟨hreg, c, hc, (h.2.1 c hc).2.1⟩

/-- A path with a null character in it ends a run, even one that skips. -/
theorem paths_skipping_null_path :
    Regular emptyProgram ⟨.folder [], "/"⟩ ⟨"a\x00.ts", "a.ts", "typescript"⟩ ∧
      (paths emptyProgram ⟨.folder [], "/"⟩ [⟨"a\x00.ts", "a.ts", "typescript"⟩]
        { skipInvalid := true } "").result = .error (.badPath "embedded null byte") := by
  refine ⟨⟨.inl rfl, by decide, fun l text _ h => ?_⟩, by rfl⟩
  rw [fileText_nullPath _ (by decide)] at h
  cases h

end Analysis

end MarkupTally
