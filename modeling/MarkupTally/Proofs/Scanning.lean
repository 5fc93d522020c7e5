import Mathlib.Data.List.Nodup
import MarkupTally.Proofs.Folders

/-! Which files a scan finds, and in which order. The list depends on the files below the root and
on nothing else. -/
namespace MarkupTally

namespace Language

/-- The extension of the files of a language. -/
def extension : Language → String
  | typescript => ".ts"
  | tsx => ".tsx"

theorem ofExtension?_eq_some_iff {s : String} {l : Language} :
    ofExtension? s = some l ↔ s = l.extension := by
  constructor
  · intro h
    unfold ofExtension? at h
    split at h <;> cases h <;> rfl
  · rintro rfl
    cases l <;> rfl

theorem exists_toList_extension (l : Language) :
    ∃ tail, l.extension.toList = '.' :: tail ∧ '.' ∉ tail := by
  cases l with
  | typescript => exact ⟨['t', 's'], rfl, by decide⟩
  | tsx => exact ⟨['t', 's', 'x'], rfl, by decide⟩

end Language

namespace Scan

/-- The order of the names on the way to a file: the files of a folder come first, by their names,
and then those of its folders, by the names of these. -/
inductive Before : List String → List String → Prop where
  | files {a b : String} (h : a < b) : Before [a] [b]
  | first (a b c : String) (ns : List String) : Before [a] (b :: c :: ns)
  | folders {a b : String} (c d : String) (ns ms : List String) (h : a < b) :
      Before (a :: c :: ns) (b :: d :: ms)
  | inside (a : String) {ns ms : List String} (h : Before ns ms) : Before (a :: ns) (a :: ms)

/-- The order of files by the names on the way to them from the root. -/
def InOrder (a b : FileInfo) : Prop := Before (Path.parts a.relPath) (Path.parts b.relPath)

/-- The name ends in the extension of the language, in either case, after more than dots, and that
extension is asked for. -/
structure Named (o : Options) (name : String) (l : Language) : Prop where
  ending : ∃ stem ext : String, name = stem ++ ext ∧ (∃ c ∈ stem.toList, c ≠ '.') ∧
    ext.map Char.toLower = l.extension
  asked : ∃ x ∈ o.extensions, x.map Char.toLower = l.extension

/-- A file below the folder `e` that is to be counted. No folder on the way to it is left out. -/
structure Chosen (o : Options) (e : Entry) (dirs : List String) (name : String) (l : Language) :
    Prop where
  there : ∃ bytes, e.at? (dirs ++ [name]) = some (.file bytes)
  entered : ∀ d ∈ dirs, d ∉ o.excludeDirs
  named : Named o name l

/-- What is noted of a file of a language that is along these names from the root. -/
def infoAt (root : String) (names : List String) (l : Language) : FileInfo where
  path := Path.join root ("/".intercalate names)
  relPath := "/".intercalate names
  language := l.name

/-- A file that is to be counted: it is below the root, and no folder between is left out. -/
inductive Selected (v : Volume) (root : String) (o : Options) : FileInfo → Prop where
  | intro {dirs : List String} {name : String} {l : Language} {bytes : List UInt8}
      (there : v.root.at? (Path.names root ++ (dirs ++ [name])) = some (.file bytes))
      (entered : ∀ d ∈ dirs, d ∉ o.excludeDirs) (named : Named o name l) :
      Selected v root o (infoAt root (dirs ++ [name]) l)

theorem Before.append (way : List String) {ns ms : List String} (h : Before ns ms) :
    Before (way ++ ns) (way ++ ms) := by
  induction way with
  | nil => exact h
  | cons a way ih => exact .inside a ih

theorem Before.asymm {ns ms : List String} (h : Before ns ms) : ¬Before ms ns := by
  have hnil {ks : List String} : ¬Before [] ks ∧ ¬Before ks [] := ⟨nofun, nofun⟩
  induction h with
  | files h =>
    intro h'
    cases h' with
    | files h' => exact String.lt_asymm h h'
    | inside _ h' => exact hnil.1 h'
  | first =>
    intro h'
    cases h' with
    | inside _ h' => exact hnil.2 h'
  | folders _ _ _ _ h =>
    intro h'
    cases h' with
    | folders _ _ _ _ h' => exact String.lt_asymm h h'
    | inside _ h' => exact String.lt_irrefl _ h
  | inside a h ih =>
    intro h'
    cases h' with
    | files h' => exact String.lt_irrefl _ h'
    | first => exact hnil.2 h
    | folders _ _ _ _ h' => exact String.lt_irrefl _ h'
    | inside _ h' => exact ih h'

section Names

variable {o : Options} {name : String} {l : Language} {es : List (String × Entry)}

theorem wanted?_eq_some_iff (h : '/' ∉ name.toList) : wanted? o name = some l ↔ Named o name l := by
  obtain ⟨tail, hlow, htail⟩ := l.exists_toList_extension
  have hext := Path.extension_toLower_iff h hlow htail
  have hasked : l.extension ∈ o.extensions.map (·.map Char.toLower) ↔
      ∃ x ∈ o.extensions, x.map Char.toLower = l.extension := List.mem_map
  simp only [wanted?, Language.ofFile?, List.contains_iff_mem]
  constructor
  · intro h
    split at h
    · rename_i hmem
      have hl := Language.ofExtension?_eq_some_iff.mp h
      exact ⟨hext.mp hl, hasked.mp (hl ▸ hmem)⟩
    · cases h
  · rintro ⟨hending, hx⟩
    have hl := hext.mpr hending
    rw [if_pos (hl ▸ hasked.mpr hx), Language.ofExtension?_eq_some_iff]
    exact hl

theorem chosen_nil_iff (h : (es.map Prod.fst).Nodup) :
    Chosen o (.folder es) [] name l ↔ (∃ bytes, (name, .file bytes) ∈ es) ∧ Named o name l := by
  constructor
  · rintro ⟨⟨bytes, hthere⟩, -, hnamed⟩
    obtain ⟨y, hy, hfile⟩ := (Entry.at?_folder_iff h).mp hthere
    cases Option.some.inj hfile
    exact ⟨⟨bytes, hy⟩, hnamed⟩
  · rintro ⟨⟨bytes, hy⟩, hnamed⟩
    exact ⟨⟨bytes, (Entry.at?_folder_iff h).mpr ⟨_, hy, rfl⟩⟩, by simp, hnamed⟩

theorem chosen_cons_iff (h : (es.map Prod.fst).Nodup) {d : String} {dirs : List String} :
    Chosen o (.folder es) (d :: dirs) name l ↔
      d ∉ o.excludeDirs ∧ ∃ e, (d, e) ∈ es ∧ Chosen o e dirs name l := by
  constructor
  · rintro ⟨⟨bytes, hthere⟩, hentered, hnamed⟩
    obtain ⟨hd, hdirs⟩ := List.forall_mem_cons.mp hentered
    obtain ⟨e, he, hfile⟩ := (Entry.at?_folder_iff h).mp hthere
    exact ⟨hd, e, he, ⟨bytes, hfile⟩, hdirs, hnamed⟩
  · rintro ⟨hd, e, he, ⟨bytes, hfile⟩, hdirs, hnamed⟩
    exact ⟨⟨bytes, (Entry.at?_folder_iff h).mpr ⟨e, he, hfile⟩⟩,
      List.forall_mem_cons.mpr ⟨hd, hdirs⟩, hnamed⟩

theorem not_chosen_file {bytes : List UInt8} {dirs : List String} :
    ¬Chosen o (.file bytes) dirs name l := by
  rintro ⟨⟨bytes', hthere⟩, -, -⟩
  cases dirs <;> cases hthere

theorem Chosen.isName {e : Entry} {dirs : List String} (h : Chosen o e dirs name l) (he : e.Plain) :
    ∀ n ∈ dirs ++ [name], Path.IsName n := by
  obtain ⟨bytes, hthere⟩ := h.there
  exact (he.of_at? hthere).1

end Names

section Rows

variable {v : Volume} {o : Options} {name path relPath : String} {here : List String}
  {es : List (String × Entry)}

theorem mem_fileRow_iff {file : String} {row : Row} :
    (name, row) ∈ fileRow o path relPath file ↔
      name = file ∧ ∃ l, wanted? o name = some l ∧
        row = .file ⟨Path.join path name, Path.join relPath name, l.name⟩ := by
  unfold fileRow
  cases hl : wanted? o file with
  | none =>
    constructor
    · intro h
      cases h
    · rintro ⟨rfl, l, hl', -⟩
      rw [hl] at hl'
      cases hl'
  | some l =>
    rw [List.mem_singleton, Prod.mk.injEq]
    constructor
    · rintro ⟨rfl, rfl⟩
      exact ⟨rfl, l, hl, rfl⟩
    · rintro ⟨rfl, l', hl', rfl⟩
      cases hl.symm.trans hl'
      exact ⟨rfl, rfl⟩

theorem rows_cons (x : String × Entry) :
    rows v o here path relPath (x :: es) =
      rows v o here path relPath [x] ++ rows v o here path relPath es := by
  obtain ⟨n, e⟩ := x
  cases e <;> simp [rows]

theorem rows_file (n : String) (bytes : List UInt8) :
    rows v o here path relPath [(n, .file bytes)] = fileRow o path relPath n := by
  simp [rows]

theorem rows_folder (n : String) (below : List (String × Entry)) :
    rows v o here path relPath [(n, .folder below)] =
      if n ∈ o.excludeDirs then []
      else [(n, .folder (files v o (here ++ [n]) (Path.join path n) (Path.join relPath n)
        (.folder below)))] := by
  simp [rows]

theorem mem_rows {r : String × Row} :
    r ∈ rows v o here path relPath es ↔ ∃ x ∈ es, r ∈ rows v o here path relPath [x] := by
  induction es with
  | nil => simp [rows]
  | cons x es ih =>
    rw [rows_cons, List.mem_append, ih]
    simp only [List.mem_cons, exists_eq_or_imp]

/-- The rows of a folder are its wanted files and those of its folders that are entered. -/
theorem mem_rows_iff {row : Row} (hes : ∀ x ∈ es, x.2.Plain) :
    (name, row) ∈ rows v o here path relPath es ↔
      (∃ bytes l, (name, .file bytes) ∈ es ∧ wanted? o name = some l ∧
        row = .file ⟨Path.join path name, Path.join relPath name, l.name⟩) ∨
      ∃ below, (name, .folder below) ∈ es ∧ name ∉ o.excludeDirs ∧
        row = .folder (files v o (here ++ [name]) (Path.join path name) (Path.join relPath name)
          (.folder below)) := by
  rw [mem_rows]
  constructor
  · rintro ⟨⟨n, e⟩, hx, hrow⟩
    have hplain := hes _ hx
    cases hplain with
    | file bytes =>
      rw [rows_file, mem_fileRow_iff] at hrow
      obtain ⟨rfl, l, hl, hrow⟩ := hrow
      exact .inl ⟨bytes, l, hx, hl, hrow⟩
    | @folder below =>
      rw [rows_folder] at hrow
      split at hrow
      · cases hrow
      · rename_i hentered
        cases List.mem_singleton.mp hrow
        exact .inr ⟨below, hx, hentered, rfl⟩
  · rintro (⟨bytes, l, hx, hl, rfl⟩ | ⟨below, hx, hentered, rfl⟩)
    · refine ⟨_, hx, ?_⟩
      rw [rows_file, mem_fileRow_iff]
      exact ⟨rfl, l, hl, rfl⟩
    · refine ⟨_, hx, ?_⟩
      rw [rows_folder, if_neg hentered]
      exact List.mem_singleton_self _

theorem map_fst_rows_sublist (hes : ∀ x ∈ es, x.2.Plain) :
    ((rows v o here path relPath es).map Prod.fst).Sublist (es.map Prod.fst) := by
  induction es with
  | nil => exact .slnil
  | cons x es ih =>
    obtain ⟨hx, hrest⟩ := List.forall_mem_cons.mp hes
    have hnames : (x :: es).map Prod.fst = [x.1] ++ es.map Prod.fst := rfl
    rw [rows_cons, List.map_append, hnames]
    refine List.Sublist.append ?_ (ih hrest)
    obtain ⟨n, e⟩ := x
    cases hx with
    | file bytes =>
      rw [rows_file, fileRow]
      split
      · exact List.nil_sublist _
      · exact List.Sublist.refl _
    | folder =>
      rw [rows_folder]
      split
      · exact List.nil_sublist _
      · exact List.Sublist.refl _

end Rows

section Arrange

variable {rs : List (String × Row)} {info : FileInfo}

theorem Row.file?_eq_some_iff {row : Row} : row.file? = some info ↔ row = .file info := by
  cases row <;> simp [file?]

theorem mem_sorted {r : String × Row} :
    r ∈ rs.mergeSort (fun a b => a.1 ≤ b.1) ↔ r ∈ rs :=
  (List.mergeSort_perm rs _).mem_iff

theorem mem_arrange :
    info ∈ arrange rs ↔ ∃ r ∈ rs, r.2 = .file info ∨ info ∈ r.2.below := by
  simp only [arrange, List.mem_append, List.mem_filterMap, List.mem_flatMap, mem_sorted,
    Row.file?_eq_some_iff, and_or_left, exists_or]

theorem pairwise_sorted (h : (rs.map Prod.fst).Nodup) :
    (rs.mergeSort fun a b => a.1 ≤ b.1).Pairwise fun r s => r.1 < s.1 := by
  have hperm := List.mergeSort_perm rs fun a b => decide (a.1 ≤ b.1)
  have hdistinct := List.pairwise_map.mp ((hperm.map Prod.fst).nodup_iff.mpr h)
  have hle : (rs.mergeSort fun a b => a.1 ≤ b.1).Pairwise
      fun a b => decide (a.1 ≤ b.1) = true := by
    refine List.pairwise_mergeSort ?_ ?_ rs
    · intro a b c hab hbc
      exact decide_eq_true (String.le_trans (of_decide_eq_true hab) (of_decide_eq_true hbc))
    · intro a b
      simpa using String.le_total a.1 b.1
  refine hle.imp₂ (fun r s hrs hne => ?_) hdistinct
  exact String.not_le.mp fun hsr => hne (String.le_antisymm (of_decide_eq_true hrs) hsr)

/-- A row of a folder that is along `way` from the root. -/
structure Row.At (way : List String) (r : String × Row) : Prop where
  file : ∀ a, r.2 = .file a → Path.parts a.relPath = way ++ [r.1]
  below : ∀ a ∈ r.2.below, ∃ c ns, Path.parts a.relPath = way ++ r.1 :: c :: ns
  sorted : r.2.below.Pairwise InOrder

/-- If the files of each row are in order, arranging the rows puts all of them in order. -/
theorem pairwise_arrange (way : List String) (hdistinct : (rs.map Prod.fst).Nodup)
    (h : ∀ r ∈ rs, Row.At way r) :
    (arrange rs).Pairwise InOrder := by
  have hlt := pairwise_sorted hdistinct
  unfold arrange
  rw [List.pairwise_append]
  refine ⟨?_, ?_, ?_⟩
  · rw [List.pairwise_filterMap]
    refine hlt.imp_of_mem fun {r s} hr hs hrs a ha b hb => ?_
    rw [InOrder, (h r (mem_sorted.mp hr)).file a (Row.file?_eq_some_iff.mp ha),
      (h s (mem_sorted.mp hs)).file b (Row.file?_eq_some_iff.mp hb)]
    exact (Before.files hrs).append way
  · rw [List.pairwise_flatMap]
    refine ⟨fun r hr => (h r (mem_sorted.mp hr)).sorted, ?_⟩
    refine hlt.imp_of_mem fun {r s} hr hs hrs a ha b hb => ?_
    obtain ⟨c, ns, hns⟩ := (h r (mem_sorted.mp hr)).below a ha
    obtain ⟨d, ms, hms⟩ := (h s (mem_sorted.mp hs)).below b hb
    rw [InOrder, hns, hms]
    exact (Before.folders c d ns ms hrs).append way
  · intro a ha b hb
    obtain ⟨r, hr, ha⟩ := List.mem_filterMap.mp ha
    obtain ⟨s, hs, hb⟩ := List.mem_flatMap.mp hb
    obtain ⟨c, ns, hns⟩ := (h s (mem_sorted.mp hs)).below b hb
    rw [InOrder, (h r (mem_sorted.mp hr)).file a (Row.file?_eq_some_iff.mp ha), hns]
    exact (Before.first r.1 s.1 c ns).append way

end Arrange

section Files

variable {v : Volume} {o : Options} {name root : String} {l : Language} {here way : List String}

theorem isName_concat (hway : ∀ n ∈ way, Path.IsName n) (hname : Path.IsName name) :
    ∀ n ∈ way ++ [name], Path.IsName n := by
  simpa only [List.forall_mem_append, List.forall_mem_singleton] using ⟨hway, hname⟩

theorem infoAt_concat (root : String) (l : Language) (h : ∀ n ∈ way ++ [name], Path.IsName n) :
    infoAt root (way ++ [name]) l =
      ⟨Path.join (way.foldl Path.join root) name, Path.join (way.foldl Path.join "") name,
        l.name⟩ := by
  have hjoin (base : String) : Path.join (way.foldl Path.join base) name =
      Path.join base ("/".intercalate (way ++ [name])) := by
    rw [← (Path.foldl_join base (by simp) h).2, List.foldl_append]
    rfl
  rw [hjoin, hjoin, Path.empty_join]
  rfl

theorem parts_relPath {names : List String} (hne : names ≠ []) (h : ∀ n ∈ names, Path.IsName n) :
    Path.parts (infoAt root names l).relPath = names :=
  Path.parts_intercalate hne fun n hn => (h n hn).noSlash

theorem mem_files_folder {path relPath : String} {es : List (String × Entry)} {info : FileInfo}
    (hes : ∀ x ∈ es, x.2.Plain) :
    info ∈ files v o here path relPath (.folder es) ↔
      (∃ name bytes l, (name, .file bytes) ∈ es ∧ wanted? o name = some l ∧
        info = ⟨Path.join path name, Path.join relPath name, l.name⟩) ∨
      ∃ name below, (name, .folder below) ∈ es ∧ name ∉ o.excludeDirs ∧
        info ∈ files v o (here ++ [name]) (Path.join path name) (Path.join relPath name)
          (.folder below) := by
  rw [files, mem_arrange]
  constructor
  · rintro ⟨⟨name, row⟩, hr, hinfo⟩
    obtain ⟨bytes, l, hx, hl, rfl⟩ | ⟨below, hx, hentered, rfl⟩ := (mem_rows_iff hes).mp hr
    · rcases hinfo with hinfo | hinfo
      · cases hinfo
        exact .inl ⟨name, bytes, l, hx, hl, rfl⟩
      · cases hinfo
    · rcases hinfo with hinfo | hinfo
      · cases hinfo
      · exact .inr ⟨name, below, hx, hentered, hinfo⟩
  · rintro (⟨name, bytes, l, hx, hl, rfl⟩ | ⟨name, below, hx, hentered, hinfo⟩)
    · exact ⟨(name, _), (mem_rows_iff hes).mpr (.inl ⟨bytes, l, hx, hl, rfl⟩), .inl rfl⟩
    · exact ⟨(name, _), (mem_rows_iff hes).mpr (.inr ⟨below, hx, hentered, rfl⟩), .inr hinfo⟩

/-- Exactly the chosen files are found below a folder. -/
theorem mem_files_iff {e : Entry} (he : e.Plain) (hway : ∀ n ∈ way, Path.IsName n)
    {info : FileInfo} :
    info ∈ files v o here (way.foldl Path.join root) (way.foldl Path.join "") e ↔
      ∃ dirs name l, Chosen o e dirs name l ∧ info = infoAt root (way ++ (dirs ++ [name])) l := by
  induction he generalizing here way with
  | file bytes =>
    constructor
    · intro h
      cases h
    · rintro ⟨dirs, name, l, h, -⟩
      exact absurd h not_chosen_file
  | @folder es names distinct below ih =>
    have hnext {name : String} {e : Entry} (hx : (name, e) ∈ es) :
        ∀ n ∈ way ++ [name], Path.IsName n := isName_concat hway (names _ hx)
    rw [mem_files_folder below]
    constructor
    · rintro (⟨name, bytes, l, hx, hl, rfl⟩ | ⟨name, es', hx, hentered, hinfo⟩)
      · have hnamed := (wanted?_eq_some_iff (names _ hx).noSlash).mp hl
        exact ⟨[], name, l, (chosen_nil_iff distinct).mpr ⟨⟨bytes, hx⟩, hnamed⟩,
          (infoAt_concat root l (hnext hx)).symm⟩
      · have hbelow := @ih _ hx (here ++ [name]) _ (hnext hx)
        rw [List.foldl_append, List.foldl_append] at hbelow
        obtain ⟨dirs, name', l, hchosen, rfl⟩ := hbelow.mp hinfo
        exact ⟨name :: dirs, name', l,
          (chosen_cons_iff distinct).mpr ⟨hentered, _, hx, hchosen⟩, by simp⟩
    · rintro ⟨dirs, name, l, hchosen, rfl⟩
      cases dirs with
      | nil =>
        obtain ⟨⟨bytes, hx⟩, hnamed⟩ := (chosen_nil_iff distinct).mp hchosen
        have hl := (wanted?_eq_some_iff (names _ hx).noSlash).mpr hnamed
        exact .inl ⟨name, bytes, l, hx, hl, infoAt_concat root l (hnext hx)⟩
      | cons d dirs =>
        obtain ⟨hentered, e, hx, hchosen⟩ := (chosen_cons_iff distinct).mp hchosen
        have hbelow := @ih _ hx (here ++ [d]) _ (hnext hx)
        rw [List.foldl_append, List.foldl_append] at hbelow
        have hplain := below _ hx
        cases hplain with
        | file bytes => exact absurd hchosen not_chosen_file
        | @folder es' =>
          exact .inr ⟨d, es', hx, hentered, hbelow.mpr ⟨dirs, name, l, hchosen, by simp⟩⟩

/-- The files below a folder are found in order. -/
theorem pairwise_files {e : Entry} (he : e.Plain) (hway : ∀ n ∈ way, Path.IsName n) :
    (files v o here (way.foldl Path.join root) (way.foldl Path.join "") e).Pairwise
      InOrder := by
  induction he generalizing here way with
  | file bytes => exact .nil
  | @folder es names distinct below ih =>
    rw [files]
    refine pairwise_arrange way (distinct.sublist (map_fst_rows_sublist below)) ?_
    rintro ⟨name, row⟩ hr
    obtain ⟨bytes, l, hx, hl, rfl⟩ | ⟨es', hx, hentered, rfl⟩ := (mem_rows_iff below).mp hr
    · have hnext := isName_concat hway (names _ hx)
      refine ⟨fun a ha => ?_, fun a ha => ?_, .nil⟩
      · cases ha
        rw [← infoAt_concat root l hnext]
        exact parts_relPath (by simp) hnext
      · cases ha
    · have hnext := isName_concat hway (names _ hx)
      have hsorted := @ih _ hx (here ++ [name]) _ hnext
      have hfound (a : FileInfo) :=
        @mem_files_iff v o root (here ++ [name]) _ _ (below _ hx) hnext a
      simp only [List.foldl_append] at hsorted hfound
      refine ⟨fun a ha => ?_, fun a ha => ?_, hsorted⟩
      · cases ha
      · -- a chosen file is at least one name further down
        obtain ⟨dirs, name', l, hchosen, rfl⟩ := (hfound a).mp ha
        obtain ⟨c, ns, hns⟩ := List.exists_cons_of_ne_nil (l := dirs ++ [name']) (by simp)
        have hnames := hchosen.isName (below _ hx)
        rw [hns] at hnames
        refine ⟨c, ns, ?_⟩
        rw [hns, parts_relPath (by simp) (List.forall_mem_append.mpr ⟨hnext, hnames⟩)]
        simp

end Files

section Folder

variable {v : Volume} {root : String} {o : Options}

theorem selected_iff {info : FileInfo} :
    Selected v root o info ↔
      ∃ e, v.root.at? (Path.names root) = some e ∧
        ∃ dirs name l, Chosen o e dirs name l ∧ info = infoAt root (dirs ++ [name]) l := by
  constructor
  · rintro ⟨there, entered, named⟩
    rw [Entry.at?_append, Option.bind_eq_some_iff] at there
    obtain ⟨e, he, hfile⟩ := there
    exact ⟨e, he, _, _, _, ⟨⟨_, hfile⟩, entered, named⟩, rfl⟩
  · rintro ⟨e, he, dirs, name, l, ⟨⟨bytes, hfile⟩, entered, named⟩, rfl⟩
    have hthere : v.root.at? (Path.names root ++ (dirs ++ [name])) = some (.file bytes) := by
      rw [Entry.at?_append, he]
      exact hfile
    exact .intro hthere entered named

/-- A scan finds exactly the selected files, in order. -/
theorem exists_found (hv : v.root.Plain) (hroot : Path.Canonical root)
    (hnull : '\x00' ∉ root.toList) :
    ∃ found, folder v root o = .ok found ∧ (∀ info, info ∈ found ↔ Selected v root o info) ∧
      found.Pairwise InOrder := by
  obtain ⟨hsome, hnone⟩ := Volume.locate_canonical hv hroot hnull
  cases hat : v.root.at? (Path.names root) with
  | none =>
    obtain ⟨f, hf, hlocate⟩ := hnone hat
    refine ⟨[], ?_, fun info => ?_, .nil⟩
    · rw [folder, hlocate]
      cases f with
      | nullPath => exact absurd rfl hf
      | noEntry | notFolder | isFolder | linkLoop => rfl
    · rw [selected_iff, hat]
      simp
  | some e =>
    have hplain := (hv.of_at? hat).2
    refine ⟨files v o (Path.names root) root "" e, ?_, fun info => ?_, ?_⟩
    · rw [folder, hsome e hat]
    · have hmem := @mem_files_iff v o root (Path.names root) [] e hplain (by simp) info
      rw [selected_iff, hat]
      simpa using hmem
    · exact @pairwise_files v o root (Path.names root) [] e hplain (by simp)

theorem nodup_relPath {found : List FileInfo}
    (h : found.Pairwise InOrder) :
    (found.map FileInfo.relPath).Nodup := by
  refine List.pairwise_map.mpr (h.imp fun {a b} hab heq => ?_)
  rw [InOrder, heq] at hab
  exact hab.asymm hab

/-- The selected files have only one order. -/
theorem found_unique {found others : List FileInfo}
    (h : found.Pairwise InOrder)
    (h' : others.Pairwise InOrder)
    (hmem : ∀ info, info ∈ found ↔ info ∈ others) : found = others := by
  have hperm : found.Perm others :=
    (List.perm_ext_iff_of_nodup (List.Nodup.of_map _ (nodup_relPath h))
      (List.Nodup.of_map _ (nodup_relPath h'))).mpr hmem
  exact hperm.eq_of_pairwise (fun a b _ _ hab hba => absurd hba hab.asymm) h h'

theorem selected_relisted {other : Volume} (hv : v.root.Plain) (h : v.root.Relisted other.root)
    {info : FileInfo} : Selected v root o info ↔ Selected other root o info := by
  constructor
  · rintro ⟨there, entered, named⟩
    exact .intro ((h.at?_iff hv _).mp there) entered named
  · rintro ⟨there, entered, named⟩
    exact .intro ((h.at?_iff hv _).mpr there) entered named

/-- Below a root in normal form a scan finds exactly the files that are to be counted, each of them
once. The files of a folder come first, by their names, and then those of its folders, by the names
of these; the order in which the folders list their entries makes no difference. A root with a null
character in it is no folder of any tree. -/
theorem folder_lists_selected (v : Volume) (root : String) (o : Options) (hv : v.root.Plain)
    (hroot : Path.Canonical root) :
    ('\x00' ∈ root.toList → v.root.at? (Path.names root) = none ∧
      folder v root o = .error (.badPath "embedded null byte")) ∧
    ('\x00' ∉ root.toList → ∃ found, folder v root o = .ok found ∧
      (∀ info, info ∈ found ↔ Selected v root o info) ∧
      found.Nodup ∧ (found.map FileInfo.relPath).Nodup ∧
      found.Pairwise InOrder ∧
      ∀ other : Volume, v.root.Relisted other.root → folder other root o = .ok found) := by
  constructor
  · intro hnull
    constructor
    · obtain ⟨n, hn, hmem⟩ := Path.exists_mem_names (by decide) hnull
      cases hat : v.root.at? (Path.names root) with
      | none => rfl
      | some e => exact absurd hmem ((hv.of_at? hat).1 n hn).noNull
    · rw [folder, Volume.locate_nullPath hnull]
      rfl
  · intro hnull
    obtain ⟨found, hfound, hmem, hsorted⟩ := @exists_found v root o hv hroot hnull
    have hnodup := nodup_relPath hsorted
    refine ⟨found, hfound, hmem, List.Nodup.of_map _ hnodup, hnodup, hsorted, ?_⟩
    intro other hother
    obtain ⟨others, hothers, hmem', hsorted'⟩ :=
      @exists_found other root o (hother.plain hv) hroot hnull
    have hsame : found = others := by
      refine found_unique hsorted hsorted' fun info => ?_
      rw [hmem, hmem', selected_relisted hv hother]
    rw [hothers, hsame]

/-- A file with a capital extension is found wherever its folder lists it. -/
theorem folder_lists_selected_capitals :
    let below : List (String × Entry) :=
      [("b.TSX", .file []), (".ts", .file []), ("dist", .folder [("c.ts", .file [])])]
    let v : Volume := ⟨.folder [("src", .folder below)], "/"⟩
    v.root.Plain ∧ Path.Canonical "/src" ∧
    ∃ found, folder v "/src" {} = .ok found ∧ ⟨"/src/b.TSX", "b.TSX", "tsx"⟩ ∈ found ∧
      folder ⟨.folder [("src", .folder below.reverse)], "/"⟩ "/src" {} = .ok found := by
  intro below v
  have hplain : v.root.Plain := by
    have hname (n : String) (h : n ∈ ["b.TSX", ".ts", "dist", "c.ts", "src"]) : Path.IsName n := by
      constructor <;> revert n <;> decide
    have hdist : Entry.Plain (.folder [("c.ts", .file [])]) :=
      .folder (by simpa using hname "c.ts" (by decide)) (by decide) (by simpa using .file _)
    have hbelow : Entry.Plain (.folder below) := by
      refine .folder ?_ (by decide) ?_
      · simp only [below, List.forall_mem_cons]
        exact ⟨hname _ (by decide), hname _ (by decide), hname _ (by decide), by simp⟩
      · simp only [below, List.forall_mem_cons]
        exact ⟨.file _, .file _, hdist, by simp⟩
    exact .folder (by simpa using hname "src" (by decide)) (by decide) (by simpa using hbelow)
  have hroot : Path.Canonical "/src" := ⟨by decide, by decide⟩
  obtain ⟨found, hfound, hmem, -, -, -, hrelisted⟩ :=
    (folder_lists_selected v "/src" {} hplain hroot).2 (by decide)
  refine ⟨hplain, hroot, found, hfound, ?_, ?_⟩
  · have hthere : v.root.at? (Path.names "/src" ++ ([] ++ ["b.TSX"])) = some (.file []) :=
      rfl
    have hlower (ext : String) (h : ext.toList.map Char.toLower = ".tsx".toList) :
        ext.map Char.toLower = ".tsx" := by
      rw [← String.toList_inj, String.toList_map, h]
    have hnamed : Named {} "b.TSX" .tsx :=
      ⟨⟨"b", ".TSX", by decide, ⟨'b', by decide, by decide⟩, hlower _ (by decide)⟩,
        ⟨".tsx", by decide, hlower _ (by decide)⟩⟩
    exact (hmem _).mpr (.intro hthere (by simp) hnamed)
  · exact hrelisted _ (.inside [] [] "src" (.reorder (List.reverse_perm below).symm))

end Folder

end Scan

end MarkupTally
