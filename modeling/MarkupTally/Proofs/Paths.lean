import MarkupTally.Disk.Path
import Mathlib.Data.List.Basic
import Mathlib.Data.List.Induction

/-! The names along a path. A path in normal form is its slashes in front and then names with single
slashes between them, and joining names to a path one by one gives such a path back. -/
namespace MarkupTally.Path

/-- A name that an entry of a folder can have. -/
structure IsName (name : String) : Prop where
  ne_empty : name ≠ ""
  ne_dot : name ≠ "."
  ne_dots : name ≠ ".."
  noSlash : '/' ∉ name.toList
  noNull : '\x00' ∉ name.toList

/-- A path from the top in normal form. -/
structure Canonical (path : String) : Prop where
  absolute : isAbsolute path = true
  normal : normalize path = path

/-- The names along a path. -/
def names (path : String) : List String := (parts path).filter (· ≠ "")

section Parts

variable {path part : String} {ns : List String}

theorem splitOnto_eq (part cs : List Char) :
    splitOnto part cs = cs.splitOnPPrepend (· == '/') part := by
  fun_induction splitOnto part cs with
  | case1 part => rfl
  | case2 part cs ih =>
    rw [ih, List.splitOnPPrepend_cons_eq_if]
    simp
  | case3 part c cs hc ih =>
    have hne : c ≠ '/' := hc
    rw [ih, List.splitOnPPrepend_cons_eq_if]
    simp [hne]

theorem noSlash_of_mem_splitOnto {part piece cs : List Char} (hpart : '/' ∉ part)
    (h : piece ∈ splitOnto part cs) : '/' ∉ piece := by
  fun_induction splitOnto part cs with
  | case1 part =>
    rw [List.mem_singleton.mp h]
    simpa using hpart
  | case2 part cs ih =>
    rcases List.mem_cons.mp h with rfl | h
    · simpa using hpart
    · exact ih (by simp) h
  | case3 part c cs hc ih => exact ih (by simpa using ⟨Ne.symm hc, hpart⟩) h

theorem noSlash_of_mem_parts (h : part ∈ parts path) : '/' ∉ part.toList := by
  obtain ⟨piece, hpiece, rfl⟩ := List.mem_map.mp h
  rw [String.toList_ofList]
  exact noSlash_of_mem_splitOnto (by simp) hpiece

theorem parts_intercalate (hns : ns ≠ []) (h : ∀ n ∈ ns, '/' ∉ n.toList) :
    parts ("/".intercalate ns) = ns := by
  have hchars : ∀ cs ∈ ns.map String.toList, '/' ∉ cs := by
    intro cs hcs
    obtain ⟨n, hn, rfl⟩ := List.mem_map.mp hcs
    exact h n hn
  have hslash : "/".toList = ['/'] := rfl
  have hsplit := List.splitOn_intercalate '/' hchars (by simpa using hns)
  rw [List.splitOn, List.splitOnP, ← splitOnto_eq, ← hslash, ← String.toList_intercalate] at hsplit
  rw [parts, hsplit, List.map_map]
  simp

theorem exists_mem_splitOnto {c : Char} {part cs : List Char} (hc : c ≠ '/')
    (h : c ∈ part ∨ c ∈ cs) : ∃ piece ∈ splitOnto part cs, c ∈ piece := by
  fun_induction splitOnto part cs with
  | case1 part => exact ⟨_, List.mem_singleton_self _, by simpa using h⟩
  | case2 part cs ih =>
    rcases h with h | h
    · exact ⟨_, List.mem_cons_self, List.mem_reverse.mpr h⟩
    · obtain ⟨piece, hpiece, hmem⟩ := ih (.inr ((List.mem_cons.mp h).resolve_left hc))
      exact ⟨piece, List.mem_cons_of_mem _ hpiece, hmem⟩
  | case3 part d cs _ ih =>
    refine ih ?_
    rcases h with h | h
    · exact .inl (List.mem_cons_of_mem _ h)
    · exact (List.mem_cons.mp h).imp_left fun hd => by simp [hd]

/-- No character of a path gets lost among its names, except the slashes. -/
theorem exists_mem_names {c : Char} (hc : c ≠ '/') (h : c ∈ path.toList) :
    ∃ n ∈ names path, c ∈ n.toList := by
  obtain ⟨piece, hpiece, hmem⟩ : ∃ piece ∈ splitOnto [] path.toList, c ∈ piece :=
    exists_mem_splitOnto hc (.inr h)
  have hmem : c ∈ (String.ofList piece).toList := by simpa using hmem
  have hne : String.ofList piece ≠ "" := by
    intro hempty
    rw [hempty] at hmem
    cases hmem
  exact ⟨_, List.mem_filter.mpr ⟨List.mem_map_of_mem hpiece, decide_eq_true hne⟩, hmem⟩

theorem parts_slash (path : String) : parts ("/" ++ path) = "" :: parts path := by
  simp [parts, splitOnto]

end Parts

section Normal

variable {path : String}

/-- What a stack of parts holds while a path from the top is put in normal form. -/
def Settled (stack : List String) : Prop :=
  ∀ n ∈ stack, n ≠ "" ∧ n ≠ "." ∧ n ≠ ".." ∧ '/' ∉ n.toList

theorem settled_push {stack : List String} {part : String} (h : Settled stack)
    (hpart : '/' ∉ part.toList) : Settled (push true stack part) := by
  unfold push
  split
  · exact h
  · rename_i hblank
    split
    · cases stack with
      | nil => exact h
      | cons top below =>
        obtain ⟨htop, hbelow⟩ := List.forall_mem_cons.mp h
        dsimp only
        rw [if_neg htop.2.2.1]
        exact hbelow
    · rename_i hdots
      rw [not_or] at hblank
      exact List.forall_mem_cons.mpr ⟨⟨hblank.1, hblank.2, hdots, hpart⟩, h⟩

theorem settled_foldl_push {ps stack : List String} (hps : ∀ p ∈ ps, '/' ∉ p.toList)
    (h : Settled stack) : Settled (ps.foldl (push true) stack) := by
  induction ps generalizing stack with
  | nil => exact h
  | cons p ps ih =>
    obtain ⟨hp, hps⟩ := List.forall_mem_cons.mp hps
    exact ih hps (settled_push h hp)

theorem lead_of_isAbsolute (h : isAbsolute path = true) : lead path = "/" ∨ lead path = "//" := by
  have hhead : path.toList.head? = some '/' := by simpa [isAbsolute] using h
  obtain ⟨cs, hcs⟩ := List.head?_eq_some_iff.mp hhead
  unfold lead
  rw [hcs]
  split
  · exact .inl rfl
  · exact .inr rfl
  · exact .inl rfl
  · rename_i hnot
    exact absurd rfl (hnot cs)

/-- The path is one or two slashes, and then the names. -/
def Leading (path : String) (ns : List String) : Prop :=
  path = "/" ++ "/".intercalate ns ∨ path = "//" ++ "/".intercalate ns

/-- The normal form of a path from the top is one or two slashes, and settled names. -/
theorem exists_leading_normalize (h : isAbsolute path = true) :
    ∃ ns, Settled ns ∧ Leading (normalize path) ns := by
  have hsettled : Settled ((parts path).foldl (push true) []).reverse := by
    intro n hn
    exact settled_foldl_push (fun p hp => noSlash_of_mem_parts hp) (fun n hn => absurd hn (by simp))
      n (List.mem_reverse.mp hn)
  refine ⟨_, hsettled, ?_⟩
  simp only [normalize, h]
  rcases lead_of_isAbsolute h with hlead | hlead
  · rw [hlead, if_neg (by simp)]
    exact .inl rfl
  · rw [hlead, if_neg (by simp)]
    exact .inr rfl

theorem names_eq {blanks ns : List String} (hblanks : ∀ b ∈ blanks, b = "")
    (hns : ∀ n ∈ ns, n ≠ "") (h : parts path = blanks ++ ns) : names path = ns := by
  have hnil : blanks.filter (· ≠ "") = [] :=
    List.filter_eq_nil_iff.mpr fun b hb => by simp [hblanks b hb]
  have hself : ns.filter (· ≠ "") = ns :=
    List.filter_eq_self.mpr fun n hn => decide_eq_true (hns n hn)
  rw [names, h, List.filter_append, hnil, hself, List.nil_append]

theorem Leading.parts_eq {ns : List String} (h : Leading path ns) (hns : Settled ns) :
    ∃ blanks, (∀ b ∈ blanks, b = "") ∧ parts path = blanks ++ ns := by
  have hbody : ∃ blanks, (∀ b ∈ blanks, b = "") ∧ parts ("/".intercalate ns) = blanks ++ ns := by
    by_cases hempty : ns = []
    · exact ⟨[""], by simp, by rw [hempty]; rfl⟩
    · exact ⟨[], by simp, parts_intercalate hempty fun n hn => (hns n hn).2.2.2⟩
  obtain ⟨blanks, hblanks, hbody⟩ := hbody
  rcases h with rfl | rfl
  · exact ⟨"" :: blanks, by simpa using hblanks, by rw [parts_slash, hbody]; rfl⟩
  · refine ⟨"" :: "" :: blanks, by simpa using hblanks, ?_⟩
    have hdouble : "//" ++ "/".intercalate ns = "/" ++ ("/" ++ "/".intercalate ns) := by
      rw [← String.append_assoc]
      rfl
    rw [hdouble, parts_slash, parts_slash, hbody]
    rfl

/-- The parts of a path in normal form are its names, after some that are empty. -/
theorem Canonical.parts_eq (h : Canonical path) :
    Settled (names path) ∧
      ∃ blanks, (∀ b ∈ blanks, b = "") ∧ parts path = blanks ++ names path := by
  obtain ⟨ns, hns, hleading⟩ := exists_leading_normalize h.absolute
  rw [h.normal] at hleading
  obtain ⟨blanks, hblanks, hparts⟩ := hleading.parts_eq hns
  rw [names_eq hblanks (fun n hn => (hns n hn).1) hparts]
  exact ⟨hns, blanks, hblanks, hparts⟩

/-- Settled names go on a stack as they are. -/
theorem Settled.foldl_push {ns : List String} (h : Settled ns) (stack : List String) :
    ns.foldl (push true) stack = ns.reverse ++ stack := by
  induction ns generalizing stack with
  | nil => rfl
  | cons n ns ih =>
    obtain ⟨hn, hns⟩ := List.forall_mem_cons.mp h
    have hpush : push true stack n = n :: stack := by simp [push, hn]
    rw [List.foldl_cons, hpush, ih hns]
    simp

theorem foldl_push_blanks {blanks : List String} (h : ∀ b ∈ blanks, b = "")
    (stack : List String) : blanks.foldl (push true) stack = stack := by
  induction blanks with
  | nil => rfl
  | cons b blanks ih =>
    obtain ⟨rfl, hblanks⟩ := List.forall_mem_cons.mp h
    exact ih hblanks

theorem Settled.head?_intercalate {ns : List String} (h : Settled ns) :
    ("/".intercalate ns).toList.head? ≠ some '/' := by
  cases ns with
  | nil => decide
  | cons n ns =>
    obtain ⟨⟨hempty, -, -, hslash⟩, -⟩ := List.forall_mem_cons.mp h
    have hne : n.toList ≠ [] := by simpa using hempty
    have hfirst : n.toList.head? ≠ some '/' := fun hhead => hslash (List.mem_of_mem_head? hhead)
    cases ns with
    | nil => simpa using hfirst
    | cons m ns =>
      rw [String.intercalate_cons_cons, String.append_assoc, String.toList_append,
        List.head?_append_of_ne_nil _ hne]
      exact hfirst

theorem lead_slash {body : String} (h : body.toList.head? ≠ some '/') :
    lead ("/" ++ body) = "/" := by
  have hchars : ("/" ++ body).toList = '/' :: body.toList := by simp
  rw [lead, hchars]
  cases hbody : body.toList with
  | nil => rfl
  | cons c cs =>
    have hc : c ≠ '/' := by simpa [hbody] using h
    simp [hc]

theorem lead_slashes {body : String} (h : body.toList.head? ≠ some '/') :
    lead ("//" ++ body) = "//" := by
  have hchars : ("//" ++ body).toList = '/' :: '/' :: body.toList := by simp
  rw [lead, hchars]
  cases hbody : body.toList with
  | nil => rfl
  | cons c cs =>
    have hc : c ≠ '/' := by simpa [hbody] using h
    simp [hc]

theorem Leading.canonical {ns : List String} (h : Leading path ns) (hns : Settled ns) :
    Canonical path := by
  have habsolute : isAbsolute path = true := by
    rcases h with rfl | rfl
    · simp [isAbsolute]
    · simp [isAbsolute]
  obtain ⟨blanks, hblanks, hparts⟩ := h.parts_eq hns
  refine ⟨habsolute, ?_⟩
  simp only [normalize, habsolute, hparts, List.foldl_append, foldl_push_blanks hblanks,
    hns.foldl_push, List.append_nil, List.reverse_reverse]
  rcases h with rfl | rfl
  · rw [lead_slash hns.head?_intercalate, if_neg (by simp)]
  · rw [lead_slashes hns.head?_intercalate, if_neg (by simp)]

theorem canonical_normalize (h : isAbsolute path = true) : Canonical (normalize path) := by
  obtain ⟨ns, hns, hleading⟩ := exists_leading_normalize h
  exact hleading.canonical hns

/-- A path from the top in normal form is read as itself. -/
theorem Canonical.absolute_eq (h : Canonical path) (cwd : String) :
    Path.absolute cwd path = path := by
  rw [Path.absolute, if_pos h.absolute, h.normal]

theorem isAbsolute_join {cwd : String} (hcwd : isAbsolute cwd = true) (path : String) :
    isAbsolute (join cwd path) = true := by
  have hhead : cwd.toList.head? = some '/' := by simpa [isAbsolute] using hcwd
  have hne : cwd.toList ≠ [] := by
    intro hnil
    rw [hnil] at hhead
    cases hhead
  have hempty : cwd.isEmpty = false := by simpa [String.isEmpty_iff] using hne
  cases hpath : isAbsolute path with
  | true => simp [join, hpath]
  | false =>
    have hmore (more : String) : isAbsolute (cwd ++ more) = true := by
      simp [isAbsolute, List.head?_append_of_ne_nil _ hne, hhead]
    simp only [join, hpath, hempty, Bool.or_self, Bool.false_eq_true, if_false]
    split
    · exact hmore path
    · rw [String.append_assoc]
      exact hmore _

theorem canonical_absolute {cwd : String} (hcwd : isAbsolute cwd = true) (path : String) :
    Canonical (absolute cwd path) := by
  refine canonical_normalize ?_
  split
  · assumption
  · exact isAbsolute_join hcwd path

end Normal

section Join

variable {name left right : String} {ns : List String}

/-- A path that has no slash at either end, and is not empty. -/
structure Solid (path : String) : Prop where
  ne_empty : path ≠ ""
  first : path.toList.head? ≠ some '/'
  last : path.toList.getLast? ≠ some '/'

theorem IsName.solid (h : IsName name) : Solid name where
  ne_empty := h.ne_empty
  first hhead := h.noSlash (List.mem_of_mem_head? hhead)
  last hlast := h.noSlash (List.mem_of_getLast? hlast)

theorem Solid.isAbsolute (h : Solid right) : isAbsolute right = false := by
  simpa [Path.isAbsolute] using h.first

@[simp] theorem empty_join (name : String) : join "" name = name := by
  simp [join]

theorem Solid.join_eq (h : Solid right) (hne : left ≠ "")
    (hlast : left.toList.getLast? ≠ some '/') : join left right = left ++ "/" ++ right := by
  simp [join, h.isAbsolute, hne, hlast]

theorem Solid.getLast?_append (h : Solid right) (left : String) :
    (left ++ right).toList.getLast? = right.toList.getLast? := by
  have hne : right.toList ≠ [] := by simpa using h.ne_empty
  rw [String.toList_append, List.getLast?_append_of_ne_nil _ hne]

theorem Solid.slash (hl : Solid left) (hr : Solid right) : Solid (left ++ "/" ++ right) where
  ne_empty := by simp [hl.ne_empty]
  first := by
    have hne : left.toList ≠ [] := by simpa using hl.ne_empty
    rw [String.append_assoc, String.toList_append, List.head?_append_of_ne_nil _ hne]
    exact hl.first
  last := by
    rw [hr.getLast?_append]
    exact hr.last

theorem Solid.join_root {root : String} (hroot : root ≠ "") (h : Solid right) :
    join root right = root ++ ((if root.toList.getLast? = some '/' then "" else "/") ++ right) := by
  by_cases hlast : root.toList.getLast? = some '/'
  · simp [join, h.isAbsolute, hroot, hlast]
  · simp [join, h.isAbsolute, hroot, hlast, String.append_assoc]

theorem join_join (root : String) (hl : Solid left) (hr : Solid right) :
    join (join root left) right = join root (left ++ "/" ++ right) := by
  by_cases hroot : root = ""
  · rw [hroot, empty_join, empty_join, hr.join_eq hl.ne_empty hl.last]
  · rw [hl.join_root hroot, (hl.slash hr).join_root hroot, ← String.append_assoc, hr.join_eq]
    · simp only [String.append_assoc]
    · simp [hl.ne_empty]
    · rw [hl.getLast?_append]
      exact hl.last

/-- Joining names to a path one by one joins the path of the names to it. -/
theorem foldl_join (root : String) (hns : ns ≠ []) (h : ∀ n ∈ ns, IsName n) :
    Solid ("/".intercalate ns) ∧ ns.foldl join root = join root ("/".intercalate ns) := by
  induction ns using List.reverseRecOn with
  | nil => exact absurd rfl hns
  | append_singleton ns name ih =>
    have hname := (h name (by simp)).solid
    by_cases hempty : ns = []
    · subst hempty
      simpa using hname
    · obtain ⟨hsolid, hfold⟩ := ih hempty fun n hn => h n (by simp [hn])
      rw [String.intercalate_append_of_ne_nil hempty (by simp), String.intercalate_singleton,
        List.foldl_append, hfold]
      exact ⟨hsolid.slash hname, join_join root hsolid hname⟩

end Join

section Extension

variable {name : String}

theorem baseName_eq (h : '/' ∉ name.toList) : baseName name = name := by
  have hparts : parts ("/".intercalate [name]) = [name] :=
    parts_intercalate (by simp) (by simpa using h)
  rw [String.intercalate_singleton] at hparts
  rw [baseName, hparts]
  rfl

/-- A name has an extension if its last dot comes after a character that is no dot. -/
theorem extension_eq {stem tail : List Char} (hslash : '/' ∉ name.toList)
    (hname : name.toList = stem ++ '.' :: tail) (hstem : ∃ c ∈ stem, c ≠ '.') (htail : '.' ∉ tail) :
    extension name = String.ofList ('.' :: tail) := by
  have hreversed : name.toList.reverse = tail.reverse ++ '.' :: stem.reverse := by simp [hname]
  have htake : ∀ c ∈ tail.reverse, (c != '.') = true := by
    intro c hc
    simp only [bne_iff_ne, ne_eq]
    rintro rfl
    exact htail (List.mem_reverse.mp hc)
  have hany : stem.reverse.any (· != '.') = true := by simpa using hstem
  simp only [extension, baseName_eq hslash, hreversed, List.takeWhile_append_of_pos htake,
    List.dropWhile_append_of_pos htake]
  simp [hstem]

theorem exists_stem (hslash : '/' ∉ name.toList) (h : extension name ≠ "") :
    ∃ stem tail, name.toList = stem ++ '.' :: tail ∧ (∃ c ∈ stem, c ≠ '.') ∧
      extension name = String.ofList ('.' :: tail) := by
  simp only [extension, baseName_eq hslash] at h ⊢
  split at h
  case isFalse => exact absurd rfl h
  case isTrue hany =>
    rw [if_pos hany]
    obtain ⟨c, hc, hdot⟩ := List.any_eq_true.mp hany
    have hjoin := List.takeWhile_append_dropWhile (p := (· != '.')) (l := name.toList.reverse)
    generalize name.toList.reverse.takeWhile (· != '.') = tail at hjoin ⊢
    have hhead := List.head?_dropWhile_not (· != '.') name.toList.reverse
    generalize name.toList.reverse.dropWhile (· != '.') = rest at hjoin hhead hc
    cases rest with
    | nil => cases hc
    | cons d stem =>
      have hd : d = '.' := by simpa using hhead
      subst hd
      refine ⟨stem.reverse, tail.reverse, ?_, ⟨c, by simpa using hc, by simpa using hdot⟩, rfl⟩
      have hname := congrArg List.reverse hjoin
      simpa using hname.symm

theorem eq_dot_of_toLower {c : Char} (h : c.toLower = '.') : c = '.' := by
  unfold Char.toLower at h
  split at h
  · -- a capital letter becomes a small one, and the dot comes before both
    rename_i hupper
    have hlow : 65 ≤ c.val.toNat := UInt32.le_iff_toNat_le.mp hupper.1
    have hhigh : c.val.toNat ≤ 90 := UInt32.le_iff_toNat_le.mp hupper.2
    have hval : (c.val + ('a'.val - 'A'.val)).toNat = '.'.val.toNat :=
      congrArg (fun d : Char => d.val.toNat) h
    have hgap : ('a'.val - 'A'.val).toNat = 32 := by decide
    have hdot : '.'.val.toNat = 46 := by decide
    rw [UInt32.toNat_add] at hval
    omega
  · exact h

/-- The extension of a name, up to case, is any end that begins with the last dot. -/
theorem extension_toLower_iff {low : String} {tail : List Char} (hslash : '/' ∉ name.toList)
    (hlow : low.toList = '.' :: tail) (htail : '.' ∉ tail) :
    (extension name).map Char.toLower = low ↔
      ∃ stem ext : String, name = stem ++ ext ∧ (∃ c ∈ stem.toList, c ≠ '.') ∧
        ext.map Char.toLower = low := by
  constructor
  · intro h
    have hne : extension name ≠ "" := by
      intro hempty
      rw [← h, hempty, String.toList_map] at hlow
      cases hlow
    obtain ⟨stem, end', hname, hstem, hext⟩ := exists_stem hslash hne
    refine ⟨String.ofList stem, String.ofList ('.' :: end'), ?_, by simpa using hstem, hext ▸ h⟩
    rw [← String.ofList_append, ← hname, String.ofList_toList]
  · rintro ⟨stem, ext, hname, hstem, hext⟩
    have hchars : ext.toList.map Char.toLower = '.' :: tail := by
      rw [← hlow, ← hext, String.toList_map]
    obtain ⟨d, end', hends, hd, hend⟩ := List.map_eq_cons_iff.mp hchars
    have hdot : d = '.' := eq_dot_of_toLower hd
    have hnodot : '.' ∉ end' := by
      intro hmem
      refine htail ?_
      rw [← hend]
      exact List.mem_map.mpr ⟨'.', hmem, rfl⟩
    have hfull : name.toList = stem.toList ++ '.' :: end' := by
      rw [hname, String.toList_append, hends, hdot]
    rw [extension_eq hslash hfull hstem hnodot, ← hext, ← hdot, ← hends, String.ofList_toList]

end Extension

end MarkupTally.Path
