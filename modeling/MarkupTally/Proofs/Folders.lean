import MarkupTally.Proofs.Paths
import MarkupTally.Proofs.Skipping

/-! Trees of files and folders. Without links a path in normal form leads to what is at its names,
and the order in which folders list their entries cannot be seen from the paths of the files. -/
namespace MarkupTally

namespace Entry

/-- A tree of files and folders, without links. The names in a folder differ from each other. -/
inductive Plain : Entry → Prop where
  | file (bytes : List UInt8) : Plain (.file bytes)
  | folder {es : List (String × Entry)} (names : ∀ x ∈ es, Path.IsName x.1)
      (distinct : (es.map Prod.fst).Nodup) (below : ∀ x ∈ es, Plain x.2) : Plain (.folder es)

/-- The same files and folders, some of the folders with their entries in another order. -/
inductive Relisted : Entry → Entry → Prop where
  | same (e : Entry) : Relisted e e
  | reorder {es es' : List (String × Entry)} (h : es.Perm es') : Relisted (.folder es) (.folder es')
  | inside (before after : List (String × Entry)) (name : String) {e e' : Entry}
      (h : Relisted e e') :
      Relisted (.folder (before ++ (name, e) :: after)) (.folder (before ++ (name, e') :: after))
  | trans {e e' e'' : Entry} (h : Relisted e e') (h' : Relisted e' e'') : Relisted e e''

variable {e x : Entry} {es : List (String × Entry)} {name : String} {ns ms : List String}

theorem find?_folder_iff (h : (es.map Prod.fst).Nodup) :
    (folder es).find? name = some x ↔ (name, x) ∈ es := by
  simp only [find?, entries]
  induction es with
  | nil => simp
  | cons y es ih =>
    obtain ⟨hy, hes⟩ := List.nodup_cons.mp (List.map_cons ▸ h)
    rw [List.find?_cons]
    by_cases hname : y.1 = name
    · have hnot : (name, x) ∉ es := by
        rw [← hname]
        exact fun hmem => hy (List.mem_map.mpr ⟨_, hmem, rfl⟩)
      simp only [hname, beq_self_eq_true, Option.map_some, Option.some.injEq, List.mem_cons, hnot,
        or_false]
      constructor
      · rintro rfl
        rw [← hname]
      · rintro rfl
        rfl
    · have hne : ¬(name, x) = y := fun heq => hname (by rw [← heq])
      simp only [beq_eq_false_iff_ne.mpr hname, ih hes, List.mem_cons, hne, false_or]

theorem at?_append (e : Entry) (ns ms : List String) :
    e.at? (ns ++ ms) = (e.at? ns).bind fun x => x.at? ms := by
  induction ns generalizing e with
  | nil => rfl
  | cons n ns ih => simp only [List.cons_append, at?, ih, Option.bind_assoc]

theorem at?_folder_iff (h : (es.map Prod.fst).Nodup) :
    (folder es).at? (name :: ns) = some x ↔ ∃ y, (name, y) ∈ es ∧ y.at? ns = some x := by
  simp only [at?, Option.bind_eq_some_iff, find?_folder_iff h]

theorem at?_file_cons (bytes : List UInt8) (name : String) (ns : List String) :
    (file bytes).at? (name :: ns) = none := rfl

/-- All that can be reached in a tree is a tree, under names. -/
theorem Plain.of_at? (he : e.Plain) (h : e.at? ns = some x) :
    (∀ n ∈ ns, Path.IsName n) ∧ x.Plain := by
  induction ns generalizing e with
  | nil =>
    cases Option.some.inj h
    exact ⟨by simp, he⟩
  | cons n ns ih =>
    cases he with
    | file bytes => cases h
    | folder names distinct below =>
      obtain ⟨y, hy, hx⟩ := (at?_folder_iff distinct).mp h
      obtain ⟨hns, hplain⟩ := ih (below _ hy) hx
      exact ⟨List.forall_mem_cons.mpr ⟨names _ hy, hns⟩, hplain⟩

theorem Relisted.plain {e e' : Entry} (h : Relisted e e') (he : e.Plain) : e'.Plain := by
  induction h with
  | same => exact he
  | reorder h =>
    cases he with
    | folder names distinct below =>
      exact .folder (fun x hx => names x (h.mem_iff.mpr hx)) ((h.map _).nodup_iff.mp distinct)
        fun x hx => below x (h.mem_iff.mpr hx)
  | inside before after name _ ih =>
    cases he with
    | folder names distinct below =>
      simp only [List.forall_mem_append, List.forall_mem_cons] at names below
      refine .folder ?_ ?_ ?_
      · simpa only [List.forall_mem_append, List.forall_mem_cons] using names
      · simpa using distinct
      · simp only [List.forall_mem_append, List.forall_mem_cons]
        exact ⟨below.1, ih below.2.1, below.2.2⟩
  | trans _ _ ih ih' => exact ih' (ih he)

/-- The files are where they were. -/
theorem Relisted.at?_iff {e e' : Entry} (h : Relisted e e') (he : e.Plain) {bytes : List UInt8}
    (ns : List String) : e.at? ns = some (.file bytes) ↔ e'.at? ns = some (.file bytes) := by
  induction h generalizing ns with
  | same => rfl
  | @reorder es es' h =>
    cases ns with
    | nil => simp [at?]
    | cons n ns =>
      have he' := (Relisted.reorder h).plain he
      cases he with
      | folder _ distinct _ =>
        cases he' with
        | folder _ distinct' _ =>
          rw [at?_folder_iff distinct, at?_folder_iff distinct']
          simp only [h.mem_iff]
  | inside before after name h ih =>
    cases ns with
    | nil => simp [at?]
    | cons n ns =>
      have he' := (Relisted.inside before after name h).plain he
      cases he with
      | folder _ distinct below =>
        cases he' with
        | folder _ distinct' _ =>
          have hbelow := ih (below (name, _) (by simp)) ns
          rw [at?_folder_iff distinct, at?_folder_iff distinct']
          simp only [List.mem_append, List.mem_cons, Prod.mk.injEq]
          constructor
          · rintro ⟨y, hy | ⟨rfl, rfl⟩ | hy, hx⟩
            · exact ⟨y, .inl hy, hx⟩
            · exact ⟨_, .inr (.inl ⟨rfl, rfl⟩), hbelow.mp hx⟩
            · exact ⟨y, .inr (.inr hy), hx⟩
          · rintro ⟨y, hy | ⟨rfl, rfl⟩ | hy, hx⟩
            · exact ⟨y, .inl hy, hx⟩
            · exact ⟨_, .inr (.inl ⟨rfl, rfl⟩), hbelow.mpr hx⟩
            · exact ⟨y, .inr (.inr hy), hx⟩
  | trans h _ ih ih' => exact (ih he ns).trans (ih' (h.plain he) ns)

end Entry

namespace Volume

variable {v : Volume} {root : String} {links : Nat} {here todo : List String}

theorem locate_nullPath (h : '\x00' ∈ root.toList) : v.locate root = .error .nullPath := by
  have hnonempty : root ≠ "" := by
    rintro rfl
    cases h
  simp [locate, hnonempty, h]

theorem follow_blanks {blanks : List String} (h : ∀ b ∈ blanks, b = "") :
    v.follow links here (blanks ++ todo) = v.follow links here todo := by
  induction blanks with
  | nil => rfl
  | cons b blanks ih =>
    obtain ⟨hb, hblanks⟩ := List.forall_mem_cons.mp h
    rw [List.cons_append, follow, if_pos (.inl hb), ih hblanks]

/-- Without links the way along names leads to what is at these names, if anything is. -/
theorem follow_names (hv : v.root.Plain) (h : Path.Settled todo) :
    (∀ e, v.root.at? (here ++ todo) = some e → v.follow links here todo = .ok (here ++ todo, e)) ∧
      (v.root.at? (here ++ todo) = none → ∃ f, v.follow links here todo = .error f) := by
  induction todo generalizing here with
  | nil =>
    rw [List.append_nil, follow]
    cases v.root.at? here with
    | none => exact ⟨fun e he => absurd he (by simp), fun _ => ⟨_, rfl⟩⟩
    | some e => simp
  | cons n rest ih =>
    obtain ⟨⟨hempty, hdot, hdots, -⟩, hrest⟩ := List.forall_mem_cons.mp h
    have hat : v.root.at? (here ++ [n]) = (v.root.at? here).bind fun x => x.find? n := by
      rw [Entry.at?_append]
      simp [Entry.at?]
    have happend : here ++ n :: rest = (here ++ [n]) ++ rest := by simp
    rw [follow, if_neg (by simp [hempty, hdot]), if_neg hdots, ← hat, happend]
    cases hx : v.root.at? (here ++ [n]) with
    | none =>
      rw [Entry.at?_append, hx]
      exact ⟨fun e he => absurd he (by simp), fun _ => ⟨_, rfl⟩⟩
    | some x =>
      obtain ⟨-, hplain⟩ := hv.of_at? hx
      cases hplain with
      | folder _ _ _ => exact ih hrest
      | file bytes =>
        rw [Entry.at?_append, hx]
        cases rest with
        | nil => simp [Entry.at?]
        | cons m rest =>
          exact ⟨fun e he => absurd he (by simp [Entry.at?_file_cons]), fun _ => ⟨_, rfl⟩⟩

theorem locate_canonical (hv : v.root.Plain) (hroot : Path.Canonical root)
    (hnull : '\x00' ∉ root.toList) :
    (∀ e, v.root.at? (Path.names root) = some e → v.locate root = .ok (Path.names root, e)) ∧
      (v.root.at? (Path.names root) = none → ∃ f, f ≠ .nullPath ∧ v.locate root = .error f) := by
  obtain ⟨hsettled, blanks, hblanks, hparts⟩ := hroot.parts_eq
  have hnonempty : root ≠ "" := by
    rintro rfl
    exact absurd hroot.absolute (by decide)
  have hlocate : v.locate root = v.follow linkLimit [] (Path.names root) := by
    simp [locate, hnonempty, hnull, hroot.absolute, hparts, follow_blanks hblanks]
  have hfollow := @follow_names v linkLimit [] _ hv hsettled
  rw [List.nil_append, ← hlocate] at hfollow
  refine ⟨hfollow.1, fun hnone => ?_⟩
  obtain ⟨f, hf⟩ := hfollow.2 hnone
  refine ⟨f, ?_, hf⟩
  rintro rfl
  exact follow_ne_nullPath v _ _ _ (hlocate ▸ hf)

end Volume

end MarkupTally
