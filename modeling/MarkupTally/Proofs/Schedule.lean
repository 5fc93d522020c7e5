import MarkupTally.Pool

/-! Schedules of a pool. Whatever moves the workers make, the reader gets the results that a single
worker would have made, in order and up to the first that stops. No schedule goes on forever, and
none gets stuck before the pool has ended. -/
namespace MarkupTally.Pool

variable {α β : Type} {p : Pool α β} {s t : State β} {m : Move} {moves : List Move}

/-- What a single worker would still hand over. -/
def pending (p : Pool α β) (s : State β) : List β :=
  if p.through s then [] else serial p.work p.stops (p.tasks.drop s.handed.length)

/-- What holds at every time of a schedule. -/
structure Inv (p : Pool α β) (s : State β) : Prop where
  started : s.started ≤ p.tasks.length
  running : ∀ i ∈ s.running, i < s.started
  /-- A result is that of its own task. -/
  results : ∀ r ∈ s.results, p.tasks[r.1]?.map p.work = some r.2
  /-- A task that was taken is in work or done. -/
  taken : ∀ i < s.started, i ∈ s.running ∨ ∃ b, (i, b) ∈ s.results
  closed : s.closed = true → p.through s = true
  handed : s.handed ++ p.pending s = serial p.work p.stops p.tasks

theorem inv_init (p : Pool α β) : Inv p {} where
  started := Nat.zero_le _
  running := by simp
  results := by simp
  taken := by simp
  closed := by simp
  handed := by
    unfold pending
    split
    · rename_i h
      have hnil : p.tasks = [] := by simpa [through] using h
      simp [hnil, serial]
    · simp

/-- The reader's next result is the next one of a single worker. -/
theorem pending_take {a : α} (ht : p.through s = false) (ha : p.tasks[s.handed.length]? = some a) :
    p.pending s = p.work a :: p.pending { s with handed := s.handed ++ [p.work a] } := by
  obtain ⟨hlt, rfl⟩ := List.getElem?_eq_some_iff.mp ha
  have hany : s.handed.any p.stops = false := by
    simp only [through, Bool.or_eq_false_iff] at ht
    exact ht.1
  unfold pending
  rw [ht, List.drop_eq_getElem_cons hlt]
  simp only [Bool.false_eq_true, if_false, serial, through, List.any_append, hany, List.any_cons,
    List.any_nil, Bool.false_or, Bool.or_false, List.length_append, List.length_singleton]
  by_cases hs : p.stops (p.work p.tasks[s.handed.length]) = true
  · simp [hs]
  · by_cases hn : p.tasks.length ≤ s.handed.length + 1
    · simp [hs, hn, List.drop_eq_nil_of_le hn, serial]
    · simp [hs, hn]

theorem inv_step (hi : Inv p s) (h : p.step s m = some t) : Inv p t := by
  obtain ⟨-, -, -, hn, rfl⟩ | ⟨i, a, -, hr, ha, rfl⟩ | ⟨b, -, ht, hr, rfl⟩ | ⟨-, ht, -, rfl⟩ :=
    step_cases h
  -- a worker takes a task: what is new is the task in work
  · refine ⟨hn, ?_, hi.results, ?_, hi.closed, hi.handed⟩
    · intro i hr
      rcases List.mem_append.mp hr with hr | hr
      · exact Nat.lt_succ_of_lt (hi.running i hr)
      · exact Nat.lt_succ_of_le (Nat.le_of_eq (List.mem_singleton.mp hr))
    · intro i hlt
      rcases Nat.lt_succ_iff_lt_or_eq.mp hlt with hlt | rfl
      · exact (hi.taken i hlt).imp_left (List.mem_append_left _)
      · exact .inl (List.mem_append_right _ (List.mem_singleton_self _))
  -- a worker is done: its task has changed from one side of `taken` to the other
  · refine ⟨hi.started, ?_, ?_, ?_, hi.closed, hi.handed⟩
    · exact fun j hj => hi.running j (List.mem_of_mem_erase hj)
    · intro r hr
      rcases List.mem_append.mp hr with hr | hr
      · exact hi.results r hr
      · cases List.mem_singleton.mp hr
        simp [ha]
    · intro j hlt
      by_cases hji : j = i
      · exact .inr ⟨p.work a, by simp [hji]⟩
      · rcases hi.taken j hlt with hj | ⟨b, hb⟩
        · exact .inl ((List.mem_erase_of_ne hji).mpr hj)
        · exact .inr ⟨b, List.mem_append_left _ hb⟩
  -- the reader takes a result: it is the first one that was pending
  · obtain ⟨a, ha, rfl⟩ := Option.map_eq_some_iff.mp (hi.results _ hr)
    refine ⟨hi.started, hi.running, hi.results, hi.taken, ?_, ?_⟩
    · intro hc
      rw [hi.closed hc] at ht
      cases ht
    · rw [List.append_assoc, List.singleton_append, ← pending_take ht ha]
      exact hi.handed
  · exact ⟨hi.started, hi.running, hi.results, hi.taken, fun _ => ht, hi.handed⟩

theorem inv_steps (hi : Inv p s) (h : p.steps s moves = some t) : Inv p t := by
  induction moves generalizing s with
  | nil => exact Option.some.inj h ▸ hi
  | cons m moves ih =>
    obtain ⟨u, hu, h⟩ := Option.bind_eq_some_iff.mp h
    exact ih (inv_step hi hu) h

/-- At every time the reader has a first part of what a single worker hands over. -/
theorem Inv.handed_first (hi : Inv p s) : s.handed <+: serial p.work p.stops p.tasks :=
  ⟨_, hi.handed⟩

theorem Inv.handed_eq (hi : Inv p s) (ht : p.through s = true) :
    s.handed = serial p.work p.stops p.tasks := by
  simpa [pending, ht] using hi.handed

theorem run_eq_serial {done : List β} (h : p.run moves = some done) :
    done = serial p.work p.stops p.tasks := by
  obtain ⟨s, hs, h⟩ := Option.bind_eq_some_iff.mp h
  have hi := inv_steps (inv_init p) hs
  split at h
  · rename_i hend
    cases h
    simp only [State.ended, Bool.and_eq_true] at hend
    exact hi.handed_eq (hi.closed hend.1)
  · cases h

/-- A pool with workers that can make no move has ended. -/
theorem Inv.ended_of_stuck (hi : Inv p s) (hp : 0 < p.size) (h : ∀ m, p.step s m = none) :
    s.ended = true := by
  have hrun : s.running = [] := by
    cases hr : s.running with
    | nil => rfl
    | cons i rest =>
      have hmem : i ∈ s.running := by simp [hr]
      have hlt : i < p.tasks.length := Nat.lt_of_lt_of_le (hi.running i hmem) hi.started
      have := h (.finish i)
      simp [step, hmem, hlt] at this
  have ht : p.through s = true := by
    cases ht : p.through s with
    | true => rfl
    | false =>
      have hlt := length_lt_of_not_through ht
      have hc : s.closed = false := by
        cases hc : s.closed with
        | false => rfl
        | true => exact absurd (hi.closed hc) (by simp [ht])
      -- the next result is there, or a worker is free to make it
      by_cases hk : s.handed.length < s.started
      · obtain ⟨b, hb⟩ := (hi.taken _ hk).resolve_left (by simp [hrun])
        have htake := h .take
        simp only [step, ht, Bool.false_eq_true, if_false, Option.map_eq_none_iff,
          List.find?_eq_none] at htake
        exact absurd (beq_self_eq_true _) (htake _ hb)
      · have hs : s.started < p.tasks.length := by omega
        have hstart := h .start
        simp [step, hc, hrun, hp, hs] at hstart
  have hclose := h .close
  have hc : s.closed = true := by simpa [step, ht] using hclose
  simp [State.ended, hrun, hc]

theorem run_of_stuck (hp : 0 < p.size) (hs : p.steps {} moves = some s)
    (h : ∀ m, p.step s m = none) : p.run moves = some (serial p.work p.stops p.tasks) := by
  have hi := inv_steps (inv_init p) hs
  have hend := hi.ended_of_stuck hp h
  have hrun : p.run moves = some s.handed := by simp [run, hs, hend]
  rw [hrun, run_eq_serial hrun]

theorem length_add_left_le (h : p.steps s moves = some t) : moves.length + p.left t ≤ p.left s := by
  induction moves generalizing s with
  | nil => cases Option.some.inj h; simp
  | cons m moves ih =>
    obtain ⟨u, hu, h⟩ := Option.bind_eq_some_iff.mp h
    have hlt := left_lt_of_step hu
    have hle := ih h
    simp only [List.length_cons]
    omega

theorem length_le_of_steps (h : p.steps {} moves = some s) :
    moves.length ≤ 3 * p.tasks.length + 1 := by
  have hle := length_add_left_le h
  have hinit : p.left {} = 3 * p.tasks.length + 1 := by
    simp only [left, List.length_nil, Bool.false_eq_true, if_false]
    omega
  omega

theorem step_inTurn (p : Pool α β) (s : State β) (m : Move) : p.step (p.inTurn s) m = none := by
  fun_induction inTurn p s with
  | case1 s h =>
    have hall := List.findSome?_eq_none_iff.mp h
    cases m with
    | start => exact hall _ (by simp [State.moves])
    | take => exact hall _ (by simp [State.moves])
    | close => exact hall _ (by simp [State.moves])
    | finish i =>
      by_cases hi : i ∈ s.running
      · exact hall _ (by simp [State.moves, hi])
      · simp [step, hi]
  | case2 s t h ih => exact ih

theorem exists_steps_inTurn (p : Pool α β) (s : State β) :
    ∃ moves, p.steps s moves = some (p.inTurn s) := by
  fun_induction inTurn p s with
  | case1 s h => exact ⟨[], rfl⟩
  | case2 s t h ih =>
    obtain ⟨m, -, hm⟩ := List.exists_of_findSome?_eq_some h
    obtain ⟨moves, hmoves⟩ := ih
    exact ⟨m :: moves, by simp [steps, hm, hmoves]⟩

/-- The pool in turn keeps to a schedule, and brings it to its end. -/
theorem exists_run_inTurn (hp : 0 < p.size) :
    ∃ moves, p.run moves = some (p.inTurn {}).handed := by
  obtain ⟨moves, h⟩ := exists_steps_inTurn p {}
  have hend := (inv_steps (inv_init p) h).ended_of_stuck hp (step_inTurn p {})
  exact ⟨moves, by simp [run, h, hend]⟩

end MarkupTally.Pool
