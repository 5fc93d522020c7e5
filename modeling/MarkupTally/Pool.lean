/-! A pool of workers that take tasks in the order of their submission and finish them in any, and a
reader who takes their results in the order of the tasks. -/
namespace MarkupTally

/-- The tasks of a pool, what a worker makes of one, the results after which the reader asks for no
more, and the number of workers. -/
structure Pool (α β : Type) where
  size : Nat
  work : α → β
  stops : β → Bool
  tasks : List α

namespace Pool

inductive Move where
  /-- A free worker takes the next task. -/
  | start
  /-- The worker on the given task is done with it. -/
  | finish (task : Nat)
  /-- The reader takes the result of the next task. -/
  | take
  /-- The reader closes the pool: tasks that nobody has taken are dropped. -/
  | close
  deriving DecidableEq, Repr

/-- How far a pool has come: the number of tasks taken, the tasks in work, the results by task, the
results that the reader has, and whether the pool is closed. -/
structure State (β : Type) where
  started : Nat := 0
  running : List Nat := []
  results : List (Nat × β) := []
  handed : List β := []
  closed : Bool := false

namespace State

variable {β : Type}

/-- The pool is closed and its workers are at rest. -/
def ended (s : State β) : Bool := s.closed && s.running.isEmpty

/-- The moves that may be possible, those of the reader and of free workers first. -/
def moves (s : State β) : List Move := [.take, .start] ++ s.running.map .finish ++ [.close]

end State

variable {α β : Type}

/-- The reader has a result that stops, or the results of all tasks. -/
def through (p : Pool α β) (s : State β) : Bool :=
  s.handed.any p.stops || decide (p.tasks.length ≤ s.handed.length)

/-- One move of a pool; a move that cannot be made gives nothing. -/
def step (p : Pool α β) (s : State β) : Move → Option (State β)
  | .start =>
    if !s.closed ∧ s.running.length < p.size ∧ s.started < p.tasks.length then
      some { s with started := s.started + 1, running := s.running ++ [s.started] }
    else none
  | .finish i =>
    if i ∈ s.running then
      p.tasks[i]?.map fun a =>
        { s with running := s.running.erase i, results := s.results ++ [(i, p.work a)] }
    else none
  | .take =>
    if p.through s then none
    else
      (s.results.find? fun r => r.1 == s.handed.length).map fun r =>
        { s with handed := s.handed ++ [r.2] }
  | .close => if p.through s ∧ !s.closed then some { s with closed := true } else none

def steps (p : Pool α β) (s : State β) : List Move → Option (State β)
  | [] => some s
  | m :: ms => (p.step s m).bind fun t => p.steps t ms

/-- What the reader has after the given moves; nothing if they cannot be made, or if the pool has
not ended with them. -/
def run (p : Pool α β) (moves : List Move) : Option (List β) :=
  (p.steps {} moves).bind fun s => if s.ended then some s.handed else none

/-- A bound on the number of moves to come. -/
def left (p : Pool α β) (s : State β) : Nat :=
  2 * (p.tasks.length - s.started) + s.running.length + (p.tasks.length - s.handed.length) +
    if s.closed then 0 else 1

/-- Everything that a move can do, and when it can be made. -/
theorem step_cases {p : Pool α β} {s t : State β} {m : Move} (h : p.step s m = some t) :
    (m = .start ∧ s.closed = false ∧ s.running.length < p.size ∧ s.started < p.tasks.length ∧
      t = { s with started := s.started + 1, running := s.running ++ [s.started] }) ∨
    (∃ i a, m = .finish i ∧ i ∈ s.running ∧ p.tasks[i]? = some a ∧
      t = { s with running := s.running.erase i, results := s.results ++ [(i, p.work a)] }) ∨
    (∃ b, m = .take ∧ p.through s = false ∧ (s.handed.length, b) ∈ s.results ∧
      t = { s with handed := s.handed ++ [b] }) ∨
    (m = .close ∧ p.through s = true ∧ s.closed = false ∧ t = { s with closed := true }) := by
  cases m with
  | start =>
    simp only [step] at h
    split at h
    · rename_i hs
      exact .inl ⟨rfl, by simpa using hs.1, hs.2.1, hs.2.2, (Option.some.inj h).symm⟩
    · cases h
  | finish i =>
    simp only [step] at h
    split at h
    · rename_i hi
      obtain ⟨a, ha, rfl⟩ := Option.map_eq_some_iff.mp h
      exact .inr (.inl ⟨i, a, rfl, hi, ha, rfl⟩)
    · cases h
  | take =>
    simp only [step] at h
    split at h
    · cases h
    · rename_i ht
      obtain ⟨⟨i, b⟩, hr, rfl⟩ := Option.map_eq_some_iff.mp h
      have hi : i = s.handed.length := by simpa using List.find?_some hr
      exact .inr (.inr (.inl ⟨b, rfl, by simpa using ht, hi ▸ List.mem_of_find?_eq_some hr, rfl⟩))
  | close =>
    simp only [step] at h
    split at h
    · rename_i hs
      exact .inr (.inr (.inr ⟨rfl, hs.1, by simpa using hs.2, (Option.some.inj h).symm⟩))
    · cases h

theorem length_lt_of_not_through {p : Pool α β} {s : State β} (h : p.through s = false) :
    s.handed.length < p.tasks.length := by
  simp only [through, Bool.or_eq_false_iff, decide_eq_false_iff_not] at h
  omega

theorem left_lt_of_step {p : Pool α β} {s t : State β} {m : Move} (h : p.step s m = some t) :
    p.left t < p.left s := by
  obtain ⟨-, -, -, hn, rfl⟩ | ⟨i, a, -, hi, -, rfl⟩ | ⟨b, -, ht, -, rfl⟩ | ⟨-, -, hc, rfl⟩ :=
    step_cases h
  · simp only [left, List.length_append, List.length_singleton]
    omega
  · have hpos := List.length_pos_of_mem hi
    simp only [left, List.length_erase_of_mem hi]
    omega
  · have hlt := length_lt_of_not_through ht
    simp only [left, List.length_append, List.length_singleton]
    omega
  · simp [left, hc]

/-- Goes on until no move is left, always with the first one that is possible: workers finish in the
order in which they started. -/
def inTurn (p : Pool α β) (s : State β) : State β :=
  match _h : s.moves.findSome? (p.step s) with
  | none => s
  | some t => p.inTurn t
termination_by p.left s
decreasing_by
  obtain ⟨m, -, hm⟩ := List.exists_of_findSome?_eq_some _h
  exact left_lt_of_step hm

/-- The results of doing one task after the other, up to the first that stops. -/
def serial (work : α → β) (stops : β → Bool) : List α → List β
  | [] => []
  | a :: tasks =>
    let b := work a
    if stops b then [b] else b :: serial work stops tasks

end Pool

end MarkupTally
