import GraphSchema.Proofs.Threads.Steps

/-! What a cell promises to the threads that force it, whatever order they take their
steps in: its computation is started once, the calls agree on one value, and nobody
is left asleep once the outcome is there. -/
namespace GraphSchema.Threads

variable {α : Type} {computations : Nat → Computation α} {s s' : State α} {t : Nat}

/-! ### A settled cell stays as it is -/

theorem settled_move (h : Orderly s) (move : Move computations s t s') {c : Nat}
    (settled : (s.cells c).isSettled) : s'.cells c = s.cells c := by
  cases move with
  | rest | observe | answer | sleep => rfl
  | settle awake top ends =>
    rename_i cell ended frames outcome
    have held : s.cells cell = .resolving t := (h.owned cell t).mpr (by simp [Thread.running, top])
    have other : c ≠ cell := by
      rintro rfl
      simp [held, Cell.isSettled] at settled
    exact update_of_ne _ _ other
  | start looks pending =>
    rename_i cell
    have other : c ≠ cell := by
      rintro rfl
      simp [pending, Cell.isSettled] at settled
    exact update_of_ne _ _ other

theorem settled_through (h : Orderly s) (events : List Event) {c : Nat}
    (settled : (s.cells c).isSettled) :
    (s.through computations events).cells c = s.cells c := by
  induction events generalizing s with
  | nil => rfl
  | cons e events ih =>
    have same : (s.after computations e).cells c = s.cells c := by
      cases e with
      | step t => exact settled_move h (move_step computations s t) settled
      | wake | demand => rfl
    rw [← same]
    exact ih (orderly_after h e) (by rw [same]; exact settled)

/-! ### Who is told that the computation is its own -/

theorem reentrant_iff (h : Orderly s) (c : Nat) :
    ((s.step computations t).threads t).returned =
        (c, .error .reentrant) :: (s.threads t).returned ↔
      s.Looks t c ∧ c ∈ (s.threads t).running := by
  rw [← h.owned]
  constructor
  · intro returned
    have move := move_step computations s t
    generalize s.step computations t = s' at move returned
    cases move with
    | rest => simp at returned
    | observe => simp [State.setThread] at returned
    | settle awake top ends =>
      rename_i outcome
      cases outcome <;> simp [State.settle] at returned
    | answer looks told =>
      simp only [State.setThread, update_self, Thread.returned_answered, List.cons.injEq,
        Prod.mk.injEq, and_true] at returned
      obtain ⟨rfl, rfl⟩ := returned
      exact ⟨looks, answerFor_reentrant.mp told⟩
    | sleep => simp [State.setThread] at returned
    | start => simp [State.start] at returned
  · rintro ⟨looks, held⟩
    simp [step_of_looks looks, State.look, held, State.setThread]

/-! ### The result -/

/-- **Whatever the threads do and in whatever order, a cell's computation is started at most once,
all calls that return a value return the one that the cell holds, a settled cell stays as it is, a
call is told `reentrant` exactly if its own thread is at the cell's computation, and nobody sleeps
for a settled cell.** -/
theorem cell_computed_once (computations : Nat → Computation α) (before later : List Event)
    (c : Nat) :
    let s := State.idle.through computations before
    s.runs c ≤ 1 ∧
    (∀ t a, (c, .ok a) ∈ (s.threads t).returned → s.cells c = .ready a) ∧
    ((s.cells c).isSettled → (s.through computations later).cells c = s.cells c) ∧
    (∀ t, ((s.step computations t).threads t).returned =
        (c, .error .reentrant) :: (s.threads t).returned ↔
      s.Looks t c ∧ c ∈ (s.threads t).running) ∧
    ((s.cells c).isSettled → ∀ t, (s.threads t).waiting ≠ some c) := by
  intro s
  have h : Orderly s := orderly_through orderly_idle before
  refine ⟨?once, ?shared, settled_through h later, fun t => reentrant_iff h c, ?awake⟩
  case once =>
    rw [h.counted]
    cases s.cells c <;> simp [starts]
  case shared =>
    intro t a returned
    have answered := (h.told t c _ returned).resolve_left (by simp)
    cases held : s.cells c <;> simp_all [Cell.answer?]
  case awake =>
    intro settled t waits
    obtain ⟨-, _, -, held⟩ := h.sleeps t c waits
    simp [held, Cell.isSettled] at settled

/-- Two threads ask for one cell; the second sleeps while the first computes. -/
example :
    let s := State.idle.through (fun _ => .done 7)
      [.demand 1 0, .demand 2 0, .step 1, .step 2, .step 1, .step 2]
    s.runs 0 = 1 ∧ (s.threads 1).returned = [(0, .ok 7)] ∧ (s.threads 2).returned = [(0, .ok 7)] :=
  ⟨rfl, rfl, rfl⟩

end GraphSchema.Threads
