import GraphSchema.Memo.Threads

/-! What one step of a thread does. A step is one of six moves, and what is known of
the threads and the cells at all times follows from the moves alone: a cell under
computation is in the hands of exactly the thread that has it on its stack, and a
thread sleeps only for a cell that is in the hands of another. -/
namespace GraphSchema.Threads

variable {α : Type} {computations : Nat → Computation α} {s : State α} {t : Nat}

/-- What a computation ends with, once it has come to its end. -/
def Computation.outcome? : Computation α → Option (Option α)
  | .done a => some (some a)
  | .panic => some none
  | .force _ _ | .observe _ _ => none

/-- What thread `t` is told at once when it forces a cell in this state. -/
def answerFor (t : Nat) : Cell α → Option (Except ForceError α)
  | .ready a => some (.ok a)
  | .poisoned => some (.error .poisoned)
  | .resolving owner => if owner = t then some (.error .reentrant) else none
  | .pending => none

theorem answerFor_reentrant {c : Cell α} :
    answerFor t c = some (.error .reentrant) ↔ c = .resolving t := by
  cases c <;> simp [answerFor]

/-- How often the computation of a cell in this state has been started. -/
def starts : Cell α → Nat
  | .pending => 0
  | .resolving _ | .ready _ | .poisoned => 1

/-- Thread `t` is awake, and what it does next is to look at the cell. -/
def State.Looks (s : State α) (t cell : Nat) : Prop :=
  (s.threads t).waiting = none ∧ (s.threads t).demanded = some cell

/-! ### The moves -/

/-- What a step of thread `t` can do. -/
inductive Move (computations : Nat → Computation α) (s : State α) (t : Nat) : State α → Prop where
  /-- It sleeps, or has nothing to do. -/
  | rest (idle : ∀ cell, ¬ s.Looks t cell) : Move computations s t s
  | observe {cell seen next frames} (awake : (s.threads t).waiting = none)
      (top : (s.threads t).frames = ⟨cell, .observe seen next⟩ :: frames) :
      Move computations s t
        (s.setThread t { s.threads t with frames := ⟨cell, next (s.cells seen)⟩ :: frames })
  | settle {cell ended frames outcome} (awake : (s.threads t).waiting = none)
      (top : (s.threads t).frames = ⟨cell, ended⟩ :: frames)
      (ends : ended.outcome? = some outcome) :
      Move computations s t (s.settle t cell frames outcome)
  | answer {cell a} (looks : s.Looks t cell) (told : answerFor t (s.cells cell) = some a) :
      Move computations s t (s.setThread t ((s.threads t).answered cell a))
  | sleep {cell owner} (looks : s.Looks t cell) (held : s.cells cell = .resolving owner)
      (other : owner ≠ t) :
      Move computations s t (s.setThread t { s.threads t with waiting := some cell })
  | start {cell} (looks : s.Looks t cell) (pending : s.cells cell = .pending) :
      Move computations s t (s.start computations t cell)

theorem move_look {cell : Nat} (looks : s.Looks t cell) :
    Move computations s t (s.look computations t cell) := by
  unfold State.look
  cases held : s.cells cell with
  | ready a => exact .answer looks (by simp [held, answerFor])
  | poisoned => exact .answer looks (by simp [held, answerFor])
  | resolving owner =>
    by_cases own : owner = t
    · simp only [own, if_true]
      exact .answer looks (by simp [held, answerFor, own])
    · simp only [own, if_false]
      exact .sleep looks held own
  | pending => exact .start looks held

theorem move_step (computations : Nat → Computation α) (s : State α) (t : Nat) :
    Move computations s t (s.step computations t) := by
  simp only [State.step]
  split
  · rename_i sleeps
    exact .rest fun cell looks => by simp [looks.1] at sleeps
  · rename_i up
    have awake : (s.threads t).waiting = none := by simpa using up
    split
    · rename_i top
      exact .settle awake top rfl
    · rename_i top
      exact .settle awake top rfl
    · rename_i top
      exact .observe awake top
    · rename_i top
      exact move_look ⟨awake, by simp [Thread.demanded, top]⟩
    · rename_i top
      split
      · rename_i asked
        exact move_look ⟨awake, by simp [Thread.demanded, top, asked]⟩
      · rename_i asked
        exact .rest fun cell looks => by simpa [Thread.demanded, top, asked] using looks.2

theorem step_of_looks {cell : Nat} (looks : s.Looks t cell) :
    s.step computations t = s.look computations t cell := by
  obtain ⟨awake, demands⟩ := looks
  simp only [State.step, awake, Option.isSome_none, Bool.false_eq_true, if_false]
  simp only [Thread.demanded] at demands
  split <;> simp_all
  split <;> simp_all

/-! ### What a call that returns leaves alone -/

namespace Thread

variable (th : Thread α) (cell : Nat) (a : Except ForceError α)

@[simp] theorem running_answered : (th.answered cell a).running = th.running := by
  simp only [answered, running]
  split <;> simp_all

@[simp] theorem waiting_answered : (th.answered cell a).waiting = th.waiting := by
  simp only [answered]
  split <;> rfl

@[simp] theorem returned_answered : (th.answered cell a).returned = (cell, a) :: th.returned := by
  simp only [answered]
  split <;> rfl

@[simp] theorem frames_woken : (th.woken cell).frames = th.frames := by
  unfold woken
  split <;> rfl

@[simp] theorem running_woken : (th.woken cell).running = th.running := by
  simp [running]

@[simp] theorem demanded_woken : (th.woken cell).demanded = th.demanded := by
  unfold woken
  split <;> rfl

@[simp] theorem returned_woken : (th.woken cell).returned = th.returned := by
  simp only [woken]
  split <;> rfl

theorem waiting_woken {c : Nat} :
    (th.woken cell).waiting = some c ↔ th.waiting = some c ∧ c ≠ cell := by
  simp only [woken]
  split <;> grind

end Thread

/-! ### What is known at all times -/

/-- The cells and the threads of a state agree. -/
structure Orderly (s : State α) : Prop where
  /-- A cell under computation is in the hands of the thread that has it on its stack. -/
  owned : ∀ c u, s.cells c = .resolving u ↔ c ∈ (s.threads u).running
  apart : ∀ u, (s.threads u).running.Nodup
  counted : ∀ c, s.runs c = starts (s.cells c)
  /-- A thread sleeps for the cell that it looks at next, and only while another thread has it. -/
  sleeps : ∀ u c, (s.threads u).waiting = some c →
    (s.threads u).demanded = some c ∧ ∃ v, v ≠ u ∧ s.cells c = .resolving v
  /-- What a call has returned is what the cell still answers. -/
  told : ∀ u c a, (c, a) ∈ (s.threads u).returned →
    a = .error .reentrant ∨ (s.cells c).answer? = some a

theorem orderly_idle : Orderly (State.idle : State α) where
  owned c u := by simp [State.idle, Thread.running]
  apart u := by simp [State.idle, Thread.running]
  counted c := rfl
  sleeps u c h := by simp [State.idle] at h
  told u c a h := by simp [State.idle] at h

/-- A thread changes, but not the cells it has on its stack. -/
theorem Orderly.setThread (h : Orderly s) {th : Thread α}
    (running : th.running = (s.threads t).running)
    (sleeps : ∀ c, th.waiting = some c →
      th.demanded = some c ∧ ∃ v, v ≠ t ∧ s.cells c = .resolving v)
    (told : ∀ c a, (c, a) ∈ th.returned →
      a = .error .reentrant ∨ (s.cells c).answer? = some a) : Orderly (s.setThread t th) where
  owned c u := by
    simp only [State.setThread, update]
    split
    · rename_i same
      rw [running, same, h.owned]
    · exact h.owned c u
  apart u := by
    simp only [State.setThread, update]
    split
    · exact running ▸ h.apart t
    · exact h.apart u
  counted := h.counted
  sleeps u c waits := by
    simp only [State.setThread, update] at waits ⊢
    split at waits <;> rename_i same
    · simpa [same] using sleeps c waits
    · simpa [same] using h.sleeps u c waits
  told u c a returned := by
    simp only [State.setThread, update] at returned
    split at returned
    · exact told c a returned
    · exact h.told u c a returned

theorem Orderly.start (h : Orderly s) {cell : Nat} (looks : s.Looks t cell)
    (pending : s.cells cell = .pending) : Orderly (s.start computations t cell) := by
  have fresh : ∀ u, cell ∉ (s.threads u).running := fun u held => by
    have := (h.owned cell u).mpr held
    simp [pending] at this
  have top : ∀ u, ((s.start computations t cell).threads u).running =
      if u = t then cell :: (s.threads u).running else (s.threads u).running := fun u => by
    simp only [State.start, update, Thread.running]
    split
    · rename_i same
      simp [same]
    · rfl
  constructor
  case owned =>
    intro c u
    rw [top]
    by_cases first : c = cell
    · subst first
      simp only [State.start, update, if_true, Cell.resolving.injEq]
      split <;> grind
    · simp only [State.start, update, first, if_false, h.owned]
      split <;> grind
  case apart =>
    intro u
    rw [top]
    split
    · exact List.nodup_cons.mpr ⟨fresh u, h.apart u⟩
    · exact h.apart u
  case counted =>
    intro c
    by_cases first : c = cell
    · subst first
      simp [State.start, h.counted, pending, starts]
    · simp [State.start, update_of_ne _ _ first, h.counted]
  case sleeps =>
    intro u c waits
    have other : u ≠ t := by
      rintro rfl
      simp [State.start, looks.1] at waits
    simp only [State.start, update_of_ne _ _ other] at waits ⊢
    obtain ⟨demands, v, distinct, held⟩ := h.sleeps u c waits
    have first : c ≠ cell := by
      rintro rfl
      simp [pending] at held
    exact ⟨demands, v, distinct, by rw [update_of_ne _ _ first, held]⟩
  case told =>
    intro u c a returned
    have before : (c, a) ∈ (s.threads u).returned := by
      simp only [State.start, update] at returned
      split at returned
      · rename_i same
        exact same ▸ returned
      · exact returned
    refine (h.told u c a before).imp_right fun still => ?_
    have first : c ≠ cell := by
      rintro rfl
      simp [pending, Cell.answer?] at still
    simpa [State.start, update_of_ne _ _ first] using still

theorem Orderly.settle (h : Orderly s) {cell : Nat} {ended : Computation α}
    {frames : List (Frame α)} (outcome : Option α) (awake : (s.threads t).waiting = none)
    (top : (s.threads t).frames = ⟨cell, ended⟩ :: frames) :
    Orderly (s.settle t cell frames outcome) := by
  have stack : (s.threads t).running = cell :: frames.map Frame.cell := by
    simp [Thread.running, top]
  have held : s.cells cell = .resolving t := (h.owned cell t).mpr (by simp [stack])
  have below : cell ∉ frames.map Frame.cell := (List.nodup_cons.mp (stack ▸ h.apart t)).1
  have runs : ∀ u, ((s.settle t cell frames outcome).threads u).running =
      if u = t then frames.map Frame.cell else (s.threads u).running := fun u => by
    simp only [State.settle, Thread.running_woken, update]
    split
    · rw [Thread.running_answered]
      rfl
    · rfl
  constructor
  case owned =>
    intro c u
    rw [runs]
    by_cases first : c = cell
    · subst first
      have free : ∀ v, Cell.ofOutcome outcome ≠ .resolving v := by
        cases outcome <;> simp [Cell.ofOutcome]
      have gone : u ≠ t → c ∉ (s.threads u).running := fun other there => by
        have := (h.owned c u).mpr there
        grind
      simp only [State.settle, update_self, free, false_iff]
      split <;> grind
    · simp only [State.settle, update_of_ne _ _ first, h.owned]
      split <;> grind
  case apart =>
    intro u
    rw [runs]
    split
    · exact (List.nodup_cons.mp (stack ▸ h.apart t)).2
    · exact h.apart u
  case counted =>
    intro c
    by_cases first : c = cell
    · subst first
      cases outcome <;> simp [State.settle, h.counted, held, starts, Cell.ofOutcome]
    · simp [State.settle, update_of_ne _ _ first, h.counted]
  case sleeps =>
    intro u c waits
    simp only [State.settle, Thread.waiting_woken] at waits
    obtain ⟨waits, first⟩ := waits
    have other : u ≠ t := by
      rintro rfl
      simp [awake] at waits
    simpa [State.settle, update_of_ne _ _ other, update_of_ne _ _ first] using
      h.sleeps u c (by simpa [update_of_ne _ _ other] using waits)
  case told =>
    intro u c a returned
    simp only [State.settle, Thread.returned_woken, update] at returned
    have now : (c, a) = (cell, outcome.elim (.error .poisoned) .ok) ∨
        (c, a) ∈ (s.threads u).returned := by
      split at returned
      · rename_i same
        simpa [same] using returned
      · exact .inr returned
    rcases now with now | before
    · obtain ⟨rfl, rfl⟩ := Prod.mk.inj now
      right
      cases outcome <;> simp [State.settle, Cell.ofOutcome, Cell.answer?]
    · refine (h.told u c a before).imp_right fun still => ?_
      have first : c ≠ cell := by
        rintro rfl
        simp [held, Cell.answer?] at still
      simpa [State.settle, update_of_ne _ _ first] using still

theorem told_answered (h : Orderly s) {cell : Nat} {a : Except ForceError α}
    (told : answerFor t (s.cells cell) = some a) :
    ∀ c b, (c, b) ∈ ((s.threads t).answered cell a).returned →
      b = .error .reentrant ∨ (s.cells c).answer? = some b := by
  intro c b returned
  rw [Thread.returned_answered, List.mem_cons] at returned
  rcases returned with now | before
  · obtain ⟨rfl, rfl⟩ := Prod.mk.inj now
    cases held : s.cells c <;> simp_all [answerFor, Cell.answer?]
  · exact h.told t c b before

theorem orderly_move {s' : State α} (h : Orderly s) (move : Move computations s t s') :
    Orderly s' := by
  cases move with
  | rest => exact h
  | observe awake top =>
    refine h.setThread (by simp [Thread.running, top]) (fun c waits => ?_) (h.told t)
    simp [awake] at waits
  | settle awake top ends => exact h.settle _ awake top
  | answer looks told =>
    refine h.setThread (by simp) (fun c waits => ?_) (told_answered h told)
    simp [looks.1] at waits
  | sleep looks held other =>
    refine h.setThread rfl (fun c waits => ?_) (h.told t)
    obtain rfl := Option.some.inj waits
    exact ⟨looks.2, _, other, held⟩
  | start looks pending => exact h.start looks pending

theorem orderly_after (h : Orderly s) (e : Event) : Orderly (s.after computations e) := by
  cases e with
  | step t => exact orderly_move h (move_step computations s t)
  | wake t => exact h.setThread rfl (fun c waits => by simp at waits) (h.told t)
  | demand t cell =>
    refine h.setThread rfl (fun c waits => ?_) (h.told t)
    obtain ⟨demands, held⟩ := h.sleeps t c waits
    refine ⟨?_, held⟩
    -- a new demand is queued behind the one that the thread sleeps for
    simp only [Thread.demanded] at demands ⊢
    split <;> simp_all

theorem orderly_through (h : Orderly s) (events : List Event) :
    Orderly (s.through computations events) := by
  induction events generalizing s with
  | nil => exact h
  | cons e events ih => exact ih (orderly_after h e)

end GraphSchema.Threads
