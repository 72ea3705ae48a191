import GraphSchema.Memo.Cell

/-! Threads that force cells. A computation may force cells itself, so a thread keeps a
stack of the computations it is in the middle of. One step is what happens under
one lock: looking at a cell, with what follows from its state, or leaving the
outcome of a computation in it and returning it. A thread that finds a cell in the
hands of another thread waits; the outcome wakes all that wait for the cell, and
they look again. -/
namespace GraphSchema.Threads

/-- A computation: it ends with a value or breaks off, and on the way may force cells or look at
their state. -/
inductive Computation (α : Type) where
  | done (a : α)
  | panic
  | force (cell : Nat) (next : Except ForceError α → Computation α)
  | observe (cell : Nat) (next : Cell α → Computation α)

variable {α : Type}

/-- A computation that is under way for a cell. -/
structure Frame (α : Type) where
  cell : Nat
  rest : Computation α

structure Thread (α : Type) where
  /-- The cells that the thread has still to force on its own account. -/
  demands : List Nat
  /-- The computations under way, the innermost first. -/
  frames : List (Frame α)
  /-- The cell whose outcome the thread sleeps for. -/
  waiting : Option Nat
  /-- What its calls have returned so far, each with the cell it forced, the latest first. -/
  returned : List (Nat × Except ForceError α)

structure State (α : Type) where
  cells : Nat → Cell α
  threads : Nat → Thread α
  /-- How often each cell's computation has been started. -/
  runs : Nat → Nat

def update {β : Type} (f : Nat → β) (i : Nat) (b : β) : Nat → β := fun j => if j = i then b else f j

@[simp] theorem update_self {β : Type} (f : Nat → β) (i : Nat) (b : β) : update f i b i = b := by
  simp [update]

theorem update_of_ne {β : Type} (f : Nat → β) {i j : Nat} (b : β) (h : j ≠ i) :
    update f i b j = f j := by
  simp [update, h]

namespace Thread

/-- The cells whose computations are under way in the thread, the innermost first. -/
def running (th : Thread α) : List Nat := th.frames.map Frame.cell

/-- The cell that the thread looks at next, if that is what it does next. -/
def demanded (th : Thread α) : Option Nat :=
  match th.frames with
  | ⟨_, .force cell _⟩ :: _ => some cell
  | _ :: _ => none
  | [] => th.demands.head?

/-- The thread after its call for the cell has returned. -/
def answered (th : Thread α) (cell : Nat) (a : Except ForceError α) : Thread α :=
  let th := { th with returned := (cell, a) :: th.returned }
  match th.frames with
  | ⟨caller, .force _ next⟩ :: frames => { th with frames := ⟨caller, next a⟩ :: frames }
  | _ :: _ => th
  | [] => { th with demands := th.demands.tail }

/-- The thread after everything that sleeps for the cell has been woken. -/
def woken (th : Thread α) (cell : Nat) : Thread α :=
  if th.waiting = some cell then { th with waiting := none } else th

end Thread

namespace State

def idle : State α := ⟨fun _ => .pending, fun _ => ⟨[], [], none, []⟩, fun _ => 0⟩

def setThread (s : State α) (t : Nat) (th : Thread α) : State α :=
  { s with threads := update s.threads t th }

/-- Thread `t` takes a cell that nobody has computed yet and starts its computation. -/
def start (computations : Nat → Computation α) (s : State α) (t cell : Nat) : State α :=
  let th := s.threads t
  { cells := update s.cells cell (.resolving t)
    threads := update s.threads t { th with frames := ⟨cell, computations cell⟩ :: th.frames }
    runs := update s.runs cell (s.runs cell + 1) }

/-- Thread `t` looks at a cell. -/
def look (computations : Nat → Computation α) (s : State α) (t cell : Nat) : State α :=
  let th := s.threads t
  match s.cells cell with
  | .ready a => s.setThread t (th.answered cell (.ok a))
  | .poisoned => s.setThread t (th.answered cell (.error .poisoned))
  | .resolving owner =>
    if owner = t then s.setThread t (th.answered cell (.error .reentrant))
    else s.setThread t { th with waiting := some cell }
  | .pending => s.start computations t cell

/-- Thread `t` leaves the outcome of its innermost computation in the cell, returns it to the call
that ran the computation, and wakes those that sleep for the cell. -/
def settle (s : State α) (t cell : Nat) (frames : List (Frame α)) (outcome : Option α) : State α :=
  let answer := outcome.elim (.error .poisoned) .ok
  let th := { s.threads t with frames }.answered cell answer
  { s with
    cells := update s.cells cell (.ofOutcome outcome)
    threads := fun u => (update s.threads t th u).woken cell }

/-- One step of thread `t`. A thread that sleeps or has nothing to do leaves the state as it is. -/
def step (computations : Nat → Computation α) (s : State α) (t : Nat) : State α :=
  let th := s.threads t
  if th.waiting.isSome then s else
  match th.frames with
  | ⟨cell, .done a⟩ :: frames => s.settle t cell frames (some a)
  | ⟨cell, .panic⟩ :: frames => s.settle t cell frames none
  | ⟨cell, .observe seen next⟩ :: frames =>
    s.setThread t { th with frames := ⟨cell, next (s.cells seen)⟩ :: frames }
  | ⟨_, .force cell _⟩ :: _ => s.look computations t cell
  | [] =>
    match th.demands with
    | cell :: _ => s.look computations t cell
    | [] => s

/-- Thread `t` is to force the cell. -/
def demand (s : State α) (t cell : Nat) : State α :=
  let th := s.threads t
  s.setThread t { th with demands := th.demands ++ [cell] }

/-- Thread `t` wakes up, for whatever reason, and is going to look again. -/
def wake (s : State α) (t : Nat) : State α :=
  s.setThread t { s.threads t with waiting := none }

end State

inductive Event where
  | demand (t cell : Nat)
  | step (t : Nat)
  | wake (t : Nat)

namespace State

def after (computations : Nat → Computation α) (s : State α) : Event → State α
  | .demand t cell => s.demand t cell
  | .step t => s.step computations t
  | .wake t => s.wake t

def through (computations : Nat → Computation α) (s : State α) (events : List Event) : State α :=
  events.foldl (after computations) s

end State

end GraphSchema.Threads
