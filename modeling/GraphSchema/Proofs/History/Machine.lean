import Mathlib.Logic.Function.Iterate
import GraphSchema.Proofs.Compile.Walk

/-! Compilations step by step.

`Catalog.compile` answers at one go, and what it counts down bounds its visits and how
deep compilations nest. The machine here counts nothing. One step begins a
compilation, goes on to the next type in its queue, looks at a cell, or does what a
thunk does next; a compilation that a thunk asks for starts on top of the one that
waits for the thunk. What happens is kept in a log.

A history is any run of the machine: the client compiles whenever nothing is under
way, and the world may have changed meanwhile (`Reached`). -/
namespace GraphSchema

namespace Cell

variable {α : Type}

def isPending : Cell α → Bool
  | pending => true
  | resolving _ | ready _ | poisoned => false

/-- How often the computation has been started. -/
def begun : Cell α → Nat
  | pending => 0
  | resolving _ | ready _ | poisoned => 1

/-- What the computation of a settled cell has come to. -/
def outcome? : Cell α → Option (Option α)
  | ready a => some (some a)
  | poisoned => some none
  | pending | resolving _ => none

@[simp] theorem isPending_ofOutcome (outcome : Option α) :
    (ofOutcome outcome).isPending = false := by
  cases outcome <;> rfl

@[simp] theorem begun_ofOutcome (outcome : Option α) : (ofOutcome outcome).begun = 1 := by
  cases outcome <;> rfl

@[simp] theorem outcome?_ofOutcome (outcome : Option α) :
    (ofOutcome outcome).outcome? = some outcome := by
  cases outcome <;> rfl

theorem eq_ofOutcome {cell : Cell α} {outcome : Option α} (h : cell.outcome? = some outcome) :
    cell = ofOutcome outcome := by
  cases cell <;> cases h <;> rfl

/-- A cell is pending, taken or settled. -/
theorem cases_ofOutcome (cell : Cell α) :
    cell = pending ∨ (∃ owner, cell = resolving owner) ∨ ∃ outcome, cell = ofOutcome outcome := by
  cases cell with
  | pending => exact .inl rfl
  | resolving owner => exact .inr (.inl ⟨owner, rfl⟩)
  | ready a => exact .inr (.inr ⟨some a, rfl⟩)
  | poisoned => exact .inr (.inr ⟨none, rfl⟩)

end Cell

/-- The outcome of a thunk that has ended. -/
def Thunk.outcome? {M C W : Type} : Thunk M C W → Option (Option (List (Field M C W)))
  | .done fields => some (some fields)
  | .panic => some none
  | .outside _ _ | .compile _ _ => none

namespace History

variable {M C W : Type}

/-- A type that a compilation is visiting. -/
structure Visit (M C W : Type) where
  description : Description
  /-- The walk, in which the name of the type is claimed. -/
  walk : Walk M C W
  handle : Handle
  type : TypeDef M C W

/-- What is going on. -/
inductive Focus (M C W : Type) where
  | idle
  | call (d : Description)
  /-- A compilation is between two visits. -/
  | walk (d : Description) (w : Walk M C W)
  /-- A compilation needs the fields of a type. -/
  | ask (v : Visit M C W) (thunk : Thunk M C W)
  /-- The rest of a thunk runs, for the visit that has asked for the fields. -/
  | run (v : Visit M C W) (thunk : Thunk M C W)
  | answer (d : Description) (a : Except DefinitionError (Schema M C W))

/-- A thunk that waits for the answer to a compilation. -/
structure Pause (M C W : Type) where
  visit : Visit M C W
  next : Except DefinitionError (Schema M C W) → Thunk M C W

inductive Event (M C W : Type) where
  | called (d : Description)
  /-- The thunk of the type at the place starts to run. -/
  | started (place : Nat)
  | ended (place : Nat) (outcome : Option (List (Field M C W)))
  | answered (d : Description) (a : Except DefinitionError (Schema M C W))

structure State (M C W : Type) where
  focus : Focus M C W
  /-- The thunks that wait, the innermost first. -/
  stack : List (Pause M C W)
  store : Store M C W
  /-- What has happened, the latest first. -/
  log : List (Event M C W)

/-! ### One step -/

/-- A compilation goes on with its walk or gives up. -/
def onward (d : Description) : Except DefinitionError (Walk M C W) → Focus M C W
  | .ok w => .walk d w
  | .error e => .answer d (.error e)

/-- The beginning of a compilation. -/
def opening (c : Catalog M C W) (d : Description) : Focus M C W :=
  match d.limits.validate with
  | .error reason => .answer d (.error (.invalidConfig reason))
  | .ok () =>
    match c.misuses with
    | e :: _ => .answer d (.error e)
    | [] => onward d (Walk.start c d)

namespace Visit

/-- The place of the cell that the visited type's fields are in. -/
def place (v : Visit M C W) : Nat := v.handle.index

/-- The end of a visit: the fields are noted, and what the type mentions is queued. -/
def leave (c : Catalog M C W) (v : Visit M C W) (fields : List (Field M C W)) : Focus M C W :=
  onward v.description <|
    { v.walk with fields := v.walk.fields ++ [(v.handle, fields)] }.enqueueAll c
      (Walk.mentions c v.handle v.type fields)

def fail (v : Visit M C W) (e : DefinitionError) : Focus M C W := .answer v.description (.error e)

/-- How a visit goes on from the outcome of the type's thunk. -/
def conclude (c : Catalog M C W) (v : Visit M C W) : Option (List (Field M C W)) → Focus M C W
  | some fields => v.leave c fields
  | none => v.fail (.poisonedFields v.type.name)

/-- A visit whose type has its name: it asks for the fields of a type that has fields. -/
def attend (c : Catalog M C W) (v : Visit M C W) : Focus M C W :=
  match v.type.kind with
  | .object _ | .interface _ =>
    match v.type.kind.fields? with
    | some thunk => .ask v thunk
    | none => v.fail (.undefinedType v.type.name)
  | .union _ | .enum _ => v.leave c []

end Visit

/-- The beginning of a visit. -/
def enter (c : Catalog M C W) (d : Description) (w : Walk M C W) (h : Handle) : Focus M C W :=
  match c.get? h with
  | none => .answer d (.error (.foreignHandle "schema"))
  | some t =>
    match { w with visited := w.visited ++ [h] }.claimName h t.name with
    | .error e => .answer d (.error e)
    | .ok w => Visit.attend c ⟨d, w, h, t⟩

/-- A walk visits the next type, or is over and is linked. -/
def proceed (c : Catalog M C W) (d : Description) (w : Walk M C W) : Focus M C W :=
  match w.pending with
  | [] => .answer d (Link.schema c d w)
  | h :: rest => enter c d { w with pending := rest } h

namespace State

variable (s : State M C W)

def turnTo (focus : Focus M C W) : State M C W := { s with focus }

/-- The visited type's thunk is started, and its cell is taken. -/
def start (v : Visit M C W) (thunk : Thunk M C W) : State M C W :=
  { s with
    focus := .run v thunk
    store := s.store.setCell v.place (.resolving 0)
    log := .started v.place :: s.log }

/-- The visited type's cell is asked for its fields. -/
def look (c : Catalog M C W) (v : Visit M C W) (thunk : Thunk M C W) : State M C W :=
  match s.store.memo v.place with
  | .ready fields => s.turnTo (v.conclude c (some fields))
  | .poisoned => s.turnTo (v.conclude c none)
  | .resolving _ => s.turnTo (v.fail (.reentrantFields v.type.name))
  | .pending => s.start v thunk

/-- The outcome of the visited type's thunk is left in the cell. -/
def settle (c : Catalog M C W) (v : Visit M C W) (outcome : Option (List (Field M C W))) :
    State M C W :=
  { s with
    focus := v.conclude c outcome
    store := s.store.setCell v.place (.ofOutcome outcome)
    log := .ended v.place outcome :: s.log }

/-- What the thunk of the visited type does next. -/
def work (c : Catalog M C W) (v : Visit M C W) : Thunk M C W → State M C W
  | .done fields => s.settle c v (some fields)
  | .panic => s.settle c v none
  | .outside change next =>
    { s with
      focus := .run v (next s.store.world)
      store := { s.store with world := change s.store.world } }
  | .compile d next =>
    { s with
      focus := .call d
      stack := ⟨v, next⟩ :: s.stack
      log := .called d :: s.log }

/-- An answer goes to the thunk that waits for it, or to the client. -/
def deliver (d : Description) (a : Except DefinitionError (Schema M C W)) : State M C W :=
  match s.stack with
  | [] => { s with focus := .idle, log := .answered d a :: s.log }
  | p :: stack =>
    { s with focus := .run p.visit (p.next a), stack, log := .answered d a :: s.log }

end State

def step (c : Catalog M C W) (s : State M C W) : State M C W :=
  match s.focus with
  | .idle => s
  | .call d => s.turnTo (opening c d)
  | .walk d w => s.turnTo (proceed c d w)
  | .ask v thunk => s.look c v thunk
  | .run v thunk => s.work c v thunk
  | .answer d a => s.deliver d a

/-! ### What a step can do -/

/-- A compilation is between two visits or has come to its answer. -/
def Focus.isClear : Focus M C W → Bool
  | .walk _ _ | .answer _ _ => true
  | .idle | .call _ | .ask _ _ | .run _ _ => false

theorem isClear_onward (d : Description) (r : Except DefinitionError (Walk M C W)) :
    (onward d r).isClear = true := by
  cases r <;> rfl

theorem isClear_opening (c : Catalog M C W) (d : Description) : (opening c d).isClear = true := by
  unfold opening
  split
  · rfl
  · split
    · rfl
    · exact isClear_onward ..

theorem isClear_conclude (c : Catalog M C W) (v : Visit M C W)
    (outcome : Option (List (Field M C W))) : (v.conclude c outcome).isClear = true := by
  cases outcome with
  | none => rfl
  | some fields => exact isClear_onward ..

/-- The visit takes the next type off the queue of a walk. -/
structure Begins (c : Catalog M C W) (d : Description) (w : Walk M C W) (v : Visit M C W) :
    Prop where
  description : v.description = d
  pending : w.pending = v.handle :: v.walk.pending
  get : c.get? v.handle = some v.type
  claim : { w with visited := w.visited ++ [v.handle], pending := v.walk.pending }.claimName
    v.handle v.type.name = .ok v.walk

/-- A walk is linked at its end, or gives up, or begins a visit. The visit asks for the fields of
a type that has fields, and is over with any other type. -/
theorem proceed_cases (c : Catalog M C W) (d : Description) (w : Walk M C W) :
    (w.pending = [] ∧ proceed c d w = .answer d (Link.schema c d w)) ∨
    (∃ e, proceed c d w = .answer d (.error e)) ∨
    ∃ v, Begins c d w v ∧
      ((∃ thunk, v.type.kind.fields? = some thunk ∧ proceed c d w = .ask v thunk) ∨
        (v.type.kind.hasFields = false ∧ proceed c d w = v.leave c [])) := by
  unfold proceed
  cases hpending : w.pending with
  | nil => exact .inl ⟨rfl, rfl⟩
  | cons h rest =>
    refine .inr ?_
    dsimp only [enter]
    cases hget : c.get? h with
    | none => exact .inl ⟨_, rfl⟩
    | some t =>
      dsimp only
      cases hclaim : { w with visited := w.visited ++ [h], pending := rest }.claimName h t.name with
      | error e => exact .inl ⟨_, rfl⟩
      | ok w' =>
        have hrest : w'.pending = rest := by
          obtain ⟨-, -, -, rfl⟩ := Walk.claimName_spec hclaim
          rfl
        subst hrest
        have hbegins : Begins c d w ⟨d, w', h, t⟩ := ⟨rfl, hpending, hget, hclaim⟩
        dsimp only [Visit.attend]
        cases hkind : t.kind with
        | object o | interface i =>
          cases hthunk : t.kind.fields? with
          | none =>
            rw [hkind] at hthunk
            exact .inl ⟨.undefinedType t.name, by rw [hthunk]; rfl⟩
          | some thunk =>
            refine .inr ⟨_, hbegins, .inl ⟨thunk, hthunk, ?_⟩⟩
            rw [hkind] at hthunk
            rw [hthunk]
        | union u => exact .inr ⟨_, hbegins, .inr ⟨by simp [hkind, Kind.hasFields], rfl⟩⟩
        | enum e => exact .inr ⟨_, hbegins, .inr ⟨by simp [hkind, Kind.hasFields], rfl⟩⟩

theorem proceed_clear_or_ask (c : Catalog M C W) (d : Description) (w : Walk M C W) :
    (proceed c d w).isClear = true ∨ ∃ v thunk, Begins c d w v ∧
      v.type.kind.fields? = some thunk ∧ proceed c d w = .ask v thunk := by
  rcases proceed_cases c d w with ⟨-, h⟩ | ⟨e, h⟩ | ⟨v, hbegins, ⟨thunk, hthunk, h⟩ | ⟨-, h⟩⟩
  · exact .inl (by rw [h]; rfl)
  · exact .inl (by rw [h]; rfl)
  · exact .inr ⟨v, thunk, hbegins, hthunk, h⟩
  · exact .inl (by rw [h]; exact isClear_onward ..)

/-- The steps, by what is going on. -/
inductive Move (c : Catalog M C W) (s : State M C W) : State M C W → Prop where
  | rests (h : s.focus = .idle) : Move c s s
  | opens {d : Description} (h : s.focus = .call d) : Move c s (s.turnTo (opening c d))
  | proceeds {d : Description} {w : Walk M C W} (h : s.focus = .walk d w) :
    Move c s (s.turnTo (proceed c d w))
  | starts {v : Visit M C W} {thunk : Thunk M C W} (h : s.focus = .ask v thunk)
    (hcell : s.store.memo v.place = .pending) : Move c s (s.start v thunk)
  | refuses {v : Visit M C W} {thunk : Thunk M C W} {owner : Nat} (h : s.focus = .ask v thunk)
    (hcell : s.store.memo v.place = .resolving owner) :
    Move c s (s.turnTo (v.fail (.reentrantFields v.type.name)))
  | reads {v : Visit M C W} {thunk : Thunk M C W} {outcome : Option (List (Field M C W))}
    (h : s.focus = .ask v thunk) (hcell : s.store.memo v.place = .ofOutcome outcome) :
    Move c s (s.turnTo (v.conclude c outcome))
  | ends {v : Visit M C W} {thunk : Thunk M C W} {outcome : Option (List (Field M C W))}
    (h : s.focus = .run v thunk) (hthunk : thunk.outcome? = some outcome) :
    Move c s (s.settle c v outcome)
  | observes {v : Visit M C W} {change : W → W} {next : W → Thunk M C W}
    (h : s.focus = .run v (.outside change next)) :
    Move c s (s.work c v (.outside change next))
  | compiles {v : Visit M C W} {d : Description}
    {next : Except DefinitionError (Schema M C W) → Thunk M C W}
    (h : s.focus = .run v (.compile d next)) : Move c s (s.work c v (.compile d next))
  | answers {d : Description} {a : Except DefinitionError (Schema M C W)}
    (h : s.focus = .answer d a) (hstack : s.stack = []) :
    Move c s { s with focus := .idle, log := .answered d a :: s.log }
  | resumes {d : Description} {a : Except DefinitionError (Schema M C W)} {p : Pause M C W}
    {stack : List (Pause M C W)} (h : s.focus = .answer d a) (hstack : s.stack = p :: stack) :
    Move c s { s with focus := .run p.visit (p.next a), stack, log := .answered d a :: s.log }

section

variable {c : Catalog M C W} {s : State M C W} {v : Visit M C W} {thunk : Thunk M C W}

theorem step_idle (h : s.focus = .idle) : step c s = s := by
  simp [step, h]

theorem step_pending (h : s.focus = .ask v thunk) (hcell : s.store.memo v.place = .pending) :
    step c s = s.start v thunk := by
  simp [step, h, State.look, hcell]

theorem step_resolving (h : s.focus = .ask v thunk) {owner : Nat}
    (hcell : s.store.memo v.place = .resolving owner) :
    step c s = s.turnTo (v.fail (.reentrantFields v.type.name)) := by
  simp [step, h, State.look, hcell]

theorem step_settled (h : s.focus = .ask v thunk) {outcome : Option (List (Field M C W))}
    (hcell : s.store.memo v.place = .ofOutcome outcome) :
    step c s = s.turnTo (v.conclude c outcome) := by
  cases outcome <;> simp [step, h, State.look, hcell, Cell.ofOutcome]

end

theorem move_step (c : Catalog M C W) (s : State M C W) : Move c s (step c s) := by
  cases hfocus : s.focus with
  | idle =>
    rw [step_idle hfocus]
    exact .rests hfocus
  | call d =>
    have hstep : step c s = s.turnTo (opening c d) := by simp [step, hfocus]
    rw [hstep]
    exact .opens hfocus
  | walk d w =>
    have hstep : step c s = s.turnTo (proceed c d w) := by simp [step, hfocus]
    rw [hstep]
    exact .proceeds hfocus
  | ask v thunk =>
    rcases (s.store.memo v.place).cases_ofOutcome with hcell | ⟨owner, hcell⟩ | ⟨outcome, hcell⟩
    · rw [step_pending hfocus hcell]
      exact .starts hfocus hcell
    · rw [step_resolving hfocus hcell]
      exact .refuses hfocus hcell
    · rw [step_settled hfocus hcell]
      exact .reads hfocus hcell
  | run v thunk =>
    have hstep : step c s = s.work c v thunk := by simp [step, hfocus]
    rw [hstep]
    cases thunk with
    | done fields | panic => exact .ends hfocus rfl
    | outside change next => exact .observes hfocus
    | compile d next => exact .compiles hfocus
  | answer d a =>
    have hstep : step c s = s.deliver d a := by simp [step, hfocus]
    rw [hstep, State.deliver]
    cases hstack : s.stack with
    | nil => simpa only [hstack] using Move.answers hfocus hstack
    | cons p stack => exact .resumes hfocus hstack

/-! ### Thunks that go on -/

/-- The place of the thunk that runs now, if one does. -/
def Focus.busy : Focus M C W → List Nat
  | .run v _ => [v.place]
  | .idle | .call _ | .walk _ _ | .ask _ _ | .answer _ _ => []

@[simp] theorem busy_idle : (Focus.idle : Focus M C W).busy = [] := rfl

@[simp] theorem busy_call (d : Description) : (Focus.call d : Focus M C W).busy = [] := rfl

@[simp] theorem busy_ask (v : Visit M C W) (thunk : Thunk M C W) :
    (Focus.ask v thunk).busy = [] := rfl

@[simp] theorem busy_run (v : Visit M C W) (thunk : Thunk M C W) :
    (Focus.run v thunk).busy = [v.place] := rfl

@[simp] theorem busy_answer (d : Description) (a : Except DefinitionError (Schema M C W)) :
    (Focus.answer d a).busy = [] := rfl

theorem busy_of_clear {f : Focus M C W} (h : f.isClear = true) : f.busy = [] := by
  cases f with
  | walk d w | answer d a => rfl
  | idle | call d | ask v thunk | run v thunk => cases h

@[simp] theorem busy_conclude (c : Catalog M C W) (v : Visit M C W)
    (outcome : Option (List (Field M C W))) : (v.conclude c outcome).busy = [] :=
  busy_of_clear (isClear_conclude c v outcome)

theorem busy_proceed (c : Catalog M C W) (d : Description) (w : Walk M C W) :
    (proceed c d w).busy = [] := by
  rcases proceed_clear_or_ask c d w with hclear | ⟨v, thunk, -, -, h⟩
  · exact busy_of_clear hclear
  · rw [h]
    rfl

/-- The places of the thunks that have been started and go on, the innermost first. -/
def State.busy (s : State M C W) : List Nat := s.focus.busy ++ s.stack.map (·.visit.place)

/-- No thunk is started and none ends. -/
structure Quiet (s s' : State M C W) : Prop where
  memo : s'.store.memo = s.store.memo
  busy : s'.busy = s.busy
  log : s'.log = s.log ∨ (∃ d, s'.log = .called d :: s.log) ∨
    ∃ d a, s'.log = .answered d a :: s.log

theorem quiet_turnTo {s : State M C W} {f : Focus M C W} (hf : f.busy = [])
    (hfocus : s.focus.busy = []) : Quiet s (s.turnTo f) :=
  ⟨rfl, by simp [State.busy, State.turnTo, hf, hfocus], .inl rfl⟩

/-- A step is quiet, or starts the thunk of a pending cell, or leaves the outcome of a thunk. -/
theorem step_cases (c : Catalog M C W) (s : State M C W) :
    Quiet s (step c s) ∨
    (∃ v thunk, s.focus = .ask v thunk ∧ s.store.memo v.place = .pending ∧
      step c s = s.start v thunk) ∨
    ∃ v thunk outcome, s.focus = .run v thunk ∧ step c s = s.settle c v outcome := by
  have hmove := move_step c s
  generalize step c s = s' at hmove ⊢
  cases hmove with
  | rests h => exact .inl ⟨rfl, rfl, .inl rfl⟩
  | opens h => exact .inl (quiet_turnTo (busy_of_clear (isClear_opening ..)) (by rw [h]; rfl))
  | proceeds h => exact .inl (quiet_turnTo (busy_proceed ..) (by rw [h]; rfl))
  | starts h hcell => exact .inr (.inl ⟨_, _, h, hcell, rfl⟩)
  | refuses h hcell => exact .inl (quiet_turnTo rfl (by rw [h]; rfl))
  | reads h hcell =>
    exact .inl (quiet_turnTo (busy_conclude ..) (by rw [h]; rfl))
  | ends h hthunk => exact .inr (.inr ⟨_, _, _, h, rfl⟩)
  | observes h => exact .inl ⟨rfl, by simp [State.busy, State.work, h], .inl rfl⟩
  | compiles h =>
    exact .inl ⟨rfl, by simp [State.busy, State.work, h], .inr (.inl ⟨_, rfl⟩)⟩
  | answers h hstack | resumes h hstack =>
    exact .inl ⟨rfl, by simp [State.busy, h, hstack], .inr (.inr ⟨_, _, rfl⟩)⟩

/-! ### Histories -/

def Event.starts (i : Nat) : Event M C W → Bool
  | .started place => place == i
  | .called _ | .ended _ _ | .answered _ _ => false

namespace State

/-- The client compiles, in a world that may have become another one since. -/
def request (s : State M C W) (w : W) (d : Description) : State M C W :=
  ⟨.call d, [], ⟨s.store.memo, w⟩, .called d :: s.log⟩

/-- Nothing has been compiled yet. -/
def fresh (w : W) : State M C W := ⟨.idle, [], ⟨Memo.fresh, w⟩, []⟩

/-- How often the thunk of the type at a place has been started. -/
def runs (s : State M C W) (i : Nat) : Nat := s.log.countP (Event.starts i)

/-- The thunk of the type at the place has been started and has not ended. -/
def Running (s : State M C W) (i : Nat) : Prop :=
  .started i ∈ s.log ∧ ∀ outcome, .ended i outcome ∉ s.log

end State

/-- The states that histories of a catalog come to. -/
inductive Reached (c : Catalog M C W) : State M C W → Prop where
  | fresh (w : W) : Reached c (.fresh w)
  | request {s : State M C W} (h : Reached c s) (hidle : s.focus = .idle) (w : W)
    (d : Description) : Reached c (s.request w d)
  | step {s : State M C W} (h : Reached c s) : Reached c (step c s)

theorem Reached.iterate {c : Catalog M C W} {s : State M C W} (hs : Reached c s) (n : Nat) :
    Reached c ((History.step c)^[n] s) := by
  induction n with
  | zero => exact hs
  | succ n ih =>
    rw [Function.iterate_succ_apply']
    exact ih.step

/-! ### Runs -/

/-- The machine comes from one state to the other. -/
def Leads (c : Catalog M C W) (s s' : State M C W) : Prop := ∃ n, (step c)^[n] s = s'

variable {c : Catalog M C W} {s s' : State M C W}

theorem leads_refl (s : State M C W) : Leads c s s := ⟨0, rfl⟩

theorem leads_trans {s'' : State M C W} (h : Leads c s s') (h' : Leads c s' s'') :
    Leads c s s'' := by
  obtain ⟨n, rfl⟩ := h
  obtain ⟨m, rfl⟩ := h'
  exact ⟨m + n, Function.iterate_add_apply ..⟩

theorem leads_step (h : Leads c (step c s) s') : Leads c s s' := by
  obtain ⟨n, rfl⟩ := h
  exact ⟨n + 1, rfl⟩

theorem reached_of_leads (hs : Reached c s) (h : Leads c s s') : Reached c s' := by
  obtain ⟨n, rfl⟩ := h
  exact hs.iterate n

end History

end GraphSchema
