import Mathlib.Logic.Relation
import GraphSchema.Proofs.Threads.Steps

/-! Threads that wait for each other. A thread that asks for the cell it is computing is
told so, but the check looks at one thread only: two threads that are each in the
middle of the cell that the other asks for both go to sleep. The cycles of sleeping
threads come about in exactly one way, never dissolve, and are out of the question
where no computation can come to force its own cell by way of others. -/
namespace GraphSchema.Threads

open Relation

variable {α : Type} {computations : Nat → Computation α} {s s' : State α} {t u : Nat}

/-- Thread `t` sleeps for a cell that thread `u` has started to compute. -/
def State.Blocks (s : State α) (t u : Nat) : Prop :=
  ∃ c, (s.threads t).waiting = some c ∧ s.cells c = .resolving u

/-- Some threads sleep for each other in a circle. -/
def State.Deadlocked (s : State α) : Prop := ∃ t, TransGen s.Blocks t t

/-- Thread `t` is about to look at a cell in the hands of a thread that sleeps, by way of others
perhaps, for `t` itself. -/
def State.Closes (s : State α) (t : Nat) : Prop :=
  ∃ c u, s.Looks t c ∧ s.cells c = .resolving u ∧ u ≠ t ∧ ReflTransGen s.Blocks u t

/-! ### Circles of a relation -/

section Circles

variable {R : Nat → Nat → Prop} {a b x y : Nat}

/-- A way through a relation with one more pair either does without the pair or has a part before
it and a part after it. -/
theorem transGen_with_pair (way : TransGen (fun i j => R i j ∨ i = x ∧ j = y) a b) :
    TransGen R a b ∨ ReflTransGen R a x ∧ ReflTransGen R y b := by
  induction way with
  | single last =>
    rcases last with last | ⟨rfl, rfl⟩
    · exact .inl (.single last)
    · exact .inr ⟨.refl, .refl⟩
  | tail way last ih =>
    rcases ih, last with ⟨before | ⟨before, behind⟩, last | ⟨rfl, rfl⟩⟩
    · exact .inl (before.tail last)
    · exact .inr ⟨before.to_reflTransGen, .refl⟩
    · exact .inr ⟨before, behind.tail last⟩
    · exact .inr ⟨before, .refl⟩

/-- In a circle every pair is followed by another one. -/
theorem transGen_followed (circle : TransGen R a a) :
    TransGen (fun i j => R i j ∧ ∃ k, R j k) a a := by
  have next : ∃ k, R a k := (TransGen.head'_iff.mp circle).imp fun _ => And.left
  suffices ∀ i, TransGen R i a → TransGen (fun i j => R i j ∧ ∃ k, R j k) i a from this a circle
  intro i way
  induction way using TransGen.head_induction_on with
  | single last => exact .single ⟨last, next⟩
  | head first rest ih =>
    exact .head ⟨first, (TransGen.head'_iff.mp rest).imp fun _ => And.left⟩ ih

end Circles

/-! ### How a circle comes about -/

theorem not_blocks_self (h : Orderly s) : ¬ s.Blocks t t := by
  rintro ⟨c, waits, held⟩
  obtain ⟨-, v, other, held'⟩ := h.sleeps t c waits
  exact other (Cell.resolving.inj (held'.symm.trans held))

theorem not_blocks_of_awake (awake : (s.threads t).waiting = none) : ¬ s.Blocks t u := by
  rintro ⟨c, waits, -⟩
  simp [awake] at waits

/-- Whoever goes to sleep is blocked by the thread that has the cell. -/
theorem blocks_sleep {cell : Nat} (awake : (s.threads t).waiting = none)
    (held : s.cells cell = .resolving u) (i j : Nat) :
    (s.setThread t { s.threads t with waiting := some cell }).Blocks i j ↔
      s.Blocks i j ∨ i = t ∧ j = u := by
  by_cases same : i = t
  · subst same
    simp [State.Blocks, State.setThread, held, awake, eq_comm]
  · simp [State.Blocks, State.setThread, update_of_ne _ _ same, same]

theorem blocks_setThread {th : Thread α} (waiting : th.waiting = (s.threads t).waiting)
    (i j : Nat) : (s.setThread t th).Blocks i j ↔ s.Blocks i j := by
  by_cases same : i = t
  · subst same
    simp [State.Blocks, State.setThread, waiting]
  · simp [State.Blocks, State.setThread, update_of_ne _ _ same]

theorem blocks_start (h : Orderly s) {cell : Nat} (pending : s.cells cell = .pending)
    (i j : Nat) : (s.start computations t cell).Blocks i j ↔ s.Blocks i j := by
  have waiting : ((s.start computations t cell).threads i).waiting = (s.threads i).waiting := by
    simp only [State.start, update]
    split <;> simp_all
  simp only [State.Blocks, waiting]
  -- nobody sleeps for a cell that nobody has
  refine exists_congr fun c => and_congr_right fun waits => ?_
  obtain ⟨-, v, -, held⟩ := h.sleeps i c waits
  have other : c ≠ cell := by
    rintro rfl
    simp [pending] at held
  simp [State.start, update_of_ne _ _ other]

theorem blocks_settle (h : Orderly s) {cell : Nat} {ended : Computation α}
    {frames : List (Frame α)} (outcome : Option α) (awake : (s.threads t).waiting = none)
    (top : (s.threads t).frames = ⟨cell, ended⟩ :: frames) (i j : Nat) :
    ((s.settle t cell frames outcome).Blocks i j → s.Blocks i j) ∧
      (s.Blocks i j → j ≠ t → (s.settle t cell frames outcome).Blocks i j) := by
  have held : s.cells cell = .resolving t := (h.owned cell t).mpr (by simp [Thread.running, top])
  have waiting : ∀ c, ((s.settle t cell frames outcome).threads i).waiting = some c ↔
      (s.threads i).waiting = some c ∧ c ≠ cell := fun c => by
    simp only [State.settle, Thread.waiting_woken, update]
    split <;> simp_all
  have cells : ∀ c, c ≠ cell → (s.settle t cell frames outcome).cells c = s.cells c :=
    fun c other => update_of_ne _ _ other
  constructor
  · rintro ⟨c, waits, taken⟩
    obtain ⟨waits, other⟩ := (waiting c).mp waits
    exact ⟨c, waits, cells c other ▸ taken⟩
  · rintro ⟨c, waits, taken⟩ away
    have other : c ≠ cell := by
      rintro rfl
      exact away (Cell.resolving.inj (taken.symm.trans held))
    exact ⟨c, (waiting c).mpr ⟨waits, other⟩, (cells c other).trans taken⟩

/-- A move that is not the one of `blocks_sleep` lets nobody sleep and ends the sleep of nobody
whose blocker sleeps too. -/
theorem blocks_move (h : Orderly s) (move : Move computations s t s')
    (free : ∀ c u, s.Looks t c → s.cells c = .resolving u → u = t) (i j : Nat) :
    (s'.Blocks i j → s.Blocks i j) ∧ (s.Blocks i j → (∃ k, s.Blocks j k) → s'.Blocks i j) := by
  cases move with
  | rest => exact ⟨id, fun blocks _ => blocks⟩
  | observe awake top =>
    refine ⟨(blocks_setThread ?_ i j).mp, fun blocks _ => (blocks_setThread ?_ i j).mpr blocks⟩
    all_goals rfl
  | answer looks told =>
    refine ⟨(blocks_setThread ?_ i j).mp, fun blocks _ => (blocks_setThread ?_ i j).mpr blocks⟩
    all_goals exact Thread.waiting_answered ..
  | settle awake top ends =>
    obtain ⟨before, after⟩ := blocks_settle h _ awake top i j
    refine ⟨before, fun blocks ⟨k, next⟩ => after blocks ?_⟩
    rintro rfl
    exact not_blocks_of_awake awake next
  | sleep looks held other => exact absurd (free _ _ looks held) other
  | start looks pending =>
    rename_i cell
    have same : (s.start computations t cell).Blocks i j ↔ s.Blocks i j :=
      blocks_start h pending i j
    exact ⟨same.mp, fun blocks _ => same.mpr blocks⟩

/-- A step leads into a circle only by the last thread of the circle going to sleep, and never out
of one. -/
theorem deadlocked_step_iff (h : Orderly s) :
    (s.step computations t).Deadlocked ↔ s.Deadlocked ∨ s.Closes t := by
  by_cases sleeps : ∃ c u, s.Looks t c ∧ s.cells c = .resolving u ∧ u ≠ t
  case neg =>
    have free : ∀ c u, s.Looks t c → s.cells c = .resolving u → u = t := fun c u looks held =>
      Classical.byContradiction fun other => sleeps ⟨c, u, looks, held, other⟩
    have moved := blocks_move h (move_step computations s t) free
    have open' : ¬ s.Closes t := fun ⟨c, u, looks, held, other, _⟩ => other (free c u looks held)
    rw [or_iff_left open']
    constructor
    · exact fun ⟨i, circle⟩ => ⟨i, TransGen.mono (fun i j => (moved i j).1) i i circle⟩
    · rintro ⟨i, circle⟩
      exact ⟨i, TransGen.mono (fun i j both => (moved i j).2 both.1 both.2) i i
        (transGen_followed circle)⟩
  case pos =>
    obtain ⟨c, u, looks, held, other⟩ := sleeps
    have asleep : s.step computations t =
        s.setThread t { s.threads t with waiting := some c } := by
      simp [step_of_looks looks, State.look, held, other]
    have blocks := blocks_sleep (s := s) looks.1 held
    rw [asleep]
    constructor
    · rintro ⟨i, circle⟩
      rcases transGen_with_pair (TransGen.mono (fun i j => (blocks i j).mp) i i circle) with
        circle | ⟨before, behind⟩
      · exact .inl ⟨i, circle⟩
      · exact .inr ⟨c, u, looks, held, other, behind.trans before⟩
    · have grows : s.Blocks ≤ _ := fun i j edge => (blocks i j).mpr (.inl edge)
      rintro (⟨i, circle⟩ | ⟨c', u', looks', held', -, way⟩)
      · exact ⟨i, TransGen.mono grows i i circle⟩
      · obtain rfl : c = c' := Option.some.inj (looks.2.symm.trans looks'.2)
        obtain rfl : u = u' := Cell.resolving.inj (held.symm.trans held')
        exact ⟨t, .head' ((blocks t u).mpr (.inr ⟨rfl, rfl⟩)) (ReflTransGen.mono grows u t way)⟩

/-! ### No circle dissolves -/

/-- The threads of `K` are inside calls for cells that threads of `K` have started. -/
def Knot (s : State α) (K : Set Nat) : Prop :=
  ∀ t ∈ K, ∃ c u, (s.threads t).demanded = some c ∧ s.cells c = .resolving u ∧ u ∈ K ∧ u ≠ t

/-- The thread is at the same place of the same computations. -/
structure Thread.Stands (th th' : Thread α) : Prop where
  frames : th'.frames = th.frames
  demanded : th'.demanded = th.demanded
  returned : th'.returned = th.returned

theorem Thread.Stands.refl (th : Thread α) : th.Stands th := ⟨rfl, rfl, rfl⟩

theorem Thread.Stands.trans {th th' th'' : Thread α} (first : th.Stands th')
    (second : th'.Stands th'') : th.Stands th'' :=
  ⟨second.frames.trans first.frames, second.demanded.trans first.demanded,
    second.returned.trans first.returned⟩

theorem Thread.Stands.woken (th : Thread α) (cell : Nat) : th.Stands (th.woken cell) :=
  ⟨by simp, by simp, by simp⟩

theorem stands_setThread {th : Thread α} (stands : (s.threads t).Stands th) (i : Nat) :
    (s.threads i).Stands ((s.setThread t th).threads i) := by
  simp only [State.setThread, update]
  split
  · rename_i same
    exact same ▸ stands
  · exact .refl _

theorem stands_setThread_of_ne {th : Thread α} {i : Nat} (other : i ≠ t) :
    (s.threads i).Stands ((s.setThread t th).threads i) := by
  simp only [State.setThread, update_of_ne _ _ other]
  exact .refl _

/-- What a move leaves of a knot: its threads stand, and what they are in the middle of stays in
their hands. -/
theorem knot_move {K : Set Nat} (h : Orderly s) (knot : Knot s K)
    (move : Move computations s t s') :
    (∀ i ∈ K, (s.threads i).Stands (s'.threads i)) ∧
      ∀ c, ∀ i ∈ K, s.cells c = .resolving i → s'.cells c = .resolving i := by
  cases move with
  | rest => exact ⟨fun i _ => .refl _, fun c i _ held => held⟩
  | observe awake top =>
    have outside : t ∉ K := fun inside => by
      obtain ⟨c, u, demands, -⟩ := knot t inside
      simp [Thread.demanded, top] at demands
    exact ⟨fun i inside => stands_setThread_of_ne (ne_of_mem_of_not_mem inside outside),
      fun c i _ held => held⟩
  | answer looks told =>
    have outside : t ∉ K := fun inside => by
      obtain ⟨c, u, demands, held, -, other⟩ := knot t inside
      obtain rfl := Option.some.inj (demands.symm.trans looks.2)
      simp [held, answerFor, other] at told
    exact ⟨fun i inside => stands_setThread_of_ne (ne_of_mem_of_not_mem inside outside),
      fun c i _ held => held⟩
  | settle awake top ends =>
    rename_i cell ended frames outcome
    have held : s.cells cell = .resolving t := (h.owned cell t).mpr (by simp [Thread.running, top])
    have outside : t ∉ K := fun inside => by
      obtain ⟨c, u, demands, -⟩ := knot t inside
      cases ended <;> simp [Thread.demanded, top, Computation.outcome?] at demands ends
    constructor
    · intro i inside
      have other : i ≠ t := ne_of_mem_of_not_mem inside outside
      simp only [State.settle, update_of_ne _ _ other]
      exact .woken _ cell
    · intro c i inside taken
      have other : c ≠ cell := by
        rintro rfl
        exact outside (Cell.resolving.inj (taken.symm.trans held) ▸ inside)
      simpa [State.settle, update_of_ne _ _ other] using taken
  | sleep looks held other =>
    refine ⟨fun i _ => stands_setThread ?_ i, fun c i _ held => held⟩
    exact ⟨rfl, rfl, rfl⟩
  | start looks pending =>
    rename_i cell
    have outside : t ∉ K := fun inside => by
      obtain ⟨c, u, demands, held, -⟩ := knot t inside
      obtain rfl := Option.some.inj (demands.symm.trans looks.2)
      simp [held] at pending
    constructor
    · intro i inside
      have other : i ≠ t := ne_of_mem_of_not_mem inside outside
      simp only [State.start, update_of_ne _ _ other]
      exact .refl _
    · intro c i inside taken
      have other : c ≠ cell := by
        rintro rfl
        simp [taken] at pending
      simpa [State.start, update_of_ne _ _ other] using taken

theorem knot_after {K : Set Nat} (h : Orderly s) (knot : Knot s K) (e : Event) :
    Knot (s.after computations e) K ∧
      ∀ i ∈ K, (s.threads i).Stands ((s.after computations e).threads i) := by
  have left : (∀ i ∈ K, (s.threads i).Stands ((s.after computations e).threads i)) ∧
      ∀ c, ∀ i ∈ K, s.cells c = .resolving i →
        (s.after computations e).cells c = .resolving i := by
    cases e with
    | step t => exact knot_move h knot (move_step computations s t)
    | wake t =>
      refine ⟨fun i _ => stands_setThread ?_ i, fun c i _ held => held⟩
      exact ⟨rfl, rfl, rfl⟩
    | demand t cell =>
      refine ⟨fun i inside => ?_, fun c i _ held => held⟩
      by_cases same : i = t
      · subst same
        obtain ⟨c, u, demands, -⟩ := knot i inside
        refine stands_setThread ?_ i
        refine ⟨rfl, ?_, rfl⟩
        simp only [Thread.demanded] at demands ⊢
        split <;> simp_all
      · exact stands_setThread_of_ne same
  refine ⟨fun i inside => ?_, left.1⟩
  obtain ⟨c, u, demands, held, within, other⟩ := knot i inside
  exact ⟨c, u, (left.1 i inside).demanded.trans demands, left.2 c u within held, within, other⟩

theorem knot_through {K : Set Nat} (h : Orderly s) (knot : Knot s K) (events : List Event) :
    ∀ i ∈ K, (s.threads i).Stands ((s.through computations events).threads i) := by
  induction events generalizing s with
  | nil => exact fun i _ => .refl _
  | cons e events ih =>
    obtain ⟨knot', stands⟩ : Knot (s.after computations e) K ∧
        ∀ i ∈ K, (s.threads i).Stands ((s.after computations e).threads i) := knot_after h knot e
    exact fun i inside => (stands i inside).trans (ih (orderly_after h e) knot' i inside)

theorem knot_of_circles (h : Orderly s) : Knot s { t | TransGen s.Blocks t t } := by
  intro t circle
  obtain ⟨u, ⟨c, waits, held⟩, way⟩ := TransGen.head'_iff.mp circle
  obtain ⟨demands, v, other, held'⟩ := h.sleeps t c waits
  obtain rfl := Cell.resolving.inj (held.symm.trans held')
  exact ⟨c, u, demands, held, .tail' way ⟨c, waits, held⟩, other⟩

/-! ### When there can be no circle -/

/-- What a computation has come to after some answers. -/
inductive Comes (c : Computation α) : Computation α → Prop where
  | start : Comes c c
  | answered {cell next} (a : Except ForceError α) :
      Comes c (.force cell next) → Comes c (next a)
  | observed {cell next} (seen : Cell α) : Comes c (.observe cell next) → Comes c (next seen)

/-- The computation of a cell can come to force the other one. -/
def Demands (computations : Nat → Computation α) (c d : Nat) : Prop :=
  ∃ next, Comes (computations c) (.force d next)

def Computation.forced? : Computation α → Option Nat
  | .force cell _ => some cell
  | .done _ | .panic | .observe _ _ => none

/-- Each computation of the stack has been started by the call that the one below is at. -/
def Nested (computations : Nat → Computation α) : List (Frame α) → Prop
  | [] => True
  | f :: frames =>
    Comes (computations f.cell) f.rest ∧ (∀ g ∈ frames.head?, g.rest.forced? = some f.cell) ∧
      Nested computations frames

theorem Thread.demanded_cons {th : Thread α} {f : Frame α} {frames : List (Frame α)}
    (top : th.frames = f :: frames) : th.demanded = f.rest.forced? := by
  obtain ⟨cell, rest⟩ := f
  cases rest <;> simp [Thread.demanded, top, Computation.forced?]

theorem demands_of_forced {f : Frame α} {d : Nat} (comes : Comes (computations f.cell) f.rest)
    (forces : f.rest.forced? = some d) : Demands computations f.cell d := by
  cases held : f.rest with
  | force cell next =>
    obtain rfl : cell = d := by simpa [held, Computation.forced?] using forces
    exact ⟨next, held ▸ comes⟩
  | _ => simp [held, Computation.forced?] at forces

theorem demands_of_nested {frames : List (Frame α)} {f : Frame α} {d : Nat}
    (nested : Nested computations (f :: frames)) (forces : f.rest.forced? = some d) :
    ∀ g ∈ f :: frames, TransGen (Demands computations) g.cell d := by
  induction frames generalizing f d with
  | nil => simpa using TransGen.single (demands_of_forced nested.1 forces)
  | cons below frames ih =>
    have last := demands_of_forced nested.1 forces
    have calls := ih nested.2.2 (nested.2.1 below (by simp))
    intro g inside
    rcases List.mem_cons.mp inside with rfl | inside
    · exact .single last
    · exact (calls g inside).tail last

/-- All threads are in the middle of nested computations only. -/
def State.Nested (computations : Nat → Computation α) (s : State α) : Prop :=
  ∀ t, Threads.Nested computations (s.threads t).frames

theorem nested_idle : (State.idle : State α).Nested computations := fun _ => trivial

theorem nested_setThread {th : Thread α} (nested : s.Nested computations)
    (own : Nested computations th.frames) : (s.setThread t th).Nested computations := by
  intro i
  simp only [State.setThread, update]
  split
  · exact own
  · exact nested i

/-- The answer goes to the computation that asked for it. -/
theorem nested_answered {th : Thread α} {cell : Nat} (a : Except ForceError α)
    (nested : Nested computations th.frames) : Nested computations (th.answered cell a).frames := by
  simp only [Thread.answered]
  split
  · rename_i caller _ next frames top
    rw [top] at nested
    obtain ⟨comes, calls, rest⟩ := nested
    exact ⟨.answered a comes, calls, rest⟩
  · exact nested
  · exact nested

theorem nested_move (nested : s.Nested computations) (move : Move computations s t s') :
    s'.Nested computations := by
  have own := nested t
  cases move with
  | rest => exact nested
  | observe awake top =>
    rw [top] at own
    obtain ⟨comes, calls, rest⟩ := own
    exact nested_setThread nested ⟨.observed _ comes, calls, rest⟩
  | settle awake top ends =>
    rw [top] at own
    intro i
    simp only [State.settle, Thread.frames_woken, update]
    split
    · exact nested_answered _ own.2.2
    · exact nested i
  | answer looks told => exact nested_setThread nested (nested_answered _ own)
  | sleep looks held other => exact nested_setThread nested own
  | start looks pending =>
    rename_i cell
    intro i
    simp only [State.start, update]
    split
    · refine ⟨.start, fun g first => ?_, own⟩
      obtain ⟨frames, top⟩ : ∃ frames, (s.threads t).frames = g :: frames :=
        List.head?_eq_some_iff.mp first
      exact (Thread.demanded_cons top).symm.trans looks.2
    · exact nested i

theorem nested_through (nested : s.Nested computations) (events : List Event) :
    (s.through computations events).Nested computations := by
  induction events generalizing s with
  | nil => exact nested
  | cons e events ih =>
    refine ih ?_
    cases e with
    | step t => exact nested_move nested (move_step computations s t)
    | wake t => exact nested_setThread nested (nested t)
    | demand t cell => exact nested_setThread nested (nested t)

/-- A thread that sleeps for `d` is in the middle of cells that all demand `d`. -/
theorem demands_of_running (h : Orderly s) (nested : s.Nested computations) {c d : Nat}
    (runs : c ∈ (s.threads t).running) (waits : (s.threads t).waiting = some d) :
    TransGen (Demands computations) c d := by
  obtain ⟨f, inside, rfl⟩ := List.mem_map.mp runs
  obtain ⟨demands, -⟩ := h.sleeps t d waits
  cases top : (s.threads t).frames with
  | nil => simp [top] at inside
  | cons first frames =>
    exact demands_of_nested (top ▸ nested t) ((Thread.demanded_cons top).symm.trans demands) f
      (top ▸ inside)

theorem demands_of_blocks (h : Orderly s) (nested : s.Nested computations) {i j c d : Nat}
    (way : TransGen s.Blocks i j) (first : (s.threads i).waiting = some c)
    (last : (s.threads j).waiting = some d) : TransGen (Demands computations) c d := by
  induction way generalizing d with
  | single edge =>
    obtain ⟨c', waits, held⟩ := edge
    obtain rfl := Option.some.inj (first.symm.trans waits)
    exact demands_of_running h nested ((h.owned _ _).mp held) last
  | tail way edge ih =>
    obtain ⟨e, waits, held⟩ := edge
    exact (ih waits).trans (demands_of_running h nested ((h.owned _ _).mp held) last)

/-- Computations that cannot come to force themselves, directly or by way of others. -/
def Acyclic (computations : Nat → Computation α) : Prop :=
  ∀ c, ¬ TransGen (Demands computations) c c

theorem not_deadlocked_of_acyclic (h : Orderly s) (nested : s.Nested computations)
    (acyclic : Acyclic computations) : ¬ s.Deadlocked := by
  rintro ⟨t, circle⟩
  obtain ⟨u, ⟨c, waits, -⟩, -⟩ := TransGen.head'_iff.mp circle
  exact acyclic c (demands_of_blocks h nested circle waits waits)

/-! ### The result -/

/-- **Circles of sleeping threads come about in one way only: a thread goes to sleep for a cell of
another thread that sleeps, by way of others perhaps, for the first. They never dissolve: the calls
of their threads never return. A thread never sleeps for itself, and there is no circle at all if
no computation can come to force its own cell by way of others.** -/
theorem deadlock_iff (computations : Nat → Computation α) (events : List Event) :
    let s := State.idle.through computations events
    (∀ t, (s.step computations t).Deadlocked ↔ s.Deadlocked ∨ s.Closes t) ∧
    (∀ t, TransGen s.Blocks t t → ∀ later,
      (s.threads t).Stands ((s.through computations later).threads t)) ∧
    (∀ t, ¬ s.Blocks t t) ∧
    (Acyclic computations → ¬ s.Deadlocked) := by
  intro s
  have h : Orderly s := orderly_through orderly_idle events
  have nested : s.Nested computations := nested_through nested_idle events
  exact ⟨fun t => deadlocked_step_iff h,
    fun t circle later => knot_through h (knot_of_circles h) later t circle,
    fun t => not_blocks_self h, not_deadlocked_of_acyclic h nested⟩

/-- Two cells whose computations force each other. -/
def crossing (c : Nat) : Computation Nat := .force (1 - c) fun _ => .done c

/-- Each thread starts one of the cells, the first goes to sleep for the cell of the second, and the
second closes the circle. -/
theorem deadlock_iff_crossing :
    (State.idle.through crossing [.demand 1 0, .demand 2 1, .step 1, .step 2, .step 1,
      .step 2]).Deadlocked := by
  refine ((deadlock_iff crossing
    [.demand 1 0, .demand 2 1, .step 1, .step 2, .step 1]).1 2).mpr (.inr ?_)
  refine ⟨0, 1, ⟨rfl, rfl⟩, rfl, by decide, .single ⟨1, rfl, rfl⟩⟩

/-- One thread alone is told. -/
example :
    ((State.idle.through crossing ([.demand 1 0] ++ List.replicate 6 (.step 1))).threads
      1).returned = [(0, .ok 0), (1, .ok 1), (0, .error .reentrant)] := rfl

end GraphSchema.Threads
