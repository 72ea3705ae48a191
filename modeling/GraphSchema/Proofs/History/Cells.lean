import Mathlib.Data.List.Nodup
import GraphSchema.Proofs.History.Machine

/-! Cells and what has happened.

A cell says of its thunk what the log says: that it has not been started, that it
goes on, or what it has come to. A thunk that goes on is the one that runs or waits,
and each of these is at a place of its own. Every step keeps it so
(`accounted_step`), hence it holds throughout a history, and a thunk that has been
started is never started again. -/
namespace GraphSchema.History

variable {M C W : Type} {c : Catalog M C W} {s : State M C W}

/-! ### The cell of one type -/

/-- The cell at the place says of its thunk what the log and the stack say. -/
structure Recorded (s : State M C W) (i : Nat) : Prop where
  runs : s.runs i = (s.store.memo i).begun
  ended : ∀ outcome, .ended i outcome ∈ s.log ↔ (s.store.memo i).outcome? = some outcome
  busy : i ∈ s.busy ↔ ∃ owner, s.store.memo i = .resolving owner

theorem started_mem_iff (s : State M C W) (i : Nat) : .started i ∈ s.log ↔ 0 < s.runs i := by
  rw [State.runs, List.countP_pos_iff]
  constructor
  · intro hmem
    exact ⟨_, hmem, by simp [Event.starts]⟩
  · rintro ⟨e, hmem, hstarts⟩
    cases e with
    | started place =>
      have hplace : place = i := by simpa [Event.starts] using hstarts
      rwa [hplace] at hmem
    | called d | ended place outcome | answered d a => cases hstarts

namespace Recorded

variable {i : Nat}

theorem runs_le (h : Recorded s i) : s.runs i ≤ 1 := by
  rw [h.runs]
  cases s.store.memo i <;> simp [Cell.begun]

/-- A thunk that has been started and has not ended holds its cell. -/
theorem resolving_of_running (h : Recorded s i) (hrunning : s.Running i) :
    ∃ owner, s.store.memo i = .resolving owner := by
  obtain ⟨hstarted, hnot⟩ := hrunning
  have hruns := (started_mem_iff s i).mp hstarted
  rw [h.runs] at hruns
  cases hcell : s.store.memo i with
  | pending => simp [hcell, Cell.begun] at hruns
  | resolving owner => exact ⟨owner, rfl⟩
  | ready fields => exact absurd ((h.ended (some fields)).mpr (by rw [hcell]; rfl)) (hnot _)
  | poisoned => exact absurd ((h.ended none).mpr (by rw [hcell]; rfl)) (hnot _)

theorem runs_of_ready (h : Recorded s i) {fields : List (Field M C W)}
    (hcell : s.store.memo i = .ready fields) : s.runs i = 1 := by
  rw [h.runs, hcell]
  rfl

end Recorded

/-! ### All cells -/

structure Accounted (s : State M C W) : Prop where
  recorded : ∀ i, Recorded s i
  nodup : s.busy.Nodup

theorem accounted_fresh (w : W) : Accounted (State.fresh w : State M C W) := by
  refine ⟨fun i => ⟨rfl, ?_, ?_⟩, List.nodup_nil⟩
  · simp [State.fresh, Memo.fresh, Cell.outcome?]
  · simp [State.fresh, State.busy, Memo.fresh]

theorem accounted_request (hs : Accounted s) (hidle : s.busy = []) (w : W) (d : Description) :
    Accounted (s.request w d) := by
  refine ⟨fun i => ⟨?_, ?_, ?_⟩, List.nodup_nil⟩
  · have hruns := (hs.recorded i).runs
    simpa [State.runs, State.request, Event.starts] using hruns
  · have hended := (hs.recorded i).ended
    simpa [State.request] using hended
  · have hbusy := (hs.recorded i).busy
    rw [hidle] at hbusy
    simpa [State.request, State.busy] using hbusy

theorem accounted_quiet {s' : State M C W} (hs : Accounted s) (h : Quiet s s') : Accounted s' := by
  have hruns : ∀ i, s'.runs i = s.runs i := by
    intro i
    rcases h.log with hlog | ⟨d, hlog⟩ | ⟨d, a, hlog⟩ <;>
      simp [State.runs, hlog, Event.starts]
  have hended : ∀ i outcome, .ended i outcome ∈ s'.log ↔ .ended i outcome ∈ s.log := by
    intro i outcome
    rcases h.log with hlog | ⟨d, hlog⟩ | ⟨d, a, hlog⟩ <;> simp [hlog]
  refine ⟨fun i => ⟨?_, fun outcome => ?_, ?_⟩, ?_⟩
  · rw [hruns, h.memo]
    exact (hs.recorded i).runs
  · rw [hended, h.memo]
    exact (hs.recorded i).ended outcome
  · rw [h.busy, h.memo]
    exact (hs.recorded i).busy
  · rw [h.busy]
    exact hs.nodup

/-- A thunk is only started from a pending cell, which then is its own. -/
theorem accounted_start (hs : Accounted s) {v : Visit M C W} {thunk : Thunk M C W}
    (hfocus : s.focus = .ask v thunk) (hcell : s.store.memo v.place = .pending) :
    Accounted (s.start v thunk) := by
  have hbusy : (s.start v thunk).busy = v.place :: s.busy := by
    simp [State.start, State.busy, hfocus]
  have hfree : v.place ∉ s.busy := by
    intro hmem
    obtain ⟨owner, howner⟩ := (hs.recorded _).busy.mp hmem
    rw [hcell] at howner
    cases howner
  refine ⟨fun i => ?_, ?_⟩
  · by_cases hi : i = v.place
    · subst hi
      obtain ⟨hruns, hended, -⟩ := hs.recorded v.place
      refine ⟨?_, fun outcome => ?_, ?_⟩
      · rw [hcell] at hruns
        simpa [State.start, State.runs, Event.starts, Cell.begun] using hruns
      · have hnone := hended outcome
        rw [hcell] at hnone
        simpa [State.start, Cell.outcome?] using hnone
      · rw [hbusy]
        simp [State.start]
    · obtain ⟨hruns, hended, hholds⟩ := hs.recorded i
      have hmemo : (s.start v thunk).store.memo i = s.store.memo i :=
        Store.setCell_of_ne _ _ hi
      refine ⟨?_, fun outcome => ?_, ?_⟩
      · rw [hmemo, ← hruns]
        simp [State.start, State.runs, Event.starts, Ne.symm hi]
      · rw [hmemo, ← hended]
        simp [State.start]
      · rw [hmemo, hbusy, ← hholds]
        simp [hi]
  · rw [hbusy]
    exact List.nodup_cons.mpr ⟨hfree, hs.nodup⟩

/-- The outcome of a thunk settles the cell that the thunk has held. -/
theorem accounted_settle (hs : Accounted s) {v : Visit M C W} {thunk : Thunk M C W}
    (hfocus : s.focus = .run v thunk) (outcome : Option (List (Field M C W))) :
    Accounted (s.settle c v outcome) := by
  have hbusy : s.busy = v.place :: (s.settle c v outcome).busy := by
    simp [State.settle, State.busy, hfocus]
  have hnodup := hs.nodup
  rw [hbusy] at hnodup
  obtain ⟨hfree, hrest⟩ := List.nodup_cons.mp hnodup
  refine ⟨fun i => ?_, hrest⟩
  by_cases hi : i = v.place
  · subst hi
    obtain ⟨hruns, hended, hholds⟩ := hs.recorded v.place
    obtain ⟨owner, howner⟩ := hholds.mp (by simp [hbusy])
    rw [howner] at hruns hended
    change s.runs v.place = 1 at hruns
    refine ⟨?_, fun outcome' => ?_, ?_⟩
    · simpa [State.settle, State.runs, Event.starts] using hruns
    · have hnone := hended outcome'
      simp only [Cell.outcome?, reduceCtorEq, iff_false] at hnone
      simp [State.settle, hnone, eq_comm]
    · refine ⟨fun hmem => absurd hmem hfree, ?_⟩
      rintro ⟨owner', hcell⟩
      cases outcome <;> simp [State.settle, Cell.ofOutcome] at hcell
  · obtain ⟨hruns, hended, hholds⟩ := hs.recorded i
    have hmemo : (s.settle c v outcome).store.memo i = s.store.memo i :=
      Store.setCell_of_ne _ _ hi
    refine ⟨?_, fun outcome' => ?_, ?_⟩
    · rw [hmemo, ← hruns]
      simp [State.settle, State.runs, Event.starts]
    · rw [hmemo, ← hended]
      simp [State.settle, hi]
    · rw [hmemo, ← hholds, hbusy]
      simp [hi]

theorem accounted_step (c : Catalog M C W) (hs : Accounted s) : Accounted (step c s) := by
  rcases step_cases c s with hquiet | ⟨v, thunk, hfocus, hcell, heq⟩ | ⟨v, thunk, o, hfocus, heq⟩
  · exact accounted_quiet hs hquiet
  · rw [heq]
    exact accounted_start hs hfocus hcell
  · rw [heq]
    exact accounted_settle hs hfocus o

end GraphSchema.History
