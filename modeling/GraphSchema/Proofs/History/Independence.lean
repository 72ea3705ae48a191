import GraphSchema.Proofs.History.Once

/-! Compilations do not depend on what has been compiled before.

If each thunk comes to the same whenever it ends, then a visit that nothing waits for
gets the same fields, or the same refusal, from whichever cell it finds: one that an
earlier compilation has settled, or one whose thunk it starts itself. No cell is taken
then, for nothing goes on. So two compilations that begin alike go on alike, visit
after visit (`compile_independent`).

That a thunk always ends alike can mostly be read off it (`steady_of_fixes`). -/
namespace GraphSchema

/-- Whatever the world is and however compilations go, the thunk can only end with the outcome. -/
def Thunk.Only {M C W : Type} (outcome : Option (List (Field M C W))) : Thunk M C W → Prop
  | .done fields => some fields = outcome
  | .panic => none = outcome
  | .outside _ next => ∀ w, (next w).Only outcome
  | .compile _ next => ∀ a, (next a).Only outcome

namespace History

variable {M C W : Type} {c : Catalog M C W} {d : Description}

/-- Whenever the thunk at a place ends, in any history, it ends with the same outcome. -/
def Steady (c : Catalog M C W) (outcome : Nat → Option (List (Field M C W))) : Prop :=
  ∀ s, Reached c s → ∀ i o, .ended i o ∈ s.log → o = outcome i

variable {outcome : Nat → Option (List (Field M C W))} {s : State M C W}

theorem Steady.settled (hc : Steady c outcome) (hs : Reached c s) {i : Nat}
    {o : Option (List (Field M C W))} (hcell : s.store.memo i = .ofOutcome o) : o = outcome i := by
  have hended := ((accounted_of_reached hs).recorded i).ended o
  exact hc s hs i o (hended.mpr (by simp [hcell]))

/-! ### Thunks that can only end in one way -/

/-- The thunk that is asked for or runs ends, if it ends, with the outcome for its place. -/
def Focus.Fated (outcome : Nat → Option (List (Field M C W))) : Focus M C W → Prop
  | .ask v thunk | .run v thunk => thunk.Only (outcome v.place)
  | .idle | .call _ | .walk _ _ | .answer _ _ => True

structure Fated (outcome : Nat → Option (List (Field M C W))) (s : State M C W) : Prop where
  focus : s.focus.Fated outcome
  stack : ∀ p ∈ s.stack, ∀ a, (p.next a).Only (outcome p.visit.place)
  ended : ∀ i o, .ended i o ∈ s.log → o = outcome i

theorem fated_of_clear {f : Focus M C W} (h : f.isClear = true) : f.Fated outcome := by
  cases f with
  | walk d w | answer d a => trivial
  | idle | call d | ask v thunk | run v thunk => cases h

theorem eq_of_only {thunk : Thunk M C W} {o o' : Option (List (Field M C W))}
    (h : thunk.Only o) (hended : thunk.outcome? = some o') : o' = o := by
  cases thunk with
  | done fields | panic =>
    cases hended
    exact h
  | outside change next | compile d next => cases hended

/-- The thunks of the catalog can only end with the outcomes for their places. -/
def Fixes (c : Catalog M C W) (outcome : Nat → Option (List (Field M C W))) : Prop :=
  ∀ x t thunk, c.get? x = some t → t.kind.fields? = some thunk → thunk.Only (outcome x.index)

theorem fated_step (hc : Fixes c outcome) (hs : Fated outcome s) :
    Fated outcome (step c s) := by
  have hfate := hs.focus
  have hmove := move_step c s
  generalize step c s = s' at hmove ⊢
  cases hmove with
  | rests h => exact hs
  | opens h => exact ⟨fated_of_clear (isClear_opening ..), hs.stack, hs.ended⟩
  | @proceeds d w h =>
    refine ⟨?_, hs.stack, hs.ended⟩
    show (proceed c d w).Fated outcome
    rcases proceed_clear_or_ask c d w with hclear | ⟨v, thunk, hbegins, hthunk, heq⟩
    · exact fated_of_clear hclear
    · rw [heq]
      exact hc _ _ _ hbegins.get hthunk
  | starts h hcell =>
    rw [h] at hfate
    exact ⟨hfate, hs.stack, fun i o hmem => hs.ended i o (by simpa [State.start] using hmem)⟩
  | refuses h hcell => exact ⟨trivial, hs.stack, hs.ended⟩
  | reads h hcell => exact ⟨fated_of_clear (isClear_conclude ..), hs.stack, hs.ended⟩
  | ends h hthunk =>
    rw [h] at hfate
    refine ⟨fated_of_clear (isClear_conclude ..), hs.stack, fun i o hmem => ?_⟩
    rcases List.mem_cons.mp hmem with heq | hmem
    · cases heq
      exact eq_of_only hfate hthunk
    · exact hs.ended i o hmem
  | observes h =>
    rw [h] at hfate
    exact ⟨hfate s.store.world, hs.stack, hs.ended⟩
  | compiles h =>
    rw [h] at hfate
    refine ⟨trivial, fun p hp => ?_,
      fun i o hmem => hs.ended i o (by simpa [State.work] using hmem)⟩
    rcases List.mem_cons.mp hp with rfl | hp
    · exact hfate
    · exact hs.stack p hp
  | answers h hstack =>
    exact ⟨trivial, hs.stack, fun i o hmem => hs.ended i o (by simpa using hmem)⟩
  | @resumes d a p stack h hstack =>
    have hwaits := hs.stack
    rw [hstack] at hwaits
    exact ⟨hwaits p List.mem_cons_self a, fun q hq => hwaits q (List.mem_cons_of_mem p hq),
      fun i o hmem => hs.ended i o (by simpa using hmem)⟩

/-- A catalog whose thunks can only end in one way is steady. -/
theorem steady_of_fixes (hc : Fixes c outcome) : Steady c outcome := by
  intro s hs
  suffices h : Fated outcome s from h.ended
  induction hs with
  | fresh w =>
    have hnone : ∀ e, e ∉ (State.fresh w : State M C W).log := by simp [State.fresh]
    exact ⟨trivial, by simp [State.fresh], fun i o hmem => absurd hmem (hnone _)⟩
  | request _ _ w d ih =>
    exact ⟨trivial, by simp [State.request],
      fun i o hmem => ih.ended i o (by simpa [State.request] using hmem)⟩
  | step _ ih => exact fated_step hc ih

/-! ### Two compilations that begin alike -/

section

variable {nested : Nested M C W} {st st' : Store M C W} {log log' : List (Event M C W)}

/-- What a compilation gets of a type whose thunk has that outcome. -/
def yielded (typeName : String) :
    Option (List (Field M C W)) → Except DefinitionError (List (Field M C W))
  | some fields => .ok fields
  | none => .error (.poisonedFields typeName)

/-- A visit that nothing waits for gets what the thunk of its type always comes to. -/
theorem force_eq (hc : Steady c outcome) (hnested : Serves c nested c.size) {v : Visit M C W}
    {thunk : Thunk M C W} (hplace : v.place < c.size)
    (hreached : Reached c ⟨.ask v thunk, [], st, log⟩) :
    (st.force nested v.type.name v.place thunk).1 = yielded v.type.name (outcome v.place) := by
  unfold Store.force
  cases hcell : st.memo v.place with
  | ready fields =>
    rw [← hc.settled hreached (i := v.place) (o := some fields) hcell]
    rfl
  | poisoned =>
    rw [← hc.settled hreached (i := v.place) (o := none) hcell]
    rfl
  | resolving owner =>
    -- the cell would be that of a thunk that goes on, and there is none
    have hbusy := ((accounted_of_reached hreached).recorded v.place).busy.mpr ⟨owner, hcell⟩
    simp [State.busy] at hbusy
  | pending =>
    have hmem : v.place ∈ untouched c st := mem_untouched.mpr ⟨hplace, by rw [hcell]; rfl⟩
    have hfewer : (untouched c (st.setCell v.place (.resolving 0))).card < c.size :=
      Nat.lt_of_lt_of_le (card_untouched_take hmem) (card_untouched_le c st)
    have hstarted := hreached.step
    rw [step_pending rfl hcell] at hstarted
    obtain ⟨log', hruns⟩ := leads_of_run hnested v thunk hfewer [] (.started v.place :: log)
    have hsettled := hc.settled (reached_of_leads hstarted hruns) (Store.setCell_self ..)
    dsimp only
    rcases hrun : thunk.run nested (st.setCell v.place (.resolving 0)) with ⟨o, st'⟩
    rw [hrun] at hsettled
    rw [← hsettled]
    cases o <;> rfl

theorem fieldsOf_eq (hc : Steady c outcome) (hnested : Serves c nested c.size) {v : Visit M C W}
    (hplace : v.place < c.size) (h : Reached c ⟨v.attend c, [], st, log⟩)
    (h' : Reached c ⟨v.attend c, [], st', log'⟩) :
    (Walk.fieldsOf nested v.handle v.type st).1 = (Walk.fieldsOf nested v.handle v.type st').1 := by
  unfold Visit.attend at h h'
  unfold Walk.fieldsOf
  generalize v.type.kind.fields? = thunk? at h h' ⊢
  generalize v.type.kind = kind at h h' ⊢
  cases kind with
  | object o | interface i =>
    cases thunk? with
    | none => rfl
    | some thunk => exact (force_eq hc hnested hplace h).trans (force_eq hc hnested hplace h').symm
  | union u | enum e => rfl

theorem visit_eq (hc : Steady c outcome) (hnested : Serves c nested c.size) {w : Walk M C W}
    {x : Handle} (h : Reached c ⟨enter c d w x, [], st, log⟩)
    (h' : Reached c ⟨enter c d w x, [], st', log'⟩) :
    (w.visit nested c x st).1 = (w.visit nested c x st').1 := by
  unfold enter at h h'
  unfold Walk.visit
  cases hget : c.get? x with
  | none => rfl
  | some t =>
    rw [hget] at h h'
    dsimp only at h h' ⊢
    cases hclaim : { w with visited := w.visited ++ [x] }.claimName x t.name with
    | error e => rfl
    | ok w' =>
      rw [hclaim] at h h'
      have hfields := fieldsOf_eq hc hnested (v := ⟨d, w', x, t⟩) (lt_size_of_get? hget) h h'
      dsimp only at hfields ⊢
      rcases hone : Walk.fieldsOf nested x t st with ⟨result, st₁⟩
      rcases hother : Walk.fieldsOf nested x t st' with ⟨result', st₂⟩
      simp only [hone, hother] at hfields
      subst hfields
      cases result <;> rfl

/-- By induction on the visits: a visit leaves both walks alike, and both have been reached. -/
theorem run_eq (hc : Steady c outcome) (hnested : Serves c nested c.size) (visits : Nat)
    {w : Walk M C W} (h : Reached c ⟨.walk d w, [], st, log⟩)
    (h' : Reached c ⟨.walk d w, [], st', log'⟩) :
    (w.run nested c visits st).1 = (w.run nested c visits st').1 := by
  induction visits generalizing w st st' log log' with
  | zero => rfl
  | succ visits ih =>
    rw [Walk.run, Walk.run]
    cases hpending : w.pending with
    | nil => rfl
    | cons x rest =>
      have hentered := h.step
      have hentered' := h'.step
      simp only [step, State.turnTo, proceed, hpending] at hentered hentered'
      have heq := visit_eq hc hnested hentered hentered'
      obtain ⟨log₁, hvisit⟩ := leads_of_visit hnested d { w with pending := rest } x
        (card_untouched_le c st) [] log
      obtain ⟨log₂, hvisit'⟩ := leads_of_visit hnested d { w with pending := rest } x
        (card_untouched_le c st') [] log'
      have hnext := reached_of_leads hentered hvisit
      have hnext' := reached_of_leads hentered' hvisit'
      dsimp only
      rcases hone : Walk.visit nested c { w with pending := rest } x st with ⟨result, st₁⟩
      rcases hother : Walk.visit nested c { w with pending := rest } x st' with ⟨result', st₂⟩
      simp only [hone, hother] at heq hnext hnext'
      subst heq
      cases result with
      | error e => rfl
      | ok w' => exact ih hnext hnext'

theorem compileWith_eq (hc : Steady c outcome) (hnested : Serves c nested c.size)
    (h : Reached c ⟨.call d, [], st, log⟩) (h' : Reached c ⟨.call d, [], st', log'⟩) :
    (c.compileWith nested d st).1 = (c.compileWith nested d st').1 := by
  have hopened := h.step
  have hopened' := h'.step
  simp only [step, State.turnTo, opening] at hopened hopened'
  unfold Catalog.compileWith
  cases hlimits : d.limits.validate with
  | error reason => rfl
  | ok _ =>
    cases hmisuses : c.misuses with
    | cons e rest => rfl
    | nil =>
      cases hstart : Walk.start c d with
      | error e => rfl
      | ok w =>
        simp only [hlimits, hmisuses, hstart, onward] at hopened hopened'
        have hrun := run_eq hc hnested c.size hopened hopened'
        dsimp only
        rcases hone : w.run nested c c.size st with ⟨result, st₁⟩
        rcases hother : w.run nested c c.size st' with ⟨result', st₂⟩
        simp only [hone, hother] at hrun
        subst hrun
        cases result <;> rfl

end

/-- **Compiling does not depend on what has been compiled before.** If each thunk comes to the same
whenever it ends, then after any history, whatever was compiled in it, succeeded, failed or was
compiled by thunks, a description is answered as it is when nothing has been compiled yet: by the
same schema, or refused for the same reason. -/
theorem compile_independent (hc : ∃ outcome, Steady c outcome) (hs : Reached c s)
    (hidle : s.focus = .idle) (d : Description) (w w₀ : W) :
    (c.compile d ⟨s.store.memo, w⟩).1 = (c.compile d ⟨Memo.fresh, w₀⟩).1 := by
  obtain ⟨outcome, hc⟩ := hc
  have hlater : Reached c (s.request w d) := .request hs hidle w d
  have hfirst : Reached c ((State.fresh w₀).request w₀ d) := .request (.fresh w₀) rfl w₀ d
  simp only [Catalog.compile, Catalog.compileAt_eq]
  exact compileWith_eq hc (serves_nestedAt c c.size) hlater hfirst

/-- The query type that compiles itself is answered as before when it has been compiled. -/
theorem compile_independent_selfCompiling :
    ∃ s, Reached selfCompiling s ∧ s.focus = .idle ∧
      (∃ schema, .answered { query := ⟨0, 0⟩ } (.ok schema) ∈ s.log) ∧
      (selfCompiling.compile { query := ⟨0, 0⟩ } ⟨s.store.memo, ()⟩).1 =
        (selfCompiling.compile { query := ⟨0, 0⟩ } ⟨Memo.fresh, ()⟩).1 := by
  have hfixes : Fixes selfCompiling fun _ => some selfCompilingFields := by
    intro x t thunk hget hthunk
    have hat := Catalog.types_of_get? hget
    have hzero : x.index = 0 := Nat.lt_one_iff.mp (List.getElem?_eq_some_iff.mp hat).1
    rw [hzero] at hat
    cases hat
    cases hthunk
    exact fun _ => rfl
  obtain ⟨s, hreached, hidle, hanswered⟩ := selfCompiling_answered
  exact ⟨s, hreached, hidle, hanswered,
    compile_independent ⟨_, steady_of_fixes hfixes⟩ hreached hidle _ () ()⟩

end History

end GraphSchema
