import GraphSchema.Proofs.History.Levels
import GraphSchema.Proofs.History.Termination

/-! Thunks are lazy and run at most once.

Whatever has been compiled so far, and from inside which thunks: no thunk has been
started twice, and none but those of types that an earlier call reaches; the types of
every schema that has been answered have run theirs; and a compilation that needs the
fields of a thunk that goes on or has broken off is refused (`thunks_run_once`). -/
namespace GraphSchema.History

variable {M C W : Type} {c : Catalog M C W} {s : State M C W}

/-! ### A machine at rest -/

theorem ne_idle_of_clear {f : Focus M C W} (h : f.isClear = true) : f ≠ .idle := by
  rintro rfl
  cases h

theorem proceed_ne_idle (c : Catalog M C W) (d : Description) (w : Walk M C W) :
    proceed c d w ≠ .idle := by
  rcases proceed_clear_or_ask c d w with hclear | ⟨v, thunk, -, -, h⟩
  · exact ne_idle_of_clear hclear
  · rw [h]
    nofun

/-- The machine comes to rest with the answer to the client. -/
theorem stack_of_idle_step (hs : s.focus = .idle → s.stack = []) :
    (step c s).focus = .idle → (step c s).stack = [] := by
  have hmove := move_step c s
  generalize step c s = s' at hmove ⊢
  cases hmove with
  | rests h => exact hs
  | opens h => exact fun hidle => absurd hidle (ne_idle_of_clear (isClear_opening ..))
  | @proceeds d w h => exact fun hidle => absurd hidle (proceed_ne_idle c d w)
  | reads h _ | ends h _ =>
    exact fun hidle => absurd hidle (ne_idle_of_clear (isClear_conclude ..))
  | starts _ _ | refuses _ _ | observes _ | compiles _ | resumes _ _ => exact nofun
  | answers h hstack => exact fun _ => hstack

theorem stack_of_idle (hs : Reached c s) : s.focus = .idle → s.stack = [] := by
  induction hs with
  | fresh w => exact fun _ => rfl
  | request _ _ w d _ => exact nofun
  | step _ ih => exact stack_of_idle_step ih

theorem accounted_of_reached (hs : Reached c s) : Accounted s := by
  induction hs with
  | fresh w => exact accounted_fresh w
  | @request s h hidle w d ih =>
    have hbusy : s.busy = [] := by simp [State.busy, hidle, stack_of_idle h hidle]
    exact accounted_request ih hbusy w d
  | step _ ih => exact accounted_step c ih

theorem levelled_of_reached (hs : Reached c s) : Levelled c s := by
  induction hs with
  | fresh w => exact levelled_fresh c w
  | request _ _ w d ih => exact levelled_request ih w d
  | step h ih => exact levelled_step (accounted_of_reached h) ih

/-! ### Thunks -/

/-- A compilation that comes to an error is answered with it. -/
theorem log_of_fail {v : Visit M C W} {e : DefinitionError} (h : step c s = s.turnTo (v.fail e)) :
    ((step c)^[2] s).log = .answered v.description (.error e) :: s.log := by
  have hnext : (step c)^[2] s = step c (s.turnTo (v.fail e)) := congrArg (step c) h
  have hanswer : step c (s.turnTo (v.fail e)) =
      (s.turnTo (v.fail e)).deliver v.description (.error e) := rfl
  rw [hnext, hanswer, State.deliver]
  cases (s.turnTo (v.fail e)).stack <;> rfl

/-- **Thunks run at most once, and only when they are needed.** In every state that a history comes
to, with compilations that succeed, fail or are asked for by thunks: no thunk has been started
twice; one that has been started is the thunk of a type that the roots of an earlier call reach,
whose configuration is valid, and no misuse is recorded; each type with fields of a schema that has
been answered has run its thunk once; and a compilation that needs the fields of a type whose thunk
goes on or has broken off is answered with that. What a history answers to the client is what the
compiler computes. -/
theorem thunks_run_once (hs : Reached c s) :
    (∀ i, s.runs i ≤ 1) ∧
    (∀ i before, .started i :: before <:+ s.log → ∃ d, .called d ∈ before ∧
      d.limits.validate = .ok () ∧ c.misuses = [] ∧ c.Reaches s.store.memo d (c.handle i)) ∧
    (∀ d schema, .answered d (.ok schema) ∈ s.log → ∃ visited : List Handle,
      schema.typeNames = visited.map c.nameOf ∧
      (∀ h, h ∈ visited ↔ c.Reaches s.store.memo d h) ∧
      ∀ h ∈ visited, ∃ t, c.get? h = some t ∧ (t.kind.hasFields = true → s.runs h.index = 1)) ∧
    (∀ v thunk, s.focus = .ask v thunk →
      (s.Running v.place → ((step c)^[2] s).log =
        .answered v.description (.error (.reentrantFields v.type.name)) :: s.log) ∧
      (.ended v.place none ∈ s.log → ((step c)^[2] s).log =
        .answered v.description (.error (.poisonedFields v.type.name)) :: s.log)) ∧
    ∀ w d, ∃ log, Leads c (s.request w d)
      ⟨.idle, [], (c.compile d ⟨s.store.memo, w⟩).2,
        .answered d (c.compile d ⟨s.store.memo, w⟩).1 :: log⟩ := by
  have haccounted := accounted_of_reached hs
  have hlevelled := levelled_of_reached hs
  refine ⟨fun i => (haccounted.recorded i).runs_le, fun i before hsuffix => ?_,
    fun d schema hmem => ?_, fun v thunk hfocus => ⟨fun hrunning => ?_, fun hended => ?_⟩,
    fun w d => leads_of_request c s w d⟩
  · obtain ⟨d, hadmitted, hreach⟩ := hlevelled.started i before hsuffix
    exact ⟨d, hadmitted.called, hadmitted.limits, hadmitted.misuses, hreach⟩
  · obtain ⟨visited, hcompiled⟩ := hlevelled.answered d schema hmem
    refine ⟨visited, hcompiled.names, hcompiled.reached, fun h hh => ?_⟩
    obtain ⟨t, hget, hready⟩ := hcompiled.ready h hh
    refine ⟨t, hget, fun hkind => ?_⟩
    obtain ⟨fields, hcell⟩ := hready hkind
    exact (haccounted.recorded h.index).runs_of_ready hcell
  · obtain ⟨owner, hcell⟩ := (haccounted.recorded v.place).resolving_of_running hrunning
    exact log_of_fail (step_resolving hfocus hcell)
  · have houtcome := ((haccounted.recorded v.place).ended none).mp hended
    exact log_of_fail (step_settled hfocus (Cell.eq_ofOutcome houtcome))

def selfCompilingFields : List (Field Unit Unit Unit) :=
  [⟨"id", none, none, .scalar .id, [], .resolver .dynamic fun _ _ _ w => (.ok .null, w)⟩]

/-- A query type whose thunk compiles the catalog from it before it ends. -/
def selfCompiling : Catalog Unit Unit Unit where
  id := 0
  types := [{
    name := "Query"
    kind := .object {
      model := .unit Unit Unit
      fields := some (.compile { query := ⟨0, 0⟩ } fun _ => .done selfCompilingFields) } }]

theorem selfCompiling_compiles :
    ∃ schema, (selfCompiling.compile { query := ⟨0, 0⟩ } ⟨Memo.fresh, ()⟩).1 = .ok schema :=
  Except.exists_of_isOk (by decide +kernel)

theorem selfCompiling_answered :
    ∃ s, Reached selfCompiling s ∧ s.focus = .idle ∧
      ∃ schema, .answered { query := ⟨0, 0⟩ } (.ok schema) ∈ s.log := by
  obtain ⟨log, hleads⟩ := leads_of_request selfCompiling (.fresh ()) () { query := ⟨0, 0⟩ }
  obtain ⟨schema, hschema⟩ := selfCompiling_compiles
  refine ⟨_, reached_of_leads (.request (.fresh ()) rfl () _) hleads, rfl, schema, ?_⟩
  show .answered _ (.ok schema) ∈ .answered _
    (selfCompiling.compile { query := ⟨0, 0⟩ } ⟨Memo.fresh, ()⟩).1 :: log
  rw [hschema]
  exact List.mem_cons_self

/-- Its thunk, which has compiled it in between, has run once when the answer is there. -/
theorem thunks_run_once_selfCompiling :
    ∃ s, Reached selfCompiling s ∧ s.focus = .idle ∧
      (∃ schema, .answered { query := ⟨0, 0⟩ } (.ok schema) ∈ s.log) ∧ s.runs 0 = 1 := by
  obtain ⟨s, hreached, hidle, schema, hanswered⟩ := selfCompiling_answered
  refine ⟨s, hreached, hidle, ⟨schema, hanswered⟩, ?_⟩
  obtain ⟨-, -, hcompiled, -⟩ := thunks_run_once hreached
  obtain ⟨visited, -, hvisited, hruns⟩ := hcompiled _ schema hanswered
  obtain ⟨t, hget, hrun⟩ := hruns ⟨0, 0⟩ ((hvisited _).mpr (.root (by decide)))
  cases hget
  exact hrun rfl

end GraphSchema.History
