import GraphSchema.Proofs.Direct.Simulation
import GraphSchema.Proofs.Run.Log

/-! The nulls of a run.

A position is kept to be null for a call and for nothing else: either the call fails
where none may be, or a stand-in is left in its value. So a run whose calls keep no
position nulls nothing (`nulls_of_run`). -/
namespace GraphSchema.Execution

open Direct Query

variable {M C W : Type} {context : Option C}

/-- The call keeps the position to be null, whatever may be null above it. -/
def Call.Nulls (context : Option C) (c : Call M C W) (q : Path) : Prop :=
  ∃ anchor, q ∈ (c.field.plan.settle c.path anchor (c.produced context)).nulls

/-- A part of a run that only keeps positions for calls. -/
structure Nulling (context : Option C) (tr tr' : Trace M C W) : Prop where
  calls : tr.calls ⊆ tr'.calls
  nulls : ∀ q ∈ tr'.nulls, q ∈ tr.nulls ∨ ∃ c ∈ tr'.calls, c.Nulls context q

theorem nulling_of_untouched {tr tr' : Trace M C W} (h : Untouched tr tr') :
    Nulling context tr tr' :=
  ⟨h.calls ▸ List.Subset.refl _, fun _ hq => .inl (h.nulls ▸ hq)⟩

theorem nulling_refl (tr : Trace M C W) : Nulling context tr tr :=
  nulling_of_untouched (untouched_refl tr)

theorem nulling_trans {a b d : Trace M C W} (hab : Nulling context a b)
    (hbd : Nulling context b d) : Nulling context a d where
  calls := List.Subset.trans hab.calls hbd.calls
  nulls q hq := by
    rcases hbd.nulls q hq with hq | hcall
    · exact (hab.nulls q hq).imp_right fun ⟨c, hc, hnulls⟩ => ⟨c, hbd.calls hc, hnulls⟩
    · exact .inr hcall

/-! ### Rendering -/

section

variable {s : Schema M C W} {select : Selecting M C W} {declared : String} {position : Position}

theorem renderObject_nulling
    (hselect : ∀ t parent path tr, Nulling context tr (select t parent path tr).2)
    (parent : Parent M) (given : Option String) (path : Path) (tr : Trace M C W) :
    Nulling context tr (renderObject s select declared position parent given path tr).2 := by
  unfold renderObject
  split
  · exact hselect _ parent path tr
  · exact nulling_refl tr

mutual

theorem render_nulling
    (hselect : ∀ t parent path tr, Nulling context tr (select t parent path tr).2) :
    ∀ (r : Rendered M) (path : Path) (tr : Trace M C W),
      Nulling context tr (render s select declared position r path tr).2
  | .null, path, tr => by
    simp only [render, renderNull]
    split <;> exact nulling_refl tr
  | .value v, _, tr => nulling_refl tr
  | .list items, path, tr => by
    have hitems := renderItems_nulling hselect 0 items path tr
    rw [render]
    generalize renderItems s select declared position 0 items path tr = o at hitems
    obtain ⟨result, tr'⟩ := o
    cases result <;> exact hitems
  | .object m anchor given, path, tr => renderObject_nulling hselect _ given path tr
  | .hole given, path, tr => renderObject_nulling hselect _ given path tr

theorem renderItems_nulling
    (hselect : ∀ t parent path tr, Nulling context tr (select t parent path tr).2) :
    ∀ (i : Nat) (rs : List (Rendered M)) (path : Path) (tr : Trace M C W),
      Nulling context tr (renderItems s select declared position i rs path tr).2
  | _, [], _, tr => nulling_refl tr
  | i, r :: rs, path, tr => by
    have hfirst := render_nulling hselect r (path ++ [.index i]) tr
    rw [renderItems]
    generalize render s select declared position r (path ++ [.index i]) tr = o at hfirst
    obtain ⟨result, tr'⟩ := o
    cases result with
    | error e => exact hfirst
    | ok v =>
      have hrest := renderItems_nulling hselect (i + 1) rs path tr'
      dsimp only
      generalize renderItems s select declared position (i + 1) rs path tr' = o' at hrest
      obtain ⟨result', tr''⟩ := o'
      cases result' <;> exact nulling_trans hfirst hrest

end

end

/-! ### Steps -/

variable {s : Schema M C W}

theorem settle_nulling (key : String) (ms : List (String × Value)) {tr : Trace M C W}
    {o : Outcome M C W Value} (h : Nulling context tr o.2) :
    Nulling context tr (settle key ms o).2 :=
  nulling_trans h (nulling_of_untouched (untouched_settle key ms o))

/-- What a field comes to is recorded with its call, which the positions are kept for. -/
theorem record_nulling [Backed M] (tr : Trace M C W) (t : ObjectType M C W)
    (f : PlannedField M C W) {parent : Parent M} (hparent : parent ≠ .hole) (path : Path)
    (position : Position) (sent : List (String × Value)) {produced : Except String (Produced M)}
    {w : W} (hproduced : f.plan.produce parent.model sent context tr.world = (produced, w)) :
    Nulling context tr ((tr.enter t f parent path position sent).record position
      (f.plan.settle path parent.anchor produced) w) := by
  rw [enter_of_ne_hole tr t f hparent]
  refine ⟨List.subset_append_left .., fun q hq => (List.mem_append.mp hq).imp_right fun hq => ?_⟩
  refine ⟨_, List.mem_append_right _ (List.mem_singleton_self _), parent.anchor, ?_⟩
  simpa only [Call.produced, hproduced] using hq

theorem runField_nulling [Backed M] {select : Selecting M C W}
    (hselect : ∀ t parent path tr, Nulling context tr (select t parent path tr).2)
    (t : ObjectType M C W) (f : PlannedField M C W) (parent : Parent M) (path : Path)
    (position : Position) (sent : List BoundArgument) (tr : Trace M C W) :
    Nulling context tr (runField s context select t f parent path position sent tr).2 := by
  by_cases hparent : parent = .hole
  · subst hparent
    exact nulling_of_untouched (runField_hole select t f path position sent tr)
  · rcases hproduced : f.plan.produce parent.model (sent.map fun a => (a.name, a.value)) context
      tr.world with ⟨produced, w⟩
    rw [runField_of_produce hparent hproduced]
    refine nulling_trans (record_nulling tr t f hparent path position _ hproduced) ?_
    match (f.plan.settle path parent.anchor produced).rendered with
    | none => exact nulling_refl _
    | some none => exact nulling_refl _
    | some (some r) => exact render_nulling hselect r path _

mutual

theorem runSteps_nulling [Backed M] (t : ObjectType M C W) (parent : Parent M) (path : Path) :
    ∀ (steps : List Step) (ms : List (String × Value)) (tr : Trace M C W),
      Nulling context tr (runSteps s context t parent path steps ms tr).2
  | [], _, tr => nulling_refl tr
  | step :: steps, ms, tr =>
    nulling_trans (runStep_nulling t parent path step ms tr)
      (runSteps_nulling t parent path steps _ _)

theorem runStep_nulling [Backed M] (t : ObjectType M C W) (parent : Parent M) (path : Path) :
    ∀ (step : Step) (ms : List (String × Value)) (tr : Trace M C W),
      Nulling context tr (runStep s context t parent path step ms tr).2
  | .typename key, _, tr => nulling_refl tr
  | .field _ _ _ (.error u) _, _, tr => nulling_of_untouched (untouched_report tr _)
  | .field key name position (.ok sent) below, ms, tr => by
    cases hi : introspect s t name sent below with
    | some reply =>
      cases reply with
      | ok r =>
        simpa only [runStep, hi] using nulling_of_untouched (untouched_reports tr r.errors)
      | error e => simpa only [runStep, hi] using nulling_of_untouched (untouched_report tr e)
    | none =>
      cases hf : t.field? name with
      | none => simpa only [runStep, hi, hf] using nulling_refl tr
      | some f =>
        rw [runStep_field s context t parent path key name position sent below ms tr hi hf]
        refine settle_nulling key ms (runField_nulling (fun u inner path tr => ?_) t f parent _
          position sent tr)
        exact runSteps_nulling u inner path below [] tr
  | .narrow condition below, ms, tr => by
    by_cases hm : meets t condition = true
    · simpa only [runStep, hm, if_true] using runSteps_nulling t parent path below ms tr
    · simpa only [runStep, if_neg hm] using nulling_refl tr

end

/-- **A run keeps positions to be null for its calls only.** -/
theorem nulls_of_run [Backed M] (s : Schema M C W) (context : Option C) (root : String)
    (steps : List Step) (w : W) :
    ∀ q ∈ (run s context root steps w).2.nulls,
      ∃ c ∈ (run s context root steps w).2.calls, c.Nulls context q := by
  unfold run
  cases s.object? root with
  | none => exact nofun
  | some t =>
    have hsteps : Nulling context (.start w)
        (runSteps s context t .root [] steps [] (.start w)).2 :=
      runSteps_nulling t .root [] steps [] _
    exact fun q hq => (hsteps.nulls q hq).resolve_left nofun

end GraphSchema.Execution
