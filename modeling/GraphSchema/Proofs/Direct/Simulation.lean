import GraphSchema.Proofs.Direct.Rendering

/-! Runs against direct evaluation.

A run of steps adds members, nulls, calls and changes to the world. On a stand-in it
adds neither nulls nor calls nor changes (`runSteps_hole`); on an object its members,
once the nulls are written, and its calls are those of the direct evaluation
(`steps_add`). Both go through the steps as a run does, one kind of step at a time. -/
namespace GraphSchema.Direct

open Execution Completion Mending GraphSchema.Path Query

variable {M C W : Type}

/-! ### Traces -/

/-- Nothing that the direct evaluation knows of has changed. -/
structure Untouched (tr tr' : Trace M C W) : Prop where
  nulls : tr'.nulls = tr.nulls
  calls : tr'.calls = tr.calls
  world : tr'.world = tr.world

theorem untouched_refl (tr : Trace M C W) : Untouched tr tr := ⟨rfl, rfl, rfl⟩

theorem untouched_trans {a b c : Trace M C W} (hab : Untouched a b) (hbc : Untouched b c) :
    Untouched a c :=
  ⟨hbc.nulls.trans hab.nulls, hbc.calls.trans hab.calls, hbc.world.trans hab.world⟩

theorem untouched_report (tr : Trace M C W) (e : ResponseError) : Untouched tr (tr.report e) :=
  ⟨rfl, rfl, rfl⟩

theorem untouched_reports (tr : Trace M C W) (es : List ResponseError) :
    Untouched tr (es.foldl Trace.report tr) := by
  induction es generalizing tr with
  | nil => exact untouched_refl tr
  | cons e es ih => exact untouched_trans (untouched_report tr e) (ih _)

/-- Entering a field of an object keeps its call. -/
theorem enter_of_ne_hole [Backed M] (tr : Trace M C W) (t : ObjectType M C W)
    (f : PlannedField M C W) {parent : Parent M} (h : parent ≠ .hole) (path : Path)
    (position : Position) (sent : List (String × Value)) :
    tr.enter t f parent path position sent = { tr with
      calls := tr.calls ++ [⟨t, f, parent.model, path, position, sent, tr.world⟩] } := by
  cases parent with
  | hole => exact absurd rfl h
  | root | object m anchor => rfl

theorem untouched_settle (key : String) (ms : List (String × Value)) (o : Outcome M C W Value) :
    Untouched o.2 (Execution.settle key ms o).2 := by
  obtain ⟨r, tr⟩ := o
  cases r with
  | ok v => exact untouched_refl tr
  | error e => exact untouched_report tr e

variable {s : Schema M C W} {context : Option C}

/-! ### Stand-ins -/

theorem runField_hole [Backed M] (select : Execution.Selecting M C W) (t : ObjectType M C W)
    (f : PlannedField M C W) (path : Path) (position : Position) (sent : List BoundArgument)
    (tr : Trace M C W) :
    Untouched tr (runField s context select t f .hole path position sent tr).2 := by
  unfold runField FieldPlan.run
  cases f.plan.output.isNonNull with
  | true => exact ⟨List.append_nil _, rfl, rfl⟩
  | false => exact ⟨List.append_nil _, rfl, rfl⟩

mutual

theorem runSteps_hole [Backed M] (t : ObjectType M C W) (path : Path) :
    ∀ (steps : List Step) (ms : List (String × Value)) (tr : Trace M C W),
      Untouched tr (runSteps s context t .hole path steps ms tr).2
  | [], _, tr => untouched_refl tr
  | step :: steps, ms, tr =>
    untouched_trans (runStep_hole t path step ms tr) (runSteps_hole t path steps _ _)

theorem runStep_hole [Backed M] (t : ObjectType M C W) (path : Path) :
    ∀ (step : Step) (ms : List (String × Value)) (tr : Trace M C W),
      Untouched tr (runStep s context t .hole path step ms tr).2
  | .typename key, _, tr => untouched_refl tr
  | .field _ _ _ (.error u) _, _, tr => untouched_report tr _
  | .field key name position (.ok sent) below, ms, tr => by
    cases hi : introspect s t name sent below with
    | some reply =>
      cases reply with
      | ok r => simpa only [runStep, hi] using untouched_reports tr r.errors
      | error e => simpa only [runStep, hi] using untouched_report tr e
    | none =>
      cases hf : t.field? name with
      | none => simpa only [runStep, hi, hf] using untouched_refl tr
      | some f =>
        rw [runStep_field s context t .hole path key name position sent below ms tr hi hf]
        exact untouched_trans (runField_hole _ t f _ position sent tr) (untouched_settle ..)
  | .narrow condition below, ms, tr => by
    by_cases hm : meets t condition = true
    · simpa only [runStep, hm, if_true] using runSteps_hole t path below ms tr
    · simpa only [runStep, if_neg hm] using untouched_refl tr

end

theorem select_hole [Backed M] (steps : List Step) (t : ObjectType M C W) (path : Path)
    (tr : Trace M C W) :
    ∃ v, Comes (Execution.select s context steps t .hole path tr) tr v [] [] tr.world := by
  obtain ⟨hnulls, hcalls, hworld⟩ : Untouched tr (runSteps s context t .hole path steps [] tr).2 :=
    runSteps_hole t path steps [] tr
  exact ⟨_, rfl, by rw [List.append_nil]; exact hnulls, by rw [List.append_nil]; exact hcalls,
    hworld⟩

/-! ### Fields -/

/-- The outcome of a field and its nulls against the direct result: an error is a failure. -/
def Matches (path anchor : Path) (nulls : List Path) :
    Except ResponseError Value → Option Value → Prop
  | .ok v, u => Settles path anchor nulls v u
  | .error _, u => u = none ∧ Failed path anchor nulls

section

variable {select : Execution.Selecting M C W} {direct : Selecting M W} {calls : Calling M C W}
  {declared : String} {path anchor : Path}

/-- A field of a position that may not be null hands its failure to the anchor. -/
theorem failed_of_below {nulls : List Path} (h : ∀ q ∈ nulls, path <+: q) :
    Failed path anchor (nulls ++ [anchor]) := by
  refine ⟨by simp, fun q hq => ?_⟩
  rcases List.mem_append.mp hq with hq | hq
  · exact .inr (h q hq)
  · exact .inl (List.mem_singleton.mp hq)

theorem completed_agrees (plan : FieldPlan M C W) (path anchor : Path)
    (produced : Except String (Produced M)) :
    Agrees (plan.completed path anchor produced).result
      (produced.toOption.bind (conform plan.output)) := by
  cases produced with
  | error message => trivial
  | ok p => exact complete_agrees plan.site plan.output path anchor p

theorem completed_nulled_below (plan : FieldPlan M C W) (path anchor : Path)
    (produced : Except String (Produced M)) :
    ∀ q ∈ (plan.completed path anchor produced).nulled, path <+: q := by
  cases produced with
  | error message => exact nofun
  | ok p => exact complete_nulled_below plan.site plan.output path anchor p

theorem renderField_settle (hsim : Simulates s declared select direct calls)
    (plan : FieldPlan M C W)
    (hfits : Fits s declared plan.output) (path anchor : Path)
    (produced : Except String (Produced M)) (position : Position) (tr : Trace M C W) :
    ∃ nulls,
      (renderField s select declared position path
          (plan.settle path anchor produced).rendered tr).2.nulls = tr.nulls ++ nulls ∧
        (renderField s select declared position path
          (plan.settle path anchor produced).rendered tr).2.calls =
            tr.calls ++ callsBelow direct calls plan produced path tr.world ∧
        (renderField s select declared position path
          (plan.settle path anchor produced).rendered tr).2.world =
            (settle direct plan.output produced tr.world).2 ∧
        Matches path anchor ((plan.settle path anchor produced).nulls ++ nulls)
          (renderField s select declared position path
            (plan.settle path anchor produced).rendered tr).1
          (settle direct plan.output produced tr.world).1 := by
  have hagrees := completed_agrees plan path anchor produced
  have hbelow := completed_nulled_below plan path anchor produced
  cases hc : (plan.completed path anchor produced).result with
  | error e =>
    rw [hc] at hagrees
    have hnone := agrees_error hagrees
    have hcalls : callsBelow direct calls plan produced path tr.world = [] := by
      simp only [callsBelow, hnone]
    rw [settle_none hnone, hcalls]
    cases hs : plan.output.isNonNull with
    | true =>
      rw [FieldPlan.settle_strict hc hs]
      refine ⟨[], (List.append_nil _).symm, (List.append_nil _).symm, rfl, rfl, ?_⟩
      simpa using failed_of_below hbelow
    | false =>
      rw [FieldPlan.settle_loose hc hs]
      refine ⟨[], (List.append_nil _).symm, (List.append_nil _).symm, rfl, ?_⟩
      simpa [renderField, Matches] using settles_null hbelow
  | ok found =>
    rw [hc] at hagrees
    rw [FieldPlan.settle_ok hc]
    cases found with
    | none =>
      have hnull := agrees_ok_none hagrees
      have hcalls : callsBelow direct calls plan produced path tr.world = [] := by
        simp only [callsBelow, hnull, callsIn]
      rw [settle_some hnull, hcalls]
      refine ⟨[], (List.append_nil _).symm, (List.append_nil _).symm, rfl, ?_⟩
      have hloose : plan.output.isNonNull = false := by
        cases produced with
        | error message => cases hc
        | ok p => exact isNonNull_of_agrees_none hagrees
      simpa [hloose, render, renderField, Matches] using settles_null hbelow
    | some r =>
      cases produced with
      | error message => cases hc
      | ok p =>
        obtain ⟨accepted, haccepted, _⟩ := agrees_ok_some hagrees
        rw [settle_some haccepted]
        obtain ⟨v, nulls, hv, hsettles⟩ := complete_renders hsim hfits hc haccepted position tr
        have hcalls : callsBelow direct calls plan (.ok p) path tr.world =
            callsIn direct calls accepted path tr.world := by
          simp only [callsBelow, haccepted]
        refine ⟨nulls, hv.nulls, hcalls ▸ hv.calls, hv.world, ?_⟩
        have hresult : (renderField s select declared position path (some (some r)) tr).1 = .ok v :=
          hv.result
        rw [hresult]
        exact hsettles

theorem runField_matches [Backed M] {f : PlannedField M C W}
    (hsim : Simulates s f.info.type.core select direct calls) (t : ObjectType M C W)
    (hfits : Fits s f.info.type.core f.plan.output)
    {parent : Parent M} (hparent : parent ≠ .hole) (position : Position)
    (sent : List BoundArgument) (context : Option C) (path : Path) (tr : Trace M C W) :
    ∃ nulls,
      (runField s context select t f parent path position sent tr).2.nulls = tr.nulls ++ nulls ∧
        (runField s context select t f parent path position sent tr).2.calls =
          tr.calls ++
            fieldCalls context direct calls t f parent.model path position sent tr.world ∧
        (runField s context select t f parent path position sent tr).2.world =
          (field context direct f parent.model sent tr.world).2 ∧
        Matches path parent.anchor nulls
          (runField s context select t f parent path position sent tr).1
          (field context direct f parent.model sent tr.world).1 := by
  rcases hproduced : f.plan.produce parent.model (sent.map fun a => (a.name, a.value)) context
    tr.world with ⟨produced, w⟩
  rw [runField_of_produce hparent hproduced, enter_of_ne_hole tr t f hparent, field, fieldCalls]
  simp only [hproduced]
  generalize htr : Trace.record _ position (f.plan.settle path parent.anchor produced) w = tr'
  have hnulls : tr'.nulls = tr.nulls ++ (f.plan.settle path parent.anchor produced).nulls := by
    rw [← htr]
    rfl
  have hcalls : tr'.calls = tr.calls ++ [⟨t, f, parent.model, path, position,
      sent.map fun a => (a.name, a.value), tr.world⟩] := by
    rw [← htr]
    rfl
  have hworld : tr'.world = w := by
    rw [← htr]
    rfl
  obtain ⟨nulls, hadded, hentered, hleft, hmatches⟩ :=
    renderField_settle hsim f.plan hfits path parent.anchor produced position tr'
  rw [hworld] at hentered hleft hmatches
  refine ⟨(f.plan.settle path parent.anchor produced).nulls ++ nulls, ?_, ?_, hleft, hmatches⟩
  · rw [hadded, hnulls, List.append_assoc]
  · rw [hentered, hcalls, List.append_assoc, List.singleton_append]

end

/-! ### Steps -/

/-- What a run of steps adds to the members and to the trace, against the direct result: once the
nulls are written, the new members are the direct ones. -/
def Adds (path anchor : Path) (keys : List String) (before : List (String × Value))
    (tr : Trace M C W) (o : List (String × Value) × Trace M C W) (calls : List (Call M C W))
    (d : Option (List (String × Value)) × W) : Prop :=
  ∃ ms nulls, o.1 = before ++ ms ∧ o.2.nulls = tr.nulls ++ nulls ∧
    o.2.calls = tr.calls ++ calls ∧ o.2.world = d.2 ∧
    (ms.map (·.1)).Sublist keys ∧ SettlesMembers path anchor nulls ms d.1

section

variable {path anchor : Path} {keys keys' : List String} {before : List (String × Value)}
  {tr : Trace M C W} {o o' : List (String × Value) × Trace M C W} {calls calls' : List (Call M C W)}

theorem adds_nothing {tr' : Trace M C W} (h : Untouched tr tr') :
    Adds path anchor keys before tr (before, tr') [] (some [], tr.world) :=
  ⟨[], [], (List.append_nil _).symm, by rw [List.append_nil]; exact h.nulls,
    by rw [List.append_nil]; exact h.calls, h.world, List.nil_sublist _, settlesMembers_nil⟩

theorem adds_append {d d' : Option (List (String × Value)) × W} (hnodup : (keys ++ keys').Nodup)
    (h : Adds path anchor keys before tr o calls d)
    (h' : Adds path anchor keys' o.1 o.2 o' calls' d') :
    Adds path anchor (keys ++ keys') before tr o' (calls ++ calls')
      (both (· ++ ·) d.1 d'.1, d'.2) := by
  obtain ⟨ms, nulls, hms, hnulls, hcalls, hworld, hkeys, hsettles⟩ := h
  obtain ⟨ms', nulls', hms', hnulls', hcalls', hworld', hkeys', hsettles'⟩ := h'
  have hsub : ((ms ++ ms').map (·.1)).Sublist (keys ++ keys') := by
    rw [List.map_append]
    exact hkeys.append hkeys'
  refine ⟨ms ++ ms', nulls ++ nulls', ?_, ?_, ?_, hworld', hsub, ?_⟩
  · rw [hms', hms, List.append_assoc]
  · rw [hnulls', hnulls, List.append_assoc]
  · rw [hcalls', hcalls, List.append_assoc]
  · exact settlesMembers_append (hsub.nodup hnodup) hsettles hsettles'

theorem adds_member {key : String} (hkey : key ∉ before.map (·.1)) (v : Value) {tr' : Trace M C W}
    (h : Untouched tr tr') :
    Adds path anchor [key] before tr (Value.absorb key v before, tr') []
      (some [(key, v)], tr.world) :=
  ⟨[(key, v)], [], Value.absorb_of_not_mem hkey v, by rw [List.append_nil]; exact h.nulls,
    by rw [List.append_nil]; exact h.calls, h.world, List.Sublist.refl _,
    settlesMembers_clean key v⟩

/-- The value of a field, or the gap that it leaves. -/
theorem adds_settle {key : String} (hkey : key ∉ before.map (·.1)) {o : Outcome M C W Value}
    {d : Option Value × W} {nulls : List Path} (hnulls : o.2.nulls = tr.nulls ++ nulls)
    (hcalls : o.2.calls = tr.calls ++ calls) (hworld : o.2.world = d.2)
    (h : Matches (path ++ [.key key]) anchor nulls o.1 d.1) :
    Adds path anchor [key] before tr (Execution.settle key before o) calls
      (d.1.map fun v => [(key, v)], d.2) := by
  obtain ⟨result, tr'⟩ := o
  cases result with
  | ok v =>
    exact ⟨[(key, v)], nulls, Value.absorb_of_not_mem hkey v, hnulls, hcalls, hworld,
      List.Sublist.refl _, settlesMembers_one h⟩
  | error e =>
    obtain ⟨hnone, hfailed⟩ := h
    rw [hnone]
    refine ⟨[], nulls, (List.append_nil _).symm, hnulls, hcalls, hworld, List.nil_sublist _, ?_⟩
    exact failed_of_within (List.prefix_append ..) hfailed [] nofun fun q => by simp

end

/-- A run of the steps on any object adds what the direct evaluation gives it. -/
def StepsAdd [Backed M] (s : Schema M C W) (context : Option C) (steps : List Step) : Prop :=
  ∀ (t : ObjectType M C W) (parent : Parent M) (path : Path) (before : List (String × Value))
    (tr : Trace M C W), s.object? t.name = some t → parent ≠ .hole →
    distinctBelow s t steps = true → (before.map (·.1) ++ keys t steps).Nodup →
    Adds path parent.anchor (keys t steps) before tr
      (runSteps s context t parent path steps before tr)
      (callsOf s context t parent.model path steps tr.world)
      (members s context t parent.model steps tr.world)

/-- A run of the step on any object adds what the direct evaluation gives it. -/
def StepAdds [Backed M] (s : Schema M C W) (context : Option C) (step : Step) : Prop :=
  ∀ (t : ObjectType M C W) (parent : Parent M) (path : Path) (before : List (String × Value))
    (tr : Trace M C W), s.object? t.name = some t → parent ≠ .hole →
    distinctBelowStep s t step = true → (before.map (·.1) ++ keysOf t step).Nodup →
    Adds path parent.anchor (keysOf t step) before tr
      (runStep s context t parent path step before tr)
      (callsOfStep s context t parent.model path step tr.world)
      (member s context t parent.model step tr.world)

variable [Backed M]

theorem steps_add_nil : StepsAdd s context [] := by
  intro t parent path before tr _ _ _ _
  exact adds_nothing (untouched_refl tr)

theorem steps_add_cons {step : Step} {steps : List Step} (h : StepAdds s context step)
    (hs : StepsAdd s context steps) : StepsAdd s context (step :: steps) := by
  intro t parent path before tr ht hparent hbelow hnodup
  rw [keys, ← List.append_assoc] at hnodup
  rw [distinctBelow, Bool.and_eq_true] at hbelow
  have hfirst := h t parent path before tr ht hparent hbelow.1 (List.nodup_append.mp hnodup).1
  obtain ⟨ms, _, hms, _, _, hworld, hkeys, _⟩ := id hfirst
  have hnodup' : ((runStep s context t parent path step before tr).1.map (·.1) ++
      keys t steps).Nodup := by
    rw [hms, List.map_append]
    exact (((List.Sublist.refl _).append hkeys).append (List.Sublist.refl _)).nodup hnodup
  have hrest := hs t parent path _ (runStep s context t parent path step before tr).2 ht hparent
    hbelow.2 hnodup'
  rw [hworld] at hrest
  rw [List.append_assoc] at hnodup
  exact adds_append (List.nodup_append.mp hnodup).2.1 hfirst hrest

/-! ### Each kind of step -/

theorem step_adds_typename (key : String) : StepAdds s context (.typename key) := by
  intro t parent path before tr _ _ _ hnodup
  have hkey : key ∉ before.map (·.1) := fun hm =>
    (List.nodup_append.mp hnodup).2.2 key hm key (List.mem_singleton_self key) rfl
  exact adds_member hkey _ (untouched_refl tr)

theorem step_adds_unbound (key name : String) (position : Position) (u : Unbound)
    (below : List Step) :
    StepAdds s context (.field key name position (.error u) below) := by
  intro t parent path before tr _ _ _ _
  exact adds_nothing (untouched_report tr _)

theorem step_adds_narrow {condition : String} {below : List Step}
    (h : StepsAdd s context below) : StepAdds s context (.narrow condition below) := by
  intro t parent path before tr ht hparent hbelow hnodup
  by_cases hm : meets t condition = true
  · simp only [keysOf, runStep, member, callsOfStep, if_pos hm] at hnodup ⊢
    exact h t parent path before tr ht hparent (distinct_of_narrow hbelow hm) hnodup
  · simp only [keysOf, runStep, member, callsOfStep, if_neg hm]
    exact adds_nothing (untouched_refl tr)

theorem select_settles {steps : List Step} (h : StepsAdd s context steps) {t : ObjectType M C W}
    (ht : s.object? t.name = some t) (hdistinct : distinct s t steps = true) {parent : Parent M}
    (hparent : parent ≠ .hole) (path : Path) (tr : Trace M C W) :
    ∃ v nulls,
      Comes (Execution.select s context steps t parent path tr) tr v nulls
          (callsFor s context steps t.name parent.model path tr.world)
          (select s context steps t.name parent.model tr.world).2 ∧
        Settles path parent.anchor nulls v
          (select s context steps t.name parent.model tr.world).1 := by
  obtain ⟨hnodup, hbelow⟩ := distinct_iff.mp hdistinct
  obtain ⟨ms, nulls, hms, hnulls, hcalls, hworld, hkeys, hsettles⟩ :=
    h t parent path [] tr ht hparent hbelow (by simpa using hnodup)
  rw [callsFor_of_object? ht]
  have hselect : select s context steps t.name parent.model tr.world =
      ((members s context t parent.model steps tr.world).1.map object,
        (members s context t parent.model steps tr.world).2) := by
    simp only [select, ht]
  rw [hselect]
  refine ⟨object ms, nulls, ⟨?_, hnulls, hcalls, hworld⟩,
    settles_object (hkeys.nodup hnodup) hsettles⟩
  simp only [Execution.select, container, hms, List.nil_append]
  rfl

/-- What is selected of the objects of a field does as the direct evaluation does. -/
theorem select_simulates {declared : String} {below : List Step}
    (h : StepsAdd s context below)
    (hdistinct : ∀ u ∈ standing s declared, distinct s u below = true) :
    Simulates s declared (Execution.select s context below) (select s context below)
      (callsFor s context below) := by
  intro t ht
  refine ⟨fun m anchor path tr => ?_, fun path tr => select_hole below t path tr⟩
  have hparent : Parent.object m anchor ≠ .hole := nofun
  exact select_settles h (object?_of_standing ht) (hdistinct t ht) hparent path tr

theorem step_adds_field (hlinked : Linked s) (key name : String) (position : Position)
    (sent : List BoundArgument) {below : List Step} (h : StepsAdd s context below) :
    StepAdds s context (.field key name position (.ok sent) below) := by
  intro t parent path before tr ht hparent hbelow hnodup
  have hkey : key ∉ before.map (·.1) := fun hm =>
    (List.nodup_append.mp hnodup).2.2 key hm key (List.mem_singleton_self key) rfl
  cases hi : introspect s t name sent below with
  | some reply =>
    cases reply with
    | ok r =>
      simp only [runStep, member, callsOfStep, hi]
      exact adds_member hkey r.value (untouched_reports tr r.errors)
    | error e =>
      simp only [runStep, member, callsOfStep, hi]
      exact adds_nothing (untouched_report tr e)
  | none =>
    cases hf : t.field? name with
    | none =>
      simp only [runStep, member, callsOfStep, hi, hf]
      exact adds_nothing (untouched_refl tr)
    | some f =>
      have hsim := select_simulates h fun u hu => distinct_of_field hbelow hf hu
      have hfits := hlinked t.name t ht f (List.mem_of_find?_eq_some hf)
      obtain ⟨nulls, hnulls, hcalls, hworld, hmatches⟩ := runField_matches hsim t hfits
        hparent position sent context (path ++ [.key key]) tr
      rw [runStep_field s context t parent path key name position sent below before tr hi hf,
        member_field hi hf, callsOfStep_field hi hf]
      exact adds_settle hkey hnulls hcalls hworld hmatches

mutual

theorem steps_add (hlinked : Linked s) : ∀ steps : List Step, StepsAdd s context steps
  | [] => steps_add_nil
  | step :: steps => steps_add_cons (step_adds hlinked step) (steps_add hlinked steps)

theorem step_adds (hlinked : Linked s) : ∀ step : Step, StepAdds s context step
  | .typename key => step_adds_typename key
  | .field key name position (.error u) below => step_adds_unbound key name position u below
  | .field key name position (.ok sent) below =>
    step_adds_field hlinked key name position sent (steps_add hlinked below)
  | .narrow _ below => step_adds_narrow (steps_add hlinked below)

end

end GraphSchema.Direct
