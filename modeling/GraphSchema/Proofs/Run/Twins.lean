import GraphSchema.Proofs.Run.Visible

/-! Two runs that differ at one field.

Two runs of the same steps go side by side over the same objects. At a field where
both produced the same they report the same. At the field where they may differ
everything that is reported is of the field or of what is selected of it, and may be
left out: so the errors that are left stay the same from step to step
(`steps_twin`). -/
namespace GraphSchema.Execution

open Query
open Direct (Linked object?_of_concrete)
open GraphSchema.Path (prefix_of_prefix_index)

variable {M C W : Type}

/-! ### Leaving out errors -/

open Classical in
/-- The errors that are not of the kind, in their order. -/
noncomputable def without (skipped : ResponseError → Prop) (es : List ResponseError) :
    List ResponseError :=
  es.filter fun e => ¬ skipped e

section

variable {skipped : ResponseError → Prop}

theorem without_append (es es' : List ResponseError) :
    without skipped (es ++ es') = without skipped es ++ without skipped es' :=
  List.filter_append ..

theorem without_of_forall {es : List ResponseError} (h : ∀ e ∈ es, skipped e) :
    without skipped es = [] :=
  List.filter_eq_nil_iff.mpr fun e he => by simp [h e he]

/-- What a filter drops is left out as well. -/
theorem without_filter (keep : ResponseError → Bool) (es : List ResponseError) :
    without skipped (es.filter keep) = without (fun e => skipped e ∨ keep e = false) es := by
  rw [without, without, List.filter_filter]
  refine List.filter_congr fun e _ => ?_
  cases keep e <;> simp

/-- The errors of both traces are the same once some are left out. -/
def Level (skipped : ResponseError → Prop) (tr tr' : Trace M C W) : Prop :=
  without skipped tr.errors = without skipped tr'.errors

variable {tr tr' : Trace M C W}

theorem level_report (h : Level skipped tr tr') (e : ResponseError) :
    Level skipped (tr.report e) (tr'.report e) := by
  simp only [Level, Trace.report, without_append] at h ⊢
  rw [h]

theorem level_reports (h : Level skipped tr tr') (es : List ResponseError) :
    Level skipped (es.foldl Trace.report tr) (es.foldl Trace.report tr') := by
  induction es generalizing tr tr' with
  | nil => exact h
  | cons e es ih => exact ih (level_report h e)

theorem level_record [Backed M] (h : Level skipped tr tr') (t : ObjectType M C W)
    (f : PlannedField M C W) (parent : Parent M) (path : Path) (position : Position)
    (sent : List (String × Value)) (o : FieldOutcome M) (w w' : W) :
    Level skipped ((tr.enter t f parent path position sent).record position o w)
      ((tr'.enter t f parent path position sent).record position o w') := by
  have henter : ∀ tr : Trace M C W,
      (tr.enter t f parent path position sent).errors = tr.errors := by
    intro tr
    cases parent <;> rfl
  simp only [Level, Trace.record, henter, without_append] at h ⊢
  rw [h]

/-- Entries whose errors are all left out make no difference. -/
theorem without_of_logs {context : Option C}
    (h : Logs context (fun entry => ∀ e ∈ entry.errors context, skipped e) tr tr') :
    without skipped tr'.errors = without skipped tr.errors := by
  obtain ⟨entries, _, herrors, hskipped⟩ := h
  have hentries : without skipped (entries.flatMap (Entry.errors context)) = [] := by
    refine without_of_forall fun e he => ?_
    obtain ⟨entry, hentry, he⟩ := List.mem_flatMap.mp he
    exact hskipped entry hentry e he
  rw [herrors, without_append, hentries, List.append_nil]

end

/-! ### Calls are kept -/

theorem calls_of_logs {context : Option C} {P : Entry M C W → Prop} {tr tr' : Trace M C W}
    (h : Logs context P tr tr') : tr.calls ⊆ tr'.calls := by
  obtain ⟨entries, hcalls, _⟩ := h
  rw [hcalls]
  exact List.subset_append_left ..

theorem settle_calls (key : String) (ms : List (String × Value)) (o : Outcome M C W Value) :
    (settle key ms o).2.calls = o.2.calls := by
  obtain ⟨result, tr⟩ := o
  cases result <;> rfl

theorem mem_enter [Backed M] {parent : Parent M} (hparent : parent ≠ .hole) (t : ObjectType M C W)
    (f : PlannedField M C W) (path : Path) (position : Position) (sent : List (String × Value))
    (tr : Trace M C W) :
    ⟨t, f, parent.model, path, position, sent, tr.world⟩ ∈
      (tr.enter t f parent path position sent).calls := by
  cases parent with
  | hole => exact absurd rfl hparent
  | root | object m anchor => exact List.mem_append_right _ (List.mem_singleton_self _)

section

variable [Backed M] (s : Schema M C W) (context : Option C) (below : List Step)

theorem calls_of_steps {t : ObjectType M C W} (ht : s.object? t.name = some t) (parent : Parent M)
    (path : Path) (ms : List (String × Value)) (tr : Trace M C W) :
    tr.calls ⊆ (runSteps s context t parent path below ms tr).2.calls :=
  calls_of_logs (steps_log below t ht parent path ms tr)

variable (declared : String) (position : Position)

theorem holeLogs_steps :
    HoleLogs context (fun _ => True) s (select s context below) declared position :=
  fun _ _ hu path tr =>
    select_logs (steps_log below) (object?_of_concrete hu) .hole path tr _ fun _ _ => trivial

theorem calls_of_renderItems (i : Nat) (rs : List (Rendered M)) (path : Path) (tr : Trace M C W) :
    tr.calls ⊆ (renderItems s (select s context below) declared position i rs path tr).2.calls :=
  calls_of_logs (renderItems_logs (holeLogs_steps s context below declared position) i rs path tr
    fun _ _ _ _ hu _ _ _ tr =>
      select_logs (steps_log below) (object?_of_concrete hu) _ _ tr _ fun _ _ => trivial).1

theorem calls_of_render (r : Rendered M) (path : Path) (tr : Trace M C W) :
    tr.calls ⊆ (render s (select s context below) declared position r path tr).2.calls :=
  calls_of_logs (render_logs (holeLogs_steps s context below declared position) r path tr
    fun _ _ _ _ hu _ _ _ tr =>
      select_logs (steps_log below) (object?_of_concrete hu) _ _ tr _ fun _ _ => trivial).1

theorem calls_of_renderField (path : Path) (rendered : Option (Option (Rendered M)))
    (tr : Trace M C W) :
    tr.calls ⊆
      (renderField s (select s context below) declared position path rendered tr).2.calls :=
  match rendered with
  | none | some none => List.Subset.refl _
  | some (some r) => calls_of_render s context below declared position r path tr

theorem calls_of_list (items : List (Rendered M)) (path : Path) (tr : Trace M C W) :
    (render s (select s context below) declared position (.list items) path tr).2.calls =
      (renderItems s (select s context below) declared position 0 items path tr).2.calls := by
  rw [render]
  rcases renderItems s (select s context below) declared position 0 items path tr with ⟨result, tr'⟩
  cases result <;> rfl

/-- The calls for the first item are among those for all of them. -/
theorem calls_of_first (i : Nat) (r : Rendered M) (rs : List (Rendered M)) (path : Path)
    (tr : Trace M C W) :
    (render s (select s context below) declared position r (path ++ [.index i]) tr).2.calls ⊆
      (renderItems s (select s context below) declared position i (r :: rs) path tr).2.calls := by
  rw [renderItems]
  generalize render s (select s context below) declared position r (path ++ [.index i]) tr = o
  obtain ⟨result, tr'⟩ := o
  cases result with
  | error e => exact List.Subset.refl _
  | ok v =>
    have hrest := calls_of_renderItems s context below declared position (i + 1) rs path tr'
    dsimp only
    generalize renderItems s (select s context below) declared position (i + 1) rs path tr' = o
      at hrest
    obtain ⟨result', tr''⟩ := o
    cases result' <;> exact hrest

end

/-! ### What is selected at a position -/

/-- A field is selected by the steps at the relative position, and has those steps below it. -/
inductive SelectedAt : List Step → Path → List Step → Prop where
  | here {steps below : List Step} {key name : String} {position : Position}
      {sent : List BoundArgument} (hmem : .field key name position (.ok sent) below ∈ steps) :
      SelectedAt steps [.key key] below
  | deeper {steps below inner : List Step} {key name : String} {position : Position}
      {sent : List BoundArgument} (hmem : .field key name position (.ok sent) below ∈ steps)
      (is : List Nat) {q : Path} (h : SelectedAt below q inner) :
      SelectedAt steps (.key key :: is.map .index ++ q) inner
  | narrow {steps below inner : List Step} {condition : String}
      (hmem : .narrow condition below ∈ steps) {q : Path} (h : SelectedAt below q inner) :
      SelectedAt steps q inner

theorem selectedAt_mono {steps steps' : List Step} (hsub : ∀ step ∈ steps, step ∈ steps') {q : Path}
    {below : List Step} (h : SelectedAt steps q below) : SelectedAt steps' q below := by
  cases h with
  | here hmem => exact .here (hsub _ hmem)
  | deeper hmem is h => exact .deeper (hsub _ hmem) is h
  | narrow hmem h => exact .narrow (hsub _ hmem) h

/-- The error is raised for what the steps select of the field at the position. -/
def RaisedBelow (s : Schema M C W) (steps : List Step) (p : Path) (e : ResponseError) : Prop :=
  ∃ below, SelectedAt steps p below ∧ Raised s below e

/-- What is left out includes all that is raised below `p` for steps on an object at the path. -/
def SkipsRaised (s : Schema M C W) (skipped : ResponseError → Prop) (p : Path) (steps : List Step)
    (path : Path) : Prop :=
  ∀ q, path ++ q = p → ∀ e, RaisedBelow s steps q e → skipped e

theorem skipsRaised_mono {s : Schema M C W} {skipped : ResponseError → Prop} {p path : Path}
    {steps steps' : List Step} (hsub : ∀ step ∈ steps, step ∈ steps')
    (h : SkipsRaised s skipped p steps' path) : SkipsRaised s skipped p steps path :=
  fun q hq e ⟨below, hat, hraised⟩ => h q hq e ⟨below, selectedAt_mono hsub hat, hraised⟩

theorem skipsRaised_narrow {s : Schema M C W} {skipped : ResponseError → Prop} {p path : Path}
    {steps below : List Step} {condition : String} (hmem : .narrow condition below ∈ steps)
    (h : SkipsRaised s skipped p steps path) : SkipsRaised s skipped p below path :=
  fun q hq e ⟨inner, hat, hraised⟩ => h q hq e ⟨inner, .narrow hmem hat, hraised⟩

theorem skipsRaised_deeper {s : Schema M C W} {skipped : ResponseError → Prop} {p path : Path}
    {steps below : List Step} {key name : String} {position : Position} {sent : List BoundArgument}
    (hmem : .field key name position (.ok sent) below ∈ steps)
    (h : SkipsRaised s skipped p steps path) (is : List Nat) :
    SkipsRaised s skipped p below (path ++ [.key key] ++ is.map .index) :=
  fun q hq e ⟨inner, hat, hraised⟩ =>
    h (.key key :: is.map .index ++ q) (by simpa using hq) e ⟨inner, .deeper hmem is hat, hraised⟩

/-! ### Outcomes side by side -/

/-- Two outcomes of the same part of a run: level, with the same error or with none. -/
inductive Twin {α : Type} (skipped : ResponseError → Prop) :
    Outcome M C W α → Outcome M C W α → Prop where
  | ok {tr tr' : Trace M C W} (h : Level skipped tr tr') (a a' : α) :
    Twin skipped (.ok a, tr) (.ok a', tr')
  | error {tr tr' : Trace M C W} (h : Level skipped tr tr') (e : ResponseError) :
    Twin skipped (.error e, tr) (.error e, tr')

theorem level_settle {skipped : ResponseError → Prop} {key : String}
    {ms ms' : List (String × Value)} {o o' : Outcome M C W Value} (h : Twin skipped o o') :
    Level skipped (settle key ms o).2 (settle key ms' o').2 := by
  cases h with
  | ok h _ _ => exact h
  | error h e => exact level_report h e

/-! ### Runs side by side -/

/-- The calls at the same position produced the same, at `p` and below it aside. -/
def AgreeOff (context context' : Option C) (p : Path) (calls calls' : List (Call M C W)) : Prop :=
  ∀ c ∈ calls, ∀ c' ∈ calls', c.path = c'.path → ¬ p <+: c.path →
    c.produced context = c'.produced context'

/-- What is known of two runs, of all of their calls and of the errors that are left out: the
calls agree off `p`, and errors at `p` and below it do not count. -/
structure Apart (s : Schema M C W) (context context' : Option C) (p : Path)
    (all all' : List (Call M C W)) (skipped : ResponseError → Prop) : Prop where
  linked : Linked s
  keyed : ∃ q k, p = q ++ [.key k]
  agree : AgreeOff context context' p all all'
  below : ∀ e, p <+: e.path → skipped e
  standIn : ∀ position, skipped ⟨propagated, [], position⟩

variable [Backed M] {s : Schema M C W} {context context' : Option C} {p : Path}
  {all all' : List (Call M C W)} {skipped : ResponseError → Prop}

/-- Run on an object that is not below `p`, the steps keep two runs level. -/
def StepsTwin (s : Schema M C W) (context context' : Option C) (p : Path)
    (all all' : List (Call M C W)) (skipped : ResponseError → Prop) (steps : List Step) : Prop :=
  ∀ (t : ObjectType M C W), s.object? t.name = some t → ∀ (parent : Parent M) (path : Path),
    ¬ p <+: path → SkipsRaised s skipped p steps path →
    ∀ (ms ms' : List (String × Value)) (tr tr' : Trace M C W), Level skipped tr tr' →
      (runSteps s context t parent path steps ms tr).2.calls ⊆ all →
      (runSteps s context' t parent path steps ms' tr').2.calls ⊆ all' →
      Level skipped (runSteps s context t parent path steps ms tr).2
        (runSteps s context' t parent path steps ms' tr').2

def StepTwin (s : Schema M C W) (context context' : Option C) (p : Path)
    (all all' : List (Call M C W)) (skipped : ResponseError → Prop) (step : Step) : Prop :=
  ∀ (t : ObjectType M C W), s.object? t.name = some t → ∀ (parent : Parent M) (path : Path),
    ¬ p <+: path → SkipsRaised s skipped p [step] path →
    ∀ (ms ms' : List (String × Value)) (tr tr' : Trace M C W), Level skipped tr tr' →
      (runStep s context t parent path step ms tr).2.calls ⊆ all →
      (runStep s context' t parent path step ms' tr').2.calls ⊆ all' →
      Level skipped (runStep s context t parent path step ms tr).2
        (runStep s context' t parent path step ms' tr').2

/-! ### Values -/

section

variable {below : List Step} {declared : String} {position : Position}

theorem renderObject_twin (hbelow : StepsTwin s context context' p all all' skipped below)
    (parent : Parent M) (given : Option String) {path : Path} (hpath : ¬ p <+: path)
    (hskips : SkipsRaised s skipped p below path) {tr tr' : Trace M C W}
    (hlevel : Level skipped tr tr')
    (hcalls : (renderObject s (select s context below) declared position parent given path
      tr).2.calls ⊆ all)
    (hcalls' : (renderObject s (select s context' below) declared position parent given path
      tr').2.calls ⊆ all') :
    Twin skipped (renderObject s (select s context below) declared position parent given path tr)
      (renderObject s (select s context' below) declared position parent given path tr') := by
  unfold renderObject at hcalls hcalls' ⊢
  cases hu : concrete s declared given with
  | error message => exact .error hlevel _
  | ok u =>
    simp only [hu] at hcalls hcalls' ⊢
    exact .ok (hbelow u (object?_of_concrete hu) parent path hpath hskips [] [] tr tr' hlevel
      hcalls hcalls') _ _

omit [Backed M] in
theorem renderNull_twin (path : Path) {tr tr' : Trace M C W} (hlevel : Level skipped tr tr') :
    Twin skipped (renderNull s declared position path tr)
      (renderNull s declared position path tr') := by
  unfold renderNull
  split
  · exact .error hlevel _
  · exact .ok hlevel _ _

mutual

/-- The same value is rendered alike. An item is below `p` only where its list is. -/
theorem render_twin (hkeyed : ∃ q k, p = q ++ [.key k])
    (hbelow : StepsTwin s context context' p all all' skipped below) :
    ∀ (r : Rendered M) (path : Path), ¬ p <+: path →
    (∀ is : List Nat, SkipsRaised s skipped p below (path ++ is.map .index)) →
    ∀ (tr tr' : Trace M C W), Level skipped tr tr' →
      (render s (select s context below) declared position r path tr).2.calls ⊆ all →
      (render s (select s context' below) declared position r path tr').2.calls ⊆ all' →
      Twin skipped (render s (select s context below) declared position r path tr)
        (render s (select s context' below) declared position r path tr')
  | .null, path, _, _, _, _, hlevel, _, _ => renderNull_twin path hlevel
  | .value v, _, _, _, _, _, hlevel, _, _ => .ok hlevel v v
  | .object m anchor given, path, hpath, hskips, _, _, hlevel, hcalls, hcalls' =>
    renderObject_twin hbelow _ given hpath (by simpa using hskips []) hlevel hcalls hcalls'
  | .hole given, path, hpath, hskips, _, _, hlevel, hcalls, hcalls' =>
    renderObject_twin hbelow _ given hpath (by simpa using hskips []) hlevel hcalls hcalls'
  | .list items, path, hpath, hskips, tr, tr', hlevel, hcalls, hcalls' => by
    rw [calls_of_list] at hcalls hcalls'
    have hitems :=
      renderItems_twin hkeyed hbelow 0 items path hpath hskips tr tr' hlevel hcalls hcalls'
    rw [render, render]
    generalize renderItems s (select s context below) declared position 0 items path tr = o
      at hitems
    generalize renderItems s (select s context' below) declared position 0 items path tr' = o'
      at hitems
    cases hitems with
    | ok h vs vs' => exact .ok h _ _
    | error h e => exact .error h e

theorem renderItems_twin (hkeyed : ∃ q k, p = q ++ [.key k])
    (hbelow : StepsTwin s context context' p all all' skipped below) :
    ∀ (i : Nat) (rs : List (Rendered M)) (path : Path), ¬ p <+: path →
    (∀ is : List Nat, SkipsRaised s skipped p below (path ++ is.map .index)) →
    ∀ (tr tr' : Trace M C W), Level skipped tr tr' →
      (renderItems s (select s context below) declared position i rs path tr).2.calls ⊆ all →
      (renderItems s (select s context' below) declared position i rs path tr').2.calls ⊆ all' →
      Twin skipped (renderItems s (select s context below) declared position i rs path tr)
        (renderItems s (select s context' below) declared position i rs path tr')
  | _, [], _, _, _, _, _, hlevel, _, _ => .ok hlevel [] []
  | i, r :: rs, path, hpath, hskips, tr, tr', hlevel, hcalls, hcalls' => by
    have hfirst := render_twin hkeyed hbelow r (path ++ [.index i])
      (fun h => hpath (prefix_of_prefix_index hkeyed h))
      (fun is => by simpa using hskips (i :: is)) tr tr' hlevel
      (List.Subset.trans (calls_of_first s context below declared position i r rs path tr) hcalls)
      (List.Subset.trans (calls_of_first s context' below declared position i r rs path tr')
        hcalls')
    have hrest := renderItems_twin hkeyed hbelow (i + 1) rs path hpath hskips
    rw [renderItems] at hcalls hcalls' ⊢
    rw [renderItems]
    generalize render s (select s context below) declared position r (path ++ [.index i]) tr = o
      at hfirst hcalls
    generalize render s (select s context' below) declared position r (path ++ [.index i]) tr' = o'
      at hfirst hcalls'
    -- an item that fails ends the list, and it fails in both runs or in neither
    cases hfirst with
    | error h e => exact .error h e
    | @ok tr₁ tr₁' h v v' =>
      have htail := hrest tr₁ tr₁' h
      dsimp only at hcalls hcalls' ⊢
      generalize renderItems s (select s context below) declared position (i + 1) rs path tr₁ = o
        at htail hcalls
      generalize renderItems s (select s context' below) declared position (i + 1) rs path tr₁' = o'
        at htail hcalls'
      have hall : o.2.calls ⊆ all := by
        obtain ⟨result, tr₂⟩ := o
        cases result <;> exact hcalls
      have hall' : o'.2.calls ⊆ all' := by
        obtain ⟨result, tr₂⟩ := o'
        cases result <;> exact hcalls'
      cases htail hall hall' with
      | ok h vs vs' => exact .ok h _ _
      | error h e => exact .error h e

end

/-! ### Fields -/

theorem renderField_twin (hkeyed : ∃ q k, p = q ++ [.key k])
    (hbelow : StepsTwin s context context' p all all' skipped below) {path : Path}
    (hpath : ¬ p <+: path)
    (hskips : ∀ is : List Nat, SkipsRaised s skipped p below (path ++ is.map .index))
    (rendered : Option (Option (Rendered M))) {tr tr' : Trace M C W} (hlevel : Level skipped tr tr')
    (hcalls : (renderField s (select s context below) declared position path rendered
      tr).2.calls ⊆ all)
    (hcalls' : (renderField s (select s context' below) declared position path rendered
      tr').2.calls ⊆ all') :
    Twin skipped (renderField s (select s context below) declared position path rendered tr)
      (renderField s (select s context' below) declared position path rendered tr') :=
  match rendered with
  | none => .error hlevel _
  | some none => .ok hlevel _ _
  | some (some r) => render_twin hkeyed hbelow r path hpath hskips tr tr' hlevel hcalls hcalls'

variable (t : ObjectType M C W) (f : PlannedField M C W) (parent : Parent M) (path : Path)
  (position : Position) (sent : List BoundArgument)

/-- A field of an object that is null in the end is not called. -/
theorem runField_hole_twin (select select' : Selecting M C W) {tr tr' : Trace M C W}
    (hlevel : Level skipped tr tr') :
    Twin skipped (runField s context select t f .hole path position sent tr)
      (runField s context' select' t f .hole path position sent tr') := by
  have hrecord := fun o => level_record hlevel t f .hole path position
    (sent.map fun a => (a.name, a.value)) o tr.world tr'.world
  unfold runField FieldPlan.run
  cases f.plan.output.isNonNull with
  | true => exact .error (hrecord _) _
  | false => exact .ok (hrecord _) _ _

/-- Where both runs call a field that is not below `p`, it comes to the same in both. -/
theorem runField_twin (h : Apart s context context' p all all' skipped)
    (hbelow : StepsTwin s context context' p all all' skipped below) (hparent : parent ≠ .hole)
    (hpath : ¬ p <+: path)
    (hskips : ∀ is : List Nat, SkipsRaised s skipped p below (path ++ is.map .index))
    {tr tr' : Trace M C W} (hlevel : Level skipped tr tr')
    (hcalls : (runField s context (select s context below) t f parent path position sent
      tr).2.calls ⊆ all)
    (hcalls' : (runField s context' (select s context' below) t f parent path position sent
      tr').2.calls ⊆ all') :
    Twin skipped
      (runField s context (select s context below) t f parent path position sent tr)
      (runField s context' (select s context' below) t f parent path position sent tr') := by
  rcases hproduced : f.plan.produce parent.model (sent.map fun a => (a.name, a.value)) context
    tr.world with ⟨produced, w⟩
  rcases hproduced' : f.plan.produce parent.model (sent.map fun a => (a.name, a.value)) context'
    tr'.world with ⟨produced', w'⟩
  rw [runField_of_produce hparent hproduced] at hcalls ⊢
  rw [runField_of_produce hparent hproduced'] at hcalls' ⊢
  -- what is called is kept, so both calls are among those that are known to agree
  have hcall := hcalls (calls_of_renderField s context below _ _ _ _ _
    (mem_enter hparent t f path position (sent.map fun a => (a.name, a.value)) tr))
  have hcall' := hcalls' (calls_of_renderField s context' below _ _ _ _ _
    (mem_enter hparent t f path position (sent.map fun a => (a.name, a.value)) tr'))
  have hsame : produced = produced' := by
    have hagree := h.agree _ hcall _ hcall' rfl hpath
    simpa only [Call.produced, hproduced, hproduced'] using hagree
  subst hsame
  exact renderField_twin h.keyed hbelow hpath hskips _
    (level_record hlevel t f parent path position _ _ w w') hcalls hcalls'

end

/-- All that the field at `p` reports is of its calls, stands in for that, or is raised for what is
selected of it. -/
theorem runField_skipped (context : Option C) (hlinked : Linked s)
    (hpath : ∀ e, p <+: e.path → skipped e)
    (hstandIn : ∀ position, skipped ⟨propagated, [], position⟩) {t : ObjectType M C W}
    (ht : s.object? t.name = some t) {name : String} {sent : List BoundArgument}
    {below : List Step} (hi : introspect s t name sent below = none) {f : PlannedField M C W}
    (hf : t.field? name = some f) (hraised : ∀ e, Raised s below e → skipped e)
    (parent : Parent M) (key : String) (position : Position) (ms : List (String × Value))
    (tr : Trace M C W) :
    without skipped (settle key ms
      (runField s context (select s context below) t f parent p position sent tr)).2.errors =
      without skipped tr.errors := by
  have hentry : ∀ entry : Entry M C W, Explained s below
      (AskedOf s context t [.field key name position (.ok sent) below] p parent) entry →
      ∀ e ∈ entry.errors context, skipped e := by
    intro entry hentry e he
    cases entry with
    | call c => exact hpath e ((path_of_askedOf hentry).trans (prefix_of_mem_failures he))
    | own e' =>
      cases List.mem_singleton.mp he
      rcases hentry with h | ⟨hunlinked, _⟩ | ⟨position, rfl⟩
      · exact hraised _ h
      · exact absurd hlinked hunlinked
      · exact hstandIn position
  exact without_of_logs
    (settle_logs (runField_logs ht key (steps_log below) hi hf parent p tr hentry))

/-! ### Steps -/

theorem steps_twin_cons {step : Step} {steps : List Step}
    (h : StepTwin s context context' p all all' skipped step)
    (hs : StepsTwin s context context' p all all' skipped steps) :
    StepsTwin s context context' p all all' skipped (step :: steps) := by
  intro t ht parent path hpath hskips ms ms' tr tr' hlevel hcalls hcalls'
  have hfirst := h t ht parent path hpath
    (skipsRaised_mono (fun x hx => List.mem_singleton.mp hx ▸ List.mem_cons_self ..) hskips)
    ms ms' tr tr' hlevel
    (List.Subset.trans (calls_of_steps s context steps ht parent path _ _) hcalls)
    (List.Subset.trans (calls_of_steps s context' steps ht parent path _ _) hcalls')
  exact hs t ht parent path hpath (skipsRaised_mono (fun x hx => List.mem_cons_of_mem _ hx) hskips)
    _ _ _ _ hfirst hcalls hcalls'

theorem step_twin_narrow {condition : String} {below : List Step}
    (h : StepsTwin s context context' p all all' skipped below) :
    StepTwin s context context' p all all' skipped (.narrow condition below) := by
  intro t ht parent path hpath hskips ms ms' tr tr' hlevel hcalls hcalls'
  by_cases hm : meets t condition = true
  · simp only [runStep, if_pos hm] at hcalls hcalls' ⊢
    exact h t ht parent path hpath (skipsRaised_narrow (List.mem_singleton_self _) hskips)
      ms ms' tr tr' hlevel hcalls hcalls'
  · simp only [runStep, if_neg hm]
    exact hlevel

theorem step_twin_field (h : Apart s context context' p all all' skipped) (key name : String)
    (position : Position) (sent : List BoundArgument) {below : List Step}
    (hbelow : StepsTwin s context context' p all all' skipped below) :
    StepTwin s context context' p all all' skipped (.field key name position (.ok sent) below) := by
  intro t ht parent path hpath hskips ms ms' tr tr' hlevel hcalls hcalls'
  cases hi : introspect s t name sent below with
  | some reply =>
    cases reply with
    | ok r =>
      simp only [runStep, hi]
      exact level_reports hlevel r.errors
    | error e =>
      simp only [runStep, hi]
      exact level_report hlevel e
  | none =>
    cases hf : t.field? name with
    | none =>
      simp only [runStep, hi, hf]
      exact hlevel
    | some f =>
      rw [runStep_field s context t parent path key name position sent below ms tr hi hf]
        at hcalls ⊢
      rw [runStep_field s context' t parent path key name position sent below ms' tr' hi hf]
        at hcalls' ⊢
      by_cases hhere : p <+: path ++ [.key key]
      -- the field at `p`, of which neither run leaves anything that counts
      · obtain rfl : p = path ++ [.key key] := (List.prefix_concat_iff.mp hhere).resolve_right hpath
        have hraised : ∀ e, Raised s below e → skipped e := fun e he =>
          hskips [.key key] rfl e ⟨below, .here (List.mem_singleton_self _), he⟩
        have hskipped := fun context => runField_skipped context h.linked h.below h.standIn ht hi hf
          hraised parent key position
        exact (hskipped context ms tr).trans (hlevel.trans (hskipped context' ms' tr').symm)
      · by_cases hparent : parent = .hole
        · subst hparent
          exact level_settle (runField_hole_twin t f _ position sent _ _ hlevel)
        · rw [settle_calls] at hcalls hcalls'
          exact level_settle (runField_twin t f parent _ position sent h hbelow hparent hhere
            (skipsRaised_deeper (List.mem_singleton_self _) hskips) hlevel hcalls hcalls')

mutual

theorem steps_twin (h : Apart s context context' p all all' skipped) :
    ∀ steps : List Step, StepsTwin s context context' p all all' skipped steps
  | [] => fun _ _ _ _ _ _ _ _ _ _ hlevel _ _ => hlevel
  | step :: steps => steps_twin_cons (step_twin h step) (steps_twin h steps)

theorem step_twin (h : Apart s context context' p all all' skipped) :
    ∀ step : Step, StepTwin s context context' p all all' skipped step
  | .typename _ => fun _ _ _ _ _ _ _ _ _ _ hlevel _ _ => hlevel
  | .field _ _ _ (.error _) _ => fun _ _ _ _ _ _ _ _ _ _ hlevel _ _ => level_report hlevel _
  | .field key name position (.ok sent) below =>
    step_twin_field h key name position sent (steps_twin h below)
  | .narrow _ below => step_twin_narrow (steps_twin h below)

end

/-- **Two runs that differ only in what one field produces report the same.** Left out is what is
reported at the field or below it, and what is raised for the steps below it. -/
theorem run_twin {root : String} {steps : List Step} {w w' : W}
    (h : Apart s context context' p (run s context root steps w).2.calls
      (run s context' root steps w').2.calls skipped)
    (hraised : ∀ e, RaisedBelow s steps p e → skipped e) :
    Level skipped (run s context root steps w).2 (run s context' root steps w').2 := by
  unfold run at h ⊢
  cases ht : s.object? root with
  | none => rfl
  | some t =>
    have ht' : s.object? t.name = some t := (Direct.object?_name ht).symm ▸ ht
    simp only [ht, select, container] at h ⊢
    obtain ⟨q, k, hkey⟩ := h.keyed
    refine steps_twin h steps t ht' .root [] (fun hnil => ?_) (fun q hq e he => ?_) [] [] _ _ rfl
      (List.Subset.refl _) (List.Subset.refl _)
    · rw [hkey] at hnil
      simp at hnil
    · exact hraised e (by rwa [← hq])

end GraphSchema.Execution
