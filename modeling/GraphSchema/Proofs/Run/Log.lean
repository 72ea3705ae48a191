import GraphSchema.Execution.Run
import GraphSchema.Proofs.Run.Faults
import GraphSchema.Proofs.Run.Made

/-! The log of a run.

What a run does to its trace is to log entries: calls of fields, each with all of its
failures, and errors of the run's own. Every call that is logged was asked for
(`Ran`): by a step on the object it was made on, and that object was the root or was
in turn part of what an earlier call produced. It is for a position at or below that
object, and an error of the run's own was raised for one of the steps (`steps_log`). -/
namespace GraphSchema

variable {M C W : Type}

/-- The failures of a field whose value was produced or could not be. -/
def FieldPlan.failures (plan : FieldPlan M C W) (path : Path) :
    Except String (Produced M) → List Located
  | .ok p => (Completion.faults plan.site plan.output path p).map Fault.located
  | .error message => [⟨path, message⟩]

theorem FieldPlan.completed_failures (plan : FieldPlan M C W) (path anchor : Path)
    (produced : Except String (Produced M)) :
    (plan.completed path anchor produced).failures = plan.failures path produced := by
  cases produced with
  | ok p => exact Completion.complete_failures plan.site plan.output path anchor p
  | error message => rfl

/-- Whether or not a field hands its null on, it reports each of its failures. -/
theorem FieldPlan.settle_failures (plan : FieldPlan M C W) (path anchor : Path)
    (produced : Except String (Produced M)) :
    (plan.settle path anchor produced).failures = plan.failures path produced := by
  rw [← plan.completed_failures path anchor produced]
  cases hc : (plan.completed path anchor produced).result with
  | ok found => simp [settle_ok hc, Completed.failures, hc]
  | error e =>
    cases hs : plan.output.isNonNull with
    | true => simp [settle_strict hc hs, Completed.failures, hc]
    | false => simp [settle_loose hc hs, Completed.failures, hc]

namespace Execution

open Query Completion
open Direct (object?_of_concrete)
open GraphSchema.Path (prefix_of_snoc)

/-! ### Entries -/

/-- What the plan of the field made of the parent. -/
def Call.produced (context : Option C) (c : Call M C W) : Except String (Produced M) :=
  (c.field.plan.produce c.parent c.sent context c.world).1

/-- The failures of a call, each at its own path. -/
def Call.failures (context : Option C) (c : Call M C W) : List ResponseError :=
  (c.field.plan.failures c.path (c.produced context)).map fun f => ⟨f.message, f.path, c.position⟩

/-- An error that has nothing to do with what the schema yields: a variable without a value, or a
question about the schema that cannot be answered. -/
inductive OutsideError (s : Schema M C W) : ResponseError → Prop where
  | unbound (u : Unbound) : OutsideError s ⟨u.message, [], u.position⟩
  | question {t : ObjectType M C W} {name : String} {sent : List BoundArgument}
      {below : List Step} {e : ResponseError}
      (h : introspect s t name sent below = some (.error e)) : OutsideError s e
  | answer {t : ObjectType M C W} {name : String} {sent : List BoundArgument}
      {below : List Step} {reply : Introspection.Reply Value} {e : ResponseError}
      (h : introspect s t name sent below = some (.ok reply)) (he : e ∈ reply.errors) :
      OutsideError s e

/-- The error for an object that a type has no place for. -/
inductive Misplaced (s : Schema M C W) (declared : String) (position : Position) :
    ResponseError → Prop where
  | intro {given : Option String} {message : String}
      (h : concrete s declared given = .error message) (path : Path) :
      Misplaced s declared position ⟨message, path, position⟩

/-- An error that is of no call. An object is only out of place in a field whose plan does not fit
its type. -/
inductive EngineError (s : Schema M C W) : ResponseError → Prop where
  | outside {e : ResponseError} (h : OutsideError s e) : EngineError s e
  | internal {t : ObjectType M C W} (ht : s.object? t.name = some t) {f : PlannedField M C W}
      (hf : f ∈ t.fields) (hfits : ¬ Direct.Fits s f.info.type.core f.plan.output)
      {position : Position} {e : ResponseError} (h : Misplaced s f.info.type.core position e) :
      EngineError s e

inductive Entry (M C W : Type) where
  | call (c : Call M C W)
  | own (e : ResponseError)

namespace Entry

def call? : Entry M C W → Option (Call M C W)
  | call c => some c
  | own _ => none

def errors (context : Option C) : Entry M C W → List ResponseError
  | call c => c.failures context
  | own e => [e]

end Entry

/-- The trace has got longer by entries of the kind. -/
def Logs (context : Option C) (P : Entry M C W → Prop) (tr tr' : Trace M C W) : Prop :=
  ∃ entries : List (Entry M C W), tr'.calls = tr.calls ++ entries.filterMap Entry.call? ∧
    tr'.errors = tr.errors ++ entries.flatMap (Entry.errors context) ∧ ∀ e ∈ entries, P e

section

variable {context : Option C} {P Q : Entry M C W → Prop} {a b d : Trace M C W}

theorem logs_refl (tr : Trace M C W) : Logs context P tr tr :=
  ⟨[], by simp, by simp, nofun⟩

theorem logs_trans (hab : Logs context P a b) (hbd : Logs context P b d) : Logs context P a d := by
  obtain ⟨es, hcalls, herrors, hP⟩ := hab
  obtain ⟨es', hcalls', herrors', hP'⟩ := hbd
  refine ⟨es ++ es', ?_, ?_, fun e he => ?_⟩
  · rw [hcalls', hcalls, List.filterMap_append, List.append_assoc]
  · rw [herrors', herrors, List.flatMap_append, List.append_assoc]
  · rcases List.mem_append.mp he with he | he
    · exact hP e he
    · exact hP' e he

theorem logs_mono (hPQ : ∀ e, P e → Q e) (h : Logs context P a b) : Logs context Q a b := by
  obtain ⟨es, hcalls, herrors, hP⟩ := h
  exact ⟨es, hcalls, herrors, fun e he => hPQ e (hP e he)⟩

theorem logs_report {e : ResponseError} (h : P (.own e)) (tr : Trace M C W) :
    Logs context P tr (tr.report e) :=
  ⟨[.own e], by simp [Trace.report, Entry.call?], by simp [Trace.report, Entry.errors],
    fun _ he => List.mem_singleton.mp he ▸ h⟩

theorem logs_reports {es : List ResponseError} (h : ∀ e ∈ es, P (.own e)) (tr : Trace M C W) :
    Logs context P tr (es.foldl Trace.report tr) := by
  induction es generalizing tr with
  | nil => exact logs_refl tr
  | cons e es ih =>
    exact logs_trans (logs_report (h e (List.mem_cons_self ..)) tr)
      (ih (fun e he => h e (List.mem_cons_of_mem _ he)) _)

/-- The call of a field, with the failures that it is recorded with. -/
theorem logs_call [Backed M] {t : ObjectType M C W} {f : PlannedField M C W} {parent : Parent M}
    (hparent : parent ≠ .hole) (path : Path) (position : Position)
    {sent : List (String × Value)} {tr : Trace M C W} {produced : Except String (Produced M)}
    {w : W} (hproduced : f.plan.produce parent.model sent context tr.world = (produced, w))
    (h : P (.call ⟨t, f, parent.model, path, position, sent, tr.world⟩)) :
    Logs context P tr ((tr.enter t f parent path position sent).record position
      (f.plan.settle path parent.anchor produced) w) := by
  refine ⟨[.call ⟨t, f, parent.model, path, position, sent, tr.world⟩], ?_, ?_,
    fun _ he => List.mem_singleton.mp he ▸ h⟩
  · cases parent with
    | hole => exact absurd rfl hparent
    | root | object m anchor => rfl
  · have herrors : (tr.enter t f parent path position sent).errors = tr.errors := by
      cases parent <;> rfl
    simp only [Trace.record, herrors, FieldPlan.settle_failures, List.flatMap_cons,
      List.flatMap_nil, List.append_nil, Entry.errors, Call.failures, Call.produced, hproduced]

end

/-! ### Rendering -/

/-- A part of a run that logs entries of the kind; its result, if it is an error, is of the other
kind. -/
def OutcomeLogs {α : Type} (context : Option C) (P : Entry M C W → Prop)
    (Q : ResponseError → Prop) (tr : Trace M C W) (o : Outcome M C W α) : Prop :=
  Logs context P tr o.2 ∧ ∀ e, o.1 = .error e → Q e

section

variable {context : Option C} {P : Entry M C W → Prop} {Q : ResponseError → Prop}

theorem outcomeLogs_ok {α : Type} (a : α) (tr : Trace M C W) :
    OutcomeLogs context P Q tr (.ok a, tr) :=
  ⟨logs_refl tr, nofun⟩

theorem outcomeLogs_error {α : Type} {e : ResponseError} (h : Q e) (tr : Trace M C W) :
    OutcomeLogs context P Q tr ((.error e, tr) : Outcome M C W α) := by
  refine ⟨logs_refl tr, fun e' he => ?_⟩
  cases he
  exact h

/-- An error is handed on as it is. -/
theorem outcomeLogs_handed {α β : Type} {e : ResponseError} {tr tr' : Trace M C W}
    (h : OutcomeLogs context P Q tr ((.error e, tr') : Outcome M C W α)) :
    OutcomeLogs context P Q tr ((.error e, tr') : Outcome M C W β) := by
  refine ⟨h.1, fun e' he => ?_⟩
  cases he
  exact h.2 e rfl

variable {s : Schema M C W} {select : Selecting M C W} {declared : String} {position : Position}

theorem renderObject_logs (parent : Parent M) (given : Option String) (path : Path)
    (tr : Trace M C W)
    (hselect : ∀ u, concrete s declared given = .ok u →
      OutcomeLogs context P (Misplaced s declared position) tr (select u parent path tr)) :
    OutcomeLogs context P (Misplaced s declared position) tr
      (renderObject s select declared position parent given path tr) := by
  unfold renderObject
  cases hc : concrete s declared given with
  | ok u => exact hselect u hc
  | error message => exact outcomeLogs_error (.intro hc path) tr

theorem renderNull_logs (path : Path) (tr : Trace M C W) :
    OutcomeLogs context P (Misplaced s declared position) tr
      (renderNull s declared position path tr) := by
  unfold renderNull
  split
  · next hc => exact outcomeLogs_error (.intro hc path) tr
  · exact outcomeLogs_ok _ tr

/-- What is selected of stand-ins logs entries of the kind. -/
def HoleLogs (context : Option C) (P : Entry M C W → Prop) (s : Schema M C W)
    (select : Selecting M C W) (declared : String) (position : Position) : Prop :=
  ∀ given u, concrete s declared given = .ok u → ∀ path tr,
    OutcomeLogs context P (Misplaced s declared position) tr (select u .hole path tr)

mutual

/-- Rendering logs what is selected of the objects in a value and of stand-ins. -/
theorem render_logs (hhole : HoleLogs context P s select declared position) :
    ∀ (r : Rendered M) (path : Path) (tr : Trace M C W),
      (∀ m given u, r.Contains m given → concrete s declared given = .ok u →
        ∀ anchor inner, path <+: inner → ∀ tr,
          OutcomeLogs context P (Misplaced s declared position) tr
            (select u (.object m anchor) inner tr)) →
      OutcomeLogs context P (Misplaced s declared position) tr
        (render s select declared position r path tr)
  | .null, path, tr, _ => renderNull_logs path tr
  | .value v, _, tr, _ => outcomeLogs_ok v tr
  | .list items, path, tr, hselect => by
    have hitems := renderItems_logs hhole 0 items path tr fun m given u ⟨r, hr, hcontains⟩ =>
      hselect m given u (.item hr hcontains)
    rw [render]
    generalize renderItems s select declared position 0 items path tr = o at hitems
    obtain ⟨result, tr'⟩ := o
    cases result with
    | ok vs => exact ⟨hitems.1, nofun⟩
    | error e => exact outcomeLogs_handed hitems
  | .object m anchor given, path, tr, hselect =>
    renderObject_logs _ given path tr fun u hu =>
      hselect m given u (.object m anchor given) hu anchor path (List.prefix_refl path) tr
  | .hole given, path, tr, _ =>
    renderObject_logs _ given path tr fun u hu => hhole given u hu path tr

theorem renderItems_logs (hhole : HoleLogs context P s select declared position) :
    ∀ (i : Nat) (rs : List (Rendered M)) (path : Path) (tr : Trace M C W),
      (∀ m given u, (∃ r, r ∈ rs ∧ r.Contains m given) → concrete s declared given = .ok u →
        ∀ anchor inner, path <+: inner → ∀ tr,
          OutcomeLogs context P (Misplaced s declared position) tr
            (select u (.object m anchor) inner tr)) →
      OutcomeLogs context P (Misplaced s declared position) tr
        (renderItems s select declared position i rs path tr)
  | _, [], _, tr, _ => outcomeLogs_ok [] tr
  | i, r :: rs, path, tr, hselect => by
    have hfirst := render_logs hhole r (path ++ [.index i]) tr
      fun m given u hcontains hu anchor inner hinner =>
        hselect m given u ⟨r, List.mem_cons_self .., hcontains⟩ hu anchor inner
          (prefix_of_snoc hinner)
    have hrest := fun tr => renderItems_logs hhole (i + 1) rs path tr
      fun m given u ⟨r', hr', hcontains⟩ =>
        hselect m given u ⟨r', List.mem_cons_of_mem _ hr', hcontains⟩
    rw [renderItems]
    generalize render s select declared position r (path ++ [.index i]) tr = o at hfirst
    obtain ⟨result, tr'⟩ := o
    cases result with
    | error e => exact outcomeLogs_handed hfirst
    | ok v =>
      have htail := hrest tr'
      dsimp only
      generalize renderItems s select declared position (i + 1) rs path tr' = o' at htail
      obtain ⟨result', tr''⟩ := o'
      cases result' with
      | ok vs => exact ⟨logs_trans hfirst.1 htail.1, nofun⟩
      | error e => exact outcomeLogs_handed ⟨logs_trans hfirst.1 htail.1, htail.2⟩

end

end

/-- A field logs its outcome, the error of it included. -/
theorem settle_logs {context : Option C} {P : Entry M C W → Prop} {key : String}
    {ms : List (String × Value)} {tr : Trace M C W} {o : Outcome M C W Value}
    (h : OutcomeLogs context P (fun e => P (.own e)) tr o) :
    Logs context P tr (settle key ms o).2 := by
  obtain ⟨hlogs, herror⟩ := h
  obtain ⟨result, tr'⟩ := o
  cases result with
  | ok v => exact hlogs
  | error e => exact logs_trans hlogs (logs_report (herror e rfl) tr')

/-! ### Calls that were asked for -/

/-- The call was asked for by the steps on an object, or below them: on an object in what a field
that they ask for produced. -/
inductive Ran (s : Schema M C W) (context : Option C) :
    ObjectType M C W → M → List Step → Call M C W → Prop where
  | here {t : ObjectType M C W} {m : M} {steps below : List Step} {key name : String}
      {position : Position} {sent : List BoundArgument} {f : PlannedField M C W}
      (hmem : .field key name position (.ok sent) below ∈ steps)
      (hasks : introspect s t name sent below = none) (hf : t.field? name = some f) (path : Path)
      (w : W) :
      Ran s context t m steps
        ⟨t, f, m, path, position, sent.map fun a => (a.name, a.value), w⟩
  | deeper {t u : ObjectType M C W} {m m' : M} {steps below : List Step} {key name : String}
      {position : Position} {sent : List BoundArgument} {f : PlannedField M C W} {w w' : W}
      {p : Produced M} {path anchor : Path} {r : Rendered M} {given : Option String}
      {c : Call M C W} (hmem : .field key name position (.ok sent) below ∈ steps)
      (hf : t.field? name = some f)
      (hproduced : f.plan.produce m (sent.map fun a => (a.name, a.value)) context w = (.ok p, w'))
      (hcompleted : (complete f.plan.site f.plan.output path anchor p).result = .ok (some r))
      (hcontains : r.Contains m' given) (hconcrete : concrete s f.info.type.core given = .ok u)
      (h : Ran s context u m' below c) : Ran s context t m steps c
  | narrow {t : ObjectType M C W} {m : M} {steps below : List Step} {condition : String}
      {c : Call M C W} (hmem : .narrow condition below ∈ steps) (hm : meets t condition = true)
      (h : Ran s context t m below c) : Ran s context t m steps c

theorem ran_mono {s : Schema M C W} {context : Option C} {t : ObjectType M C W} {m : M}
    {steps steps' : List Step} {c : Call M C W} (hsub : ∀ step ∈ steps, step ∈ steps')
    (h : Ran s context t m steps c) : Ran s context t m steps' c := by
  cases h with
  | here hmem hasks hf path w => exact .here (hsub _ hmem) hasks hf path w
  | deeper hmem hf hproduced hcompleted hcontains hconcrete h =>
    exact .deeper (hsub _ hmem) hf hproduced hcompleted hcontains hconcrete h
  | narrow hmem hm h => exact .narrow (hsub _ hmem) hm h

/-! ### Errors of the run's own -/

/-- The error was raised for one of the steps or below it: for a variable without a value, or for a
question about the schema that cannot be answered. -/
inductive Raised (s : Schema M C W) : List Step → ResponseError → Prop where
  | unbound {steps below : List Step} {key name : String} {position : Position} {u : Unbound}
      (hmem : .field key name position (.error u) below ∈ steps) :
      Raised s steps ⟨u.message, [], u.position⟩
  | question {steps below : List Step} {key name : String} {position : Position}
      {sent : List BoundArgument} (hmem : .field key name position (.ok sent) below ∈ steps)
      {t : ObjectType M C W} {e : ResponseError}
      (h : introspect s t name sent below = some (.error e)) : Raised s steps e
  | answer {steps below : List Step} {key name : String} {position : Position}
      {sent : List BoundArgument} (hmem : .field key name position (.ok sent) below ∈ steps)
      {t : ObjectType M C W} {reply : Introspection.Reply Value} {e : ResponseError}
      (h : introspect s t name sent below = some (.ok reply)) (he : e ∈ reply.errors) :
      Raised s steps e
  | deeper {steps below : List Step} {key name : String} {position : Position}
      {sent : List BoundArgument} (hmem : .field key name position (.ok sent) below ∈ steps)
      {e : ResponseError} (h : Raised s below e) : Raised s steps e
  | narrow {steps below : List Step} {condition : String}
      (hmem : .narrow condition below ∈ steps) {e : ResponseError} (h : Raised s below e) :
      Raised s steps e

theorem outside_of_raised {s : Schema M C W} {steps : List Step} {e : ResponseError}
    (h : Raised s steps e) : OutsideError s e := by
  induction h with
  | unbound _ => exact .unbound _
  | question _ h => exact .question h
  | answer _ h he => exact .answer h he
  | deeper _ _ ih | narrow _ _ ih => exact ih

theorem raised_mono {s : Schema M C W} {steps steps' : List Step} {e : ResponseError}
    (hsub : ∀ step ∈ steps, step ∈ steps') (h : Raised s steps e) : Raised s steps' e := by
  cases h with
  | unbound hmem => exact .unbound (hsub _ hmem)
  | question hmem h => exact .question (hsub _ hmem) h
  | answer hmem h he => exact .answer (hsub _ hmem) h he
  | deeper hmem h => exact .deeper (hsub _ hmem) h
  | narrow hmem h => exact .narrow (hsub _ hmem) h

/-- What a run may report of its own: what its steps raise, in a schema that is not linked also
errors for objects out of place, and what only stands in for the failures of a call and is dropped
in the end. -/
def Own (s : Schema M C W) (steps : List Step) (e : ResponseError) : Prop :=
  Raised s steps e ∨ (¬ Direct.Linked s ∧ EngineError s e) ∨
    ∃ position, e = ⟨propagated, [], position⟩

theorem own_mono {s : Schema M C W} {steps steps' : List Step}
    (h : ∀ e, Raised s steps e → Raised s steps' e) {e : ResponseError} (he : Own s steps e) :
    Own s steps' e :=
  he.imp_left (h e)

/-- What is reported in the end comes from the engine. -/
theorem engineError_of_own {s : Schema M C W} {steps : List Step} {e : ResponseError}
    (h : Own s steps e) (hmessage : e.message ≠ propagated) : EngineError s e := by
  rcases h with hraised | ⟨_, herror⟩ | ⟨position, rfl⟩
  · exact .outside (outside_of_raised hraised)
  · exact herror
  · exact absurd rfl hmessage

/-- In a linked schema it was raised for the steps. -/
theorem raised_of_own {s : Schema M C W} (hlinked : Direct.Linked s) {steps : List Step}
    {e : ResponseError} (h : Own s steps e) (hmessage : e.message ≠ propagated) :
    Raised s steps e := by
  rcases h with hraised | ⟨hunlinked, _⟩ | ⟨position, rfl⟩
  · exact hraised
  · exact absurd hlinked hunlinked
  · exact absurd rfl hmessage

/-- An entry that is explained: a call by what asked for it, an error by the steps. -/
def Explained (s : Schema M C W) (steps : List Step) (asked : Call M C W → Prop) :
    Entry M C W → Prop
  | .call c => asked c
  | .own e => Own s steps e

variable {s : Schema M C W} {context : Option C}

theorem explained_mono {steps steps' : List Step} {asked asked' : Call M C W → Prop}
    (hsteps : ∀ e, Raised s steps e → Raised s steps' e) (hcalls : ∀ c, asked c → asked' c)
    (e : Entry M C W) (he : Explained s steps asked e) : Explained s steps' asked' e := by
  cases e with
  | call c => exact hcalls c he
  | own e => exact own_mono hsteps he

variable [Backed M]

/-- What is asked for by the steps on an object at the path; on a stand-in nothing is. -/
def AskedOf (s : Schema M C W) (context : Option C) (t : ObjectType M C W) (steps : List Step)
    (path : Path) : Parent M → Call M C W → Prop
  | .hole, _ => False
  | parent, c => Ran s context t parent.model steps c ∧ path <+: c.path

theorem askedOf_of_ran {t : ObjectType M C W} {steps : List Step} {path : Path}
    {parent : Parent M} (hparent : parent ≠ .hole) {c : Call M C W}
    (h : Ran s context t parent.model steps c) (hpath : path <+: c.path) :
    AskedOf s context t steps path parent c := by
  cases parent with
  | hole => exact absurd rfl hparent
  | root | object m anchor => exact ⟨h, hpath⟩

theorem path_of_askedOf {t : ObjectType M C W} {steps : List Step} {path : Path}
    {parent : Parent M} {c : Call M C W} (h : AskedOf s context t steps path parent c) :
    path <+: c.path := by
  cases parent with
  | hole => exact h.elim
  | root | object m anchor => exact h.2

/-- Running the steps on an object of any type logs what is explained. -/
def StepsLog (s : Schema M C W) (context : Option C) (steps : List Step) : Prop :=
  ∀ (t : ObjectType M C W), s.object? t.name = some t → ∀ (parent : Parent M) (path : Path)
    (ms : List (String × Value)) (tr : Trace M C W),
    Logs context (Explained s steps (AskedOf s context t steps path parent)) tr
      (runSteps s context t parent path steps ms tr).2

def StepLogs (s : Schema M C W) (context : Option C) (step : Step) : Prop :=
  ∀ (t : ObjectType M C W), s.object? t.name = some t → ∀ (parent : Parent M) (path : Path)
    (ms : List (String × Value)) (tr : Trace M C W),
    Logs context (Explained s [step] (AskedOf s context t [step] path parent)) tr
      (runStep s context t parent path step ms tr).2

theorem askedOf_mono {t : ObjectType M C W} {steps steps' : List Step} {path path' : Path}
    {parent : Parent M} (hsub : ∀ step ∈ steps, step ∈ steps') (hpath : path' <+: path)
    {c : Call M C W} (h : AskedOf s context t steps path parent c) :
    AskedOf s context t steps' path' parent c := by
  cases parent with
  | hole => exact h
  | root | object m anchor => exact ⟨ran_mono hsub h.1, hpath.trans h.2⟩

theorem explained_of_subset {t : ObjectType M C W} {steps steps' : List Step} {path : Path}
    {parent : Parent M} (hsub : ∀ step ∈ steps, step ∈ steps') (e : Entry M C W)
    (he : Explained s steps (AskedOf s context t steps path parent) e) :
    Explained s steps' (AskedOf s context t steps' path parent) e :=
  explained_mono (fun _ => raised_mono hsub) (fun _ => askedOf_mono hsub (List.prefix_refl path)) e
    he

/-! ### Each kind of step -/

theorem steps_log_cons {step : Step} {steps : List Step} (h : StepLogs s context step)
    (hs : StepsLog s context steps) : StepsLog s context (step :: steps) := by
  intro t ht parent path ms tr
  have hfirst := h t ht parent path ms tr
  have hrest := hs t ht parent path (runStep s context t parent path step ms tr).1
    (runStep s context t parent path step ms tr).2
  refine logs_trans (logs_mono (explained_of_subset fun x hx => ?_) hfirst)
    (logs_mono (explained_of_subset fun x hx => ?_) hrest)
  · rw [List.mem_singleton.mp hx]
    exact List.mem_cons_self ..
  · exact List.mem_cons_of_mem _ hx

theorem step_logs_narrow {condition : String} {below : List Step}
    (h : StepsLog s context below) : StepLogs s context (.narrow condition below) := by
  intro t ht parent path ms tr
  by_cases hm : meets t condition = true
  · rw [runStep, if_pos hm]
    refine logs_mono (explained_mono (fun e he => ?_) fun c hc => ?_) (h t ht parent path ms tr)
    · exact .narrow (List.mem_singleton_self _) he
    · cases parent with
      | hole => exact hc
      | root | object m anchor => exact ⟨.narrow (List.mem_singleton_self _) hm hc.1, hc.2⟩
  · rw [runStep, if_neg hm]
    exact logs_refl tr

theorem select_yields (s : Schema M C W) (context : Option C) (steps : List Step) :
    Yields (select s context steps) :=
  fun _ _ _ _ => ⟨_, _, rfl⟩

theorem select_logs {below : List Step} (h : StepsLog s context below) {u : ObjectType M C W}
    (hu : s.object? u.name = some u) (parent : Parent M) (path : Path) (tr : Trace M C W)
    (Q : ResponseError → Prop) {P : Entry M C W → Prop}
    (hP : ∀ e, Explained s below (AskedOf s context u below path parent) e → P e) :
    OutcomeLogs context P Q tr (select s context below u parent path tr) :=
  ⟨logs_mono hP (h u hu parent path [] tr), nofun⟩

theorem runField_hole_logs {P : Entry M C W → Prop}
    (hP : ∀ position, P (.own ⟨propagated, [], position⟩)) (select : Selecting M C W)
    (t : ObjectType M C W) (f : PlannedField M C W) (path : Path) (position : Position)
    (sent : List BoundArgument) (tr : Trace M C W) :
    OutcomeLogs context P (fun e => P (.own e)) tr
      (runField s context select t f .hole path position sent tr) := by
  have hlogs : Logs context P tr (runField s context select t f .hole path position sent tr).2 := by
    refine ⟨[], ?_, ?_, nofun⟩ <;> unfold runField FieldPlan.run <;>
      cases f.plan.output.isNonNull <;> simp [renderField, Trace.enter, Trace.record]
  refine ⟨hlogs, fun e he => ?_⟩
  unfold runField FieldPlan.run at he
  cases hs : f.plan.output.isNonNull with
  | true =>
    simp only [hs, if_true, renderField, Except.error.injEq] at he
    exact he ▸ hP position
  | false => simp [hs, renderField] at he

/-- An object out of place in what a field has completed to, which is not of the field's type. -/
theorem unlinked_of_render {t : ObjectType M C W} (ht : s.object? t.name = some t)
    {f : PlannedField M C W} (hf : f ∈ t.fields) {site : String} {path anchor : Path}
    {p : Produced M} {r : Rendered M}
    (hcompleted : (complete site f.plan.output path anchor p).result = .ok (some r))
    {below : List Step} {position : Position} {tr : Trace M C W} {e : ResponseError}
    (he : (render s (select s context below) f.info.type.core position r path tr).1 = .error e)
    (h : Misplaced s f.info.type.core position e) :
    ¬ Direct.Linked s ∧ EngineError s e := by
  suffices hfits : ¬ Direct.Fits s f.info.type.core f.plan.output from
    ⟨fun hlinked => hfits (hlinked _ t ht f hf), .internal ht hf hfits h⟩
  intro hfits
  obtain ⟨v, tr', hrender⟩ := render_yields (select_yields s context below) (fits_core hfits)
    (complete_made hcompleted) path tr
  rw [hrender] at he
  cases he

/-- The value of a field of an object: what was selected of the objects in it was asked for. -/
theorem renderField_logs {t : ObjectType M C W} (ht : s.object? t.name = some t) {m : M}
    (key : String) {name : String} {position : Position} {sent : List BoundArgument}
    {below : List Step} (h : StepsLog s context below)
    {f : PlannedField M C W} (hf : t.field? name = some f) {w w' : W}
    {produced : Except String (Produced M)}
    (hproduced : f.plan.produce m (sent.map fun a => (a.name, a.value)) context w = (produced, w'))
    {P : Entry M C W → Prop} {path : Path}
    (hP : ∀ e, Explained s below (fun c =>
      Ran s context t m [.field key name position (.ok sent) below] c ∧ path <+: c.path) e → P e)
    (anchor : Path) (tr : Trace M C W) :
    OutcomeLogs context P (fun e => P (.own e)) tr
      (renderField s (select s context below) f.info.type.core position path
        (f.plan.settle path anchor produced).rendered tr) := by
  cases hc : (f.plan.completed path anchor produced).result with
  | error e =>
    cases hs : f.plan.output.isNonNull with
    | true =>
      rw [FieldPlan.settle_strict hc hs]
      exact outcomeLogs_error (hP (.own _) (.inr (.inr ⟨position, rfl⟩))) tr
    | false =>
      rw [FieldPlan.settle_loose hc hs]
      exact outcomeLogs_ok _ tr
  | ok found =>
    rw [FieldPlan.settle_ok hc]
    cases found with
    | none => exact outcomeLogs_ok _ tr
    | some r =>
      cases produced with
      | error message => cases hc
      | ok p =>
        have hlogs : OutcomeLogs context P (Misplaced s f.info.type.core position) tr
            (render s (select s context below) f.info.type.core position r path tr) := by
          refine render_logs (fun given u hu path tr => ?_) r path tr
            fun m' given u hcontains hu anchor' inner hinner tr => ?_
          · exact select_logs h (object?_of_concrete hu) .hole path tr _ fun e he =>
              hP e (explained_mono (fun _ => id) (fun _ hc => hc.elim) e he)
          · refine select_logs h (object?_of_concrete hu) (.object m' anchor') inner tr _
              fun e he => hP e (explained_mono (fun _ => id) (fun c hasked => ?_) e he)
            exact ⟨.deeper (List.mem_singleton_self _) hf hproduced hc hcontains hu hasked.1,
              hinner.trans hasked.2⟩
        have hmem : f ∈ t.fields := List.mem_of_find?_eq_some hf
        exact ⟨hlogs.1, fun e he =>
          hP (.own e) (.inr (.inl (unlinked_of_render ht hmem hc he (hlogs.2 e he))))⟩

theorem runField_logs {t : ObjectType M C W} (ht : s.object? t.name = some t) (key : String)
    {name : String} {position : Position} {sent : List BoundArgument} {below : List Step}
    (h : StepsLog s context below) (hasks : introspect s t name sent below = none)
    {f : PlannedField M C W} (hf : t.field? name = some f) (parent : Parent M) (path : Path)
    (tr : Trace M C W) {P : Entry M C W → Prop}
    (hP : ∀ e, Explained s below
      (AskedOf s context t [.field key name position (.ok sent) below] path parent) e → P e) :
    OutcomeLogs context P (fun e => P (.own e)) tr
      (runField s context (select s context below) t f parent path position sent tr) := by
  by_cases hparent : parent = .hole
  · subst hparent
    exact runField_hole_logs (fun position => hP (.own _) (.inr (.inr ⟨position, rfl⟩))) _ t f path
      position sent tr
  · rcases hproduced : f.plan.produce parent.model (sent.map fun a => (a.name, a.value)) context
      tr.world with ⟨produced, w⟩
    rw [runField_of_produce hparent hproduced]
    have hran : Ran s context t parent.model [.field key name position (.ok sent) below]
        ⟨t, f, parent.model, path, position, sent.map fun a => (a.name, a.value), tr.world⟩ :=
      .here (List.mem_singleton_self _) hasks hf path tr.world
    have hcall := logs_call hparent path position hproduced (P := P)
      (hP (.call _) (askedOf_of_ran hparent hran (List.prefix_refl path)))
    have hvalue := fun tr => renderField_logs ht key h hf hproduced (P := P)
      (fun e he => hP e
        (explained_mono (fun _ => id) (fun c hc => askedOf_of_ran hparent hc.1 hc.2) e he))
      parent.anchor tr
    exact ⟨logs_trans hcall (hvalue _).1, (hvalue _).2⟩

theorem step_logs_field (key name : String) (position : Position) (sent : List BoundArgument)
    {below : List Step} (h : StepsLog s context below) :
    StepLogs s context (.field key name position (.ok sent) below) := by
  intro t ht parent path ms tr
  cases hi : introspect s t name sent below with
  | some reply =>
    cases reply with
    | ok r =>
      simp only [runStep, hi]
      exact logs_reports (fun e he => .inl (.answer (List.mem_singleton_self _) hi he)) tr
    | error e =>
      simp only [runStep, hi]
      exact logs_report (.inl (.question (List.mem_singleton_self _) hi)) tr
  | none =>
    cases hf : t.field? name with
    | none =>
      simp only [runStep, hi, hf]
      exact logs_refl tr
    | some f =>
      rw [runStep_field s context t parent path key name position sent below ms tr hi hf]
      refine settle_logs (runField_logs ht key h hi hf parent _ tr fun e he => ?_)
      refine explained_mono (fun e he => .deeper (List.mem_singleton_self _) he)
        (fun c hc => ?_) e he
      exact askedOf_mono (fun _ hx => hx) (List.prefix_append ..) hc

mutual

theorem steps_log : ∀ steps : List Step, StepsLog s context steps
  | [] => fun _ _ _ _ _ tr => logs_refl tr
  | step :: steps => steps_log_cons (step_logs step) (steps_log steps)

theorem step_logs : ∀ step : Step, StepLogs s context step
  | .typename _ => fun _ _ _ _ _ tr => logs_refl tr
  | .field _ _ _ (.error _) _ => fun _ _ _ _ _ tr =>
    logs_report (.inl (.unbound (List.mem_singleton_self _))) tr
  | .field key name position (.ok sent) below =>
    step_logs_field key name position sent (steps_log below)
  | .narrow _ below => step_logs_narrow (steps_log below)

end

end Execution

end GraphSchema
