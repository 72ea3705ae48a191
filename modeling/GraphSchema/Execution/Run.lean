import GraphSchema.Execution.Introspection

/-! Running the steps of a request against a schema. Fields run in the order of the
steps, each with all that is below it before the next one. A field that fails where
no null may stand leaves a gap, and so does an object that has nothing to show; the
trace keeps which positions are to be null in the end. It also keeps the calls, so
that it can be said of a run what its fields were run with; no run looks at them. -/
namespace GraphSchema.Execution

open Query

variable {M C W : Type}

/-- A field that was run: on which object, where in the response and in the query, and with what. -/
structure Call (M C W : Type) where
  object : ObjectType M C W
  field : PlannedField M C W
  /-- The model of the object. -/
  parent : M
  path : Path
  position : Position
  sent : List (String × Value)
  /-- The world that the field was run in. -/
  world : W

/-- What a run leaves behind beside its result. -/
structure Trace (M C W : Type) where
  errors : List ResponseError
  /-- The positions that are to be null. -/
  nulls : List Path
  /-- The fields that were run, the first one first. -/
  calls : List (Call M C W)
  world : W

namespace Trace

def start (w : W) : Trace M C W := ⟨[], [], [], w⟩

def report (tr : Trace M C W) (e : ResponseError) : Trace M C W :=
  { tr with errors := tr.errors ++ [e] }

/-- Keeps the call of a field. On an object that is null in the end no field is called. -/
def enter [Backed M] (tr : Trace M C W) (t : ObjectType M C W) (f : PlannedField M C W)
    (parent : Parent M) (path : Path) (position : Position) (sent : List (String × Value)) :
    Trace M C W :=
  match parent with
  | .hole => tr
  | parent =>
    { tr with calls := tr.calls ++ [⟨t, f, parent.model, path, position, sent, tr.world⟩] }

/-- Keeps what a field came to, which stands at that place of the query. -/
def record (tr : Trace M C W) (position : Position) (o : FieldOutcome M) (w : W) :
    Trace M C W where
  errors := tr.errors ++ o.failures.map fun f => ⟨f.message, f.path, position⟩
  nulls := tr.nulls ++ o.nulls
  calls := tr.calls
  world := w

end Trace

/-- The result of a part of a run, or the error that the field around it reports instead. -/
abbrev Outcome (M C W α : Type) := Except ResponseError α × Trace M C W

/-- Runs what is selected of an object. -/
abbrev Selecting (M C W : Type) :=
  ObjectType M C W → Parent M → Path → Trace M C W → Outcome M C W Value

/-! ### Rendering -/

/-- The type of an object, from the declared type of its position and the concrete type that came
with it. -/
def concrete (s : Schema M C W) (declared : String) (given : Option String) :
    Except String (ObjectType M C W) :=
  match s.type? declared with
  | some (.object t) => .ok t
  | some (.interface i) => member i.name "interface" s!"does not implement interface \"{i.name}\""
      (s.possibleTypes (.interface i))
  | some (.union u) => member u.name "union" s!"is not a member of union \"{u.name}\"" u.members
  | some (.enum e) =>
    .error s!"internal: invalid item for enum \"{e.name}\""
  | none => .error s!"internal: unknown type \"{declared}\""
where
  member (name kind otherwise : String) (possible : List String) :
      Except String (ObjectType M C W) :=
    match given with
    | none =>
      .error s!"internal: invalid value for {kind} \"{name}\", expected \"FieldValue::WithType\""
    | some given =>
      match if possible.contains given then s.object? given else none with
      | some t => .ok t
      | none => .error s!"internal: object \"{given}\" {otherwise}"

/-- An object of a position, with what is selected of it. -/
def renderObject (s : Schema M C W) (select : Selecting M C W) (declared : String)
    (position : Position) (parent : Parent M) (given : Option String) (path : Path)
    (tr : Trace M C W) : Outcome M C W Value :=
  match concrete s declared given with
  | .ok t => select t parent path tr
  | .error message => (.error ⟨message, path, position⟩, tr)

/-- A null that no stand-in takes the place of, which will do for a scalar only. -/
def renderNull (s : Schema M C W) (declared : String) (position : Position) (path : Path)
    (tr : Trace M C W) : Outcome M C W Value :=
  match s.type? declared, concrete s declared none with
  | some _, .error message => (.error ⟨message, path, position⟩, tr)
  | _, _ => (.ok .null, tr)

mutual

/-- A completed value of a position whose type has the declared name at its core. -/
def render (s : Schema M C W) (select : Selecting M C W) (declared : String)
    (position : Position) : Rendered M → Path → Trace M C W → Outcome M C W Value
  | .null, path, tr => renderNull s declared position path tr
  | .value v, _, tr => (.ok v, tr)
  | .list items, path, tr =>
    match renderItems s select declared position 0 items path tr with
    | (.ok vs, tr) => (.ok (.list vs), tr)
    | (.error e, tr) => (.error e, tr)
  | .object m anchor given, path, tr =>
    renderObject s select declared position (.object m anchor) given path tr
  | .hole given, path, tr => renderObject s select declared position .hole given path tr

/-- The items of a list from the one at `index` on. -/
def renderItems (s : Schema M C W) (select : Selecting M C W) (declared : String)
    (position : Position) (index : Nat) : List (Rendered M) → Path → Trace M C W →
    Outcome M C W (List Value)
  | [], _, tr => (.ok [], tr)
  | r :: rs, path, tr =>
    match render s select declared position r (path ++ [.index index]) tr with
    | (.error e, tr) => (.error e, tr)
    | (.ok v, tr) =>
      match renderItems s select declared position (index + 1) rs path tr with
      | (.ok vs, tr) => (.ok (v :: vs), tr)
      | (.error e, tr) => (.error e, tr)

end

/-! ### Steps -/

/-- Whether steps under a condition are for objects of the type. -/
def meets (t : ObjectType M C W) (condition : String) : Bool :=
  t.name == condition || t.interfaces.contains condition

/-- What a field leaves for its key: a value, or nothing. -/
def settle (key : String) (members : List (String × Value)) (o : Outcome M C W Value) :
    List (String × Value) × Trace M C W :=
  match o with
  | (.ok v, tr) => (Value.absorb key v members, tr)
  | (.error e, tr) => (members, tr.report e)

/-- Runs a field that asks about the schema, if it is one. -/
def introspect (s : Schema M C W) (t : ObjectType M C W) (name : String)
    (sent : List BoundArgument) (below : List Step) :
    Option (Except ResponseError (Introspection.Reply Value)) :=
  if s.limits.introspection && t.name == s.query then
    (Introspection.asked? s.view name sent).map fun asked =>
      asked.map fun found => Introspection.run s.view found below
  else none

/-- What a field came to, rendered. Where nothing may be rendered, an error stands in for the one
that has been recorded. -/
def renderField (s : Schema M C W) (select : Selecting M C W) (declared : String)
    (position : Position) (path : Path) :
    Option (Option (Rendered M)) → Trace M C W → Outcome M C W Value
  | none, tr => (.error ⟨propagated, [], position⟩, tr)
  | some none, tr => (.ok .null, tr)
  | some (some r), tr => render s select declared position r path tr

/-- Runs a field of an object and renders its value. -/
def runField [Backed M] (s : Schema M C W) (context : Option C) (select : Selecting M C W)
    (t : ObjectType M C W) (f : PlannedField M C W) (parent : Parent M) (path : Path)
    (position : Position) (sent : List BoundArgument) (tr : Trace M C W) : Outcome M C W Value :=
  let sent := sent.map fun a => (a.name, a.value)
  let (outcome, w) := f.plan.run parent path sent context tr.world
  renderField s select f.info.type.core position path outcome.rendered
    ((tr.enter t f parent path position sent).record position outcome w)

/-- A field of an object comes to what its plan makes of the value that is produced. -/
theorem runField_of_produce [Backed M] {s : Schema M C W} {context : Option C}
    {select : Selecting M C W} {t : ObjectType M C W} {f : PlannedField M C W} {parent : Parent M}
    {path : Path} {position : Position} {sent : List BoundArgument} {tr : Trace M C W}
    {produced : Except String (Produced M)} {w : W} (hparent : parent ≠ .hole)
    (h : f.plan.produce parent.model (sent.map fun a => (a.name, a.value)) context tr.world =
      (produced, w)) :
    runField s context select t f parent path position sent tr =
      renderField s select f.info.type.core position path
        (f.plan.settle path parent.anchor produced).rendered
        ((tr.enter t f parent path position (sent.map fun a => (a.name, a.value))).record position
          (f.plan.settle path parent.anchor produced) w) := by
  simp only [runField, f.plan.run_of_ne_hole hparent, h]

/-- What is selected of an object, from its members: one without any is null. -/
def container (members : List (String × Value) × Trace M C W) : Outcome M C W Value :=
  (.ok (if members.1.isEmpty then .null else .object members.1), members.2)

mutual

/-- Runs steps on an object. The members go after those that earlier steps gave. -/
def runSteps [Backed M] (s : Schema M C W) (context : Option C) (t : ObjectType M C W)
    (parent : Parent M) (path : Path) : List Step → List (String × Value) → Trace M C W →
    List (String × Value) × Trace M C W
  | [], ms, tr => (ms, tr)
  | step :: steps, ms, tr =>
    let (ms, tr) := runStep s context t parent path step ms tr
    runSteps s context t parent path steps ms tr

def runStep [Backed M] (s : Schema M C W) (context : Option C) (t : ObjectType M C W)
    (parent : Parent M) (path : Path) : Step → List (String × Value) → Trace M C W →
    List (String × Value) × Trace M C W
  | .typename key, ms, tr => (Value.absorb key (.string t.name) ms, tr)
  | .field _ _ _ (.error u) _, ms, tr => (ms, tr.report ⟨u.message, [], u.position⟩)
  | .field key name position (.ok sent) below, ms, tr =>
    match introspect s t name sent below with
    | some (.ok r) => (Value.absorb key r.value ms, r.errors.foldl Trace.report tr)
    | some (.error e) => (ms, tr.report e)
    | none =>
      match t.field? name with
      | none => (ms, tr)
      | some f =>
        let select : Selecting M C W := fun t parent path tr =>
          container (runSteps s context t parent path below [] tr)
        settle key ms
          (runField s context select t f parent (path ++ [.key key]) position sent tr)
  | .narrow condition below, ms, tr =>
    if meets t condition then runSteps s context t parent path below ms tr else (ms, tr)

end

/-- What the steps select of an object. -/
def select [Backed M] (s : Schema M C W) (context : Option C) (steps : List Step) :
    Selecting M C W := fun t parent path tr =>
  container (runSteps s context t parent path steps [] tr)

theorem runStep_field [Backed M] (s : Schema M C W) (context : Option C) (t : ObjectType M C W)
    (parent : Parent M) (path : Path) (key name : String) (position : Position)
    (sent : List BoundArgument) (below : List Step) (ms : List (String × Value))
    (tr : Trace M C W) (h : introspect s t name sent below = none) {f : PlannedField M C W}
    (hf : t.field? name = some f) :
    runStep s context t parent path (.field key name position (.ok sent) below) ms tr =
      settle key ms (runField s context (select s context below) t f parent (path ++ [.key key])
        position sent tr) := by
  rw [runStep, h, hf]
  rfl

/-- Runs the steps of an operation on the root of that name. -/
def run [Backed M] (s : Schema M C W) (context : Option C) (root : String) (steps : List Step)
    (w : W) : Value × Trace M C W :=
  match s.object? root with
  | none => (.null, .start w)
  | some t =>
    match select s context steps t .root [] (.start w) with
    | (.ok v, tr) => (v, tr)
    | (.error e, tr) => (.null, tr.report e)

end GraphSchema.Execution
