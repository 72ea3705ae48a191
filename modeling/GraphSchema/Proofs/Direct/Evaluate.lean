import GraphSchema.Execution.Run
import GraphSchema.Proofs.Direct.Conform

/-! Requests evaluated directly.

The data of a request as one recursion over what it selects: each field is resolved,
its value conformed to its type, and the objects in it evaluated in turn. A position
that fails and may be null is null; one that may not be makes what is around it
fail. A failure stops nothing that would have run otherwise, so the world that
resolvers share goes through the same changes here as in a run. -/
namespace GraphSchema.Direct

open Query Execution

variable {M C W : Type}

/-- Both results, if there are both. -/
def both {α β γ : Type} (f : α → β → γ) : Option α → Option β → Option γ
  | some a, some b => some (f a b)
  | _, _ => none

/-- Evaluates what is selected of an object whose type has the name. -/
abbrev Selecting (M W : Type) := String → M → W → Option Value × W

mutual

def render (select : Selecting M W) : Accepted M → W → Option Value × W
  | .null, w => (some .null, w)
  | .value v, w => (some v, w)
  | .list strict items, w =>
    let (vs, w) := renderItems select strict items w
    (vs.map .list, w)
  | .object m name, w => select name m w

/-- The items of a list, all of them evaluated also if some fail. -/
def renderItems (select : Selecting M W) (strict : Bool) :
    List (Accepted M) → W → Option (List Value) × W
  | [], w => (some [], w)
  | t :: ts, w =>
    let (v, w) := render select t w
    let (vs, w) := renderItems select strict ts w
    (both (· :: ·) (slot strict .null v) vs, w)

end

/-- A field whose value was produced or could not be. -/
def settle (select : Selecting M W) (plan : OutputPlan M) (produced : Except String (Produced M))
    (w : W) : Option Value × W :=
  match produced.toOption.bind (conform plan) with
  | none => (slot plan.isNonNull .null none, w)
  | some accepted =>
    let (v, w) := render select accepted w
    (slot plan.isNonNull .null v, w)

theorem settle_none {select : Selecting M W} {plan : OutputPlan M}
    {produced : Except String (Produced M)} (h : produced.toOption.bind (conform plan) = none)
    (w : W) : settle select plan produced w = (slot plan.isNonNull .null none, w) := by
  simp [settle, h]

theorem settle_some {select : Selecting M W} {plan : OutputPlan M}
    {produced : Except String (Produced M)} {accepted : Accepted M}
    (h : produced.toOption.bind (conform plan) = some accepted) (w : W) :
    settle select plan produced w =
      (slot plan.isNonNull .null (render select accepted w).1, (render select accepted w).2) := by
  simp [settle, h]

def field (context : Option C) (select : Selecting M W) (f : PlannedField M C W) (parent : M)
    (sent : List BoundArgument) (w : W) : Option Value × W :=
  let (produced, w) := f.plan.produce parent (sent.map fun a => (a.name, a.value)) context w
  settle select f.plan.output produced w

/-- The members as a value. An object that has nothing to show is null. -/
def object (members : List (String × Value)) : Value :=
  if members.isEmpty then .null else .object members

mutual

/-- The members that the steps give an object of the type. -/
def members (s : Schema M C W) (context : Option C) (t : ObjectType M C W) (parent : M) :
    List Step → W → Option (List (String × Value)) × W
  | [], w => (some [], w)
  | step :: steps, w =>
    let (first, w) := member s context t parent step w
    let (rest, w) := members s context t parent steps w
    (both (· ++ ·) first rest, w)

/-- The members that one step gives. A field whose arguments want a variable that has no value is
not resolved, and neither is a question about the schema. -/
def member (s : Schema M C W) (context : Option C) (t : ObjectType M C W) (parent : M) :
    Step → W → Option (List (String × Value)) × W
  | .typename key, w => (some [(key, .string t.name)], w)
  | .field _ _ _ (.error _) _, w => (some [], w)
  | .field key name _ (.ok sent) below, w =>
    match introspect s t name sent below with
    | some (.ok r) => (some [(key, r.value)], w)
    | some (.error _) => (some [], w)
    | none =>
      match t.field? name with
      | none => (some [], w)
      | some f =>
        let select : Selecting M W := fun name m w =>
          match s.object? name with
          | none => (none, w)
          | some t =>
            let (ms, w) := members s context t m below w
            (ms.map object, w)
        let (v, w) := field context select f parent sent w
        (v.map fun v => [(key, v)], w)
  | .narrow condition below, w =>
    if meets t condition then members s context t parent below w else (some [], w)

end

/-- What the steps select of an object whose type has the name. -/
def select (s : Schema M C W) (context : Option C) (steps : List Step) : Selecting M W :=
  fun name m w =>
    match s.object? name with
    | none => (none, w)
    | some t =>
      let (ms, w) := members s context t m steps w
      (ms.map object, w)

theorem member_field {s : Schema M C W} {context : Option C} {t : ObjectType M C W} {name : String}
    {sent : List BoundArgument} {below : List Step} (h : introspect s t name sent below = none)
    {f : PlannedField M C W} (hf : t.field? name = some f) (parent : M) (key : String)
    (position : Position) (w : W) :
    member s context t parent (.field key name position (.ok sent) below) w =
      ((field context (select s context below) f parent sent w).1.map fun v => [(key, v)],
        (field context (select s context below) f parent sent w).2) := by
  rw [member, h, hf]
  rfl

/-- The data of an operation on the root of that name, with the world it leaves. -/
def evaluate [Backed M] (s : Schema M C W) (context : Option C) (root : String)
    (steps : List Step) (w : W) : Value × W :=
  let (v, w) := select s context steps root Backed.unit w
  (v.getD .null, w)

/-! ### Response keys -/

mutual

/-- The keys that the steps ask for on an object of the type. -/
def keys (t : ObjectType M C W) : List Step → List String
  | [] => []
  | step :: steps => keysOf t step ++ keys t steps

def keysOf (t : ObjectType M C W) : Step → List String
  | .typename key => [key]
  | .field key _ _ _ _ => [key]
  | .narrow condition below => if meets t condition then keys t below else []

end

/-- The objects that may stand where a type of the name is declared. -/
def standing (s : Schema M C W) (declared : String) : List (ObjectType M C W) :=
  match s.type? declared with
  | some t => (s.possibleTypes t).filterMap s.object?
  | none => []

mutual

/-- Whether no selection below the steps repeats a key. -/
def distinctBelow (s : Schema M C W) (t : ObjectType M C W) : List Step → Bool
  | [] => true
  | step :: steps => distinctBelowStep s t step && distinctBelow s t steps

def distinctBelowStep (s : Schema M C W) (t : ObjectType M C W) : Step → Bool
  | .typename _ => true
  | .field _ name _ _ below => (t.field? name).all fun f =>
    (standing s f.info.type.core).all fun u =>
      decide (keys u below).Nodup && distinctBelow s u below
  | .narrow condition below => !meets t condition || distinctBelow s t below

end

/-- Whether the steps repeat no key on an object of the type, and nothing below them does. -/
def distinct (s : Schema M C W) (t : ObjectType M C W) (steps : List Step) : Bool :=
  decide (keys t steps).Nodup && distinctBelow s t steps

theorem distinct_iff {s : Schema M C W} {t : ObjectType M C W} {steps : List Step} :
    distinct s t steps = true ↔ (keys t steps).Nodup ∧ distinctBelow s t steps = true := by
  simp [distinct]

theorem distinct_of_field {s : Schema M C W} {t : ObjectType M C W} {key name : String}
    {position : Position} {arguments : Except Unbound (List BoundArgument)} {below : List Step}
    (h : distinctBelowStep s t (.field key name position arguments below) = true)
    {f : PlannedField M C W} (hf : t.field? name = some f) {u : ObjectType M C W}
    (hu : u ∈ standing s f.info.type.core) : distinct s u below = true := by
  rw [distinctBelowStep, hf] at h
  exact List.all_eq_true.mp h u hu

theorem distinct_of_narrow {s : Schema M C W} {t : ObjectType M C W} {condition : String}
    {below : List Step} (h : distinctBelowStep s t (.narrow condition below) = true)
    (hm : meets t condition = true) : distinctBelow s t below = true := by
  rw [distinctBelowStep, hm] at h
  simpa using h

end GraphSchema.Direct
