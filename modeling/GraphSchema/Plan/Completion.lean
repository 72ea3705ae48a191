import GraphSchema.Plan.Dispatcher
import GraphSchema.Schema.Response
import GraphSchema.Types.EnumValues

/-! Completion: a produced value checked against the type of its field.

Whatever a resolver was declared to yield, what it did yield is checked again here,
at every depth. A value that fails makes the nearest enclosing list item or field
that may be null take the null: an item is made null in place and its failure is
absorbed, a field reports its failure to the caller.

A null among scalars is written as such. A null among enum values, objects or lists
cannot be, so such an item gets a stand-in that renders without running anything,
and its path is kept to be overwritten once the whole response is there. -/
namespace GraphSchema

variable {M : Type}

/-- How a produced value is turned into a rendered one. -/
inductive OutputPlan (M : Type) where
  | scalar (s : Scalar)
  | enum (e : EnumDef)
  | object (name : String) (isTypeOf : Option (M → Bool))
  /-- An interface or a union. -/
  | abstract (dispatcher : Dispatcher M)
  | list (inner : OutputPlan M)
  | nonNull (inner : OutputPlan M)

/-- A value that conforms to its type, ready for the selections below it. -/
inductive Rendered (M : Type) where
  | null
  | value (v : Value)
  | list (items : List (Rendered M))
  /-- An object: its model, the path of the nearest position at or above it that may be null,
  and its concrete type where the declared type is abstract. -/
  | object (model : M) (anchor : Path) (typeName : Option String)
  /-- Stands for an object that is null in the end. -/
  | hole (typeName : Option String)

inductive CompletionError where
  | nullInNonNull (site : String)
  | wrongKind (site expected found : String)
  | wrongScalar (site : String) (scalar : Scalar) (found : Value)
  | namelessEnumValue (site : String)
  | wrongType (site name : String)
  | dispatch (e : DispatchError)

def CompletionError.message : CompletionError → String
  | nullInNonNull site => s!"Cannot return null for non-nullable field {site}."
  | wrongKind site expected found => s!"{site}: expected {expected}, found {found}"
  | wrongScalar site scalar found => s!"{site}: expected {scalar.name}, found {found.literal}"
  | namelessEnumValue site => s!"{site}: enum value has no external name"
  | wrongType site name => s!"{site}: expected value of type {name}"
  | dispatch e => e.message

/-- A failure and the place of the response it belongs to. -/
structure Located where
  path : Path
  message : String
  deriving DecidableEq, Repr

/-- What completing one value comes to. Absorbed failures and the paths of stand-ins count even
if the value fails as a whole. -/
structure Completed (α : Type) where
  result : Except Located α
  absorbed : List Located
  nulled : List Path

namespace Completed

def ok {α : Type} (a : α) : Completed α := ⟨.ok a, [], []⟩

def fail {α : Type} (path : Path) (e : CompletionError) : Completed α :=
  ⟨.error ⟨path, e.message⟩, [], []⟩

def map {α β : Type} (f : α → β) (c : Completed α) : Completed β :=
  ⟨c.result.map f, c.absorbed, c.nulled⟩

end Completed

namespace OutputPlan

def isNonNull : OutputPlan M → Bool
  | nonNull _ => true
  | _ => false

/-- What the plan wants, for messages about the wrong kind of value. -/
def expected : OutputPlan M → String
  | nonNull inner => inner.expected
  | list _ => "a list"
  | scalar _ => "a scalar"
  | enum _ => "an enum value"
  | object _ _ | abstract _ => "an object"

/-- The rendering of a null item of a list of the plan, and whether it is a stand-in. -/
def nullItem : OutputPlan M → Rendered M × Bool
  | nonNull _ | scalar _ => (.null, false)
  | list _ => (.list [], true)
  | enum e => match e.values with
    | value :: _ => (.value (.enum value.name), true)
    | [] => (.null, false)
  | object _ _ => (.hole none, true)
  | abstract d => match d.candidates with
    | c :: _ => (.hole (some c.name), true)
    | [] => (.null, false)

end OutputPlan

namespace Completion

/-- An ID is text, so a number becomes its digits. -/
def scalarValue (s : Scalar) (v : Value) : Value :=
  match s, v with
  | .id, .number n => .string n.text
  | _, v => v

def scalar (site : String) (path : Path) (s : Scalar) (v : Value) : Completed (Option (Rendered M)) :=
  if s.holds v then .ok (some (.value (scalarValue s v)))
  else .fail path (.wrongScalar site s v)

/-- The nulls of a position that may not be null are failures. -/
def require (site : String) (path : Path) (c : Completed (Option (Rendered M))) :
    Completed (Option (Rendered M)) :=
  match c.result with
  | .ok none => ⟨.error ⟨path, (CompletionError.nullInNonNull site).message⟩, c.absorbed, c.nulled⟩
  | _ => c

/-- The item in its slot: a null or a failure becomes the null item where the slot allows it. -/
def slot (plan : OutputPlan M) (path : Path) (c : Completed (Option (Rendered M))) :
    Completed (Rendered M) :=
  let (item, standIn) := plan.nullItem
  let nulled := if standIn then c.nulled ++ [path] else c.nulled
  match c.result with
  | .ok (some item) => ⟨.ok item, c.absorbed, c.nulled⟩
  | .ok none => ⟨.ok item, c.absorbed, nulled⟩
  | .error failure =>
    if plan.isNonNull then ⟨.error failure, c.absorbed, c.nulled⟩
    else ⟨.ok item, c.absorbed ++ [failure], nulled⟩

/-- The items from the one at `index` on; the first that fails ends the list. -/
def items (complete : Nat → Produced M → Completed (Rendered M)) :
    Nat → List (Produced M) → Completed (List (Rendered M))
  | _, [] => .ok []
  | index, p :: ps =>
    let head := complete index p
    match head.result with
    | .error failure => ⟨.error failure, head.absorbed, head.nulled⟩
    | .ok item =>
      let tail := items complete (index + 1) ps
      ⟨tail.result.map (item :: ·), head.absorbed ++ tail.absorbed, head.nulled ++ tail.nulled⟩

/-- Completes a value whose own nullability has been dealt with. `anchor` is the path of the
nearest position at or above `path` that may be null. -/
def value (site : String) : OutputPlan M → (path anchor : Path) → Produced M →
    Completed (Option (Rendered M))
  | .nonNull inner, path, anchor, p =>
    if p.isNull then .ok none else require site path (value site inner path anchor p)
  | .list inner, path, anchor, p =>
    match p with
    | .null => .ok none
    | .list ps =>
      let item (index : Nat) (p : Produced M) : Completed (Rendered M) :=
        let here := path ++ [.index index]
        slot inner here <| match inner with
          | .nonNull strict => require site here (value site strict here anchor p)
          | loose => value site loose here here p
      (items item 0 ps).map fun rs => some (.list rs)
    | other => .fail path (.wrongKind site "a list" other.kind)
  | .scalar s, path, _, p =>
    match p with
    | .null => .ok none
    | .value v => scalar site path s v
    | other => .fail path (.wrongKind site "a scalar" other.kind)
  | .enum e, path, _, p =>
    match p with
    | .null => .ok none
    | .leaf l => match e.nameOf l with
      | some name => .ok (some (.value (.enum name)))
      | none => .fail path (.namelessEnumValue site)
    | .value (.enum name) =>
      if (e.values.parse name).isSome then .ok (some (.value (.enum name)))
      else .fail path (.wrongKind site "an enum value" "a scalar")
    | other => .fail path (.wrongKind site "an enum value" other.kind)
  | .object name isTypeOf, path, anchor, p =>
    match p with
    | .null => .ok none
    | .model m =>
      match isTypeOf with
      | some recognised =>
        if recognised m then .ok (some (.object m anchor none))
        else .fail path (.wrongType site name)
      | none => .ok (some (.object m anchor none))
    | other => .fail path (.wrongKind site "an object" other.kind)
  | .abstract d, path, anchor, p =>
    match p with
    | .null => .ok none
    | .model m => match d.resolve m with
      | .ok name => .ok (some (.object m anchor (some name)))
      | .error e => .fail path (.dispatch e)
    | other => .fail path (.wrongKind site "an object" other.kind)

/-- Completes a value. A position that may be null is its own anchor; in one that may not, a
null fails. `none` is a null in a position that may be null. -/
def complete (site : String) (plan : OutputPlan M) (path anchor : Path) (p : Produced M) :
    Completed (Option (Rendered M)) :=
  match plan with
  | .nonNull inner => require site path (value site inner path anchor p)
  | plan => value site plan path path p

theorem value_list (site : String) (inner : OutputPlan M) (path anchor : Path)
    (ps : List (Produced M)) :
    value site (.list inner) path anchor (.list ps) =
      (items (fun i p => slot inner (path ++ [.index i])
        (complete site inner (path ++ [.index i]) anchor p)) 0 ps).map
        fun rs => some (.list rs) := by
  cases inner <;> rfl

end Completion

end GraphSchema
