import GraphSchema.Plan.Completion
import GraphSchema.Plan.Input

/-! The plan of one field: how its value is obtained from the parent and what the value
has to be. Running it never stops a request. It says what to render, which failures
to report and where, and which positions of the response are to be null. -/
namespace GraphSchema

variable {M C W : Type}

/-- From the parent value, the arguments and the request's context to a value or a message. `W` is
the state of the world outside the schema, which a resolver may use and change. -/
abbrev Resolver (M C W : Type) := M → Arguments → C → W → Except String (Produced M) × W

inductive FieldSource (M C W : Type) where
  | property (read : M → String → W → Option (Produced M) × W) (name : String)
  | resolver (resolve : Resolver M C W)

structure FieldPlan (M C W : Type) where
  /-- `Type.field`, for messages. -/
  site : String
  arguments : List ArgumentPlan
  source : FieldSource M C W
  output : OutputPlan M

/-- What a field is read from. -/
inductive Parent (M : Type) where
  | root
  /-- An object and the path of the nearest position at or above it that may be null. -/
  | object (model : M) (anchor : Path)
  /-- An object that is null in the end. -/
  | hole

namespace Parent

def model [Backed M] : Parent M → M
  | object m _ => m
  | root | hole => Backed.unit

/-- Above the roots only the data as a whole may be null, whose path is empty. -/
def anchor : Parent M → Path
  | object _ anchor => anchor
  | root | hole => []

end Parent

/-- The message that stands in for a failure handed on to the parent. -/
def propagated : String := "null propagated to the nearest nullable parent"

/-- The message of a resolver that needs a context in a request that has none. -/
def missingContext : String := "Data `Context` does not exist."

/-- What running a field comes to. -/
structure FieldOutcome (M : Type) where
  /-- What to render; nothing at all if the field failed and may not be null. -/
  rendered : Option (Option (Rendered M))
  failures : List Located
  nulls : List Path

namespace FieldPlan

/-- The field's value before completion. A property that is missing is null and needs neither
arguments nor context. -/
def produce (plan : FieldPlan M C W) (parent : M) (sent : List (String × Value))
    (context : Option C) (w : W) : Except String (Produced M) × W :=
  match plan.source with
  | .property read name =>
    let (p, w) := read parent name w
    (.ok (p.getD .null), w)
  | .resolver resolve =>
    match ArgumentPlan.decodeAll plan.arguments sent with
    | .error e => (.error e.message, w)
    | .ok args =>
      match context with
      | none => (.error missingContext, w)
      | some c => resolve parent args c w

/-- A produced value completed, or the failure to produce one. -/
def completed (plan : FieldPlan M C W) (path anchor : Path) :
    Except String (Produced M) → Completed (Option (Rendered M))
  | .ok p => Completion.complete plan.site plan.output path anchor p
  | .error message => ⟨.error ⟨path, message⟩, [], []⟩

/-- What the field comes to with the value that was produced for it. -/
def settle (plan : FieldPlan M C W) (path anchor : Path) (produced : Except String (Produced M)) :
    FieldOutcome M :=
  let c := plan.completed path anchor produced
  match c.result with
  | .ok rendered => ⟨some rendered, c.absorbed, c.nulled⟩
  | .error failure =>
    if plan.output.isNonNull then
      ⟨none, c.absorbed ++ [failure], c.nulled ++ [anchor]⟩
    else ⟨some none, c.absorbed ++ [failure], c.nulled⟩

section

variable {plan : FieldPlan M C W} {path anchor : Path} {produced : Except String (Produced M)}

theorem settle_ok {found : Option (Rendered M)}
    (h : (plan.completed path anchor produced).result = .ok found) :
    plan.settle path anchor produced = ⟨some found,
      (plan.completed path anchor produced).absorbed,
      (plan.completed path anchor produced).nulled⟩ := by
  simp [settle, h]

/-- A position that may not be null hands the null to the anchor. -/
theorem settle_strict {e : Located} (h : (plan.completed path anchor produced).result = .error e)
    (hs : plan.output.isNonNull = true) :
    plan.settle path anchor produced = ⟨none,
      (plan.completed path anchor produced).absorbed ++ [e],
      (plan.completed path anchor produced).nulled ++ [anchor]⟩ := by
  simp [settle, h, hs]

theorem settle_loose {e : Located} (h : (plan.completed path anchor produced).result = .error e)
    (hs : plan.output.isNonNull = false) :
    plan.settle path anchor produced = ⟨some none,
      (plan.completed path anchor produced).absorbed ++ [e],
      (plan.completed path anchor produced).nulled⟩ := by
  simp [settle, h, hs]

end

def run [Backed M] (plan : FieldPlan M C W) (parent : Parent M) (path : Path)
    (sent : List (String × Value)) (context : Option C) (w : W) : FieldOutcome M × W :=
  match parent with
  | .hole => (⟨if plan.output.isNonNull then none else some none, [], []⟩, w)
  | parent =>
    let (produced, w) := plan.produce parent.model sent context w
    (plan.settle path parent.anchor produced, w)

theorem run_of_ne_hole [Backed M] (plan : FieldPlan M C W) {parent : Parent M}
    (h : parent ≠ .hole) (path : Path) (sent : List (String × Value)) (context : Option C)
    (w : W) :
    plan.run parent path sent context w =
      (plan.settle path parent.anchor (plan.produce parent.model sent context w).1,
        (plan.produce parent.model sent context w).2) := by
  cases parent with
  | hole => exact absurd rfl h
  | root | object m anchor => rfl

end FieldPlan

end GraphSchema
