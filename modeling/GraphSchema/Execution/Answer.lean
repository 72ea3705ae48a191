import GraphSchema.Execution.Nulling
import GraphSchema.Execution.Run
import GraphSchema.Query.Parser
import GraphSchema.Query.Validation.Basic

/-! Answering a request: reading its document, turning it down if it is too large or
not valid, running the operation it asks for, and nulling what has to be null. -/
namespace GraphSchema

open Query Execution

variable {M C W : Type}

structure Request where
  query : String
  /-- The values sent for the variables. -/
  sent : List (String × Value) := []
  /-- The name of the operation to run. -/
  operation : Option String := none

inductive Answer where
  | refused (r : Refusal)
  | answered (r : Response)

namespace Schema

/-- A number that is over a limit, if there is a limit. -/
def exceeds (n : Nat) : Option Nat → Bool
  | some limit => n > limit
  | none => false

/-- The document of a request with the operation to run, or why the request is turned down. The
limits come before the rules, and hold for the operations that the schema has a root for. -/
def screen (s : Schema M C W) (r : Request) : Except Refusal (Document × Operation × String) :=
  match Document.parse? r.query with
  | none => .error .invalid
  | some d =>
    let counts (op : Operation) : Bool := (op.root? s).isSome
    if !d.fitsNesting then .error .invalid
    else if exceeds (d.totalComplexity counts) s.limits.maxComplexity then .error .tooComplex
    else if exceeds (d.greatestDepth counts) s.limits.maxDepth then .error .tooDeep
    else if !d.isValid s r.sent r.operation then .error .invalid
    else
      match d.operation? r.operation with
      | none => .error .invalid
      | some op =>
        match op.root? s with
        | some root => .ok (d, op, root)
        | none => .error .invalid

/-- The run of an admitted request. -/
def perform [Backed M] (s : Schema M C W) (context : Option C) (r : Request)
    (admitted : Document × Operation × String) (w : W) : Value × Trace M C W :=
  let (d, op, root) := admitted
  run s context root (d.plan op r.sent) w

/-- Nulls the positions of the trace and drops the stand-ins among its errors. -/
def propagate (data : Value) (tr : Trace M C W) : Response where
  data := data.nullAll tr.nulls
  errors := tr.errors.filter (·.message != propagated)

/-- Answers a request: a failed field is null, and one that may not be null makes the nearest
position above it null that may be, or the data as a whole. -/
def execute [Backed M] (s : Schema M C W) (r : Request) (context : C) (w : W) : Answer × W :=
  match s.screen r with
  | .error refusal => (.refused refusal, w)
  | .ok admitted =>
    let (data, tr) := s.perform (some context) r admitted w
    (.answered (propagate data tr), tr.world)

/-- An admitted request is answered. -/
theorem execute_of_screen [Backed M] {s : Schema M C W} {r : Request}
    {admitted : Document × Operation × String} (h : s.screen r = .ok admitted) (context : C)
    (w : W) :
    s.execute r context w =
      (.answered (propagate (s.perform (some context) r admitted w).1
        (s.perform (some context) r admitted w).2),
        (s.perform (some context) r admitted w).2.world) := by
  simp only [execute, h]

/-- Answers a request without nulling anything: gaps stay gaps. The context may be missing. -/
def executeBare [Backed M] (s : Schema M C W) (r : Request) (context : Option C) (w : W) :
    Answer × W :=
  match s.screen r with
  | .error refusal => (.refused refusal, w)
  | .ok admitted =>
    let (data, tr) := s.perform context r admitted w
    (.answered ⟨data, tr.errors⟩, tr.world)

end Schema

end GraphSchema
