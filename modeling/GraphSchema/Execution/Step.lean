import GraphSchema.Query.Extent

/-! What a request comes to once its variables are known: fragments stand in their
places, selections that are skipped are gone, and each field has the values of its
arguments or the variable that keeps it from having them. -/
namespace GraphSchema.Query

/-- The variables of a request: the values that came with it, and what the operation declares. -/
structure Bindings where
  sent : List (String × Value)
  declared : List VariableDefinition

/-- An argument with its value, and where that was written. -/
structure BoundArgument where
  name : String
  value : Value
  position : Position

/-- A variable without a value, and where it was needed. -/
structure Unbound where
  name : String
  position : Position
  deriving DecidableEq, Repr

def Unbound.message (u : Unbound) : String := s!"Variable {u.name} is not defined."

inductive Step where
  /-- The name of the object's type. -/
  | typename (key : String)
  | field (key name : String) (position : Position)
      (arguments : Except Unbound (List BoundArgument)) (below : List Step)
  /-- Steps for objects of one type or of one interface. -/
  | narrow (condition : String) (below : List Step)

namespace Bindings

/-- A declared variable has the value that was sent, else its default, else null if it may be
null. -/
def value? (b : Bindings) (name : String) : Option Value :=
  match b.declared.find? (·.name == name) with
  | none => none
  | some d =>
    ((Value.member? name b.sent).or d.default).or (if d.type.isNonNull then none else some .null)

/-- A condition of a directive. Only the values that were sent count, and whatever is not a
boolean is false. -/
def condition (b : Bindings) (v : InputValue) : Bool :=
  match v.replace (Value.member? · b.sent) with
  | .ok (.boolean c) => c
  | _ => false

def excludesBy (b : Bindings) (d : Directive) : Bool :=
  match d.arguments.find? (·.name == "if") with
  | none => false
  | some a =>
    match d.name with
    | "skip" => b.condition a.value
    | "include" => !b.condition a.value
    | _ => false

/-- Whether the directives take the selection out of the request. -/
def excludes (b : Bindings) (ds : List Directive) : Bool := ds.any b.excludesBy

def arguments (b : Bindings) : List Argument → Except Unbound (List BoundArgument)
  | [] => .ok []
  | a :: as =>
    match a.value.replace b.value? with
    | .error name => .error ⟨name, a.position⟩
    | .ok v => (arguments b as).map (⟨a.name, v, a.position⟩ :: ·)

end Bindings

namespace Document

/-- The steps of selections that nest within the levels. -/
def steps (d : Document) (b : Bindings) : Nat → List Selection → List Step
  | 0, _ => []
  | levels + 1, ss => ss.flatMap fun
    | .field head below =>
      if b.excludes head.directives then []
      else if head.name == "__typename" then [.typename head.key]
      else [.field head.key head.name head.position (b.arguments head.arguments)
        (d.steps b levels below)]
    | .inline condition ds below =>
      if b.excludes ds then [] else
        match condition with
        | some name => [.narrow name (d.steps b levels below)]
        | none => d.steps b levels below
    | .spread name ds =>
      if b.excludes ds then [] else
        match d.fragment? name with
        | some f => [.narrow f.condition (d.steps b levels f.selections)]
        | none => []

/-- The steps of an operation. -/
def plan (d : Document) (op : Operation) (sent : List (String × Value)) : List Step :=
  d.steps ⟨sent, op.variableDefinitions⟩ (maxNesting + 1) op.selections

end Document

end GraphSchema.Query
