import GraphSchema.Types.Produced

/-! The concrete type of a value of an interface or union. The abstract type's own
choice comes first, if it has one and it names a type; otherwise the first
possible type whose predicate recognises the value. A type that stands alone needs
no predicate. -/
namespace GraphSchema

variable {M : Type}

/-- A possible concrete type of an abstract type. -/
structure Candidate (M : Type) where
  name : String
  isTypeOf : Option (M → Bool)

structure Dispatcher (M : Type) where
  typeName : String
  resolveType : Option (M → Option String)
  candidates : List (Candidate M)

inductive DispatchError where
  /-- The abstract type chose a name that is none of its possible types. -/
  | notPossible (name abstract : String)
  | unresolved
  deriving DecidableEq, Repr

def DispatchError.message : DispatchError → String
  | notPossible name abstract => s!"`{name}` is not a possible type for `{abstract}`"
  | unresolved => "could not resolve abstract type for value"

namespace Dispatcher

/-- The name that the abstract type itself chooses. -/
def chosen (d : Dispatcher M) (m : M) : Option String := d.resolveType.bind (· m)

/-- Whether the candidate takes the value, `sole` telling that there is no other one. -/
def recognises (sole : Bool) (m : M) (c : Candidate M) : Bool :=
  match c.isTypeOf with
  | some p => p m
  | none => sole

def byPredicate (d : Dispatcher M) (m : M) : Option String :=
  (d.candidates.find? (recognises (d.candidates.length == 1) m)).map (·.name)

def resolve (d : Dispatcher M) (m : M) : Except DispatchError String :=
  match d.chosen m with
  | some name =>
    if d.candidates.any (·.name == name) then .ok name
    else .error (.notPossible name d.typeName)
  | none =>
    match d.byPredicate m with
    | some name => .ok name
    | none => .error .unresolved

end Dispatcher

end GraphSchema
