import GraphSchema.Query.Occurrence

/-! Rules about fragments: they are on types that have fields, they are defined, used,
free of cycles, and stand only where some object can be of both types. -/
namespace GraphSchema.Query

/-- A condition names a type that has fields. -/
def conditionIsValid (types : Types) (condition : String) : Bool :=
  match types condition with
  | some t => t.kind.isComposite
  | none => false

/-- Some object can be of the parent's type and meet the condition. -/
def conditionIsPossible (types : Types) (parent : Option TypeInfo) (condition : String) : Bool :=
  match parent, types condition with
  | some p, some t => p.overlaps t
  | _, _ => true

def Occurrence.fragmentIsValid (types : Types) (d : Document) : Occurrence → Bool
  | .spread parent name =>
    match d.fragment? name with
    | some f => conditionIsPossible types parent f.condition
    | none => false
  | .inline parent (some condition) =>
    conditionIsValid types condition && conditionIsPossible types parent condition
  | _ => true

mutual

/-- The fragments that selections mention themselves. What is selected of the name of an object's
type does not count. -/
def mentioned : List Selection → List String
  | [] => []
  | s :: ss => mentionedBy s ++ mentioned ss

def mentionedBy : Selection → List String
  | .field head below => if head.name == "__typename" then [] else mentioned below
  | .spread name _ => [name]
  | .inline _ _ below => mentioned below

end

namespace Document

/-- The fragments within reach of those named, found in rounds; there are no more rounds than
fragments. -/
def reach (d : Document) : Nat → List String → List String
  | 0, names => names
  | rounds + 1, names =>
    let next := names.flatMap fun name =>
      match d.fragment? name with
      | some f => mentioned f.selections
      | none => []
    d.reach rounds (names ++ next).eraseDups

/-- The names of all fragments that the selections reach. -/
def reached (d : Document) (ss : List Selection) : List String :=
  d.reach d.fragments.length (mentioned ss).eraseDups

/-- No fragment reaches itself. -/
def isAcyclic (d : Document) : Bool :=
  d.fragments.all fun f => !(d.reached f.selections).contains f.name

/-- Every fragment is reached by an operation. -/
def usesAll (d : Document) : Bool :=
  let used := d.operations.flatMap fun op => d.reached op.selections
  d.fragments.all fun f => used.contains f.name

def fragmentsAreValid (types : Types) (d : Document) : Bool :=
  (d.fragments.all fun f => conditionIsValid types f.condition) && d.isAcyclic && d.usesAll

end Document

end GraphSchema.Query
