import GraphSchema.Query.Validation.Overlap
import GraphSchema.Query.Validation.Variables

/-! Whether a document is valid for a schema, with the values that its variables have. -/
namespace GraphSchema.Query

namespace Operation

/-- The type that an operation selects on; not every schema has one of each kind. -/
def root? {M C W : Type} (s : Schema M C W) (op : Operation) : Option String :=
  match op.kind with
  | .query => some s.query
  | .mutation => s.mutation
  | .subscription => none

def location (op : Operation) : DirectiveLocation :=
  match op.kind with
  | .query => .query
  | .mutation => .mutation
  | .subscription => .subscription

def occurrences (types : Types) (root : Option TypeInfo) (op : Operation) : List Occurrence :=
  .directives op.location op.directives :: selectionOccurrences types root op.selections

end Operation

namespace Document

variable {M C W : Type}

/-- The occurrences of an operation and of the fragments in its reach. -/
def inReach (types : Types) (d : Document) (root : Option TypeInfo) (op : Operation) :
    List Occurrence :=
  op.occurrences types root ++
    ((d.reached op.selections).filterMap d.fragment?).flatMap (·.occurrences types)

/-- Whether the document is valid. The values of the variables count in fragments and in the
operation that is asked for; in the others nothing is said of a variable's value. -/
def isValid (s : Schema M C W) (sent : List (String × Value)) (asked : Option String)
    (d : Document) : Bool :=
  let surface := s.surface
  let types : Types := fun name => surface.find? (·.name == name)
  let root (op : Operation) : Option TypeInfo := (op.root? s).bind types
  let isValidIn (sent : List (String × Value)) (o : Occurrence) : Bool :=
    o.isValid types sent && o.fragmentIsValid types d && o.keysAgree d
  (d.operations.all fun op => (op.root? s).isSome) &&
    d.fragmentsAreValid types &&
    (d.fragments.all fun f => (f.occurrences types).all (isValidIn sent)) &&
    (d.operations.all fun op => (op.occurrences types (root op)).all
      (isValidIn (if asksFor asked op then sent else []))) &&
    d.operations.all fun op =>
      op.variablesAreValid types ((d.inReach types (root op) op).flatMap (·.uses))

end Document

end GraphSchema.Query
