import GraphSchema.Query.Document

/-! How far a document reaches: the nesting of its selections, the depth and the number
of its fields with all fragments in place.

A fragment may mention others, so these are found by following names, with one unit
of fuel for each level of nesting. A document that nests deeper than `maxNesting`
levels is refused before anything else is asked of it, and with it any operation
that reaches a fragment inside itself. -/
namespace GraphSchema.Query

/-- The levels of selections that an operation may have below its own. -/
def maxNesting : Nat := 32

namespace Document

/-- Whether nothing nests deeper than `levels` below the selections. -/
def fits (d : Document) : Nat → List Selection → Bool
  | 0, ss => ss.all fun
    | .field _ below => below.isEmpty
    | .inline _ _ _ => false
    | .spread name _ => (d.fragment? name).isNone
  | levels + 1, ss => ss.all fun
    | .field _ below => below.isEmpty || d.fits levels below
    | .inline _ _ below => d.fits levels below
    | .spread name _ => match d.fragment? name with
      | some f => d.fits levels f.selections
      | none => true

def fitsNesting (d : Document) : Bool :=
  d.operations.all fun op => d.fits maxNesting op.selections

/-- The number of fields, each spread counted anew. The name of an object's type is free. -/
def complexity (d : Document) : Nat → List Selection → Nat
  | 0, _ => 0
  | levels + 1, ss => (ss.map fun
    | .field head below =>
      if head.name == "__typename" then 0 else 1 + d.complexity levels below
    | .inline _ _ below => d.complexity levels below
    | .spread name _ => match d.fragment? name with
      | some f => d.complexity levels f.selections
      | none => 0).foldl (· + ·) 0

/-- The deepest nesting of fields. -/
def depth (d : Document) : Nat → List Selection → Nat
  | 0, _ => 0
  | levels + 1, ss => ((ss.map fun
    | .field head below =>
      if head.name == "__typename" then 0 else 1 + d.depth levels below
    | .inline _ _ below => d.depth levels below
    | .spread name _ => match d.fragment? name with
      | some f => d.depth levels f.selections
      | none => 0).max?).getD 0

/-- Of the operations together that `counts` picks. -/
def totalComplexity (d : Document) (counts : Operation → Bool) : Nat :=
  (d.operations.filter counts).foldl
    (fun n op => n + d.complexity (maxNesting + 1) op.selections) 0

def greatestDepth (d : Document) (counts : Operation → Bool) : Nat :=
  (((d.operations.filter counts).map fun op => d.depth (maxNesting + 1) op.selections).max?).getD 0

end Document

end GraphSchema.Query
