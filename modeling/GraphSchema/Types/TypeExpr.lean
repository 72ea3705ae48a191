import GraphSchema.Types.Scalar

/-! The type of a field or an argument, as it is declared: a scalar, or a handle to
a named type together with the kind the declaration takes it for, wrapped in any
number of lists and non-nulls. A handle is a place in a catalog, so a type may be
mentioned before it is defined. -/
namespace GraphSchema

/-- A place in the catalog with that number. -/
structure Handle where
  catalog : Nat
  index : Nat
  deriving DecidableEq, Repr

inductive TypeExpr where
  | scalar (s : Scalar)
  | enum (h : Handle)
  | object (h : Handle)
  | interface (h : Handle)
  | union (h : Handle)
  | list (inner : TypeExpr)
  | nonNull (inner : TypeExpr)
  deriving DecidableEq, Repr

namespace TypeExpr

/-- The named type at the core; a scalar has none. -/
def named : TypeExpr → Option Handle
  | scalar _ => none
  | enum h | object h | interface h | union h => some h
  | list inner | nonNull inner => inner.named

/-- Whether an argument may have the type. -/
def isInput : TypeExpr → Bool
  | scalar _ | enum _ => true
  | object _ | interface _ | union _ => false
  | list inner | nonNull inner => inner.isInput

def isNonNull : TypeExpr → Bool
  | nonNull _ => true
  | _ => false

/-- Whether a non-null stands directly around another one, at any depth. -/
def hasNestedNonNull : TypeExpr → Bool
  | nonNull inner => inner.isNonNull || inner.hasNestedNonNull
  | list inner => inner.hasNestedNonNull
  | _ => false

/-- The type as it is written in a schema, named types by `nameOf`. -/
def render (nameOf : Handle → String) : TypeExpr → String
  | scalar s => s.name
  | enum h | object h | interface h | union h => nameOf h
  | list inner => "[" ++ inner.render nameOf ++ "]"
  | nonNull inner => inner.render nameOf ++ "!"

/-- The type with its kinds, handles and wrappers spelled out. -/
def inspect : TypeExpr → String
  | scalar .string => "Scalar(String)"
  | scalar .int => "Scalar(Int)"
  | scalar .float => "Scalar(Float)"
  | scalar .boolean => "Scalar(Boolean)"
  | scalar .id => "Scalar(Id)"
  | enum h => "Enum(" ++ handle h ++ ")"
  | object h => "Object(" ++ handle h ++ ")"
  | interface h => "Interface(" ++ handle h ++ ")"
  | union h => "Union(" ++ handle h ++ ")"
  | list inner => "List(" ++ inner.inspect ++ ")"
  | nonNull inner => "NonNull(" ++ inner.inspect ++ ")"
where
  handle (h : Handle) : String :=
    "TypeHandle \x7b factory: " ++ toString h.catalog ++ ", index: " ++ toString h.index ++ " \x7d"

end TypeExpr

end GraphSchema
