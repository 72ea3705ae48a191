/-! Types by name, as a finished schema and the variables of a query write them. -/
namespace GraphSchema

inductive TypeRef where
  | named (name : String)
  | list (inner : TypeRef)
  | nonNull (inner : TypeRef)
  deriving DecidableEq, Repr

namespace TypeRef

def render : TypeRef → String
  | named name => name
  | list inner => "[" ++ inner.render ++ "]"
  | nonNull inner => inner.render ++ "!"

def isNonNull : TypeRef → Bool
  | nonNull _ => true
  | _ => false

/-- The name at the core. -/
def core : TypeRef → String
  | named name => name
  | list inner | nonNull inner => inner.core

/-- The type without the non-nulls around it. -/
def nullable : TypeRef → TypeRef
  | nonNull inner => inner.nullable
  | ref => ref

/-- Whether `sub` is the type itself up to non-nulls that `sub` adds. Names have to agree: an
object does not stand in for its interface. -/
def accepts : TypeRef → TypeRef → Bool
  | nonNull ref, nonNull sub => ref.accepts sub
  | ref, nonNull sub => ref.accepts sub
  | named name, named sub => name == sub
  | list ref, list sub => ref.accepts sub
  | _, _ => false

end TypeRef

end GraphSchema
