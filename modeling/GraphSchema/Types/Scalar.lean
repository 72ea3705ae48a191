import GraphSchema.Value.Basic

/-! The five scalars that every schema has, and which values each takes. A result
may be an integer beyond 32 bits only where an ID is expected; a caller may send
any integer of 64 bits with sign. -/
namespace GraphSchema

inductive Scalar where
  | string
  | int
  | float
  | boolean
  | id
  deriving DecidableEq, Repr

namespace Scalar

def all : List Scalar := [string, int, float, boolean, id]

def name : Scalar → String
  | string => "String"
  | int => "Int"
  | float => "Float"
  | boolean => "Boolean"
  | id => "ID"

/-- The page about the format of doubles. -/
def doublesPage : String := "https" ++ "://en.wikipedia.org/wiki/IEEE_floating_point"

def description : Scalar → Option String
  | string => some ("The `String` scalar type represents textual data, represented as UTF-8\n" ++
    "character sequences. The String type is most often used by GraphQL to\n" ++
    "represent free-form human-readable text.")
  | int => some "The `Int` scalar type represents non-fractional whole numeric values."
  | float => some ("The `Float` scalar type represents signed double-precision fractional " ++
    "values as specified by [IEEE 754](" ++ doublesPage ++ ").")
  | boolean => some "The `Boolean` scalar type represents `true` or `false`."
  | id => none

theorem mem_all (s : Scalar) : s ∈ all := by cases s <;> decide

/-- A name that no declared type may take. -/
def isBuiltin (name : String) : Bool := all.any (·.name == name)

/-- Whether a default of an argument, or a finished result, is a value of the scalar. -/
def holds : Scalar → Value → Bool
  | string, .string _ => true
  | boolean, .boolean _ => true
  | float, .number _ => true
  | int, .number n => n.int32?.isSome
  | id, .string _ => true
  | id, .number n => n.isWord
  | _, _ => false

/-- Whether a caller may send the value for the scalar. -/
def admits : Scalar → Value → Bool
  | string, .string _ => true
  | boolean, .boolean _ => true
  | float, .number _ => true
  | int, .number n => n.fitsInt64
  | id, .string _ => true
  | id, .number n => n.fitsInt64
  | _, _ => false

end Scalar

end GraphSchema
