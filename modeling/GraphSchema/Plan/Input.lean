import GraphSchema.Types.EnumValues
import GraphSchema.Types.Supplied

/-! Decoding of arguments: enum names become internal values, a single value becomes
a list where a list is expected. That a value fits its type has been checked
before, so non-nulls play no part here. -/
namespace GraphSchema

inductive InputPlan where
  | scalar
  | enum (values : EnumValues)
  | list (inner : InputPlan)
  deriving Repr

structure ArgumentPlan where
  name : String
  input : InputPlan
  default : Option Value

inductive DecodeError where
  | notAnEnumValue (v : Value)
  | unknownEnumValue (name : String)

def DecodeError.message : DecodeError → String
  | notAnEnumValue v => v.literal ++ " is not an enum value"
  | unknownEnumValue name => s!"unknown enum value `{name}`"

namespace InputPlan

/-- A name, bare or as a string, that the enum has. -/
def decodeEnum (values : EnumValues) (v : Value) : Except DecodeError Supplied :=
  match v with
  | .enum name | .string name =>
    match values.parse name with
    | some leaf => .ok (.leaf leaf)
    | none => .error (.unknownEnumValue name)
  | other => .error (.notAnEnumValue other)

def decode : InputPlan → Value → Except DecodeError Supplied
  | scalar, v => if v.isNull then .ok .null else .ok (.value v)
  | enum values, v => if v.isNull then .ok .null else decodeEnum values v
  | list inner, v =>
    match v with
    | .null => .ok .null
    | .list items => (items.mapM inner.decode).map .list
    | single => (inner.decode single).map fun s => .list [s]

end InputPlan

namespace ArgumentPlan

/-- What the resolver sees: the value that was sent, else the default, else null. -/
def decode (plan : ArgumentPlan) (sent : List (String × Value)) : Except DecodeError Supplied :=
  match (Value.member? plan.name sent).or plan.default with
  | some v => plan.input.decode v
  | none => .ok .null

/-- The decoded arguments, one for each that is declared, in that order. -/
def decodeAll (plans : List ArgumentPlan) (sent : List (String × Value)) :
    Except DecodeError Arguments :=
  plans.mapM fun plan => (plan.decode sent).map fun s => (plan.name, s)

end ArgumentPlan

end GraphSchema
