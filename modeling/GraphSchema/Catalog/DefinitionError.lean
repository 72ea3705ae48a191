/-! What can be wrong with the definitions of a catalog. All of it shows when a schema
is compiled, never when a query runs. -/
namespace GraphSchema

inductive DefinitionError where
  | invalidConfig (reason : String)
  | invalidTypeName (name : String)
  /-- The name of a field, an argument or an enum value. -/
  | invalidName (owner name : String)
  | duplicateTypeName (name : String)
  /-- A type without fields, values or members. -/
  | emptyType (type what : String)
  | duplicateField (type field : String)
  | duplicateArgument (type field argument : String)
  | duplicateEnumValue (type value : String)
  | nestedNonNull (site : String)
  /-- An argument of an output type. -/
  | invalidArgumentType (type field argument found : String)
  | shapeMismatch (type field declared produced : String)
  | unknownProperty (type field : String)
  | missingInterfaceField (object interface field : String)
  | incompatibleInterfaceField (object interface field expected found : String)
  | missingInterfaceArgument (object interface field argument : String)
  | incompatibleInterfaceArgument (object interface field argument expected found : String)
  | missingIsTypeOf (object abstract : String)
  | undefinedType (name : String)
  | foreignHandle (site : String)
  | invalidDefault (type field argument reason : String)
  /-- Fields asked for by the thunk that is producing them. -/
  | reentrantFields (type : String)
  | poisonedFields (type : String)
  /-- The finished schema does not conform to the rules of the language. -/
  | nonconforming (reason : String)
  deriving DecidableEq, Repr

namespace DefinitionError

def message : DefinitionError → String
  | invalidConfig reason => s!"invalid schema configuration: {reason}"
  | invalidTypeName name => s!"`{name}` is not a valid GraphQL type name"
  | invalidName owner name => s!"`{name}` in `{owner}` is not a valid GraphQL name"
  | duplicateTypeName name => s!"type `{name}` is defined more than once"
  | emptyType type what => s!"type `{type}` declares no {what}"
  | duplicateField type field => s!"field `{type}.{field}` is declared more than once"
  | duplicateArgument type field argument =>
    s!"argument `{argument}` of `{type}.{field}` is declared more than once"
  | duplicateEnumValue type value => s!"enum value `{value}` of `{type}` is declared more than once"
  | nestedNonNull site => s!"`{site}` wraps a non-null type in another non-null"
  | invalidArgumentType type field argument found =>
    s!"argument `{argument}` of `{type}.{field}` has output-only type `{found}`"
  | shapeMismatch type field declared produced =>
    s!"field `{type}.{field}` is declared as `{declared}` but produces `{produced}`"
  | unknownProperty type field => s!"`{type}` has no property `{field}` for its default field"
  | missingInterfaceField object interface field =>
    s!"`{object}` does not implement field `{interface}.{field}`"
  | incompatibleInterfaceField object interface field expected found =>
    s!"`{object}.{field}` has type `{found}`, which does not satisfy `{interface}.{field}` " ++
      s!"of type `{expected}`"
  | missingInterfaceArgument object interface field argument =>
    s!"`{object}.{field}` is missing argument `{argument}` declared by `{interface}`"
  | incompatibleInterfaceArgument object interface field argument expected found =>
    s!"argument `{argument}` of `{object}.{field}` has type `{found}`, " ++
      s!"but `{interface}` declares `{expected}`"
  | missingIsTypeOf object abstract =>
    s!"`{object}` needs an isTypeOf predicate to be told apart among the possible types of " ++
      s!"`{abstract}`"
  | undefinedType name => s!"type `{name}` was declared but never defined"
  | foreignHandle site => s!"`{site}` references a type from another factory"
  | invalidDefault type field argument reason =>
    s!"default value of argument `{argument}` of `{type}.{field}` is invalid: {reason}"
  | reentrantFields type => s!"fields of `{type}` were requested while they were being resolved"
  | poisonedFields type => s!"field thunk of `{type}` panicked"
  | nonconforming reason => s!"schema engine rejected the schema: {reason}"

end DefinitionError

end GraphSchema
