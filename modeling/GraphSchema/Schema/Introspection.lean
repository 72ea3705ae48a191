import GraphSchema.Schema.Directive

/-! The types in which a schema describes itself, with the texts that describe them. -/
namespace GraphSchema

inductive TypeKind where
  | scalar
  | object
  | interface
  | union
  | enum
  deriving DecidableEq, Repr

namespace TypeKind

def name : TypeKind → String
  | scalar => "SCALAR"
  | object => "OBJECT"
  | interface => "INTERFACE"
  | union => "UNION"
  | enum => "ENUM"

def isComposite : TypeKind → Bool
  | object | interface | union => true
  | scalar | enum => false

def isAbstract : TypeKind → Bool
  | interface | union => true
  | _ => false

end TypeKind

structure TypeInfo where
  kind : TypeKind
  name : String
  description : Option String := none
  fields : List FieldInfo := []
  interfaces : List String := []
  /-- The objects that may stand for the type. -/
  possible : List String := []
  values : EnumValues := []

namespace TypeInfo

/-- The types of its fields and their arguments, and the objects that may stand for it. -/
def leadsTo (t : TypeInfo) : List String :=
  (t.fields.flatMap fun f => f.type.core :: f.arguments.map (·.type.core)) ++ t.possible

def field? (t : TypeInfo) (name : String) : Option FieldInfo := t.fields.find? (·.name == name)

/-- Whether some object may be of both types. -/
def overlaps (a b : TypeInfo) : Bool :=
  a.name == b.name ||
    match a.kind.isAbstract, b.kind.isAbstract with
    | true, true => a.possible.any b.possible.contains
    | true, false => a.possible.contains b.name
    | false, true => b.possible.contains a.name
    | false, false => false

end TypeInfo

namespace Introspection

/-! ### Fields -/

def plain (name : String) (type : TypeRef) : FieldInfo := ⟨name, none, none, type, []⟩

def described (description : String) (f : FieldInfo) : FieldInfo :=
  { f with description := some description }

def text (name : String) : FieldInfo := plain name (.named "String")

def required (name : String) : TypeRef := .nonNull (.named name)

def list (name : String) : TypeRef := .list (required name)

/-- A field that leaves out deprecated entries unless it is told otherwise. -/
def filtered (name : String) (type : TypeRef) : FieldInfo :=
  { plain name type with
    arguments := [⟨"includeDeprecated", none, required "Boolean", some (.boolean false)⟩] }

/-! ### Types -/

def object (name description : String) (fields : List FieldInfo) : TypeInfo :=
  { kind := .object, name, description := some description, fields }

def enum (name description : String) (values : List (String × String)) : TypeInfo :=
  { kind := .enum, name, description := some description,
    values := values.map fun (v, text) => ⟨v, some text, none, ⟨name, 0⟩⟩ }

def schemaType : TypeInfo :=
  object "__Schema"
    ("A GraphQL Schema defines the capabilities of a GraphQL server. It exposes\n" ++
    "all available types and directives on the server, as well as the entry\n" ++
    "points for query, mutation, and subscription operations.") [
    described ("description of __Schema for newer graphiql introspection schema\n" ++
      "requirements")
      (plain "description" (required "String")),
    described "A list of all types supported by this server."
      (plain "types" (.nonNull (list "__Type"))),
    described "The type that query operations will be rooted at."
      (plain "queryType" (required "__Type")),
    described ("If this server supports mutation, the type that mutation operations will\n" ++
      "be rooted at.")
      (plain "mutationType" (.named "__Type")),
    described ("If this server support subscription, the type that subscription\n" ++
      "operations will be rooted at.")
      (plain "subscriptionType" (.named "__Type")),
    described "A list of all directives supported by this server."
      (plain "directives" (.nonNull (list "__Directive")))]

def typeType : TypeInfo :=
  object "__Type"
    ("The fundamental unit of any GraphQL Schema is the type. There are many kinds\n" ++
    "of types in GraphQL as represented by the `__TypeKind` enum.\n\n" ++
    "Depending on the kind of a type, certain fields describe information about\n" ++
    "that type. Scalar types provide no information beyond a name and\n" ++
    "description, while Enum types provide their values. Object and Interface\n" ++
    "types provide the fields they describe. Abstract types, Union and Interface,\n" ++
    "provide the Object types possible at runtime. List and NonNull types compose\n" ++
    "other types.") [
    plain "kind" (required "__TypeKind"),
    text "name",
    text "description",
    filtered "fields" (list "__Field"),
    plain "interfaces" (list "__Type"),
    plain "possibleTypes" (list "__Type"),
    filtered "enumValues" (list "__EnumValue"),
    filtered "inputFields" (list "__InputValue"),
    plain "ofType" (.named "__Type"),
    text "specifiedByURL",
    plain "isOneOf" (.named "Boolean")]

def fieldType : TypeInfo :=
  object "__Field"
    ("Object and Interface types are described by a list of Fields, each of which\n" ++
    "has a name, potentially a list of arguments, and a return type.") [
    plain "name" (required "String"),
    text "description",
    filtered "args" (.nonNull (list "__InputValue")),
    plain "type" (required "__Type"),
    plain "isDeprecated" (required "Boolean"),
    text "deprecationReason"]

def inputValueType : TypeInfo :=
  object "__InputValue"
    ("Arguments provided to Fields or Directives and the input fields of an\n" ++
    "InputObject are represented as Input Values which describe their type and\n" ++
    "optionally a default value.") [
    plain "name" (required "String"),
    text "description",
    plain "type" (required "__Type"),
    text "defaultValue",
    plain "isDeprecated" (required "Boolean"),
    text "deprecationReason"]

def enumValueType : TypeInfo :=
  object "__EnumValue"
    ("One possible value for a given Enum. Enum values are unique values, not a\n" ++
    "placeholder for a string or numeric value. However an Enum value is returned\n" ++
    "in a JSON response as a string.") [
    plain "name" (required "String"),
    text "description",
    plain "isDeprecated" (required "Boolean"),
    text "deprecationReason"]

def directiveType : TypeInfo :=
  object "__Directive"
    ("A Directive provides a way to describe alternate runtime execution and type\n" ++
    "validation behavior in a GraphQL document.\n\n" ++
    "In some cases, you need to provide options to alter GraphQL's execution\n" ++
    "behavior in ways field arguments will not suffice, such as conditionally\n" ++
    "including or skipping a field. Directives provide this by describing\n" ++
    "additional information to the executor.") [
    plain "name" (required "String"),
    text "description",
    plain "locations" (.nonNull (list "__DirectiveLocation")),
    filtered "args" (.nonNull (list "__InputValue")),
    plain "isRepeatable" (required "Boolean")]

def typeKindType : TypeInfo :=
  enum "__TypeKind"
    ("An enum describing what kind of type a given `__Type` is.") [
    ("SCALAR", "Indicates this type is a scalar."),
    ("OBJECT",
      "Indicates this type is an object. `fields` and `interfaces` are valid\n" ++
        "fields."),
    ("INTERFACE",
      "Indicates this type is an interface. `fields` and `possibleTypes` are\n" ++
        "valid fields."),
    ("UNION", "Indicates this type is a union. `possibleTypes` is a valid field."),
    ("ENUM", "Indicates this type is an enum. `enumValues` is a valid field."),
    ("INPUT_OBJECT", "Indicates this type is an input object. `inputFields` is a valid field."),
    ("LIST", "Indicates this type is a list. `ofType` is a valid field."),
    ("NON_NULL", "Indicates this type is a non-null. `ofType` is a valid field.")]

def directiveLocationType : TypeInfo :=
  enum "__DirectiveLocation"
    ("A Directive can be adjacent to many parts of the GraphQL language, a\n" ++
    "__DirectiveLocation describes one such possible adjacencies.") [
    ("QUERY", "Location adjacent to a query operation."),
    ("MUTATION", "Location adjacent to a mutation operation."),
    ("SUBSCRIPTION", "Location adjacent to a subscription operation."),
    ("FIELD", "Location adjacent to a field."),
    ("FRAGMENT_DEFINITION", "Location adjacent to a fragment definition."),
    ("FRAGMENT_SPREAD", "Location adjacent to a fragment spread."),
    ("INLINE_FRAGMENT", "Location adjacent to an inline fragment."),
    ("VARIABLE_DEFINITION", "Location adjacent to a variable definition."),
    ("SCHEMA", "Location adjacent to a schema definition."),
    ("SCALAR", "Location adjacent to a scalar definition."),
    ("OBJECT", "Location adjacent to an object type definition."),
    ("FIELD_DEFINITION", "Location adjacent to a field definition."),
    ("ARGUMENT_DEFINITION", "Location adjacent to an argument definition."),
    ("INTERFACE", "Location adjacent to an interface definition."),
    ("UNION", "Location adjacent to a union definition."),
    ("ENUM", "Location adjacent to an enum definition."),
    ("ENUM_VALUE", "Location adjacent to an enum value definition."),
    ("INPUT_OBJECT", "Location adjacent to an input object type definition."),
    ("INPUT_FIELD_DEFINITION", "Location adjacent to an input object field definition.")]

def types : List TypeInfo := [schemaType, typeType, fieldType, inputValueType, enumValueType,
  directiveType, typeKindType, directiveLocationType]

/-- The fields that introspection adds to the root of queries. -/
def rootFields : List FieldInfo := [
  plain "__schema" (required "__Schema"),
  { plain "__type" (.named "__Type") with
    arguments := [⟨"name", none, required "String", none⟩] }]

end Introspection

end GraphSchema
