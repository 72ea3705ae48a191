import GraphSchema.Schema.Basic

/-! The directives that every schema knows, with the places where they may stand. -/
namespace GraphSchema

inductive DirectiveLocation where
  | query
  | mutation
  | subscription
  | field
  | fragmentDefinition
  | fragmentSpread
  | inlineFragment
  | scalar
  | fieldDefinition
  | argumentDefinition
  | enumValue
  | inputObject
  | inputFieldDefinition
  deriving DecidableEq, Repr

def DirectiveLocation.name : DirectiveLocation → String
  | query => "QUERY"
  | mutation => "MUTATION"
  | subscription => "SUBSCRIPTION"
  | field => "FIELD"
  | fragmentDefinition => "FRAGMENT_DEFINITION"
  | fragmentSpread => "FRAGMENT_SPREAD"
  | inlineFragment => "INLINE_FRAGMENT"
  | scalar => "SCALAR"
  | fieldDefinition => "FIELD_DEFINITION"
  | argumentDefinition => "ARGUMENT_DEFINITION"
  | enumValue => "ENUM_VALUE"
  | inputObject => "INPUT_OBJECT"
  | inputFieldDefinition => "INPUT_FIELD_DEFINITION"

structure DirectiveInfo where
  name : String
  description : String
  locations : List DirectiveLocation
  arguments : List ArgumentInfo

namespace DirectiveInfo

def condition (description : String) : ArgumentInfo :=
  ⟨"if", some description, .nonNull (.named "Boolean"), none⟩

def deprecated : DirectiveInfo where
  name := "deprecated"
  description := "Marks an element of a GraphQL schema as no longer supported."
  locations := [.fieldDefinition, .argumentDefinition, .inputFieldDefinition, .enumValue]
  arguments := [⟨"reason",
    some "A reason for why it is deprecated, formatted using Markdown syntax",
    .named "String", some (.string "No longer supported")⟩]

def includeIf : DirectiveInfo where
  name := "include"
  description :=
    "Directs the executor to include this field or fragment only when the `if` argument is true."
  locations := [.field, .fragmentSpread, .inlineFragment]
  arguments := [condition "Included when true."]

def oneOf : DirectiveInfo where
  name := "oneOf"
  description := "Indicates that an Input Object is a OneOf Input Object (and thus requires " ++
    "exactly one of its field be provided)"
  locations := [.inputObject]
  arguments := []

def skipIf : DirectiveInfo where
  name := "skip"
  description :=
    "Directs the executor to skip this field or fragment when the `if` argument is true."
  locations := [.field, .fragmentSpread, .inlineFragment]
  arguments := [condition "Skipped when true."]

def specifiedBy : DirectiveInfo where
  name := "specifiedBy"
  description :=
    "Provides a scalar specification URL for specifying the behavior of custom scalar types."
  locations := [.scalar]
  arguments := [⟨"url", some "URL that specifies the behavior of this scalar.",
    .nonNull (.named "String"), none⟩]

def all : List DirectiveInfo := [deprecated, includeIf, oneOf, skipIf, specifiedBy]

def find? (name : String) : Option DirectiveInfo := all.find? (·.name == name)

end DirectiveInfo

end GraphSchema
