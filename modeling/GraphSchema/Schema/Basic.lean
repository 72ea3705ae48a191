import GraphSchema.Plan.Field
import GraphSchema.Schema.Limits
import GraphSchema.Schema.TypeRef

/-! A finished schema: the types reachable from its roots, in the order they were
reached, with a plan for every field of an object. -/
namespace GraphSchema

structure ArgumentInfo where
  name : String
  description : Option String
  type : TypeRef
  default : Option Value

/-- All about a field that a caller can see. -/
structure FieldInfo where
  name : String
  description : Option String
  deprecation : Option String
  type : TypeRef
  arguments : List ArgumentInfo

namespace FieldInfo

def argument? (f : FieldInfo) (name : String) : Option ArgumentInfo :=
  f.arguments.find? (·.name == name)

end FieldInfo

/-- A field of an object, with the plan that runs it. -/
structure PlannedField (M C W : Type) where
  info : FieldInfo
  plan : FieldPlan M C W

structure ObjectType (M C W : Type) where
  name : String
  description : Option String
  interfaces : List String
  fields : List (PlannedField M C W)

structure InterfaceType where
  name : String
  description : Option String
  fields : List FieldInfo

structure UnionType where
  name : String
  description : Option String
  members : List String

structure EnumType where
  name : String
  description : Option String
  values : EnumValues

inductive SchemaType (M C W : Type) where
  | object (t : ObjectType M C W)
  | interface (t : InterfaceType)
  | union (t : UnionType)
  | enum (t : EnumType)

variable {M C W : Type}

def ObjectType.field? (t : ObjectType M C W) (name : String) : Option (PlannedField M C W) :=
  t.fields.find? (·.info.name == name)

namespace SchemaType

def name : SchemaType M C W → String
  | object t => t.name
  | interface t => t.name
  | union t => t.name
  | enum t => t.name

def description : SchemaType M C W → Option String
  | object t => t.description
  | interface t => t.description
  | union t => t.description
  | enum t => t.description

/-- The fields of an object or interface; other types have none. -/
def fields : SchemaType M C W → List FieldInfo
  | object t => t.fields.map (·.info)
  | interface t => t.fields
  | union _ | enum _ => []

end SchemaType

structure Schema (M C W : Type) where
  types : List (SchemaType M C W)
  query : String
  mutation : Option String
  limits : Limits

namespace Schema

def typeNames (s : Schema M C W) : List String := s.types.map (·.name)

def type? (s : Schema M C W) (name : String) : Option (SchemaType M C W) :=
  s.types.find? (·.name == name)

def object? (s : Schema M C W) (name : String) : Option (ObjectType M C W) :=
  match s.type? name with
  | some (.object t) => some t
  | _ => none

/-- The objects that may stand for the type: itself, the implementers of an interface in the
order they were reached, the members of a union. -/
def possibleTypes (s : Schema M C W) : SchemaType M C W → List String
  | .object t => [t.name]
  | .interface t => s.types.filterMap fun
    | .object o => if o.interfaces.contains t.name then some o.name else none
    | _ => none
  | .union t => t.members
  | .enum _ => []

/-- The names of the types, as a quick look at the schema shows them. -/
def inspect (s : Schema M C W) : String :=
  let names := s.typeNames.map fun name => "\"" ++ name ++ "\""
  "CompiledSchema \x7b type_names: [" ++ ", ".intercalate names ++ "], .. \x7d"

end Schema

end GraphSchema
