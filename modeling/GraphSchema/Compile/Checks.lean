import GraphSchema.Compile.Walk

/-! What has to hold of definitions before they become a schema: names, wrappers and
types of arguments, values of enums, and that an object keeps the promises of the
interfaces it implements. Of several faults the first in reading order is
reported. -/
namespace GraphSchema

variable {M C W : Type}

namespace Catalog

/-- Whether a field of type `sub` may stand in for one of type `sup`: non-nulls may be added, and
an object stands in for its interfaces and unions. -/
def isSubtype (c : Catalog M C W) : TypeExpr → TypeExpr → Bool
  | .nonNull a, .nonNull b => c.isSubtype a b
  | .list a, .list b => c.isSubtype a b
  | .nonNull a, b => c.isSubtype a b
  | .object o, .interface i => c.implements o i
  | .object o, .union u => match c.union? u with
    | some u => u.members.contains o
    | none => false
  | a, b => a == b

end Catalog

namespace Check

/-- The checks of one argument; `seen` are the names of those before it. -/
def argument (c : Catalog M C W) (typeName field : String) (seen : List String) (a : Argument) :
    Except DefinitionError Unit :=
  let site := typeName ++ "." ++ field
  if !Text.isDeclarable a.name then .error (.invalidName site a.name)
  else if seen.contains a.name then .error (.duplicateArgument typeName field a.name)
  else if a.type.hasNestedNonNull then .error (.nestedNonNull (site ++ "(" ++ a.name ++ ":)"))
  else if !a.type.isInput then
    .error (.invalidArgumentType typeName field a.name (c.render a.type))
  else .ok ()

def arguments (c : Catalog M C W) (typeName field : String) : List String → List Argument →
    Except DefinitionError Unit
  | _, [] => .ok ()
  | seen, a :: as =>
    match argument c typeName field seen a with
    | .ok () => arguments c typeName field (a.name :: seen) as
    | .error e => .error e

/-- The checks of one field and its arguments; `seen` are the names of the fields before it. -/
def field (c : Catalog M C W) (typeName : String) (seen : List String) (f : Field M C W) :
    Except DefinitionError Unit :=
  if !Text.isDeclarable f.name then .error (.invalidName typeName f.name)
  else if seen.contains f.name then .error (.duplicateField typeName f.name)
  else if f.type.hasNestedNonNull then .error (.nestedNonNull (typeName ++ "." ++ f.name))
  else arguments c typeName f.name [] f.arguments

def fieldsFrom (c : Catalog M C W) (typeName : String) : List String → List (Field M C W) →
    Except DefinitionError Unit
  | _, [] => .ok ()
  | seen, f :: fs =>
    match field c typeName seen f with
    | .ok () => fieldsFrom c typeName (f.name :: seen) fs
    | .error e => .error e

/-- The checks of the field list of an object or interface. -/
def fields (c : Catalog M C W) (typeName : String) (fs : List (Field M C W)) :
    Except DefinitionError Unit :=
  if fs.isEmpty then .error (.emptyType typeName "fields") else fieldsFrom c typeName [] fs

/-- Names that would read as another kind of value. -/
def isValueWord (name : String) : Bool := name == "true" || name == "false" || name == "null"

def enumValuesFrom (typeName : String) : List String → EnumValues → Except DefinitionError Unit
  | _, [] => .ok ()
  | seen, v :: vs =>
    if !Text.isDeclarable v.name || isValueWord v.name then .error (.invalidName typeName v.name)
    else if seen.contains v.name then .error (.duplicateEnumValue typeName v.name)
    else enumValuesFrom typeName (v.name :: seen) vs

def enumValues (typeName : String) (vs : EnumValues) : Except DefinitionError Unit :=
  if vs.isEmpty then .error (.emptyType typeName "values") else enumValuesFrom typeName [] vs

/-- The object's field has each argument of the interface's field, of the same type. -/
def promisedArguments (c : Catalog M C W) (interface object field : String)
    (found : List Argument) : List Argument → Except DefinitionError Unit
  | [] => .ok ()
  | expected :: rest =>
    match found.find? (·.name == expected.name) with
    | none => .error (.missingInterfaceArgument object interface field expected.name)
    | some a =>
      if a.type ≠ expected.type then
        .error (.incompatibleInterfaceArgument object interface field expected.name
          (c.render expected.type) (c.render a.type))
      else promisedArguments c interface object field found rest

/-- The object has each field of the interface, of a subtype and with its arguments. -/
def implementation (c : Catalog M C W) (interface object : String)
    (found : List (Field M C W)) : List (Field M C W) → Except DefinitionError Unit
  | [] => .ok ()
  | expected :: rest =>
    match found.find? (·.name == expected.name) with
    | none => .error (.missingInterfaceField object interface expected.name)
    | some f =>
      if !c.isSubtype f.type expected.type then
        .error (.incompatibleInterfaceField object interface expected.name
          (c.render expected.type) (c.render f.type))
      else
        match promisedArguments c interface object expected.name f.arguments
            expected.arguments with
        | .ok () => implementation c interface object found rest
        | .error e => .error e

end Check

end GraphSchema
