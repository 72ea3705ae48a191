import GraphSchema.Compile.Checks
import GraphSchema.Schema.Conformance

/-! From the visited types to a schema. Abstract types and enums are checked first, in
the order of the visits, then each type is finished in that order: every field of
an object gets the plan that runs it. -/
namespace GraphSchema

variable {M C W : Type}

namespace Link

/-- The type as the schema writes it. -/
def typeRef (c : Catalog M C W) : TypeExpr → TypeRef
  | .scalar s => .named s.name
  | .enum h | .object h | .interface h | .union h => .named (c.nameOf h)
  | .list inner => .list (typeRef c inner)
  | .nonNull inner => .nonNull (typeRef c inner)

/-! ### Defaults -/

/-- The value that a default stands for, or why it does not fit the type. Internal values of an
enum become names, and a single value becomes a list where a list is expected. -/
def defaultValue (c : Catalog M C W) : TypeExpr → Default → Except String Value
  | .nonNull inner, d =>
    match d with
    | .null => .error "null is not allowed for a non-null argument"
    | d => defaultValue c inner d
  | .list inner, d =>
    match d with
    | .null => .ok .null
    | .list items => (items.mapM (defaultValue c inner)).map .list
    | single => (defaultValue c inner single).map fun v => .list [v]
  | .scalar s, d =>
    match d with
    | .null => .ok .null
    | .value v => if s.holds v then .ok v else unfit (.scalar s) d
    | d => unfit (.scalar s) d
  | .enum h, d =>
    match d with
    | .null => .ok .null
    | .leaf l =>
      match (c.enum? h).bind (·.nameOf l) with
      | some name => .ok (.enum name)
      | none => .error s!"not a value of enum `{c.nameOf h}`"
    | .value (.enum name) =>
      if ((c.enum? h).bind (·.values.parse name)).isSome then .ok (.enum name)
      else unfit (.enum h) d
    | d => unfit (.enum h) d
  | .object h, d => if isNull d then .ok .null else unfit (.object h) d
  | .interface h, d => if isNull d then .ok .null else unfit (.interface h) d
  | .union h, d => if isNull d then .ok .null else unfit (.union h) d
where
  unfit (ty : TypeExpr) (d : Default) : Except String Value :=
    .error (d.inspect ++ " does not fit `" ++ c.render ty ++ "`")
  isNull : Default → Bool
    | .null => true
    | _ => false

def defaultOf (c : Catalog M C W) (typeName field : String) (a : Argument) :
    Except DefinitionError (Option Value) :=
  match a.default with
  | none => .ok none
  | some d =>
    match defaultValue c a.type d with
    | .ok v => .ok (some v)
    | .error reason => .error (.invalidDefault typeName field a.name reason)

/-! ### Plans -/

def enumOf (c : Catalog M C W) (h : Handle) : Except DefinitionError EnumDef :=
  match c.enum? h with
  | some e => .ok e
  | none => .error (.undefinedType (c.nameOf h))

/-- Non-nulls are checked before a field runs, so its plan need not know of them. -/
def inputPlan (c : Catalog M C W) : TypeExpr → Except DefinitionError InputPlan
  | .nonNull inner => inputPlan c inner
  | .list inner => (inputPlan c inner).map .list
  | .enum h => (enumOf c h).map fun e => .enum e.values
  | .scalar _ | .object _ | .interface _ | .union _ => .ok .scalar

def argumentPlan (c : Catalog M C W) (typeName field : String) (a : Argument) :
    Except DefinitionError ArgumentPlan := do
  let input ← inputPlan c a.type
  let default ← defaultOf c typeName field a
  return ⟨a.name, input, default⟩

def argumentInfo (c : Catalog M C W) (typeName field : String) (a : Argument) :
    Except DefinitionError ArgumentInfo := do
  let default ← defaultOf c typeName field a
  return ⟨a.name, a.description, typeRef c a.type, default⟩

/-- The predicate of an object, if the handle is one and has it. -/
def predicate (c : Catalog M C W) (h : Handle) : Option (M → Bool) :=
  (c.object? h).bind (·.isTypeOf)

/-- The dispatcher over the possible types. If there are several and the abstract type does not
choose among them, each needs a predicate. -/
def dispatcher (c : Catalog M C W) (name : String) (resolveType : Option (M → Option String))
    (possible : List Handle) : Except DefinitionError (Dispatcher M) :=
  let ambiguous := possible.length > 1 && resolveType.isNone
  match possible.find? fun h => (c.get? h).isNone || (ambiguous && (predicate c h).isNone) with
  | some h =>
    if (c.get? h).isNone then .error (.foreignHandle name)
    else .error (.missingIsTypeOf (c.nameOf h) name)
  | none => .ok ⟨name, resolveType, possible.map fun h => ⟨c.nameOf h, predicate c h⟩⟩

/-- The possible types of an interface or union and its own choice among them. -/
def possibleTypes (c : Catalog M C W) (h : Handle) (t : TypeDef M C W) :
    Option (Option (M → Option String) × List Handle) :=
  match t.kind with
  | .interface i => some (i.resolveType, c.implementers h)
  | .union u => some (u.resolveType, u.members)
  | .object _ | .enum _ => none

/-- The dispatcher of a visited interface or union. -/
def dispatcherOf (c : Catalog M C W) (w : Walk M C W) (h : Handle) :
    Except DefinitionError (Dispatcher M) :=
  match c.get? h with
  | none => .error (.undefinedType (c.nameOf h))
  | some t =>
    match possibleTypes c h t with
    | some (resolveType, possible) =>
      if w.visited.contains h then dispatcher c t.name resolveType possible
      else .error (.undefinedType t.name)
    | none => .error (.undefinedType t.name)

def outputPlan (c : Catalog M C W) (w : Walk M C W) :
    TypeExpr → Except DefinitionError (OutputPlan M)
  | .nonNull inner => (outputPlan c w inner).map .nonNull
  | .list inner => (outputPlan c w inner).map .list
  | .scalar s => .ok (.scalar s)
  | .enum h => (enumOf c h).map .enum
  | .object h =>
    match c.get? h with
    | some t => .ok (.object t.name (predicate c h))
    | none => .error (.foreignHandle "output type")
  | .interface h | .union h => (dispatcherOf c w h).map .abstract

/-! ### Checks of abstract types and enums -/

def fieldsOf (c : Catalog M C W) (w : Walk M C W) (h : Handle) :
    Except DefinitionError (List (Field M C W)) :=
  match w.fields? h with
  | some fields => .ok fields
  | none => .error (.undefinedType (c.nameOf h))

def implementations (c : Catalog M C W) (w : Walk M C W) (interface : String)
    (expected : List (Field M C W)) : List Handle → Except DefinitionError Unit
  | [] => .ok ()
  | h :: hs => do
    let found ← fieldsOf c w h
    Check.implementation c interface (c.nameOf h) found expected
    implementations c w interface expected hs

def prepare (c : Catalog M C W) (w : Walk M C W) (h : Handle) : Except DefinitionError Unit :=
  match c.get? h with
  | none => .error (.foreignHandle "schema")
  | some t =>
    match t.kind with
    | .object _ => .ok ()
    | .interface i => do
      let possible := c.implementers h
      implementations c w t.name (← fieldsOf c w h) possible
      let _ ← dispatcher c t.name i.resolveType possible
    | .union u => do
      if u.members.isEmpty then throw (.emptyType t.name "members")
      let _ ← dispatcher c t.name u.resolveType u.members
    | .enum e => Check.enumValues t.name e.values

def prepareAll (c : Catalog M C W) (w : Walk M C W) : List Handle → Except DefinitionError Unit
  | [] => .ok ()
  | h :: hs => do
    prepare c w h
    prepareAll c w hs

/-! ### Finished types -/

/-- Where a field of an object gets its value, and what it is declared to yield. -/
def bodyOf (typeName : String) (model : Model M W) (f : Field M C W) :
    Except DefinitionError (Shape × FieldSource M C W) :=
  match f.body with
  | .property =>
    match model.properties.find? (·.name == f.name) with
    | some p => .ok (p.shape, .property model.read f.name)
    | none => .error (.unknownProperty typeName f.name)
  | .resolver shape resolve => .ok (shape, .resolver resolve)
  | .abstract => .error (.missingInterfaceField typeName typeName f.name)

def plannedField (c : Catalog M C W) (w : Walk M C W) (typeName : String) (model : Model M W)
    (f : Field M C W) : Except DefinitionError (PlannedField M C W) := do
  let (shape, source) ← bodyOf typeName model f
  if !shape.produces c.backing? f.type then
    throw (.shapeMismatch typeName f.name (c.render f.type) shape.render)
  let arguments ← f.arguments.mapM (argumentPlan c typeName f.name)
  let output ← outputPlan c w f.type
  let infos ← f.arguments.mapM (argumentInfo c typeName f.name)
  return {
    info := ⟨f.name, f.description, f.deprecation, typeRef c f.type, infos⟩
    plan := ⟨typeName ++ "." ++ f.name, arguments, source, output⟩ }

def abstractField (c : Catalog M C W) (typeName : String) (f : Field M C W) :
    Except DefinitionError FieldInfo := do
  let infos ← f.arguments.mapM (argumentInfo c typeName f.name)
  return ⟨f.name, f.description, f.deprecation, typeRef c f.type, infos⟩

/-- Each name once, where it first stands. -/
def distinct (names : List String) : List String :=
  names.foldl (fun acc name => if acc.contains name then acc else acc ++ [name]) []

def finish (c : Catalog M C W) (w : Walk M C W) (h : Handle) :
    Except DefinitionError (SchemaType M C W) :=
  match c.get? h with
  | none => .error (.foreignHandle "schema")
  | some t =>
    match t.kind with
    | .object o => do
      let fields ← fieldsOf c w h
      Check.fields c t.name fields
      let fields ← fields.mapM (plannedField c w t.name o.model)
      return .object ⟨t.name, t.description, distinct (o.interfaces.map c.nameOf), fields⟩
    | .interface _ => do
      let fields ← fieldsOf c w h
      Check.fields c t.name fields
      let fields ← fields.mapM (abstractField c t.name)
      return .interface ⟨t.name, t.description, fields⟩
    | .union u => .ok (.union ⟨t.name, t.description, distinct (u.members.map c.nameOf)⟩)
    | .enum e => .ok (.enum ⟨t.name, t.description, e.values⟩)

/-- The schema over the visited types, if they can be one. -/
def schema (c : Catalog M C W) (d : Description) (w : Walk M C W) :
    Except DefinitionError (Schema M C W) := do
  prepareAll c w w.visited
  let types ← w.visited.mapM (finish c w)
  let s : Schema M C W :=
    ⟨types, c.nameOf d.query, d.mutation.map c.nameOf, d.limits⟩
  match Conformance.check s with
  | .ok () => return s
  | .error reason => throw (.nonconforming reason)

end Link

end GraphSchema
