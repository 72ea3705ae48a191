import GraphSchema.Schema.Basic

/-! A last check on interfaces, over a finished schema: a field of an object has the type of
the interface's field, and no non-null that the interface's field does not have.
Types are compared by name, so here an object is no substitute for its interface. -/
namespace GraphSchema.Conformance

variable {M C W : Type}

/-- The first field of the interface that the object's own field does not conform to. -/
def nonconforming? (object : ObjectType M C W) (interface : InterfaceType) : Option String :=
  (interface.fields.find? fun expected =>
    match object.field? expected.name with
    | some f => !f.info.type.accepts expected.type
    | none => true).map (·.name)

def message (object interface field : String) : String :=
  s!"Field \"{object}.{field}\" is not sub-type of \"{interface}.{field}\""

def checkObject (s : Schema M C W) (object : ObjectType M C W) : List String → Except String Unit
  | [] => .ok ()
  | name :: rest =>
    match s.type? name with
    | some (.interface i) =>
      match nonconforming? object i with
      | some field => .error (message object.name i.name field)
      | none => checkObject s object rest
    | _ => .error s!"Type \"{name}\" is not interface"

def checkTypes (s : Schema M C W) : List (SchemaType M C W) → Except String Unit
  | [] => .ok ()
  | .object o :: rest =>
    match checkObject s o o.interfaces with
    | .ok () => checkTypes s rest
    | .error e => .error e
  | _ :: rest => checkTypes s rest

/-- Checks the objects in their order, each against its interfaces in their order. -/
def check (s : Schema M C W) : Except String Unit := checkTypes s s.types

end GraphSchema.Conformance
