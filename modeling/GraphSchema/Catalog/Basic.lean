import GraphSchema.Catalog.Field

/-! A catalog of type definitions. Each definition has a place, and a handle names the
catalog and the place, so a handle is good before its type is defined and means
nothing in another catalog. Wrong uses are not refused when they happen but kept,
for the compiler to report. -/
namespace GraphSchema

structure ObjectDef (M C W : Type) where
  model : Model M W
  interfaces : List Handle := []
  isTypeOf : Option (M → Bool) := none
  /-- Absent until the type is defined. -/
  fields : Option (Thunk M C W) := none

structure InterfaceDef (M C W : Type) where
  backing : Backing
  resolveType : Option (M → Option String) := none
  fields : Option (Thunk M C W) := none

structure UnionDef (M : Type) where
  backing : Backing
  members : List Handle := []
  resolveType : Option (M → Option String) := none

inductive Kind (M C W : Type) where
  | object (o : ObjectDef M C W)
  | interface (i : InterfaceDef M C W)
  | union (u : UnionDef M)
  | enum (e : EnumDef)

structure TypeDef (M C W : Type) where
  name : String
  description : Option String := none
  kind : Kind M C W

structure Catalog (M C W : Type) where
  id : Nat
  types : List (TypeDef M C W) := []
  /-- Wrong uses, the first one first. -/
  misuses : List DefinitionError := []

variable {M C W : Type}

namespace Kind

def backing : Kind M C W → Backing
  | object o => o.model.backing
  | interface i => i.backing
  | union u => u.backing
  | enum e => .leaf e.leaf

/-- The field list of an object or interface, once it is defined. -/
def fields? : Kind M C W → Option (Thunk M C W)
  | object o => o.fields
  | interface i => i.fields
  | union _ | enum _ => none

end Kind

namespace Catalog

def size (c : Catalog M C W) : Nat := c.types.length

def handle (c : Catalog M C W) (index : Nat) : Handle := ⟨c.id, index⟩

def get? (c : Catalog M C W) (h : Handle) : Option (TypeDef M C W) :=
  if h.catalog = c.id then c.types[h.index]? else none

def typeName? (c : Catalog M C W) (h : Handle) : Option String := (c.get? h).map (·.name)

/-- The name of the type, empty for a handle of another catalog. -/
def nameOf (c : Catalog M C W) (h : Handle) : String := (c.typeName? h).getD ""

def backing? (c : Catalog M C W) (h : Handle) : Option Backing :=
  (c.get? h).map (·.kind.backing)

def render (c : Catalog M C W) (ty : TypeExpr) : String := ty.render c.nameOf

def handles (c : Catalog M C W) : List Handle := (List.range c.size).map c.handle

def object? (c : Catalog M C W) (h : Handle) : Option (ObjectDef M C W) :=
  match c.get? h with
  | some { kind := .object o, .. } => some o
  | _ => none

def union? (c : Catalog M C W) (h : Handle) : Option (UnionDef M) :=
  match c.get? h with
  | some { kind := .union u, .. } => some u
  | _ => none

def enum? (c : Catalog M C W) (h : Handle) : Option EnumDef :=
  match c.get? h with
  | some { kind := .enum e, .. } => some e
  | _ => none

def implements (c : Catalog M C W) (object interface : Handle) : Bool :=
  match c.object? object with
  | some o => o.interfaces.contains interface
  | none => false

/-- The objects that implement the interface, in the order of their places. -/
def implementers (c : Catalog M C W) (interface : Handle) : List Handle :=
  c.handles.filter (c.implements · interface)

end Catalog

end GraphSchema
