import GraphSchema.Catalog.Basic

/-! Filling a catalog: declaring a type takes the next place, defining it fills the
place. A type can be defined once, in its own catalog; any other attempt is kept as
a misuse and changes nothing else, nor does what follows it in the same definition. -/
namespace GraphSchema

variable {M C W : Type}

namespace Catalog

/-- Takes the next place. -/
def push (c : Catalog M C W) (name : String) (kind : Kind M C W) : Catalog M C W × Handle :=
  ({ c with types := c.types ++ [{ name, kind }] }, c.handle c.size)

def declareObject (c : Catalog M C W) (name : String) (model : Model M W) :
    Catalog M C W × Handle :=
  c.push name (.object { model })

def declareInterface (c : Catalog M C W) (name : String) (backing : Backing) :
    Catalog M C W × Handle :=
  c.push name (.interface { backing })

def recordMisuse (c : Catalog M C W) (e : DefinitionError) : Catalog M C W :=
  { c with misuses := c.misuses ++ [e] }

/-- The place that a definition may fill, or the catalog with the misuse kept. `what` names the
kind of definition. -/
def claim (c : Catalog M C W) (h : Handle) (what : String) : Catalog M C W × Option Nat :=
  if h.catalog ≠ c.id then (c.recordMisuse (.foreignHandle (what ++ " definition")), none)
  else
    match c.types[h.index]? with
    | none => (c, none)
    | some def_ =>
      if def_.kind.fields?.isSome then (c.recordMisuse (.duplicateTypeName def_.name), none)
      else (c, some h.index)

def modify (c : Catalog M C W) (index : Nat) (f : TypeDef M C W → TypeDef M C W) :
    Catalog M C W :=
  { c with types := c.types.modify index f }

end Catalog

/-- A definition as it is put together step by step: a step on a definition without a place
does nothing. -/
structure Draft (M C W : Type) where
  catalog : Catalog M C W
  handle : Handle
  place : Option Nat

namespace Draft

/-- One step of the definition. -/
def edit (d : Draft M C W) (f : TypeDef M C W → TypeDef M C W) : Draft M C W :=
  match d.place with
  | some index => { d with catalog := d.catalog.modify index f }
  | none => d

def editKind (d : Draft M C W) (f : Kind M C W → Kind M C W) : Draft M C W :=
  d.edit fun t => { t with kind := f t.kind }

def description (d : Draft M C W) (text : String) : Draft M C W :=
  d.edit fun t => { t with description := some text }

/-- Declares that the object implements the interface. -/
def implement (d : Draft M C W) (interface : Handle) : Draft M C W :=
  d.editKind fun
    | .object o => .object { o with interfaces := o.interfaces ++ [interface] }
    | kind => kind

/-- A predicate on models of one backing; models of another are not recognised. -/
def isTypeOf [Backed M] (d : Draft M C W) (backing : Backing) (p : M → Bool) : Draft M C W :=
  d.editKind fun
    | .object o => .object { o with isTypeOf := some fun m => Backed.backing m = backing && p m }
    | kind => kind

/-- The choice of an abstract type among models of one backing. -/
def resolveType [Backed M] (d : Draft M C W) (backing : Backing) (f : M → Option String) :
    Draft M C W :=
  let choose : M → Option String := fun m => if Backed.backing m = backing then f m else none
  d.editKind fun
    | .interface i => .interface { i with resolveType := some choose }
    | .union u => .union { u with resolveType := some choose }
    | kind => kind

def objectFields (d : Draft M C W) (fields : Thunk M C W) : Draft M C W :=
  d.editKind fun
    | .object o => .object { o with fields := some fields }
    | kind => kind

def interfaceFields (d : Draft M C W) (fields : Thunk M C W) : Draft M C W :=
  d.editKind fun
    | .interface i => .interface { i with fields := some fields }
    | kind => kind

def member (d : Draft M C W) (object : Handle) : Draft M C W :=
  d.editKind fun
    | .union u => .union { u with members := u.members ++ [object] }
    | kind => kind

def editValues (d : Draft M C W) (f : EnumValues → EnumValues) : Draft M C W :=
  d.editKind fun
    | .enum e => .enum { e with values := f e.values }
    | kind => kind

/-- Adds a value of the enum's own backing. -/
def value (d : Draft M C W) (name : String) (leaf : Leaf) : Draft M C W :=
  d.editValues fun vs => vs ++ [⟨name, none, none, leaf⟩]

/-- Describes every value of that name added so far. -/
def describe (d : Draft M C W) (name text : String) : Draft M C W :=
  d.editValues fun vs => vs.map fun v =>
    if v.name = name then { v with description := some text } else v

/-- Deprecates every value of that name added so far. -/
def markDeprecated (d : Draft M C W) (name reason : String) : Draft M C W :=
  d.editValues fun vs => vs.map fun v =>
    if v.name = name then { v with deprecation := some reason } else v

end Draft

namespace Catalog

def defineObject (c : Catalog M C W) (h : Handle) : Draft M C W :=
  let (c, place) := c.claim h "object"
  ⟨c, h, place⟩

def defineInterface (c : Catalog M C W) (h : Handle) : Draft M C W :=
  let (c, place) := c.claim h "interface"
  ⟨c, h, place⟩

/-- Declares an object and starts its definition. -/
def object (c : Catalog M C W) (name : String) (model : Model M W) : Draft M C W :=
  let (c, h) := c.declareObject name model
  c.defineObject h

/-- Declares an interface and starts its definition. -/
def interface (c : Catalog M C W) (name : String) (backing : Backing) : Draft M C W :=
  let (c, h) := c.declareInterface name backing
  c.defineInterface h

def union (c : Catalog M C W) (name : String) (backing : Backing) : Draft M C W :=
  let (c, h) := c.push name (.union { backing })
  ⟨c, h, some h.index⟩

/-- Starts an enum over the internal values of a backing, with the equality of that backing. -/
def enum (c : Catalog M C W) (name leaf : String) (equal : Int → Int → Bool) : Draft M C W :=
  let (c, h) := c.push name (.enum { leaf, equal })
  ⟨c, h, some h.index⟩

/-- Starts the root of queries, which is named `Query`. -/
def query (c : Catalog M C W) : Draft M C W := c.object "Query" (Model.unit M W)

/-- Starts the root of mutations, which is named `Mutation`. -/
def mutation (c : Catalog M C W) : Draft M C W := c.object "Mutation" (Model.unit M W)

end Catalog

end GraphSchema
