import GraphSchema.Blueprint.Fields
import GraphSchema.Compile.Basic
import GraphSchema.Execution.Answer
import GraphSchema.Schema.Sdl

/-! A session builds catalogs from blueprints step by step, compiles them and answers
requests with the schema of the last compilation. All catalogs share the keys and
the world. -/
namespace GraphSchema.Blueprint

/-! ### Definitions -/

structure ObjectSpec where
  model : String
  description : Option String := none
  /-- The keys of the interfaces. -/
  implements : List String := []
  isTypeOf : Option Predicate := none
  fields : List Entry := []

structure InterfaceSpec where
  model : String
  description : Option String := none
  resolveType : Option Choice := none
  fields : List Entry := []

structure UnionSpec where
  model : String
  description : Option String := none
  /-- The keys of the members. -/
  members : List String := []
  resolveType : Option Choice := none

inductive EnumEdit where
  | value (name : String) (n : Int)
  | describe (name text : String)
  | markDeprecated (name reason : String)
  | description (text : String)

inductive Definition where
  | declareObject (name model : String)
  | declareInterface (name model : String)
  | object (name : String) (spec : ObjectSpec)
  /-- Defines the object declared under the key. -/
  | defineObject (spec : ObjectSpec)
  | interface (name : String) (spec : InterfaceSpec)
  /-- Defines the interface declared under the key. -/
  | defineInterface (spec : InterfaceSpec)
  | union (name : String) (spec : UnionSpec)
  | enum (name leaf : String) (edits : List EnumEdit)
  | query (description : Option String) (fields : List Entry)
  | mutation (description : Option String) (fields : List Entry)

/-- A catalog with the cells of its field lists. -/
structure Workspace where
  catalog : Catalog Instance String World
  memo : Memo (List (Field Instance String World)) := Memo.fresh

structure Session where
  /-- The properties of the models, by name. -/
  models : List (String × List Property) := []
  workspaces : List (Nat × Workspace) := []
  world : World := {}
  /-- The schema of the last compilation, if it succeeded. -/
  schema : Option (Schema Instance String World) := none

abbrev Sketch := Draft Instance String World

/-- A key without a handle of the kind, or over the model, that is asked for. -/
structure NoHandle where
  key : String

def NoHandle.message (e : NoHandle) : String := s!"no handle {e.key} of that kind and model"

namespace Session

def workspace (s : Session) (n : Nat) : Workspace :=
  ((s.workspaces.find? (·.1 == n)).map (·.2)).getD { catalog := { id := n } }

def setWorkspace (s : Session) (n : Nat) (w : Workspace) : Session :=
  { s with workspaces := (n, w) :: s.workspaces.filter (·.1 != n) }

/-- Gives a key to a type. -/
def addKey (s : Session) (key : String) (type : TypeExpr) : Session :=
  { s with world := { s.world with keys := (key, type) :: s.world.keys } }

def handle? (s : Session) (key : String) : Option Handle :=
  (TypeNote.resolveKey s.world.keys key).bind TypeNote.handle?

/-- The handle of the key as a builder takes it: of that kind and over that model. -/
def typedHandle (s : Session) (kind : Handle → TypeExpr) (model key : String) :
    Except NoHandle Handle :=
  let fits (type : TypeExpr) (h : Handle) : Bool :=
    type == kind h && (s.workspace h.catalog).catalog.backing? h == some (.model model)
  let found := (s.world.keys.find? (·.1 == key)).bind fun (_, type) =>
    (TypeNote.handle? type).filter (fits type)
  match found with
  | some h => .ok h
  | none => .error ⟨key⟩

/-- The handle of a root: of an object over nothing. -/
def rootHandle (s : Session) (key : String) : Except NoHandle Handle :=
  s.typedHandle .object "()" key

def model (s : Session) (name : String) : Model Instance World :=
  if name = "()" then Model.unit Instance World
  else modelOf name (((s.models.find? (·.1 == name)).map (·.2)).getD [])

/-! ### Building -/

def describeDraft (description : Option String) (d : Sketch) : Sketch :=
  match description with
  | some text => d.description text
  | none => d

def chooseDraft (model : String) (choice : Option Choice) (d : Sketch) : Sketch :=
  match choice with
  | some c => d.resolveType (.model model) c.name?
  | none => d

/-- Fills in an object that implements the interfaces. -/
def fillObject (key : String) (spec : ObjectSpec) (interfaces : List Handle) (d : Sketch) :
    Sketch :=
  let d := interfaces.foldl Draft.implement (describeDraft spec.description d)
  let d := match spec.isTypeOf with
    | some p => d.isTypeOf (.model spec.model) p.holds
    | none => d
  d.objectFields (thunk ⟨key, .model spec.model, false, .object d.handle⟩ spec.fields)

def fillInterface (key : String) (spec : InterfaceSpec) (d : Sketch) : Sketch :=
  let d := chooseDraft spec.model spec.resolveType (describeDraft spec.description d)
  d.interfaceFields (thunk ⟨key, .model spec.model, true, .interface d.handle⟩ spec.fields)

def fillUnion (spec : UnionSpec) (members : List Handle) (d : Sketch) : Sketch :=
  let d := chooseDraft spec.model spec.resolveType (describeDraft spec.description d)
  members.foldl Draft.member d

def fillEnum (leaf : String) (edits : List EnumEdit) (d : Sketch) : Sketch :=
  edits.foldl (fun d e => match e with
    | .value name n => d.value name ⟨leaf, n⟩
    | .describe name text => d.describe name text
    | .markDeprecated name reason => d.markDeprecated name reason
    | .description text => d.description text) d

/-- Carries out a definition in a catalog. Gives the catalog, and the type if it is a new one. -/
def build (s : Session) (c : Catalog Instance String World) (key : String) :
    Definition → Except NoHandle (Catalog Instance String World × Option TypeExpr)
  | .declareObject name model =>
    let (c, h) := c.declareObject name (s.model model)
    .ok (c, some (.object h))
  | .declareInterface name model =>
    let (c, h) := c.declareInterface name (.model model)
    .ok (c, some (.interface h))
  | .object name spec => do
    let interfaces ← spec.implements.mapM (s.typedHandle .interface spec.model)
    let d := fillObject key spec interfaces (c.object name (s.model spec.model))
    return (d.catalog, some (.object d.handle))
  | .defineObject spec => do
    let h ← s.typedHandle .object spec.model key
    let interfaces ← spec.implements.mapM (s.typedHandle .interface spec.model)
    return ((fillObject key spec interfaces (c.defineObject h)).catalog, none)
  | .interface name spec =>
    let d := fillInterface key spec (c.interface name (.model spec.model))
    .ok (d.catalog, some (.interface d.handle))
  | .defineInterface spec => do
    let h ← s.typedHandle .interface spec.model key
    return ((fillInterface key spec (c.defineInterface h)).catalog, none)
  | .union name spec => do
    let members ← spec.members.mapM (s.typedHandle .object spec.model)
    let d := fillUnion spec members (c.union name (.model spec.model))
    return (d.catalog, some (.union d.handle))
  | .enum name leaf edits =>
    let d := fillEnum leaf edits (c.enum name leaf (· == ·))
    .ok (d.catalog, some (.enum d.handle))
  | .query description fields =>
    let d := fillObject key ⟨"()", description, [], none, fields⟩ [] c.query
    .ok (d.catalog, some (.object d.handle))
  | .mutation description fields =>
    let d := fillObject key ⟨"()", description, [], none, fields⟩ [] c.mutation
    .ok (d.catalog, some (.object d.handle))

/-- Carries out a definition in the catalog of that number. Gives the size of the catalog. -/
def define (s : Session) (n : Nat) (key : String) (definition : Definition) :
    Except NoHandle (Nat × Session) := do
  let w := s.workspace n
  let (c, type) ← s.build w.catalog key definition
  let s := s.setWorkspace n { w with catalog := c }
  return (c.size, match type with
    | some type => s.addKey key type
    | none => s)

/-! ### Compiling -/

/-- Compiles the catalog of that number and keeps the schema. -/
def compile (s : Session) (n : Nat) (d : Description) :
    Except DefinitionError (List String) × Session :=
  let w := s.workspace n
  let (answer, store) := w.catalog.compile d ⟨w.memo, s.world⟩
  let s := { s.setWorkspace n { w with memo := store.memo } with world := store.world }
  match answer with
  | .ok schema => (.ok schema.typeNames, { s with schema := some schema })
  | .error e => (.error e, { s with schema := none })

/-- Forgets what the log holds and gives it back. -/
def takeLog (s : Session) : List LogEntry × Session :=
  (s.world.log, { s with world := { s.world with log := [] } })

/-! ### Requests -/

/-- How a request is run. -/
inductive Mode where
  /-- As callers see it. -/
  | full
  /-- Without nulling. -/
  | bare
  /-- Without nulling and without a context. -/
  | withoutContext
  deriving DecidableEq, Repr

/-- Answers a request with the schema of the last compilation, if there is one. -/
def execute (s : Session) (mode : Mode) (r : Request) (context : String) :
    Option Answer × Session :=
  match s.schema with
  | none => (none, s)
  | some schema =>
    let (answer, world) := match mode with
      | .full => schema.execute r context s.world
      | .bare => schema.executeBare r (some context) s.world
      | .withoutContext => schema.executeBare r none s.world
    (some answer, { s with world })

end Session

end GraphSchema.Blueprint
