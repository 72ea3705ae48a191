import GraphSchema.Blueprint.Notation

/-! Field lists written down as data, and the thunks they become. Keys are looked up
when the thunk runs, so they may be given to types that come later. -/
namespace GraphSchema.Blueprint

structure ArgumentSpec where
  name : String
  type : TypeNote
  default : Option Default := none
  description : Option String := none

/-- What the thunk notes about a field it has declared. -/
inductive Inspection where
  | none
  | summary
  | text
  deriving DecidableEq, Repr

structure FieldSpec where
  name : String
  type : TypeNote
  arguments : List ArgumentSpec := []
  description : Option String := none
  deprecation : Option String := none
  /-- The promised shape. -/
  shape : Shape := .dynamic
  /-- Without a recipe the field reads the property of its name. -/
  recipe : Option Recipe := none
  inspection : Inspection := .none

inductive Entry where
  | field (f : FieldSpec)
  /-- The thunk breaks off. -/
  | panic
  /-- The thunk compiles the catalog with the type under the key as its root. -/
  | compile (root : String)

/-- Whose fields a thunk declares. -/
structure Owner where
  key : String
  backing : Backing
  /-- An interface only promises its fields. -/
  isAbstract : Bool
  /-- The type itself. -/
  type : TypeExpr

namespace ArgumentSpec

def build (keys : Keys) (a : ArgumentSpec) : Option Argument :=
  (a.type.resolve keys).map fun type => ⟨a.name, type, a.default, a.description⟩

end ArgumentSpec

namespace FieldSpec

def body (owner : Owner) (f : FieldSpec) : FieldBody Instance String World :=
  if owner.isAbstract then .abstract
  else
    match f.recipe with
    | none => .property
    | some r => .resolver f.shape (Resolver.ofBacking owner.backing r.resolver)

/-- The field, unless it mentions an unknown key. -/
def build (owner : Owner) (keys : Keys) (f : FieldSpec) :
    Option (Field Instance String World) := do
  let type ← f.type.resolve keys
  let arguments ← f.arguments.mapM (·.build keys)
  return ⟨f.name, f.description, f.deprecation, type, arguments, f.body owner⟩

end FieldSpec

def noteOf (f : Field Instance String World) : FieldNote where
  field := f.name
  isAbstract := f.isAbstract
  isNonNull := f.type.isNonNull
  isNamed := f.type.named.isSome
  arguments := f.arguments.map fun a => (a.name, a.type.isNonNull, a.type.isInput)

/-- What the declaration of a field leaves in the log. -/
def Inspection.noted? (i : Inspection) (f : Field Instance String World) : Option LogEntry :=
  match i with
  | none => Option.none
  | summary => some (.field (noteOf f))
  | text => some (.text f.inspect)

/-- The thunk that declares the entries, after the fields already declared. -/
def declare (owner : Owner) (keys : Keys) : List Entry → List (Field Instance String World) →
    Thunk Instance String World
  | [], done => .done done
  | .panic :: _, _ => .panic
  | .compile root :: rest, done =>
    match (TypeNote.resolveKey keys root).bind TypeNote.handle? with
    | none => .panic
    | some h => .compile { query := h } fun answer =>
      .outside (·.note (.compiled (answer.map (·.typeNames))))
        fun _ => declare owner keys rest done
  | .field spec :: rest, done =>
    match spec.build owner keys with
    | none => .panic
    | some f =>
      match spec.inspection.noted? f with
      | none => declare owner keys rest (done ++ [f])
      | some e => .outside (·.note e) fun _ => declare owner keys rest (done ++ [f])

/-- The thunk of a type. -/
def thunk (owner : Owner) (entries : List Entry) : Thunk Instance String World :=
  .outside (World.countRun owner.key) fun w =>
    declare owner (("this", owner.type) :: w.keys) entries []

end GraphSchema.Blueprint
