import GraphSchema.Schema.Basic
import GraphSchema.Catalog.DefinitionError
import GraphSchema.Types.Default

/-! Fields as they are declared, and the thunks that declare them.

A list of fields is not given outright but by a program that runs when the fields
are first needed, so that types may mention each other in any order. The program
may look at the world outside and change it, and may even compile the catalog that
it is part of; it ends with the fields or breaks off. -/
namespace GraphSchema

structure Argument where
  name : String
  type : TypeExpr
  default : Option Default
  description : Option String

/-- Something that may be missing, spelled out. -/
def inspectOption : Option String → String
  | some text => "Some(" ++ text ++ ")"
  | none => "None"

def Argument.inspect (a : Argument) : String :=
  "ArgumentDescriptor \x7b name: " ++ Text.escaped a.name ++ ", ty: " ++ a.type.inspect ++
    ", default: " ++ inspectOption (a.default.map (·.inspect)) ++ ", description: " ++
    inspectOption (a.description.map Text.escaped) ++ " \x7d"

inductive FieldBody (M C W : Type) where
  /-- A field of an interface, which each implementer has to supply. -/
  | abstract
  /-- Reads the property of the same name. -/
  | property
  | resolver (shape : Shape) (resolve : Resolver M C W)

structure Field (M C W : Type) where
  name : String
  description : Option String
  deprecation : Option String
  type : TypeExpr
  arguments : List Argument
  body : FieldBody M C W

namespace Field

variable {M C W : Type}

def isAbstract (f : Field M C W) : Bool :=
  match f.body with
  | .abstract => true
  | _ => false

/-- The field with everything about it that is not a program spelled out. -/
def inspect (f : Field M C W) : String :=
  "FieldDescriptor \x7b name: " ++ Text.escaped f.name ++ ", ty: " ++ f.type.inspect ++
    ", args: [" ++ ", ".intercalate (f.arguments.map Argument.inspect) ++ "], abstract: " ++
    (if f.isAbstract then "true" else "false") ++ " \x7d"

end Field

/-- The message for a parent of another backing than the type was declared over. -/
def sourceMismatch (b : Backing) : String := s!"expected a parent value of type {b.name}"

/-- A resolver over models of one backing, as one over all: other parents are an error. -/
def Resolver.ofBacking {M C W : Type} [Backed M] (b : Backing) (resolve : Resolver M C W) :
    Resolver M C W :=
  fun parent args context w =>
    if Backed.backing parent = b then resolve parent args context w
    else (.error (sourceMismatch b), w)

/-- What to compile: the roots, and the limits of the schema. -/
structure Description where
  query : Handle
  mutation : Option Handle := none
  limits : Limits := {}

inductive Thunk (M C W : Type) where
  | done (fields : List (Field M C W))
  | panic
  /-- Changes the world and goes on with what it was. -/
  | outside (change : W → W) (next : W → Thunk M C W)
  /-- Compiles the catalog that is being compiled and goes on with the answer. -/
  | compile (d : Description) (next : Except DefinitionError (Schema M C W) → Thunk M C W)

end GraphSchema
