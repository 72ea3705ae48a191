import GraphSchema.Execution.Step
import GraphSchema.Schema.Surface
import GraphSchema.Value.Merge
import GraphSchema.Value.Text

/-! Introspection: a schema that answers questions about itself. Everything that can be
asked about is a node, whose fields give texts, flags or further nodes. A question
that cannot be answered is left out of the answers, and one that leaves none is null. -/
namespace GraphSchema.Introspection

open Query

/-- Something that a question can be about. -/
inductive Node where
  | schema
  | type (ref : TypeRef)
  | field (f : FieldInfo)
  | input (a : ArgumentInfo)
  | enumValue (v : EnumValue)
  | directive (d : DirectiveInfo)

/-- What a field of a node gives. -/
inductive Found where
  | null
  | text (s : String)
  | name (s : String)
  | names (ss : List String)
  | flag (b : Bool)
  | node (n : Node)
  | nodes (ns : List Node)

namespace Found

def text? : Option String → Found
  | some s => text s
  | none => null

end Found

/-- A schema as introspection sees it. -/
structure View where
  types : List TypeInfo
  query : String
  mutation : Option String

namespace View

def type? (v : View) (name : String) : Option TypeInfo := v.types.find? (·.name == name)

end View

namespace Node

def typeName : Node → String
  | schema => "__Schema"
  | type _ => "__Type"
  | field _ => "__Field"
  | input _ => "__InputValue"
  | enumValue _ => "__EnumValue"
  | directive _ => "__Directive"

def named (name : String) : Node := type (.named name)

end Node

/-- Whether deprecated entries are asked for as well. -/
def wantsDeprecated (arguments : List BoundArgument) : Bool :=
  arguments.any fun a => a.name == "includeDeprecated" && a.value == .boolean true

def readSchema (v : View) : String → Found
  | "description" => .text "TODO"
  | "types" =>
    let names := (v.types.map (·.name)).mergeSort fun a b => !decide (b < a)
    .nodes (names.map Node.named)
  | "queryType" => .node (Node.named v.query)
  | "mutationType" => match v.mutation with
    | some name => .node (Node.named name)
    | none => .null
  | "directives" => .nodes (DirectiveInfo.all.map Node.directive)
  | _ => .null

/-- The fields of a type that has a name. -/
def readNamed (v : View) (t : TypeInfo) (arguments : List BoundArgument) : String → Found
  | "kind" => .name t.kind.name
  | "name" => .text t.name
  | "description" => .text? t.description
  | "fields" =>
    match t.kind with
    | .object | .interface =>
      let shown := t.fields.filter fun f =>
        !f.name.startsWith "__" && (wantsDeprecated arguments || f.deprecation.isNone)
      .nodes (shown.map Node.field)
    | _ => .null
  | "interfaces" => match t.kind with
    | .object => .nodes ((t.interfaces.filter fun i => (v.type? i).isSome).map Node.named)
    | _ => .null
  | "possibleTypes" =>
    if t.kind.isAbstract then .nodes (t.possible.map Node.named) else .null
  | "enumValues" => match t.kind with
    | .enum =>
      let shown := t.values.filter fun v => wantsDeprecated arguments || v.deprecation.isNone
      .nodes (shown.map Node.enumValue)
    | _ => .null
  | _ => .null

def readType (v : View) (arguments : List BoundArgument) : TypeRef → String → Found
  | .named name, field => match v.type? name with
    | some t => readNamed v t arguments field
    | none => .null
  | .list inner, field => match field with
    | "kind" => .name "LIST"
    | "ofType" => .node (.type inner)
    | _ => .null
  | .nonNull inner, field => match field with
    | "kind" => .name "NON_NULL"
    | "ofType" => .node (.type inner)
    | _ => .null

def readField (f : FieldInfo) : String → Found
  | "name" => .text f.name
  | "description" => .text? f.description
  | "args" => .nodes (f.arguments.map Node.input)
  | "type" => .node (.type f.type)
  | "isDeprecated" => .flag f.deprecation.isSome
  | "deprecationReason" => .text? f.deprecation
  | _ => .null

def readInput (a : ArgumentInfo) : String → Found
  | "name" => .text a.name
  | "description" => .text? a.description
  | "type" => .node (.type a.type)
  | "defaultValue" => .text? (a.default.map Value.literal)
  | "isDeprecated" => .flag false
  | _ => .null

def readEnumValue (v : EnumValue) : String → Found
  | "name" => .text v.name
  | "description" => .text? v.description
  | "isDeprecated" => .flag v.deprecation.isSome
  | "deprecationReason" => .text? v.deprecation
  | _ => .null

def readDirective (d : DirectiveInfo) : String → Found
  | "name" => .text d.name
  | "description" => .text d.description
  | "locations" => .names (d.locations.map (·.name))
  | "args" => .nodes (d.arguments.map Node.input)
  | "isRepeatable" => .flag false
  | _ => .null

def Node.read (v : View) (arguments : List BoundArgument) : Node → String → Found
  | schema => readSchema v
  | type ref => readType v arguments ref
  | field f => readField f
  | input a => readInput a
  | enumValue e => readEnumValue e
  | directive d => readDirective d

/-! ### Answers -/

/-- An answer with the errors on the way to it. -/
structure Reply (α : Type) where
  value : α
  errors : List ResponseError

/-- The answers about a node by their keys. -/
abbrev Answers := Reply (List (String × Value))

namespace Answers

def none : Answers := ⟨[], []⟩

def add (key : String) (r : Reply Value) (as : Answers) : Answers :=
  ⟨Value.absorb key r.value as.value, as.errors ++ r.errors⟩

def report (as : Answers) (e : ResponseError) : Answers := { as with errors := as.errors ++ [e] }

/-- The answers as one value, which is null if there are none. -/
def settle (as : Answers) : Reply Value :=
  ⟨if as.value.isEmpty then .null else .object as.value, as.errors⟩

end Answers

/-- The fault of an argument that is not of the type. -/
def mistyped (type : String) (path : Path) (a : BoundArgument) : ResponseError :=
  ⟨s!"Expected input type \"{type}\", found {a.value.literal}.", path, a.position⟩

/-- The arguments of a question, or why they do not do: a variable has no value, or a flag is no
boolean. -/
def vet (path : Path) : Except Unbound (List BoundArgument) →
    Except ResponseError (List BoundArgument)
  | .error u => .error ⟨u.message, path, u.position⟩
  | .ok sent =>
    match sent.find? fun a => a.name == "includeDeprecated" && !a.value.isBoolean with
    | some a => .error (mistyped "Boolean" path a)
    | none => .ok sent

/-- What was found, as a value; `select` answers the questions about a node at a path. -/
def Found.reply (select : Path → Node → Reply Value) (path : Path) : Found → Reply Value
  | null => ⟨.null, []⟩
  | text s => ⟨.string s, []⟩
  | name s => ⟨.enum s, []⟩
  | names ss => ⟨.list (ss.map .enum), []⟩
  | flag b => ⟨.boolean b, []⟩
  | node n => select path n
  | nodes ns =>
    let rs := ns.zipIdx.map fun (n, i) => select (path ++ [Segment.index i]) n
    ⟨.list (rs.map (·.value)), rs.flatMap (·.errors)⟩

mutual

/-- The answers to the steps about a node, after those already there. -/
def answerAll (v : View) (path : Path) (n : Node) : List Step → Answers → Answers
  | [], as => as
  | s :: ss, as => answerAll v path n ss (answer v path n s as)

def answer (v : View) (path : Path) (n : Node) : Step → Answers → Answers
  | .typename key, as => as.add key ⟨.string n.typeName, []⟩
  | .field key name _ arguments below, as =>
    let path := path ++ [Segment.key key]
    match vet path arguments with
    | .error e => as.report e
    | .ok sent =>
      let select (path : Path) (n : Node) : Reply Value :=
        (answerAll v path n below .none).settle
      as.add key ((n.read v sent name).reply select path)
  | .narrow condition below, as =>
    if condition == n.typeName then answerAll v path n below as else as

end

/-- What a field of the root of queries asks about, if it asks about the schema. A type is asked for
by a name, which has to be a text. -/
def asked? (v : View) (name : String) (arguments : List BoundArgument) :
    Option (Except ResponseError Found) :=
  match name with
  | "__schema" => some (.ok (.node .schema))
  | "__type" =>
    match arguments.find? (·.name == "name") with
    | some ⟨_, .string n, _⟩ =>
      some (.ok (match v.type? n with
        | some t => .node (Node.named t.name)
        | none => .null))
    | some a => some (.error (mistyped "String" [] a))
    | none => some (.ok .null)
  | _ => none

/-- The answer to a field of the root of queries that asks about the schema. The paths of its
errors begin below that field. -/
def run (v : View) (found : Found) (below : List Step) : Reply Value :=
  found.reply (fun path n => (answerAll v path n below .none).settle) []

end GraphSchema.Introspection

namespace GraphSchema.Schema

variable {M C W : Type}

/-- Of the declared types, introspection knows those in sight. -/
def view (s : Schema M C W) : Introspection.View :=
  let shown := s.inSight
  let hidden := s.typeNames.filter (!shown.contains ·)
  ⟨s.surface.filter (!hidden.contains ·.name), s.query, s.mutation⟩

end GraphSchema.Schema
