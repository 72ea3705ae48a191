import GraphSchema.Schema.Directive
import GraphSchema.Text.Quoted
import GraphSchema.Value.Text

/-! A schema in the schema definition language. Types stand in the order of their names,
with a blank line after each; what belongs to a type keeps the order of its
declaration. The directives and the roots come last. -/
namespace GraphSchema

variable {M C W : Type}

namespace Sdl

def tabs (level : Nat) : String := String.ofList (List.replicate level '\t')

/-- A description on lines of its own, all of them indented. -/
def block (level : Nat) (text : String) : String :=
  let indent := tabs level
  let quotes := indent ++ "\"\"\"\n"
  quotes ++ indent ++ text.replace "\n" ("\n" ++ indent) ++ "\n" ++ quotes

def optionalBlock (level : Nat) : Option String → String
  | some text => block level text
  | none => ""

def deprecation : Option String → String
  | some reason => " @deprecated(reason: \"" ++ Text.escapedReason reason ++ "\")"
  | none => ""

/-! ### Arguments -/

def argument (a : ArgumentInfo) : String :=
  a.name ++ ": " ++ a.type.render ++
    match a.default with
    | some v => " = " ++ v.literal
    | none => ""

/-- An argument among others of which some are described. -/
def indentedArgument (a : ArgumentInfo) : String :=
  (match a.description with
    | some text => "\n" ++ block 2 text
    | none => "") ++ tabs 2 ++ argument a

def arguments (as : List ArgumentInfo) : String :=
  if as.isEmpty then ""
  else if as.any (·.description.isSome) then
    "(" ++ ",".intercalate (as.map indentedArgument) ++ "\n\t)"
  else "(" ++ ", ".intercalate (as.map argument) ++ ")"

/-! ### Types -/

def field (f : FieldInfo) : String :=
  optionalBlock 1 f.description ++ "\t" ++ f.name ++ arguments f.arguments ++ ": " ++
    f.type.render ++ deprecation f.deprecation ++ "\n"

def enumValue (v : EnumValue) : String :=
  optionalBlock 1 v.description ++ "\t" ++ v.name ++ deprecation v.deprecation ++ "\n"

def body (lines : List String) : String := " \x7b\n" ++ String.join lines ++ "\x7d\n"

def interfaces (names : List String) : String :=
  if names.isEmpty then "" else " implements " ++ " & ".intercalate names

def type (t : SchemaType M C W) : String :=
  optionalBlock 0 t.description ++
    match t with
    | .object o => "type " ++ o.name ++ interfaces o.interfaces ++
      body (o.fields.map fun f => field f.info)
    | .interface i => "interface " ++ i.name ++ body (i.fields.map field)
    | .union u => "union " ++ u.name ++ " = " ++ " | ".intercalate u.members ++ "\n"
    | .enum e => "enum " ++ e.name ++ body (e.values.map enumValue)

/-! ### Directives and roots -/

/-- The arguments of a directive go without their descriptions. -/
def directive (d : DirectiveInfo) : String :=
  block 0 d.description ++ "directive @" ++ d.name ++
    arguments (d.arguments.map ({ · with description := none })) ++ " on " ++
    " | ".intercalate (d.locations.map (·.name)) ++ "\n"

/-- Whether a field of an object or an enum value of the type is deprecated. -/
def hasDeprecation : SchemaType M C W → Bool
  | .object o => o.fields.any (·.info.deprecation.isSome)
  | .enum e => e.values.any (·.deprecation.isSome)
  | .interface _ | .union _ => false

/-- The directives that are shown: that for deprecation only if it is used. -/
def directives (s : Schema M C W) : List DirectiveInfo :=
  (if s.types.any hasDeprecation then [DirectiveInfo.deprecated] else []) ++
    [DirectiveInfo.includeIf, DirectiveInfo.skipIf]

def roots (s : Schema M C W) : String :=
  "schema" ++ body (["\tquery: " ++ s.query ++ "\n"] ++
    s.mutation.toList.map fun name => "\tmutation: " ++ name ++ "\n")

end Sdl

/-- The schema as text. -/
def Schema.sdl (s : Schema M C W) : String :=
  let sorted := s.types.mergeSort fun a b => !decide (b.name < a.name)
  String.join (sorted.map fun t => Sdl.type t ++ "\n") ++
    String.join ((Sdl.directives s).map Sdl.directive) ++ Sdl.roots s

end GraphSchema
