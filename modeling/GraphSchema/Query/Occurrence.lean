import GraphSchema.Query.Document
import GraphSchema.Schema.Surface

/-! The parts of a document in their places: each field with the type it is selected
on, each directive with its location, each argument with the type that is expected
of it. The rules of validation are stated about single occurrences. -/
namespace GraphSchema.Query

/-- A value in a query with the type that is expected there, if that is known. -/
structure Expectation where
  value : InputValue
  type : Option TypeRef

namespace Expectation

mutual

/-- The value and the items of its lists, each with its type. -/
def parts (type : Option TypeRef) : InputValue → List Expectation
  | .list items =>
    ⟨.list items, type⟩ ::
      match type.map TypeRef.nullable with
      | some (TypeRef.list item) => itemParts item items
      | _ => []
  | v => [⟨v, type⟩]

def itemParts (type : TypeRef) : List InputValue → List Expectation
  | [] => []
  | v :: vs => parts (some type) v ++ itemParts type vs

end

end Expectation

/-- Arguments where they are used, with the arguments that are declared there, if it is known
what they are. -/
structure ArgumentUse where
  arguments : List Argument
  declared : Option (List ArgumentInfo)

namespace ArgumentUse

def declared? (u : ArgumentUse) (name : String) : Option ArgumentInfo :=
  u.declared.bind (·.find? (·.name == name))

/-- The type that a place expects of a variable. An argument with a default takes one that may be
null. -/
def expected (a : ArgumentInfo) : TypeRef :=
  match a.type, a.default with
  | .nonNull inner, some _ => inner
  | type, _ => type

/-- The values of the arguments and of the items in them, each with its type. -/
def expectations (u : ArgumentUse) : List Expectation :=
  u.arguments.flatMap fun a => Expectation.parts ((u.declared? a.name).map expected) a.value

/-- The variables that stand anywhere in the arguments. -/
def variableNames (u : ArgumentUse) : List String := u.arguments.flatMap (·.value.variableNames)

end ArgumentUse

inductive Occurrence where
  /-- A field, the type it is selected on, and whether anything is selected of it. -/
  | field (parent : Option TypeInfo) (head : FieldHead) (hasSelections : Bool)
  | directives (location : DirectiveLocation) (ds : List Directive)
  | spread (parent : Option TypeInfo) (fragment : String)
  | inline (parent : Option TypeInfo) (condition : Option String)
  | selectionSet (ss : List Selection)

namespace Occurrence

/-- The uses of arguments in an occurrence. -/
def uses : Occurrence → List ArgumentUse
  | field parent head _ =>
    [⟨head.arguments, (parent.bind (·.field? head.name)).map (·.arguments)⟩]
  | directives _ ds => ds.map fun d =>
    ⟨d.arguments, (DirectiveInfo.find? d.name).map (·.arguments)⟩
  | _ => []

def spread? : Occurrence → Option String
  | spread _ name => some name
  | _ => none

end Occurrence

/-- Looks up a type that callers can name. -/
abbrev Types := String → Option TypeInfo

mutual

/-- The occurrences in selections on a type, from left to right. The name of an object's type may
be asked anywhere and counts as no occurrence. -/
def occurrences (types : Types) (parent : Option TypeInfo) : List Selection → List Occurrence
  | [] => []
  | s :: ss => occurrencesOf types parent s ++ occurrences types parent ss

def occurrencesOf (types : Types) (parent : Option TypeInfo) : Selection → List Occurrence
  | .field head below =>
    if head.name == "__typename" then [] else
      let type := (parent.bind (·.field? head.name)).bind fun f => types f.type.core
      .field parent head (!below.isEmpty) :: .directives .field head.directives ::
        (if below.isEmpty then [] else [.selectionSet below]) ++ occurrences types type below
  | .spread name ds => [.spread parent name, .directives .fragmentSpread ds]
  | .inline condition ds below =>
    let type := match condition with
      | some name => types name
      | none => parent
    .inline parent condition :: .directives .inlineFragment ds :: .selectionSet below ::
      occurrences types type below

end

/-- The occurrences in a whole selection set. -/
def selectionOccurrences (types : Types) (parent : Option TypeInfo) (ss : List Selection) :
    List Occurrence :=
  .selectionSet ss :: occurrences types parent ss

namespace Fragment

def occurrences (types : Types) (f : Fragment) : List Occurrence :=
  .directives .fragmentDefinition f.directives ::
    selectionOccurrences types (types f.condition) f.selections

end Fragment

end GraphSchema.Query
