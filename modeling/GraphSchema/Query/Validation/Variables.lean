import GraphSchema.Query.Validation.Places
import GraphSchema.Query.Validation.Fragments

/-! Rules about variables: an operation declares each of its variables once, with an
input type and perhaps a default of that type; every variable that it or a fragment
within its reach uses is declared and fits the place where it stands; every one
that it declares is used. -/
namespace GraphSchema.Query

namespace VariableDefinition

/-- The type that counts where the variable is used: with a default it is never null. -/
def effectiveType (v : VariableDefinition) : TypeRef :=
  if !v.type.isNonNull && v.default.isSome then .nonNull v.type else v.type

/-- The type is an input type, a default is of the type, and no directive that is known is repeated.
Where the directives may stand is not asked here. -/
def isValid (types : Types) (v : VariableDefinition) : Bool :=
  (match types v.type.core with
    | some t => !t.kind.isComposite
    | none => false) &&
  (match v.default with
    | some default => admits types v.type default
    | none => true) &&
  distinctNames ((v.directives.map (·.name)).filter fun name => (DirectiveInfo.find? name).isSome)

/-- A type named `Upload` stands for files, which only mutations take. -/
def isUpload (v : VariableDefinition) : Bool := v.type.core == "Upload"

end VariableDefinition

/-- A variable where it stands fits what is expected there. A place without a known type takes
anything. -/
def Expectation.isMet (declared : List VariableDefinition) (e : Expectation) : Bool :=
  match e.value, e.type with
  | .var name, some type =>
    match declared.find? (·.name == name) with
    | some v => type.accepts v.effectiveType
    | none => true
  | _, _ => true

/-- The rules of an operation's variables, given all uses of arguments in its reach. -/
def Operation.variablesAreValid (types : Types) (op : Operation) (uses : List ArgumentUse) :
    Bool :=
  let declared := op.variableDefinitions.map (·.name)
  let used := uses.flatMap (·.variableNames)
  distinctNames declared &&
    op.variableDefinitions.all (·.isValid types) &&
    (op.kind == .mutation || !op.variableDefinitions.any (·.isUpload)) &&
    used.all declared.contains &&
    declared.all used.contains &&
    uses.all fun u => u.expectations.all (·.isMet op.variableDefinitions)

end GraphSchema.Query
