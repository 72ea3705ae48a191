import GraphSchema.Query.Validation.Values

/-! Rules about single occurrences: fields exist where they are selected, leaves have
no selections and composites have some, arguments are known, given once, fit
their types and are there if they are needed, directives are known and stand where
they may. -/
namespace GraphSchema.Query

/-! ### Arguments -/

def distinctNames (names : List String) : Bool := names.eraseDups.length == names.length

namespace ArgumentUse

def areDistinct (u : ArgumentUse) : Bool := distinctNames (u.arguments.map (·.name))

def areKnown (u : ArgumentUse) : Bool :=
  u.declared.isNone || u.arguments.all fun a => (u.declared? a.name).isSome

/-- Every argument that may not be null and has no default is given. -/
def areComplete (u : ArgumentUse) : Bool :=
  (u.declared.getD []).all fun d =>
    !d.type.isNonNull || d.default.isSome || u.arguments.any (·.name == d.name)

def fitTypes (types : Types) (sent : List (String × Value)) (u : ArgumentUse) : Bool :=
  u.arguments.all fun a =>
    match u.declared? a.name with
    | some d => admitsInput types sent d.type a.value
    | none => true

def isValid (types : Types) (sent : List (String × Value)) (u : ArgumentUse) : Bool :=
  u.areDistinct && u.areKnown && u.areComplete && u.fitTypes types sent

end ArgumentUse

/-! ### Fields -/

/-- A field that its parent has, with selections exactly if its type has fields. On a parent that
is not known nothing is said. -/
def fieldIsValid (types : Types) (parent : Option TypeInfo) (head : FieldHead)
    (hasSelections : Bool) : Bool :=
  match parent with
  | none => true
  | some t =>
    match t.field? head.name with
    | none => false
    | some f =>
      match types f.type.core with
      | some target => target.kind.isComposite == hasSelections
      | none => true

/-! ### Directives -/

def directivesAreValid (location : DirectiveLocation) (ds : List Directive) : Bool :=
  distinctNames (ds.map (·.name)) && ds.all fun d =>
    match DirectiveInfo.find? d.name with
    | some info => info.locations.contains location
    | none => false

/-! ### Occurrences -/

/-- The rules that need only the occurrence, its place and the values of the variables. -/
def Occurrence.isValid (types : Types) (sent : List (String × Value)) (o : Occurrence) :
    Bool :=
  (o.uses.all (·.isValid types sent)) &&
    match o with
    | .field parent head hasSelections => fieldIsValid types parent head hasSelections
    | .directives location ds => directivesAreValid location ds
    | _ => true

end GraphSchema.Query
