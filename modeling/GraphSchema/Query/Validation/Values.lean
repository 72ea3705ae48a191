import GraphSchema.Query.Occurrence

/-! Which values a type admits from a caller. A single value is admitted where a list
is expected, and the name of an enum value may come as a string. -/
namespace GraphSchema.Query

/-- Whether a named type admits a value that is not null. A name that is no type admits
anything; that it is no type is a fault of its own. -/
def admitsNamed (types : Types) (name : String) (v : Value) : Bool :=
  match types name with
  | none => true
  | some t =>
    match t.kind with
    | .scalar => match Scalar.all.find? (·.name == name) with
      | some s => s.admits v
      | none => true
    | .enum => match v with
      | .enum n | .string n => t.values.any (·.name == n)
      | _ => false
    | _ => true

mutual

def admits (types : Types) : TypeRef → Value → Bool
  | .nonNull inner, v => !v.isNull && admits types inner v
  | .list inner, v =>
    match v with
    | .null => true
    | .list items => items.all (admits types inner)
    | single => admits types inner single
  | .named name, v => v.isNull || admitsNamed types name v

end

/-- Whether a value in a query is admitted with the values of the variables in place. Where a
variable has none, nothing is said. -/
def admitsInput (types : Types) (sent : List (String × Value)) (type : TypeRef)
    (v : InputValue) : Bool :=
  match v.replace (Value.member? · sent) with
  | .ok v => admits types type v
  | .error _ => true

end GraphSchema.Query
