import GraphSchema.Schema.Introspection

/-! A schema as its callers see it: every type that a query may name, the scalars and
the types of introspection among them, with fields, arguments and possible types
but without the plans behind them. -/
namespace GraphSchema

namespace Schema

variable {M C W : Type}

def info (s : Schema M C W) (t : SchemaType M C W) : TypeInfo :=
  let extra := if s.limits.introspection && t.name == s.query then Introspection.rootFields else []
  { kind := match t with
      | .object _ => .object
      | .interface _ => .interface
      | .union _ => .union
      | .enum _ => .enum
    name := t.name
    description := t.description
    fields := t.fields ++ extra
    interfaces := match t with
      | .object o => o.interfaces
      | _ => []
    possible := s.possibleTypes t
    values := match t with
      | .enum e => e.values
      | _ => [] }

def scalarInfos : List TypeInfo :=
  Scalar.all.map fun s => { kind := .scalar, name := s.name, description := s.description }

/-- Every type that a caller can name. -/
def surface (s : Schema M C W) : List TypeInfo :=
  s.types.map s.info ++ scalarInfos ++
    (if s.limits.introspection then Introspection.types else [])

/-! ### Types in sight -/

/-- The names with those of the types that they lead to, in rounds. -/
def follow (types : List TypeInfo) : Nat → List String → List String
  | 0, names => names
  | rounds + 1, names =>
    let next := (types.filter fun t => names.contains t.name).flatMap (·.leadsTo)
    follow types rounds (names ++ next).eraseDups

/-- The types of a schema that introspection shows. It starts at the roots. An interface that
nothing leads to comes in by one of its objects if that is in sight before the interface is
looked at, and they are looked at by name. -/
def inSight (s : Schema M C W) : List String :=
  let types := s.types.map s.info
  let follow := follow types types.length
  let interfaces := (types.filter (·.kind == .interface)).mergeSort fun a b =>
    !decide (b.name < a.name)
  interfaces.foldl
    (fun names t => if t.possible.any names.contains then follow (names ++ [t.name]) else names)
    (follow (s.query :: s.mutation.toList))

end Schema

end GraphSchema
