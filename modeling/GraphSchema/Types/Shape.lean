import GraphSchema.Types.TypeExpr

/-! What a property or a resolver is declared to yield, and whether that can fill a
field of a given type. Nulls are left to the moment the value arrives: a shape
that may be null still fits a field that may not. -/
namespace GraphSchema

/-- What stands behind a named type: the values of an enum or the models of an object,
interface or union. Two backings are the same only if they are of one kind and one name. -/
inductive Backing where
  | leaf (name : String)
  | model (name : String)
  deriving DecidableEq, Repr

def Backing.name : Backing → String
  | leaf name | model name => name

/-- The backing of the roots, which has nothing to read. -/
def Backing.unit : Backing := .model "()"

/-- The kinds of scalar that a resolver can promise. -/
inductive ScalarShape where
  | string
  | int
  | float
  | boolean
  | id
  deriving DecidableEq, Repr

def ScalarShape.name : ScalarShape → String
  | string => "String"
  | int => "Int"
  | float => "Float"
  | boolean => "Boolean"
  | id => "Id"

inductive Shape where
  | scalar (s : ScalarShape)
  | leaf (name : String)
  | model (name : String)
  | list (item : Shape)
  | nullable (inner : Shape)
  /-- Known only when the value arrives. -/
  | dynamic
  deriving DecidableEq, Repr

namespace Shape

def render : Shape → String
  | scalar s => s.name
  | leaf name | model name => name
  | list item => "Vec<" ++ item.render ++ ">"
  | nullable inner => "Option<" ++ inner.render ++ ">"
  | dynamic => "dynamic value"

/-- Every scalar kind that fits the scalar: an ID is text, a whole number is a float, and
text and whole numbers are IDs. -/
def scalarFits : Scalar → ScalarShape → Bool
  | .string, .string | .string, .id => true
  | .int, .int => true
  | .float, .float | .float, .int => true
  | .boolean, .boolean => true
  | .id, .id | .id, .string | .id, .int => true
  | _, _ => false

/-- The fit of a shape that is neither dynamic nor nullable, where `inner` decides for the
items of a list. Non-nulls of the type do not count. -/
def fitsWith (inner : TypeExpr → Bool) (shape : Shape) (backing : Handle → Option Backing) :
    TypeExpr → Bool
  | .nonNull ty => fitsWith inner shape backing ty
  | .list ty => match shape with
    | list _ => inner ty
    | _ => false
  | .scalar s => match shape with
    | scalar k => scalarFits s k
    | _ => false
  | .enum h => match shape with
    | leaf name => backing h = some (.leaf name)
    | _ => false
  | .object h | .interface h | .union h => match shape with
    | model name => backing h = some (.model name)
    | _ => false

/-- Whether a value of the shape can fill a field of the type; `backing` says what stands
behind each named type. -/
def produces (backing : Handle → Option Backing) : Shape → TypeExpr → Bool
  | dynamic, _ => true
  | nullable inner, ty => produces backing inner ty
  | list item, ty => fitsWith (produces backing item) (list item) backing ty
  | scalar k, ty => fitsWith (fun _ => false) (scalar k) backing ty
  | leaf name, ty => fitsWith (fun _ => false) (leaf name) backing ty
  | model name, ty => fitsWith (fun _ => false) (model name) backing ty

end Shape

end GraphSchema
