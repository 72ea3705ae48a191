import GraphSchema.Types.Form
import GraphSchema.Blueprint.Recipe

/-! How blueprints write types and forms. A type is a scalar or a key in any number of
brackets and exclamation marks; a key may say which kind it is to be taken for. In
a form a question mark stands for an option. -/
namespace GraphSchema.Blueprint

/-! ### Types -/

/-- A type as it is written, before its keys are looked up. -/
inductive TypeNote where
  | key (name : String)
  | list (inner : TypeNote)
  | nonNull (inner : TypeNote)
  deriving DecidableEq, Repr

namespace TypeNote

/-- Reads the text from outside to inside, with fuel for its characters. -/
def readWithin : Nat → List Char → TypeNote
  | 0, cs => key (String.ofList cs)
  | fuel + 1, cs =>
    match cs.getLast?, cs with
    | some '!', _ => nonNull (readWithin fuel cs.dropLast)
    | some ']', '[' :: inner => list (readWithin fuel inner.dropLast)
    | _, _ => key (String.ofList cs)

def read (s : String) : TypeNote := readWithin s.length s.toList

/-- The handle of a type that has one. -/
def handle? : TypeExpr → Option Handle
  | .enum h | .object h | .interface h | .union h => some h
  | _ => none

/-- The type under a key. A mark in front takes the handle for one of another kind. -/
def resolveKey (keys : Keys) (name : String) : Option TypeExpr :=
  let find (key : String) : Option TypeExpr := (keys.find? (·.1 == key)).map (·.2)
  let tagged (mark : String) : Option Handle :=
    if name.startsWith mark then (find (name.drop mark.length).toString).bind handle? else none
  match Scalar.all.find? (·.name == name) with
  | some s => some (.scalar s)
  | none =>
    ((tagged "enum:").map .enum).or <| ((tagged "object:").map .object).or <|
      ((tagged "interface:").map .interface).or <| ((tagged "union:").map .union).or (find name)

/-- The type with its keys looked up; `none` if one is unknown. -/
def resolve (keys : Keys) : TypeNote → Option TypeExpr
  | key name => resolveKey keys name
  | list inner => (resolve keys inner).map .list
  | nonNull inner => (resolve keys inner).map .nonNull

end TypeNote

/-! ### Forms -/

def baseForm? (name : String) : Option Form :=
  match name with
  | "String" => some .string
  | "ID" => some .id
  | "Int" => some .int
  | "Float" => some .float
  | "Boolean" => some .boolean
  | _ => if name.startsWith "leaf:" then some (.leaf (name.drop 5).toString) else none

def readForm? : Nat → List Char → Option Form
  | 0, _ => none
  | fuel + 1, cs =>
    match cs.getLast?, cs with
    | some '?', _ => (readForm? fuel cs.dropLast).map .option
    | some ']', '[' :: inner => (readForm? fuel inner.dropLast).map .list
    | _, _ => baseForm? (String.ofList cs)

def form? (s : String) : Option Form := readForm? (s.length + 1) s.toList

end GraphSchema.Blueprint
