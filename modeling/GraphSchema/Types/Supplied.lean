import GraphSchema.Types.Produced

/-! Arguments as resolvers see them: decoded, with enum names already turned into the
internal values they stand for. -/
namespace GraphSchema

inductive Supplied where
  | null
  /-- A scalar as it was sent. -/
  | value (v : Value)
  | leaf (l : Leaf)
  | list (items : List Supplied)
  deriving Inhabited

namespace Supplied

/-- What was found, for messages about the wrong kind of argument. -/
def kind : Supplied → String
  | null => "null"
  | value _ => "scalar"
  | leaf _ => "enum value"
  | list _ => "list"

mutual

def inspect : Supplied → String
  | null => "Null"
  | value v => "Value(" ++ v.inspect ++ ")"
  | leaf _ => "Leaf(..)"
  | list items => "List([" ++ ", ".intercalate (inspectItems items) ++ "])"

def inspectItems : List Supplied → List String
  | [] => []
  | s :: ss => inspect s :: inspectItems ss

end

end Supplied

/-- The decoded arguments of one call, one entry per declared argument. -/
abbrev Arguments := List (String × Supplied)

namespace Arguments

def raw? (args : Arguments) (name : String) : Option Supplied := (args.find? (·.1 == name)).map (·.2)

/-- An argument that was not declared counts as null. -/
def get (args : Arguments) (name : String) : Supplied := (args.raw? name).getD .null

end Arguments

end GraphSchema
