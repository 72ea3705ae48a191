import GraphSchema.Types.Supplied

/-! Defaults of arguments as they are declared, before they are checked against the
type of the argument. The default of an enum argument is an internal value. -/
namespace GraphSchema

inductive Default where
  | null
  | value (v : Value)
  | leaf (l : Leaf)
  | list (items : List Default)
  deriving Inhabited

namespace Default

mutual

def inspect : Default → String
  | null => "Null"
  | value v => "Value(" ++ v.inspect ++ ")"
  | leaf _ => "Leaf(..)"
  | list items => "List([" ++ ", ".intercalate (inspectItems items) ++ "])"

def inspectItems : List Default → List String
  | [] => []
  | d :: ds => inspect d :: inspectItems ds

end

/-- A float that is infinite or no number is a null default. -/
def ofDouble (x : Double) : Default :=
  match Number.ofFloat? x with
  | some n => .value (.number n)
  | none => .null

end Default

end GraphSchema
