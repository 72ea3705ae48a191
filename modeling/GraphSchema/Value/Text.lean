import GraphSchema.Value.Basic
import GraphSchema.Text.Quoted
import GraphSchema.Text.Escaped

/-! The two spellings of a value. The literal is what a query could contain; the
inspection text also says which kind of value it is. -/
namespace GraphSchema.Value

mutual

/-- As the value would stand in a query: enum names bare, lists in brackets. -/
def literal : Value → String
  | .null => "null"
  | .number n => n.text
  | .string s => Text.quoted s
  | .boolean b => if b then "true" else "false"
  | .enum name => name
  | .list items => "[" ++ ", ".intercalate (literals items) ++ "]"
  | .object members => "\x7b" ++ ", ".intercalate (memberLiterals members) ++ "\x7d"

def literals : List Value → List String
  | [] => []
  | v :: vs => literal v :: literals vs

def memberLiterals : List (String × Value) → List String
  | [] => []
  | (k, v) :: vs => (k ++ ": " ++ literal v) :: memberLiterals vs

end

mutual

/-- The value with its kind spelled out, as it appears in messages about defaults. -/
def inspect : Value → String
  | .null => "Null"
  | .number n => "Number(Number(" ++ n.text ++ "))"
  | .string s => "String(" ++ Text.escaped s ++ ")"
  | .boolean b => if b then "Boolean(true)" else "Boolean(false)"
  | .enum name => "Enum(Name(" ++ Text.escaped name ++ "))"
  | .list items => "List([" ++ ", ".intercalate (inspectItems items) ++ "])"
  | .object members => "Object(\x7b" ++ ", ".intercalate (inspectMembers members) ++ "\x7d)"

def inspectItems : List Value → List String
  | [] => []
  | v :: vs => inspect v :: inspectItems vs

def inspectMembers : List (String × Value) → List String
  | [] => []
  | (k, v) :: vs => ("Name(" ++ Text.escaped k ++ "): " ++ inspect v) :: inspectMembers vs

end

end GraphSchema.Value
