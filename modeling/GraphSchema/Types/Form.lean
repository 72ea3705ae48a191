import GraphSchema.Types.Supplied

/-! The forms of data that resolvers read from arguments and return: the scalars, the
values of an enum, and options and lists of these. A form says which type its data
has here, which shape it promises, how it is read from an argument and how it is
produced. -/
namespace GraphSchema

inductive Form where
  | string
  | id
  | int
  | float
  | boolean
  | leaf (backing : String)
  | option (form : Form)
  | list (form : Form)
  deriving DecidableEq, Repr

namespace Form

abbrev Data : Form → Type
  | string | id => String
  | int => Int
  | float => Double
  | boolean => Bool
  | leaf _ => Int
  | option form => Option form.Data
  | list form => List form.Data

def shape : Form → Shape
  | string => .scalar .string
  | id => .scalar .id
  | int => .scalar .int
  | float => .scalar .float
  | boolean => .scalar .boolean
  | leaf backing => .leaf backing
  | option form => .nullable form.shape
  | list form => .list form.shape

/-- A float that is infinite or no number is produced as null. -/
def produce {M : Type} : (form : Form) → form.Data → Produced M
  | string, s | id, s => .value (.string s)
  | int, n => .value (.number (.int n))
  | float, x => match Number.ofFloat? x with
    | some n => .value (.number n)
    | none => .null
  | boolean, b => .value (.boolean b)
  | leaf backing, n => .leaf ⟨backing, n⟩
  | option _, none => .null
  | option form, some x => form.produce x
  | list form, xs => .list (xs.map form.produce)

def unexpected {α : Type} (expected : String) (found : Supplied) : Except String α :=
  .error s!"expected {expected}, found {found.kind}"

/-- Reads an argument, or says why it is not of the form. -/
def read : (form : Form) → Supplied → Except String form.Data
  | string, input => match input with
    | .value (.string s) => .ok s
    | other => unexpected "String" other
  | id, input => match input with
    | .value (.string s) => .ok s
    | .value (.number n) => .ok n.text
    | other => unexpected "ID" other
  | int, input => match input with
    | .value (.number n) => match n.int32? with
      | some i => .ok i
      | none => .error (n.text ++ " is not a 32-bit integer")
    | other => unexpected "Int" other
  | float, input => match input with
    | .value (.number n) => .ok n.toDouble
    | other => unexpected "Float" other
  | boolean, input => match input with
    | .value (.boolean b) => .ok b
    | other => unexpected "Boolean" other
  | leaf backing, input => match input with
    | .leaf l => if l.backing = backing then .ok l.value else .error s!"expected {backing}"
    | other => unexpected backing other
  | option form, input => match input with
    | .null => .ok none
    | other => (form.read other).map some
  | list form, input => match input with
    | .list items => items.mapM form.read
    | other => unexpected "list" other

/-- Reads the named argument; the error says which one it was. -/
def get (form : Form) (args : Arguments) (name : String) : Except String form.Data :=
  match form.read (args.get name) with
  | .ok x => .ok x
  | .error message => .error s!"argument \x60{name}\x60: {message}"

end Form

end GraphSchema
