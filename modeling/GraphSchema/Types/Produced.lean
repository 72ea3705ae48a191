import GraphSchema.Types.Shape
import GraphSchema.Value.Text

/-! What resolvers and properties yield, before it is checked against the type of the
field. `M` is the type of the backing values of the program at hand. -/
namespace GraphSchema

/-- An internal value of an enum: the backing it belongs to and its number there. Which of them
are equal for an enum is told by its `EnumDef.same`. -/
structure Leaf where
  backing : String
  value : Int
  deriving DecidableEq, Repr

inductive Produced (M : Type) where
  | null
  | value (v : Value)
  | leaf (l : Leaf)
  | list (items : List (Produced M))
  | model (m : M)

namespace Produced

variable {M : Type}

def isNull : Produced M → Bool
  | null => true
  | _ => false

/-- What was found, for messages about the wrong kind of value. -/
def kind : Produced M → String
  | null => "null"
  | value _ => "a scalar"
  | leaf _ => "an enum value"
  | list _ => "a list"
  | model _ => "an object"

mutual

/-- Enum values and models are closed to inspection. -/
def inspect : Produced M → String
  | null => "Null"
  | value v => "Value(" ++ v.inspect ++ ")"
  | leaf _ => "Leaf(..)"
  | list items => "List([" ++ ", ".intercalate (inspectItems items) ++ "])"
  | model _ => "Model(..)"

def inspectItems : List (Produced M) → List String
  | [] => []
  | p :: ps => inspect p :: inspectItems ps

end

end Produced

/-- A named property of a backing, with what reading it yields. -/
structure Property where
  name : String
  shape : Shape
  deriving DecidableEq, Repr

/-- Backing values tell which backing they belong to. -/
class Backed (M : Type) where
  backing : M → Backing
  /-- The value that the roots resolve against. -/
  unit : M
  backing_unit : backing unit = .unit

/-- A kind of backing value as a type is declared over it. Reading may use and change `W`, the
state of the world outside the schema. -/
structure Model (M W : Type) where
  backing : Backing
  properties : List Property
  /-- Reads a property by its exposed name; a value of another backing has none. -/
  read : M → String → W → Option (Produced M) × W

/-- The model of the roots. -/
def Model.unit (M W : Type) : Model M W := ⟨.unit, [], fun _ _ w => (none, w)⟩

end GraphSchema
