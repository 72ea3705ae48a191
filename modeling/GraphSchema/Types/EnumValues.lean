import GraphSchema.Types.Produced

/-! The values of an enum. Each has an external name and an internal value; a caller
sends the name and a resolver sees the internal value, and the other way round. Which
internal values are equal is up to the program that has them. -/
namespace GraphSchema

structure EnumValue where
  name : String
  description : Option String
  deprecation : Option String
  value : Leaf
  deriving DecidableEq, Repr

abbrev EnumValues := List EnumValue

/-- The internal value of the first value of that name. -/
def EnumValues.parse (values : EnumValues) (name : String) : Option Leaf :=
  (values.find? (·.name == name)).map (·.value)

structure EnumDef where
  /-- The backing that the internal values belong to. -/
  leaf : String
  /-- The equality of that backing, on the numbers of its values. It need not be an equivalence:
  as with floats, a value may differ from itself. -/
  equal : Int → Int → Bool
  values : EnumValues := []

namespace EnumDef

/-- Whether the first internal value equals the second; one of another backing equals none. -/
def same (e : EnumDef) (a b : Leaf) : Bool :=
  a.backing == e.leaf && b.backing == e.leaf && e.equal a.value b.value

/-- The name of the first value that equals the internal value. -/
def nameOf (e : EnumDef) (leaf : Leaf) : Option String :=
  (e.values.find? (e.same ·.value leaf)).map (·.name)

end EnumDef

end GraphSchema
