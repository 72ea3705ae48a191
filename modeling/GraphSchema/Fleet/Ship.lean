import GraphSchema.Types.Record

/-! Ships: a record with a field of every form there is, one that refers to another
ship, and identifiers that need some work to become names. -/
namespace GraphSchema.Fleet

structure Ship where
  name : String
  crewSize : Int
  homePort : Option String
  type : String
  hiddenFlag : Bool
  topSpeed2x : Double
  code : String
  tags : List String
  logs : Option (List (Option Int))
  sister : Option Ship
  motto : String

namespace Ship

def model : String := "Ship"

def sisterField : RecordField Ship Ship where
  ident := "sister"
  shape := .nullable (.model model)
  read s := match s.sister with
    | some other => .model other
    | none => .null

def fields : RecordFields Ship Ship := [
  .ofForm "name" .string (·.name),
  .ofForm "crew_size" .int (·.crewSize),
  .ofForm "home_port" (.option .string) (·.homePort),
  .ofForm "r#type" .string (·.type),
  .ofForm "_hidden__flag" .boolean (·.hiddenFlag),
  .ofForm "top_speed_2x" .float (·.topSpeed2x),
  .ofForm "code" .id (·.code),
  .ofForm "tags" (.list .string) (·.tags),
  .ofForm "logs" (.option (.list (.option .int))) (·.logs),
  sisterField,
  .ofForm "motto" .string (·.motto)]

def read? (s : Ship) (property : String) : Option (Produced Ship) := fields.read? s property

end Ship

/-- The mottos that a ship may bear. -/
def mottos : List String := ["per aspera", "", "ad astra"]

end GraphSchema.Fleet
