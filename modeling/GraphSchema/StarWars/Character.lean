import GraphSchema.Types.Record

/-! The characters of the sample schema. Humans and droids are one record; what only
one of them has is optional. -/
namespace GraphSchema.StarWars

/-- A film of the first trilogy. -/
inductive Episode where
  | newHope
  | empire
  | jedi
  deriving DecidableEq, Repr

namespace Episode

def all : List Episode := [newHope, empire, jedi]

/-- Its place in the whole series. -/
def number : Episode → Int
  | newHope => 4
  | empire => 5
  | jedi => 6

def ofNumber? (n : Int) : Option Episode := all.find? (·.number == n)

theorem ofNumber?_number (e : Episode) : ofNumber? e.number = some e := by
  cases e <;> decide

/-- The backing of episodes. -/
def backing : String := "Episode"

def leaf (e : Episode) : Leaf := ⟨backing, e.number⟩

/-- The form that episodes have in arguments and results. -/
def form : Form := .leaf backing

end Episode

inductive Species where
  | human
  | droid
  deriving DecidableEq, Repr

structure Character where
  species : Species
  id : String
  name : String
  /-- The ids of the friends. -/
  friends : List String
  appearsIn : List Episode
  homePlanet : Option String := none
  primaryFunction : Option String := none
  deriving DecidableEq, Repr

/-- What a field of the schema is read from. -/
inductive Source where
  | root
  | character (c : Character)

namespace Character

def isHuman (c : Character) : Bool := c.species == .human

def isDroid (c : Character) : Bool := c.species == .droid

/-- The backing of characters. -/
def backing : Backing := .model "Character"

/-- The properties. The species is none of them. -/
def fields : RecordFields Character Source := [
  .ofForm "id" .string (·.id),
  .ofForm "name" .string (·.name),
  .ofForm "friends" (.list .string) (·.friends),
  .ofForm "appears_in" (.list Episode.form) (·.appearsIn.map (·.number)),
  .ofForm "home_planet" (.option .string) (·.homePlanet),
  .ofForm "primary_function" (.option .string) (·.primaryFunction)]

def property? (c : Character) (name : String) : Option (Produced Source) := fields.read? c name

end Character

namespace Source

instance : Backed Source where
  backing
    | root => .unit
    | character _ => Character.backing
  unit := root
  backing_unit := rfl

/-- The model of characters. Reading one changes nothing. -/
def characters (W : Type) : Model Source W where
  backing := Character.backing
  properties := Character.fields.properties
  read s name w := match s with
    | character c => (c.property? name, w)
    | root => (none, w)

end Source

end GraphSchema.StarWars
