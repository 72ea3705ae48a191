import GraphSchema.StarWars.Character

/-! The roster of characters, and how they are found. -/
namespace GraphSchema.StarWars

namespace Roster

def human (id name : String) (friends : List String) (appearsIn : List Episode)
    (homePlanet : Option String) : Character :=
  { species := .human, id, name, friends, appearsIn, homePlanet }

def droid (id name : String) (friends : List String) (function : String) : Character :=
  { species := .droid, id, name, friends, appearsIn := Episode.all,
    primaryFunction := some function }

def all : List Character := [
  human "1000" "Luke Skywalker" ["1002", "1003", "2000", "2001"] Episode.all (some "Tatooine"),
  human "1001" "Darth Vader" ["1004"] Episode.all (some "Tatooine"),
  human "1002" "Han Solo" ["1000", "1003", "2001"] Episode.all none,
  human "1003" "Leia Organa" ["1000", "1002", "2000", "2001"] Episode.all (some "Alderaan"),
  human "1004" "Wilhuff Tarkin" ["1001"] [.newHope] none,
  droid "2000" "C-3PO" ["1000", "1002", "1003", "2001"] "Protocol",
  droid "2001" "R2-D2" ["1000", "1002", "1003"] "Astromech"]

def character? (id : String) : Option Character := all.find? (·.id == id)

/-- Looks up several characters, in the order of the ids. -/
def characters (ids : List String) : List (Option Character) := ids.map character?

/-- Luke is the hero of The Empire Strikes Back, R2-D2 of every other film. -/
def hero? (episode : Option Episode) : Option Character :=
  character? (if episode = some .empire then "1000" else "2001")

def human? (id : String) : Option Character := (character? id).filter (·.isHuman)

def droid? (id : String) : Option Character := (character? id).filter (·.isDroid)

end Roster

end GraphSchema.StarWars
