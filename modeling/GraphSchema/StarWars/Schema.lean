import GraphSchema.Catalog.Build
import GraphSchema.Compile.Basic
import GraphSchema.StarWars.Roster

/-! The Star Wars schema: an enum of episodes, the interface of characters with humans
and droids as its implementations, and the root of queries. -/
namespace GraphSchema.StarWars

/-- What comes with a request, for every resolver to see. -/
structure Context where
  content : String := ""
  deriving DecidableEq, Repr

abbrev StarWarsField := Field Source Context Unit

abbrev StarWarsThunk := Thunk Source Context Unit

/-! ### Fields -/

/-- A resolver that needs no world. -/
def pureResolver (backing : Backing)
    (resolve : Source → Arguments → Context → Except String (Produced Source)) :
    Resolver Source Context Unit :=
  Resolver.ofBacking backing fun source arguments context w => (resolve source arguments context, w)

def field (name : String) (type : TypeExpr) (body : FieldBody Source Context Unit)
    (description : Option String := none) (arguments : List Argument := []) : StarWarsField :=
  { name, description, deprecation := none, type, arguments, body }

def required (type : TypeExpr) : TypeExpr := .nonNull type

/-- A list without nulls that is never null itself. -/
def fullList (type : TypeExpr) : TypeExpr := .nonNull (.list (.nonNull type))

/-- A character that may be missing, as what a resolver yields. -/
def produceCharacter : Option Character → Produced Source
  | some c => .model (.character c)
  | none => .null

def characterShape : Shape := .nullable (.model Character.backing.name)

def friendsOf : Source → Produced Source
  | .character c => .list ((Roster.characters c.friends).map produceCharacter)
  | .root => .list []

/-- The fields that every character has, `body` giving each its source. -/
def sharedFields (episode character : TypeExpr) (body : String → FieldBody Source Context Unit) :
    List StarWarsField := [
  field "id" (required (.scalar .id)) (body "id") (some "The id of the character."),
  field "name" (required (.scalar .string)) (body "name") (some "The name of the character."),
  field "appearsIn" (fullList episode) (body "appearsIn") (some "Which movies they appear in."),
  field "friends" (.nonNull (.list character)) (body "friends")
    (some "The friends of the character, or an empty list if they have none.")]

def friendsBody : FieldBody Source Context Unit :=
  .resolver (.list characterShape) <|
    pureResolver Character.backing fun source _ _ => .ok (friendsOf source)

def secret : StarWarsField :=
  field "secretBackStory" (.scalar .string)
    (.resolver (.scalar .string) <|
      pureResolver Character.backing fun _ _ _ => .error "secretBackstory is secret")
    (some "Where are they from and how they came to be who they are.")

/-- The fields of an implementation of the interface, before its own. -/
def characterFields (episode character : TypeExpr) : List StarWarsField :=
  sharedFields episode character
    (fun name => if name = "friends" then friendsBody else .property) ++ [secret]

def humanFields (episode character : TypeExpr) : List StarWarsField :=
  characterFields episode character ++ [
    field "homePlanet" (.scalar .string) .property
      (some "The home planet of the human, or null if unknown.")]

def droidFields (episode character : TypeExpr) : List StarWarsField :=
  characterFields episode character ++ [
    field "primaryFunction" (required (.scalar .string)) .property
      (some "The primary function of the droid.")]

/-! ### The root -/

def hero (episode character : TypeExpr) : StarWarsField :=
  field "hero" character
    (.resolver characterShape <| pureResolver .unit fun _ arguments _ => do
      let number ← (Form.option Episode.form).get arguments "episode"
      return produceCharacter (Roster.hero? (number.bind Episode.ofNumber?)))
    none [{
      name := "episode"
      type := episode
      default := some (.leaf Episode.empire.leaf)
      description := some ("If omitted, returns the hero of The Empire Strikes Back. " ++
        "If provided, returns the hero of that particular episode.") }]

/-- A field that finds a character by an id of some form. -/
def finder (name idDescription : String) (type : TypeExpr) (idType : Scalar) (form : Form)
    (find : form.Data → Option Character) : StarWarsField :=
  field name type
    (.resolver characterShape <| pureResolver .unit fun _ arguments _ => do
      let x ← form.get arguments "id"
      return produceCharacter (find x))
    none [⟨"id", .nonNull (.scalar idType), none, some idDescription⟩]

def contextContent : StarWarsField :=
  field "contextContent" (.scalar .string) <|
    .resolver (.scalar .string) <| pureResolver .unit fun _ _ context =>
      .ok (.value (.string context.content))

def queryFields (episode character human droid : TypeExpr) : List StarWarsField := [
  hero episode character,
  finder "human" "id of the human" human .id .id Roster.human?,
  finder "droid" "ID of the droid" droid .string .string Roster.droid?,
  contextContent]

/-! ### The catalog -/

def isCharacterOf (p : Character → Bool) : Source → Bool
  | .character c => p c
  | .root => false

def episodeEnum (c : Catalog Source Context Unit) : Draft Source Context Unit :=
  (c.enum "Episode" Episode.backing (· == ·))
    |>.description "One of the films in the Star Wars Trilogy"
    |>.value "NEWHOPE" Episode.newHope.leaf
    |>.value "EMPIRE" Episode.empire.leaf
    |>.value "JEDI" Episode.jedi.leaf
    |>.describe "NEWHOPE" "Released in 1977."
    |>.describe "EMPIRE" "Released in 1980."
    |>.describe "JEDI" "Released in 1983."

/-- The catalog of the schema, and its root. -/
def catalog : Catalog Source Context Unit × Handle :=
  let model := Source.characters Unit
  let e := episodeEnum { id := 0 }
  let episode : TypeExpr := .enum e.handle
  let i := e.catalog.interface "Character" Character.backing
  let character : TypeExpr := .interface i.handle
  let i := (i.description "A character in the Star Wars Trilogy").interfaceFields
    (.done (sharedFields episode character fun _ => .abstract))
  let h := i.catalog.object "Human" model
  let h := h.description "A humanoid creature in the Star Wars universe."
    |>.implement i.handle
    |>.isTypeOf Character.backing (isCharacterOf Character.isHuman)
    |>.objectFields (.done (humanFields episode character))
  let d := h.catalog.object "Droid" model
  let d := d.description "A mechanical creature in the Star Wars universe."
    |>.implement i.handle
    |>.isTypeOf Character.backing (isCharacterOf Character.isDroid)
    |>.objectFields (.done (droidFields episode character))
  let q := d.catalog.query.objectFields
    (.done (queryFields episode character (.object h.handle) (.object d.handle)))
  (q.catalog, q.handle)

/-- The schema under the limits. -/
def schema (limits : Limits) : Except DefinitionError (Schema Source Context Unit) :=
  let (c, root) := catalog
  (c.compile { query := root, limits } ⟨Memo.fresh, ()⟩).1

end GraphSchema.StarWars
