import GraphSchema.Proofs.Completion.Flawless
import GraphSchema.Proofs.Run.Unsent
import GraphSchema.Proofs.Typing.StarWars

/-! What the fields of characters come to.

The friends of a character are on the roster as the character is (`friends_rostered`),
every droid has a function (`function_isSome`), and a character is taken for the type of
its species and for no other (`plan_character`, `plan_object`). So whatever a field of a
character of the roster produces has nothing wrong with it, and leads to characters of the
roster only (`Fine`); the one field that produces nothing is meant not to
(`tells_of_fieldsOf`). -/
namespace GraphSchema.StarWars

open Execution Link

/-! ### The roster -/

/-- The type that the characters of a species are of. -/
def Species.typeName : Species → String
  | human => "Human"
  | droid => "Droid"

theorem friends_rostered : ∀ c ∈ Roster.all, ∀ id ∈ c.friends,
    (Roster.character? id).isSome = true := by
  decide

theorem function_isSome : ∀ c ∈ Roster.all, c.species = .droid →
    c.primaryFunction.isSome = true := by
  decide

theorem mem_of_character? {id : String} {c : Character} (h : Roster.character? id = some c) :
    c ∈ Roster.all :=
  List.mem_of_find?_eq_some h

/-- The objects that a run may come to: the root, and characters of the roster as what they are. -/
inductive Meant : String → Source → Prop where
  | root : Meant "Query" .root
  | character {c : Character} (hc : c ∈ Roster.all) : Meant c.species.typeName (.character c)

/-! ### Types and their plans -/

/-- The handle of the type of a species. -/
def Species.handle : Species → Handle
  | human => ⟨0, 2⟩
  | droid => ⟨0, 3⟩

abbrev episode : TypeExpr := .enum ⟨0, 0⟩

abbrev character : TypeExpr := .interface ⟨0, 1⟩

/-- The values of the enum of episodes. -/
def episodes : EnumValues := [
  ⟨"NEWHOPE", some "Released in 1977.", none, Episode.newHope.leaf⟩,
  ⟨"EMPIRE", some "Released in 1980.", none, Episode.empire.leaf⟩,
  ⟨"JEDI", some "Released in 1983.", none, Episode.jedi.leaf⟩]

/-- Whether a model is a character of the species. -/
def isOf (species : Species) : Source → Bool
  | .character c => c.species == species
  | .root => false

variable {w : Walk Source Context Unit} {plan : OutputPlan Source}

theorem plan_object {species : Species}
    (h : outputPlan catalog.1 w (.object species.handle) = .ok plan) :
    ∃ p : Source → Bool, plan = .object species.typeName (some p) ∧ ∀ m, p m = isOf species m := by
  cases species <;> refine ⟨_, (Except.ok.inj h).symm, fun m => ?_⟩ <;> cases m <;> rfl

/-- A character is taken for the type of its species. -/
theorem plan_character (h : outputPlan catalog.1 w character = .ok plan) :
    ∃ d, plan = .abstract d ∧ ∀ c, d.resolve (.character c) = .ok c.species.typeName := by
  obtain ⟨d, hd, rfl⟩ := Except.map_eq_ok h
  obtain ⟨_, resolveType, possible, hpossible, hd⟩ := Linking.dispatcherOf_ok rfl hd
  cases hpossible
  rw [Linking.dispatcher_ok hd]
  refine ⟨_, rfl, fun c => ?_⟩
  obtain ⟨species, _, _, _, _, _, _⟩ := c
  cases species <;> rfl

/-! ### Values of the types -/

/-- A value that has nothing wrong with it, and that only objects which are meant are in. -/
structure Fine (plan : OutputPlan Source) (p : Produced Source) : Prop where
  flawless : plan.Flawless p
  meant : ∀ m name, p.Has m → plan.typeName? m = some name → Meant name m

theorem fine_null (h : plan.isNonNull = false) : Fine plan .null :=
  ⟨.null h, fun _ _ hm => nomatch hm⟩

theorem fine_scalar {k : Scalar} (h : outputPlan catalog.1 w (.scalar k) = .ok plan) {v : Value}
    (hv : k.holds v = true) : Fine plan (.value v) := by
  cases h
  exact ⟨.scalar hv, fun _ _ hm => nomatch hm⟩

theorem fine_required {k : Scalar} (h : outputPlan catalog.1 w (required (.scalar k)) = .ok plan)
    {v : Value} (hv : k.holds v = true) : Fine plan (.value v) := by
  cases h
  exact ⟨.nonNull rfl (.scalar hv), fun _ _ hm => nomatch hm⟩

/-- A text that may be missing. -/
theorem fine_text (h : outputPlan catalog.1 w (.scalar .string) = .ok plan)
    (text : Option String) : Fine plan ((Form.option .string).produce text) := by
  cases text with
  | none =>
    cases h
    exact fine_null rfl
  | some text => exact fine_scalar h rfl

theorem fine_episodes (h : outputPlan catalog.1 w (fullList episode) = .ok plan)
    (es : List Episode) : Fine plan (.list (es.map fun e => .leaf e.leaf)) := by
  cases h
  refine ⟨.nonNull rfl (.list (fun p hp => ?_) fun p hp => ?_), fun m _ hm => ?_⟩
  · obtain ⟨e, _, rfl⟩ := List.mem_map.mp hp
    rfl
  · obtain ⟨e, _, rfl⟩ := List.mem_map.mp hp
    cases e <;> exact .nonNull rfl (.enum rfl)
  · cases hm with
    | item hp hm =>
      obtain ⟨e, _, rfl⟩ := List.mem_map.mp hp
      cases hm

theorem fine_character (h : outputPlan catalog.1 w character = .ok plan)
    {found : Option Character} (hfound : ∀ c, found = some c → c ∈ Roster.all) :
    Fine plan (produceCharacter found) := by
  obtain ⟨d, rfl, hresolve⟩ := plan_character h
  cases found with
  | none => exact fine_null rfl
  | some c =>
    refine ⟨.abstract (hresolve c), fun m name hm hname => ?_⟩
    cases hm
    rw [OutputPlan.typeName?, hresolve] at hname
    exact Option.some.inj hname ▸ .character (hfound c rfl)

/-- One who was looked for among the characters of a species is recognised as one of them. -/
theorem fine_object {species : Species}
    (h : outputPlan catalog.1 w (.object species.handle) = .ok plan) {found : Option Character}
    (hfound : ∀ c, found = some c → c ∈ Roster.all ∧ c.species = species) :
    Fine plan (produceCharacter found) := by
  obtain ⟨p, rfl, hp⟩ := plan_object h
  cases found with
  | none => exact fine_null rfl
  | some c =>
    obtain ⟨hc, rfl⟩ := hfound c rfl
    refine ⟨.object ?_, fun m name hm hname => ?_⟩
    · rw [Option.all_some, hp, isOf, beq_self_eq_true]
    · cases hm
      rw [OutputPlan.typeName?] at hname
      obtain ⟨_, hname⟩ := Option.ite_none_right_eq_some.mp hname
      exact Option.some.inj hname ▸ .character hc

/-- Each friend is there, and is a character as any other. -/
theorem fine_friends (h : outputPlan catalog.1 w (.nonNull (.list character)) = .ok plan)
    {c : Character} (hc : c ∈ Roster.all) : Fine plan (friendsOf (.character c)) := by
  obtain ⟨_, hlist, rfl⟩ := Except.map_eq_ok h
  obtain ⟨inner, hitem, rfl⟩ := Except.map_eq_ok hlist
  have hfriend : ∀ p ∈ (Roster.characters c.friends).map produceCharacter,
      p.isNull = false ∧ Fine inner p := by
    intro p hp
    obtain ⟨found, hfound, rfl⟩ := List.mem_map.mp hp
    obtain ⟨id, hid, rfl⟩ := List.mem_map.mp hfound
    refine ⟨?_, fine_character hitem fun _ => mem_of_character?⟩
    obtain ⟨friend, hfriend⟩ := Option.isSome_iff_exists.mp (friends_rostered c hc id hid)
    rw [hfriend]
    rfl
  refine ⟨.nonNull rfl (.list (fun p hp => (hfriend p hp).1) fun p hp => (hfriend p hp).2.flawless),
    fun m name hm hname => ?_⟩
  cases hm with
  | item hp hm => exact (hfriend _ hp).2.meant m name hm hname

/-! ### Fields -/

variable {typeName : String} {declared : StarWarsField} {f : PlannedField Source Context Unit}
  {types : Query.Types}

/-- What becomes of a field of the object. -/
inductive Tells (types : Query.Types) (f : PlannedField Source Context Unit) (m : Source) :
    Prop where
  | secret (name : f.info.name = "secretBackStory") (loose : f.plan.output.isNonNull = false)
    (h : ∀ sent given, f.plan.produce m sent (some given) () =
      (.error "secretBackstory is secret", ()))
  | value (name : f.info.name ≠ "secretBackStory")
    (h : ∀ sent given, ∃ p, f.plan.produce m sent (some given) () = (.ok p, ()) ∧
      Fine f.plan.output p)
  /-- Only arguments that do not suit the field keep it from looking anyone up. -/
  | lookup (name : f.info.name ≠ "secretBackStory") (loose : f.plan.output.isNonNull = false)
    (h : ∀ sent given,
      (∃ p, f.plan.produce m sent (some given) () = (.ok p, ()) ∧ Fine f.plan.output p) ∨
        ∃ message, f.plan.produce m sent (some given) () = (.error message, ()) ∧
          ¬ Suits types f.info.arguments sent)

/-- A resolver is handed the arguments that it declares. -/
theorem produce_resolver {model : Model Source Unit}
    (h : PlannedFrom catalog.1 w typeName model declared f) {shape : Shape} {backing : Backing}
    {resolve : Source → Arguments → Context → Except String (Produced Source)}
    (hbody : declared.body = .resolver shape (pureResolver backing resolve)) {m : Source}
    (hm : Backed.backing m = backing) (sent : List (String × Value)) (given : Context) :
    f.plan.produce m sent (some given) () =
      (match ArgumentPlan.decodeAll f.plan.arguments sent with
        | .error e => .error e.message
        | .ok args => resolve m args given, ()) := by
  obtain ⟨shape', hsource, _⟩ := h.body
  simp only [bodyOf, hbody, Except.ok.injEq, Prod.mk.injEq] at hsource
  simp only [FieldPlan.produce, ← hsource.2, pureResolver, Resolver.ofBacking, hm, if_true]
  cases ArgumentPlan.decodeAll f.plan.arguments sent <;> rfl

theorem produce_bare {model : Model Source Unit}
    (h : PlannedFrom catalog.1 w typeName model declared f) {shape : Shape} {backing : Backing}
    {resolve : Source → Arguments → Context → Except String (Produced Source)}
    (hbody : declared.body = .resolver shape (pureResolver backing resolve))
    (harguments : declared.arguments = []) {m : Source} (hm : Backed.backing m = backing)
    (sent : List (String × Value)) (given : Context) :
    f.plan.produce m sent (some given) () = (resolve m [] given, ()) := by
  have hplans := h.arguments
  rw [harguments] at hplans
  rw [produce_resolver h hbody hm, ← Except.ok.inj hplans]
  rfl

/-- A property of a character is what its record holds. -/
theorem produce_property (h : PlannedFrom catalog.1 w typeName (Source.characters Unit) declared f)
    (hbody : declared.body = .property) (c : Character) (sent : List (String × Value))
    (given : Context) :
    f.plan.produce (.character c) sent (some given) () =
      (.ok ((c.property? declared.name).getD .null), ()) := by
  obtain ⟨shape, hsource, _⟩ := h.body
  obtain ⟨_, _, _, _, hsource⟩ := bodyOf_property hbody hsource
  simp only [FieldPlan.produce, hsource]
  rfl

theorem property?_appearsIn (c : Character) :
    (c.property? "appearsIn").getD .null = .list (c.appearsIn.map fun e => .leaf e.leaf) := by
  have hread : (c.property? "appearsIn").getD .null =
    .list ((c.appearsIn.map (·.number)).map fun n => .leaf ⟨Episode.backing, n⟩) := rfl
  rw [hread, List.map_map]
  rfl

/-! ### The fields of a character -/

/-- The fields that the type of the species declares. -/
def fieldsOf : Species → List StarWarsField
  | .human => humanFields episode character
  | .droid => droidFields episode character

theorem tells_of_property (h : PlannedFrom catalog.1 w typeName (Source.characters Unit) declared f)
    (hbody : declared.body = .property) (hname : declared.name ≠ "secretBackStory") {c : Character}
    (hfine : Fine f.plan.output ((c.property? declared.name).getD .null)) :
    Tells types f (.character c) :=
  .value (h.name ▸ hname) fun sent given => ⟨_, produce_property h hbody c sent given, hfine⟩

theorem tells_of_characterFields {c : Character} (hc : c ∈ Roster.all)
    (hd : declared ∈ characterFields episode character)
    (h : PlannedFrom catalog.1 w typeName (Source.characters Unit) declared f) :
    Tells types f (.character c) := by
  simp only [characterFields, sharedFields, field, secret, List.mem_append, List.mem_cons,
    List.not_mem_nil, or_false] at hd
  rcases hd with (rfl | rfl | rfl | rfl) | rfl
  · exact tells_of_property h rfl (by decide) (fine_required h.output rfl)
  · exact tells_of_property h rfl (by decide) (fine_required h.output rfl)
  · exact tells_of_property h rfl (by decide)
      (property?_appearsIn c ▸ fine_episodes h.output c.appearsIn)
  · exact .value (by rw [h.name]; decide) fun sent given =>
      ⟨_, produce_bare h rfl rfl rfl sent given, fine_friends h.output hc⟩
  · refine .secret h.name ?_ fun sent given => produce_bare h rfl rfl rfl sent given
    rw [← Except.ok.inj h.output]
    rfl

/-- **Of the fields of a character only its secret does not come to a value.** -/
theorem tells_of_fieldsOf {c : Character} (hc : c ∈ Roster.all)
    (hd : declared ∈ fieldsOf c.species)
    (h : PlannedFrom catalog.1 w typeName (Source.characters Unit) declared f) :
    Tells types f (.character c) := by
  cases hspecies : c.species with
  | human =>
    rw [hspecies] at hd
    rcases List.mem_append.mp hd with hd | hd
    · exact tells_of_characterFields hc hd h
    · cases List.mem_singleton.mp hd
      exact tells_of_property h rfl (by decide) (fine_text h.output c.homePlanet)
  | droid =>
    rw [hspecies] at hd
    rcases List.mem_append.mp hd with hd | hd
    · exact tells_of_characterFields hc hd h
    · cases List.mem_singleton.mp hd
      obtain ⟨text, htext⟩ := Option.isSome_iff_exists.mp (function_isSome c hc hspecies)
      have hproperty : (c.property? "primaryFunction").getD .null =
        (Form.option .string).produce c.primaryFunction := rfl
      rw [htext] at hproperty
      exact tells_of_property h rfl (by decide) (hproperty ▸ fine_required h.output rfl)

end GraphSchema.StarWars
