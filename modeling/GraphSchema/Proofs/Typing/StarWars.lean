import GraphSchema.Proofs.Typing.Schemas

/-! The Star Wars schema is typed: characters are records, and the resolvers of their
fields and of the root yield what they promise (`catalog_isTyped`). -/
namespace GraphSchema

/-- Records whose fields have names of their own are read as the shapes of the fields say. -/
theorem RecordFields.read?_inhabits {R M : Type} [Backed M] {fs : RecordFields R M}
    (hnodup : (fs.map (·.name)).Nodup) (h : ∀ f ∈ fs, ∀ r, (f.read r).Inhabits f.shape)
    {p : Property} (hp : p ∈ fs.properties) {r : R} {found : Produced M}
    (hfound : fs.read? r p.name = some found) : found.Inhabits p.shape := by
  obtain ⟨f, hf, rfl⟩ := List.mem_map.mp hp
  have hname : f.property.name = f.name := rfl
  rw [read?, hname, List.find?_of_nodup hnodup hf, Option.map_some, Option.some.injEq] at hfound
  exact hfound ▸ h f hf r

/-- The fields in a cell are such as the object declares. -/
theorem Store.Declared.ends {M C W : Type} {c : Catalog M C W} {st : Store M C W}
    (hst : st.Declared c) {h : Handle} {def_ : TypeDef M C W} (hget : c.get? h = some def_)
    {fields : List (Field M C W)} (hready : st.memo h.index = .ready fields) :
    ∃ thunk, def_.kind.fields? = some thunk ∧ thunk.Ends fields := by
  obtain ⟨t, thunk, ht, hthunk, hends⟩ := hst h.index fields hready
  rw [Catalog.types_of_get? hget, Option.some.injEq] at ht
  exact ⟨thunk, ht ▸ hthunk, hends⟩

namespace StarWars

/-! ### Characters -/

theorem optionalString_inRange (s : Option String) : (Form.option .string).inRange s = true := by
  cases s <;> rfl

theorem fields_inhabit : ∀ f ∈ Character.fields, ∀ c, (f.read c).Inhabits f.shape := by
  intro f hf c
  simp only [Character.fields, List.mem_cons, List.not_mem_nil, or_false] at hf
  rcases hf with rfl | rfl | rfl | rfl | rfl | rfl
  · exact Form.produce_inhabits .string rfl
  · exact Form.produce_inhabits .string rfl
  · exact Form.produce_inhabits (.list .string) (by simp [Form.inRange])
  · exact Form.produce_inhabits (.list Episode.form) (by simp [Form.inRange, Episode.form])
  · exact Form.produce_inhabits (.option .string) (optionalString_inRange _)
  · exact Form.produce_inhabits (.option .string) (optionalString_inRange _)

theorem characters_isTyped : (Source.characters Unit).IsTyped where
  isStatic := by decide +kernel
  inhabits p hp m w found hm hfound := by
    cases m with
    | root => cases hfound
    | character c => exact RecordFields.read?_inhabits (by decide +kernel) fields_inhabit hp hfound

theorem root_isTyped : (Model.unit Source Unit).IsTyped where
  isStatic p hp := by cases hp
  inhabits p hp := by cases hp

/-! ### Resolvers -/

theorem produceCharacter_inhabits (c : Option Character) :
    (produceCharacter c).Inhabits characterShape := by
  cases c with
  | none => exact .absent _
  | some c => exact .present (.model rfl)

theorem friends_isTyped : friendsBody.IsTyped Character.backing := by
  refine .resolver rfl fun m _ _ _ p _ h => ?_
  cases h
  cases m with
  | root => exact .list fun p hp => absurd hp List.not_mem_nil
  | character c =>
    refine .list fun p hp => ?_
    obtain ⟨found, _, rfl⟩ := List.mem_map.mp hp
    exact produceCharacter_inhabits found

theorem characterFields_isTyped {episode character : TypeExpr} {f : StarWarsField}
    (hf : f ∈ characterFields episode character) : f.body.IsTyped Character.backing := by
  simp only [characterFields, sharedFields, field, secret, List.mem_append, List.mem_cons,
    List.not_mem_nil, or_false] at hf
  rcases hf with (rfl | rfl | rfl | rfl) | rfl
  · exact .property
  · exact .property
  · exact .property
  · exact friends_isTyped
  · exact .resolver rfl fun _ _ _ _ _ _ h => by cases h

theorem humanFields_isTyped {episode character : TypeExpr} {f : StarWarsField}
    (hf : f ∈ humanFields episode character) : f.body.IsTyped Character.backing := by
  rcases List.mem_append.mp hf with hf | hf
  · exact characterFields_isTyped hf
  · rw [List.mem_singleton.mp hf]
    exact .property

theorem droidFields_isTyped {episode character : TypeExpr} {f : StarWarsField}
    (hf : f ∈ droidFields episode character) : f.body.IsTyped Character.backing := by
  rcases List.mem_append.mp hf with hf | hf
  · exact characterFields_isTyped hf
  · rw [List.mem_singleton.mp hf]
    exact .property

theorem finder_isTyped (name text : String) (type : TypeExpr) (idType : Scalar) (form : Form)
    (find : form.Data → Option Character) :
    (finder name text type idType form find).body.IsTyped .unit := by
  refine .resolver rfl fun _ arguments _ _ p _ h => ?_
  obtain ⟨x, _, h⟩ := Except.bind_eq_ok h
  cases h
  exact produceCharacter_inhabits (find x)

theorem queryFields_isTyped {episode character human droid : TypeExpr} {f : StarWarsField}
    (hf : f ∈ queryFields episode character human droid) : f.body.IsTyped .unit := by
  simp only [queryFields, List.mem_cons, List.not_mem_nil, or_false] at hf
  rcases hf with rfl | rfl | rfl | rfl
  · refine .resolver rfl fun _ arguments _ _ p _ h => ?_
    obtain ⟨number, _, h⟩ := Except.bind_eq_ok h
    cases h
    exact produceCharacter_inhabits _
  · exact finder_isTyped ..
  · exact finder_isTyped ..
  · refine .resolver rfl fun _ _ context _ p _ h => ?_
    cases h
    exact .string context.content

/-! ### The catalog -/

/-- The types of the catalog, without their texts and predicates. -/
theorem types_catalog : ∃ text values text' backing text'' human text''' droid,
    catalog.1.types = [
      ⟨"Episode", text, .enum ⟨Episode.backing, (· == ·), values⟩⟩,
      ⟨"Character", text', .interface backing⟩,
      ⟨"Human", text'', .object ⟨Source.characters Unit, [⟨0, 1⟩], human,
        some (.done (humanFields (.enum ⟨0, 0⟩) (.interface ⟨0, 1⟩)))⟩⟩,
      ⟨"Droid", text''', .object ⟨Source.characters Unit, [⟨0, 1⟩], droid,
        some (.done (droidFields (.enum ⟨0, 0⟩) (.interface ⟨0, 1⟩)))⟩⟩,
      ⟨"Query", none, .object ⟨Model.unit Source Unit, [], none,
        some (.done (queryFields (.enum ⟨0, 0⟩) (.interface ⟨0, 1⟩) (.object ⟨0, 2⟩)
          (.object ⟨0, 3⟩)))⟩⟩] :=
  ⟨_, _, _, _, _, _, _, _, rfl⟩

theorem ends_done {fields fields' : List StarWarsField} {o : ObjectDef Source Context Unit}
    (ho : o.fields = some (.done fields))
    (h : ∃ thunk, o.fields = some thunk ∧ thunk.Ends fields') : fields' = fields := by
  obtain ⟨thunk, hthunk, hends⟩ := h
  rw [ho, Option.some.injEq] at hthunk
  subst hthunk
  cases hends
  rfl

theorem backing?_character : ∀ i ∈ [(⟨0, 1⟩ : Handle)],
    catalog.1.backing? i = some Character.backing := by
  intro i hi
  rw [List.mem_singleton.mp hi]
  rfl

theorem object_isTyped {h : Handle} {def_ : TypeDef Source Context Unit}
    (hget : catalog.1.get? h = some def_) {o : ObjectDef Source Context Unit}
    (hkind : def_.kind = .object o) {cell : Cell (List StarWarsField)}
    (hcell : ∀ fields, cell = .ready fields → ∃ thunk, o.fields = some thunk ∧ thunk.Ends fields) :
    o.IsTyped catalog.1 cell := by
  have hmem := List.mem_of_getElem? (Catalog.types_of_get? hget)
  obtain ⟨_, _, _, _, _, _, _, _, htypes⟩ := types_catalog
  rw [htypes] at hmem
  simp only [List.mem_cons, List.not_mem_nil, or_false] at hmem
  rcases hmem with rfl | rfl | rfl | rfl | rfl
  · cases hkind
  · cases hkind
  · cases hkind
    refine ⟨characters_isTyped, fun fields hready f hf => ?_, backing?_character⟩
    exact humanFields_isTyped (ends_done rfl (hcell fields hready) ▸ hf)
  · cases hkind
    refine ⟨characters_isTyped, fun fields hready f hf => ?_, backing?_character⟩
    exact droidFields_isTyped (ends_done rfl (hcell fields hready) ▸ hf)
  · cases hkind
    refine ⟨root_isTyped, fun fields hready f hf => ?_, fun i hi => absurd hi List.not_mem_nil⟩
    exact queryFields_isTyped (ends_done rfl (hcell fields hready) ▸ hf)

theorem kind_ne_union {h : Handle} {def_ : TypeDef Source Context Unit}
    (hget : catalog.1.get? h = some def_) (u : UnionDef Source) : def_.kind ≠ .union u := by
  have hmem := List.mem_of_getElem? (Catalog.types_of_get? hget)
  obtain ⟨_, _, _, _, _, _, _, _, htypes⟩ := types_catalog
  rw [htypes] at hmem
  simp only [List.mem_cons, List.not_mem_nil, or_false] at hmem
  rcases hmem with rfl | rfl | rfl | rfl | rfl <;> simp

/-- **The Star Wars schema is typed**, whatever store of its catalog it is compiled in. -/
theorem catalog_isTyped {st : Store Source Context Unit} (hst : st.Declared catalog.1)
    (limits : Limits) (types : Handle → Prop) :
    catalog.1.IsTyped { query := catalog.2, limits } st.memo types where
  query := rfl
  mutation h hh := by cases hh
  object h def_ o _ hget hkind := object_isTyped hget hkind fun fields hready => by
    have hends := hst.ends hget hready
    rwa [hkind] at hends
  union h def_ u _ hget hkind := absurd hkind (kind_ne_union hget u)

end StarWars

end GraphSchema
