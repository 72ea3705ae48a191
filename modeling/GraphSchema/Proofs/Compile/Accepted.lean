import Mathlib.Data.List.Nodup
import GraphSchema.Proofs.Compile.Promises
import GraphSchema.Proofs.Compile.Reach

/-! What compiling accepts.

The checks are spread over the passes of a compilation: names are looked at while the
types are visited, interfaces, unions and enums before anything is built, fields and
defaults while it is. Every type that the roots reach goes through all of them,
however it is reached, so a catalog that compiles is well formed from the roots on
(`compile_accepts`). -/
namespace GraphSchema

open Except

variable {M C W : Type} {c : Catalog M C W} {d : Description} {w : Walk M C W}
  {st : Store M C W} {s : Schema M C W}

namespace Catalog

/-! ### Accepted types -/

/-- The defaults of the arguments are values of their types. -/
def DefaultsConvert (c : Catalog M C W) (f : Field M C W) : Prop :=
  ∀ a ∈ f.arguments, ∀ x ∈ a.default, ∃ v, Link.defaultValue c a.type x = .ok v

/-- The field gets its value from where its object has one, of a shape that fits its type. -/
def Yields (c : Catalog M C W) (model : Model M W) (f : Field M C W) : Prop :=
  match f.body with
  | .property => ∃ p ∈ model.properties, p.name = f.name ∧ p.shape.produces c.backing? f.type = true
  | .resolver shape _ => shape.produces c.backing? f.type = true
  | .abstract => False

/-- The field of an object does what the field of an interface promises of it. -/
structure StandsFor (c : Catalog M C W) (f promised : Field M C W) : Prop where
  name : f.name = promised.name
  subtype : c.Subtype f.type promised.type
  arguments : ∀ a ∈ promised.arguments, ∃ b ∈ f.arguments, b.name = a.name ∧ b.type = a.type

/-- The possible types of an abstract type can be told apart. -/
def Distinguishes (c : Catalog M C W) (resolveType : Option (M → Option String))
    (possible : List Handle) : Prop :=
  2 ≤ possible.length → resolveType = none →
    ∀ h ∈ possible, ∃ o, c.object? h = some o ∧ o.isTypeOf.isSome

/-- What holds of each type of a compiled catalog, by its kind and the fields in its cell. -/
def Accepts (c : Catalog M C W) (memo : Memo (List (Field M C W))) (h : Handle) :
    Kind M C W → Prop
  | .object o =>
    FieldsChecked (cellFields memo h) ∧
      (∀ f ∈ cellFields memo h, c.DefaultsConvert f ∧ c.Yields o.model f) ∧
      ∀ i ∈ o.interfaces, c.IsInterface i ∧
        ∀ promised ∈ cellFields memo i, ∃ f ∈ cellFields memo h, c.StandsFor f promised
  | .interface i =>
    FieldsChecked (cellFields memo h) ∧ (∀ f ∈ cellFields memo h, c.DefaultsConvert f) ∧
      c.Distinguishes i.resolveType (c.implementers h)
  | .union u => u.members ≠ [] ∧ c.Distinguishes u.resolveType u.members
  | .enum e => EnumValuesChecked e.values

end Catalog

theorem Walk.Finished.cellFields_eq (hw : Walk.Finished c d w st) {h : Handle}
    {t : TypeDef M C W} (hget : c.get? h = some t) (hkind : t.kind.hasFields = true)
    {fields : List (Field M C W)} (hfields : w.fields? h = some fields) :
    Catalog.cellFields st.memo h = fields := by
  rw [Catalog.cellFields, hw.ready hget hfields hkind]

namespace Link

/-! ### One check after another -/

theorem converts_of_defaultOf {typeName field : String} {a : Argument} {found : Option Value}
    (h : defaultOf c typeName field a = .ok found) :
    ∀ x ∈ a.default, ∃ v, defaultValue c a.type x = .ok v := by
  intro x hx
  rw [defaultOf, Option.mem_def.mp hx] at h
  cases hv : defaultValue c a.type x with
  | ok v => exact ⟨v, rfl⟩
  | error reason => simp [hv] at h

/-- The arguments that callers see are written with their defaults, so all of them convert. -/
theorem converts_of_infos {typeName : String} {f : Field M C W} {infos : List ArgumentInfo}
    (h : f.arguments.mapM (argumentInfo c typeName f.name) = .ok infos) : c.DefaultsConvert f := by
  intro a ha
  obtain ⟨info, -, hinfo⟩ := exists_of_mapM h ha
  exact converts_of_defaultOf (argumentInfo_ok hinfo).2.2

theorem yields_of_bodyOf {typeName : String} {model : Model M W} {f : Field M C W} {shape : Shape}
    {source : FieldSource M C W} (h : bodyOf typeName model f = .ok (shape, source))
    (hfit : shape.produces c.backing? f.type = true) : c.Yields model f := by
  unfold bodyOf at h
  unfold Catalog.Yields
  cases hbody : f.body with
  | property =>
    rw [hbody] at h
    dsimp only at h
    cases hp : model.properties.find? (·.name == f.name) with
    | none => simp [hp] at h
    | some p =>
      simp only [hp, Except.ok.injEq, Prod.mk.injEq] at h
      obtain ⟨rfl, -⟩ := h
      exact ⟨p, List.mem_of_find?_eq_some hp, by simpa using List.find?_some hp, hfit⟩
  | resolver shape' resolve =>
    rw [hbody] at h
    simp only [Except.ok.injEq, Prod.mk.injEq] at h
    obtain ⟨rfl, -⟩ := h
    exact hfit
  | abstract =>
    rw [hbody] at h
    cases h

theorem distinguishes_of_dispatcher {name : String} {resolveType : Option (M → Option String)}
    {possible : List Handle} {dispatcher : Dispatcher M}
    (h : Link.dispatcher c name resolveType possible = .ok dispatcher) :
    c.Distinguishes resolveType possible := by
  intro hmany hnone x hx
  unfold Link.dispatcher at h
  dsimp only at h
  split at h
  · split at h <;> cases h
  · next hfind =>
    have hall := List.find?_eq_none.mp hfind x hx
    have hambiguous : (decide (possible.length > 1) && resolveType.isNone) = true := by
      simp [hnone, Nat.lt_of_succ_le hmany]
    rw [hambiguous, Bool.true_and, Bool.not_eq_true, Bool.or_eq_false_iff] at hall
    obtain ⟨-, hpredicate⟩ := hall
    unfold predicate at hpredicate
    cases ho : c.object? x with
    | none => simp [ho] at hpredicate
    | some o =>
      rw [ho, Option.bind_some] at hpredicate
      exact ⟨o, rfl, by simpa [Option.isSome_iff_ne_none] using hpredicate⟩

theorem standsFor_of_implementation {interface object : String}
    {found expected : List (Field M C W)}
    (h : Check.implementation c interface object found expected = .ok ()) :
    ∀ promised ∈ expected, ∃ f ∈ found, c.StandsFor f promised := by
  intro promised hpromised
  obtain ⟨f, hf, hsubtype, harguments⟩ := Check.field_of_implementation h hpromised
  refine ⟨f, List.mem_of_find?_eq_some hf, by simpa using List.find?_some hf,
    Catalog.subtype_of_isSubtype hsubtype, fun a ha => ?_⟩
  obtain ⟨b, hb, htype⟩ := Check.argument_of_promisedArguments harguments ha
  exact ⟨b, List.mem_of_find?_eq_some hb, by simpa using List.find?_some hb, htype⟩

namespace Linking

/-! ### Kind by kind -/

/-- What an object lists as an interface is one, and its promises are kept. -/
theorem keeps_interface (hs : Linking c d w st s) {h : Handle} {t : ObjectType M C W}
    {def_ : TypeDef M C W} {o : ObjectDef M C W} {fields : List (Field M C W)}
    (ho : ObjectFrom c w h t def_ o fields) (ht : .object t ∈ s.types) {i : Handle}
    (hi : i ∈ o.interfaces) :
    c.IsInterface i ∧
      ∀ promised ∈ Catalog.cellFields st.memo i, ∃ f ∈ fields, c.StandsFor f promised := by
  have hvisited := visited_of_interface hs.walk ho hi
  have hname : c.nameOf i ∈ t.interfaces := by
    rw [ho.interfaces, mem_distinct]
    exact List.mem_map_of_mem hi
  obtain ⟨found, hfound, -⟩ := hs.interface_of_mem ht hname
  obtain ⟨x, xdef, idef, ifields, hx, hxname, hget, hkind, hifields, -, himplementations⟩ :=
    hs.building.interface_of_type? hfound
  cases hs.walk.sound.distinct x hx i hvisited hxname
  rw [hs.walk.cellFields_eq hget (by rw [hkind]; rfl) hifields]
  exact ⟨⟨xdef, idef, hget, hkind⟩,
    standsFor_of_implementation (hs.building.implementation ho hx hname himplementations)⟩

theorem accepts_object (hs : Linking c d w st s) {h : Handle} (hh : h ∈ w.visited)
    {def_ : TypeDef M C W} {o : ObjectDef M C W} (hget : c.get? h = some def_)
    (hkind : def_.kind = .object o) : c.Accepts st.memo h (.object o) := by
  obtain ⟨t, fields, ht, ho⟩ := hs.building.object_of_visited hh hget hkind
  rw [Catalog.Accepts, hs.walk.cellFields_eq hget (by rw [hkind]; rfl) ho.found]
  refine ⟨Check.fields_ok ho.checked, fun f hf => ?_, fun i hi => hs.keeps_interface ho ht hi⟩
  obtain ⟨plan, -, hplan⟩ := exists_of_mapM ho.planned hf
  have hfrom := plannedField_ok hplan
  obtain ⟨shape, hbody, hfit⟩ := hfrom.body
  exact ⟨converts_of_infos hfrom.infos, yields_of_bodyOf hbody hfit⟩

theorem accepts_interface (hs : Linking c d w st s) {h : Handle} (hh : h ∈ w.visited)
    {def_ : TypeDef M C W} {i : InterfaceDef M C W} (hget : c.get? h = some def_)
    (hkind : def_.kind = .interface i) : c.Accepts st.memo h (.interface i) := by
  obtain ⟨ty, -, hfinish⟩ := hs.finish_of_visited hh
  obtain ⟨fields, infos, hfields, hcheck, hinfos, -⟩ := finish_interface hget hkind hfinish
  have hprepared := hs.prepared hh
  simp only [prepare, hget, hkind] at hprepared
  obtain ⟨_, -, hprepared⟩ := bind_eq_ok hprepared
  obtain ⟨_, -, hprepared⟩ := bind_eq_ok hprepared
  obtain ⟨dispatcher, hdispatcher, -⟩ := bind_eq_ok hprepared
  rw [Catalog.Accepts, hs.walk.cellFields_eq hget (by rw [hkind]; rfl) hfields]
  refine ⟨Check.fields_ok hcheck, fun f hf => ?_, distinguishes_of_dispatcher hdispatcher⟩
  obtain ⟨info, -, hinfo⟩ := exists_of_mapM hinfos hf
  exact converts_of_infos (abstractField_ok hinfo).2

theorem accepts_union (hs : Linking c d w st s) {h : Handle} (hh : h ∈ w.visited)
    {def_ : TypeDef M C W} {u : UnionDef M} (hget : c.get? h = some def_)
    (hkind : def_.kind = .union u) : c.Accepts st.memo h (.union u) := by
  have hprepared := hs.prepared hh
  simp only [prepare, hget, hkind] at hprepared
  cases hempty : u.members.isEmpty with
  | true =>
    rw [hempty] at hprepared
    cases hprepared
  | false =>
    rw [hempty] at hprepared
    obtain ⟨dispatcher, hdispatcher, -⟩ := bind_eq_ok hprepared
    exact ⟨by simpa using hempty, distinguishes_of_dispatcher hdispatcher⟩

theorem accepts_enum (hs : Linking c d w st s) {h : Handle} (hh : h ∈ w.visited)
    {def_ : TypeDef M C W} {e : EnumDef} (hget : c.get? h = some def_)
    (hkind : def_.kind = .enum e) : c.Accepts st.memo h (.enum e) := by
  have hprepared := hs.prepared hh
  simp only [prepare, hget, hkind] at hprepared
  exact Check.enumValues_ok hprepared

theorem accepts (hs : Linking c d w st s) {h : Handle} (hh : h ∈ w.visited) {t : TypeDef M C W}
    (hget : c.get? h = some t) : c.Accepts st.memo h t.kind := by
  cases hkind : t.kind with
  | object o => exact hs.accepts_object hh hget hkind
  | interface i => exact hs.accepts_interface hh hget hkind
  | union u => exact hs.accepts_union hh hget hkind
  | enum e => exact hs.accepts_enum hh hget hkind

end Linking

end Link

namespace Catalog

/-- A field of an object of a compiled schema is planned from one that the object declares. -/
theorem declared_of_mem {st' : Store M C W} (hcompile : c.compile d st = (.ok s, st'))
    {t : ObjectType M C W} (ht : .object t ∈ s.types) {f : PlannedField M C W}
    (hf : f ∈ t.fields) :
    ∃ w x declared typeName model, Link.Linking c d w st' s ∧
      (∀ h, h ∈ w.visited ↔ c.Reaches st'.memo d h) ∧ c.Reaches st'.memo d x ∧
      c.nameOf x = t.name ∧ c.HasField st'.memo x declared ∧ declared.Checked ∧
      Link.PlannedFrom c w typeName model declared f := by
  obtain ⟨w, hs, hreached⟩ := visited_of_compile hcompile
  obtain ⟨x, hx, hfinish⟩ := hs.visited_of_mem ht
  obtain ⟨def_, o, fields, hfrom⟩ := Link.Linking.object_of_finish hx hfinish
  obtain ⟨declared, hdeclared, hplanned⟩ := (mem_of_mapM hfrom.planned f).mp hf
  have hcell := hs.walk.cellFields_eq hfrom.get (by rw [hfrom.kind]; rfl) hfrom.found
  refine ⟨w, x, declared, def_.name, o.model, hs, hreached, (hreached x).mp hx, ?_, ?_, ?_,
    Link.plannedField_ok hplanned⟩
  · rw [nameOf_eq hfrom.get, hfrom.name]
  · exact ⟨⟨def_, hfrom.get, by rw [hfrom.kind]; rfl⟩, hcell ▸ hdeclared⟩
  · exact (Check.fields_ok hfrom.checked).each declared hdeclared

/-- **Compiling accepts only what is well formed.** Whatever the roots of a compiled catalog reach
is a type of the catalog, its name is proper and no scalar's, and its definition has passed the
checks of its kind. No two of these types share a name, and the schema has just their names. -/
theorem compile_accepts {c : Catalog M C W} {d : Description} {st st' : Store M C W}
    {s : Schema M C W} (hcompile : c.compile d st = (.ok s, st')) :
    (∀ h, c.Reaches st'.memo d h → ∃ t, c.get? h = some t ∧ Text.Declarable t.name ∧
      (∀ k : Scalar, t.name ≠ k.name) ∧ c.Accepts st'.memo h t.kind) ∧
    (∀ h h', c.Reaches st'.memo d h → c.Reaches st'.memo d h' → c.nameOf h = c.nameOf h' →
      h = h') ∧
    s.typeNames.Nodup ∧
    ∀ name, name ∈ s.typeNames ↔ ∃ h, c.Reaches st'.memo d h ∧ c.nameOf h = name := by
  obtain ⟨w, hwalk, hlink⟩ := walk_of_compileAt hcompile
  have hs : Link.Linking c d w st' s := ⟨finished_of_walk hwalk, hlink⟩
  have htraverses := traverses_of_walk hwalk
  have hdistinct : ∀ h h', c.Reaches st'.memo d h → c.Reaches st'.memo d h' →
      c.nameOf h = c.nameOf h' → h = h' := fun h h' hh hh' =>
    hs.walk.sound.distinct h ((htraverses.reached h).mpr hh) h' ((htraverses.reached h').mpr hh')
  refine ⟨fun h hreach => ?_, hdistinct, ?_, fun name => ?_⟩
  · have hh := (htraverses.reached h).mpr hreach
    obtain ⟨t, hget⟩ := hs.walk.get? hh
    obtain ⟨hname, hbuiltin⟩ := hs.walk.sound.proper h hh
    rw [nameOf_eq hget] at hname hbuiltin
    refine ⟨t, hget, (Text.isDeclarable_iff _).mp hname, fun k hk => ?_, hs.accepts hh hget⟩
    rw [hk] at hbuiltin
    cases k <;> exact absurd hbuiltin (by decide)
  · rw [hs.typeNames_eq]
    exact List.Nodup.map_on (fun h hh h' hh' => hdistinct h h' ((htraverses.reached h).mp hh)
      ((htraverses.reached h').mp hh')) htraverses.nodup
  · rw [hs.typeNames_eq, List.mem_map]
    simp only [htraverses.reached]

/-- The root of the Star Wars schema is accepted with the rest of it. -/
theorem compile_accepts_starWars :
    (∃ t, StarWars.catalog.1.get? StarWars.catalog.2 = some t ∧ Text.Declarable t.name ∧
      (∀ k : Scalar, t.name ≠ k.name) ∧
      StarWars.catalog.1.Accepts Link.starWars.2.memo StarWars.catalog.2 t.kind) ∧
    Link.starWarsSchema.typeNames.Nodup := by
  obtain ⟨haccepts, -, hnodup, -⟩ := compile_accepts Link.starWars_compiles
  exact ⟨haccepts StarWars.catalog.2 (.root (List.mem_cons_self ..)), hnodup⟩

end Catalog

end GraphSchema
