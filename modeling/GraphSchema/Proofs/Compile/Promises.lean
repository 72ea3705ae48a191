import GraphSchema.Proofs.Compile.Checks
import GraphSchema.Proofs.Compile.Plans

/-! What an interface promises of its objects.

A linked schema has been through two checks of each object against each of its
interfaces: that its fields take the arguments of the interface's fields
(`Check.implementation`), and that they yield the same named type (`Conformance`).
They may take further arguments, and have defaults of their own (`promised`). -/
namespace GraphSchema

open Except Direct

/-- A type that accepts another one is about the same named type. -/
theorem TypeRef.core_of_accepts {a b : TypeRef} (h : a.accepts b = true) : a.core = b.core := by
  induction b generalizing a with
  | named name =>
    cases a with
    | named name' => simpa [accepts, core] using h
    | _ => simp [accepts] at h
  | list inner ih =>
    cases a with
    | list inner' =>
      rw [accepts] at h
      have hcore : inner'.core = inner.core := ih h
      exact hcore
    | _ => simp [accepts] at h
  | nonNull inner ih =>
    cases a with
    | nonNull inner' =>
      rw [accepts] at h
      have hcore : inner'.core = inner.core := ih h
      exact hcore
    | named name =>
      rw [accepts] at h
      · exact ih h
      · nofun
    | list inner' =>
      rw [accepts] at h
      · exact ih h
      · nofun

variable {M C W : Type}

namespace Conformance

variable {s : Schema M C W}

/-- An interface of an object that has been checked. -/
theorem interface_of_checkObject {t : ObjectType M C W} {names : List String}
    (h : checkObject s t names = .ok ()) {name : String} (hname : name ∈ names) :
    ∃ i, s.type? name = some (.interface i) ∧ nonconforming? t i = none := by
  induction names with
  | nil => cases hname
  | cons x xs ih =>
    rw [checkObject] at h
    split at h
    · next i hi =>
      cases hconforms : nonconforming? t i with
      | some field => simp [hconforms] at h
      | none =>
        rw [hconforms] at h
        rcases List.mem_cons.mp hname with rfl | hname
        · exact ⟨i, hi, hconforms⟩
        · exact ih h hname
    · cases h

theorem checkObject_of_checkTypes {types : List (SchemaType M C W)}
    (h : checkTypes s types = .ok ()) {t : ObjectType M C W} (ht : .object t ∈ types) :
    checkObject s t t.interfaces = .ok () := by
  induction types with
  | nil => cases ht
  | cons ty types ih =>
    cases ty with
    | object o =>
      rw [checkTypes] at h
      cases hobject : checkObject s o o.interfaces with
      | error e => simp [hobject] at h
      | ok u =>
        rw [hobject] at h
        rcases List.mem_cons.mp ht with heq | ht
        · cases heq
          exact hobject
        · exact ih h ht
    | _ =>
      rcases List.mem_cons.mp ht with heq | ht
      · cases heq
      · exact ih h ht

theorem core_of_nonconforming? {t : ObjectType M C W} {i : InterfaceType}
    (h : nonconforming? t i = none) {expected : FieldInfo} (hexpected : expected ∈ i.fields)
    {f : PlannedField M C W} (hf : t.field? expected.name = some f) :
    f.info.type.core = expected.type.core := by
  have hnone := List.find?_eq_none.mp (Option.map_eq_none_iff.mp h) expected hexpected
  simp only [hf, Bool.not_eq_true', Bool.not_eq_false] at hnone
  exact TypeRef.core_of_accepts hnone

end Conformance

namespace Link

variable {c : Catalog M C W} {d : Description} {w : Walk M C W} {st : Store M C W}
  {s : Schema M C W}

/-! ### Defaults -/

/-- Only a null default stands for null. -/
theorem defaultValue_ne_null {ty : TypeExpr} {x : Default} (hx : x ≠ .null) {v : Value}
    (h : defaultValue c ty x = .ok v) : v ≠ .null := by
  induction ty generalizing x v with
  | nonNull inner ih =>
    cases x with
    | null => exact absurd rfl hx
    | _ => exact ih (by simp) h
  | list inner ih =>
    cases x with
    | null => exact absurd rfl hx
    | _ =>
      obtain ⟨_, _, rfl⟩ := map_eq_ok h
      simp
  | scalar k =>
    cases x with
    | null => exact absurd rfl hx
    | value y =>
      by_cases hy : k.holds y = true
      · simp only [defaultValue, hy, if_true, Except.ok.injEq] at h
        subst h
        rintro rfl
        cases k <;> cases hy
      · simp [defaultValue, hy, defaultValue.unfit] at h
    | _ => cases h
  | enum e =>
    cases x with
    | null => exact absurd rfl hx
    | leaf l =>
      rw [defaultValue] at h
      split at h
      · cases h
        simp
      · cases h
    | value y =>
      cases y with
      | enum name =>
        rw [defaultValue] at h
        split at h
        · cases h
          simp
        · cases h
      | _ => cases h
    | list items => cases h
  | object _ | interface _ | union _ =>
    cases x with
    | null => exact absurd rfl hx
    | _ => cases h

/-- The default of an argument that may not be null is no null. -/
theorem defaultOf_ne_null {typeName field : String} {a : Argument} {inner : TypeExpr}
    (htype : a.type = .nonNull inner) {found : Option Value}
    (h : defaultOf c typeName field a = .ok found) : found ≠ some .null := by
  unfold defaultOf at h
  cases hdefault : a.default with
  | none =>
    rw [hdefault] at h
    cases h
    simp
  | some x =>
    simp only [hdefault] at h
    cases hvalue : defaultValue c a.type x with
    | error e => simp [hvalue] at h
    | ok v =>
      simp only [hvalue, Except.ok.injEq] at h
      subst h
      have hx : x ≠ .null := by
        rintro rfl
        rw [htype] at hvalue
        cases hvalue
      simpa using defaultValue_ne_null hx hvalue

/-! ### Arguments -/

theorem argumentInfo_ok {typeName field : String} {x : Argument} {a : ArgumentInfo}
    (h : argumentInfo c typeName field x = .ok a) :
    a.name = x.name ∧ a.type = typeRef c x.type ∧
      defaultOf c typeName field x = .ok a.default := by
  obtain ⟨default, hdefault, h⟩ := bind_eq_ok h
  cases h
  exact ⟨rfl, rfl, hdefault⟩

theorem argumentPlan_ok {typeName field : String} {x : Argument} {p : ArgumentPlan}
    (h : argumentPlan c typeName field x = .ok p) :
    p.name = x.name ∧ defaultOf c typeName field x = .ok p.default := by
  obtain ⟨input, _, h⟩ := bind_eq_ok h
  obtain ⟨default, hdefault, h⟩ := bind_eq_ok h
  cases h
  exact ⟨rfl, hdefault⟩

/-- An argument as callers see it next to its plan: one default for both, which is no null where
none may be. -/
structure Alike (a : ArgumentInfo) (p : ArgumentPlan) : Prop where
  name : p.name = a.name
  default : p.default = a.default
  proper : a.type.isNonNull = true → a.default ≠ some .null

theorem isNonNull_typeRef {ty : TypeExpr} (h : (typeRef c ty).isNonNull = true) :
    ∃ inner, ty = .nonNull inner := by
  cases ty with
  | nonNull inner => exact ⟨inner, rfl⟩
  | _ => cases h

theorem alike {typeName field : String} {x : Argument} {a : ArgumentInfo} {p : ArgumentPlan}
    (ha : argumentInfo c typeName field x = .ok a)
    (hp : argumentPlan c typeName field x = .ok p) : Alike a p := by
  obtain ⟨hname, htype, hdefault⟩ := argumentInfo_ok ha
  obtain ⟨hname', hdefault'⟩ := argumentPlan_ok hp
  refine ⟨hname'.trans hname.symm, ?_, fun hstrict => ?_⟩
  · rw [hdefault] at hdefault'
    exact (Except.ok.inj hdefault').symm
  · obtain ⟨inner, hinner⟩ := isNonNull_typeRef (htype ▸ hstrict)
    exact defaultOf_ne_null hinner hdefault

namespace PlannedFrom

variable {typeName : String} {model : Model M W} {declared : Field M C W} {f : PlannedField M C W}

/-- The declared argument, the one that callers see, and the plan of it. -/
theorem argument?_eq_some (h : PlannedFrom c w typeName model declared f) {name : String}
    {x : Argument} (hx : declared.arguments.find? (·.name == name) = some x) :
    ∃ a p, f.info.argument? name = some a ∧
      f.plan.arguments.find? (·.name == name) = some p ∧
      argumentInfo c typeName declared.name x = .ok a ∧ Alike a p := by
  have hinfos := find?_of_mapM (p := fun x : Argument => x.name == name)
    (q := fun a : ArgumentInfo => a.name == name)
    (fun x a h => by rw [(argumentInfo_ok h).1]) h.infos
  have hplans := find?_of_mapM (p := fun x : Argument => x.name == name)
    (q := fun p : ArgumentPlan => p.name == name)
    (fun x p h => by rw [(argumentPlan_ok h).1]) h.arguments
  rw [hx] at hinfos hplans
  rcases hinfos with ⟨hnone, _⟩ | ⟨x', a, hx', ha, hax⟩
  · cases hnone
  · cases hx'
    rcases hplans with ⟨hnone, _⟩ | ⟨x', p, hx', hp, hpx⟩
    · cases hnone
    · cases hx'
      exact ⟨a, p, ha, hp, hax, alike hax hpx⟩

/-- Where the declared arguments have names of their own, each is found by its name. -/
theorem argument?_of_mem (h : PlannedFrom c w typeName model declared f)
    (hnodup : (declared.arguments.map (·.name)).Nodup) {a : ArgumentInfo}
    (ha : a ∈ f.info.arguments) :
    ∃ p, f.info.argument? a.name = some a ∧
      f.plan.arguments.find? (·.name == a.name) = some p ∧ Alike a p := by
  obtain ⟨x, hx, hax⟩ := (mem_of_mapM h.infos a).mp ha
  have hname : a.name = x.name := (argumentInfo_ok hax).1
  have hfind : declared.arguments.find? (·.name == a.name) = some x := by
    rw [hname]
    exact List.find?_of_nodup hnodup hx
  obtain ⟨a', p, ha', hp, hax', halike⟩ := h.argument?_eq_some hfind
  rw [hax] at hax'
  cases hax'
  exact ⟨p, ha', hp, halike⟩

end PlannedFrom

/-! ### Fields of objects and of interfaces -/

/-- A field of an object, found together with its declaration. -/
theorem ObjectFrom.field? {h : Handle} {t : ObjectType M C W} {def_ : TypeDef M C W}
    {o : ObjectDef M C W} {fields : List (Field M C W)} (ho : ObjectFrom c w h t def_ o fields)
    {name : String} {f : PlannedField M C W} (hf : t.field? name = some f) :
    ∃ declared, fields.find? (·.name == name) = some declared ∧
      PlannedFrom c w def_.name o.model declared f := by
  have hfind := find?_of_mapM (p := fun x : Field M C W => x.name == name)
    (q := fun f : PlannedField M C W => f.info.name == name)
    (fun x f h => by rw [(plannedField_ok h).name]) ho.planned
  rcases hfind with ⟨_, hnone⟩ | ⟨declared, f', hdeclared, hf', hplanned⟩
  · rw [ObjectType.field?, hnone] at hf
    cases hf
  · rw [ObjectType.field?, hf'] at hf
    cases hf
    exact ⟨declared, hdeclared, plannedField_ok hplanned⟩

theorem ObjectFrom.checked_of_find? {h : Handle} {t : ObjectType M C W} {def_ : TypeDef M C W}
    {o : ObjectDef M C W} {fields : List (Field M C W)} (ho : ObjectFrom c w h t def_ o fields)
    {name : String} {declared : Field M C W}
    (hdeclared : fields.find? (·.name == name) = some declared) :
    declared.name = name ∧ Text.isDeclarable declared.name = true ∧
      (declared.arguments.map (·.name)).Nodup := by
  have hchecked := (Check.fields_ok ho.checked).each declared (List.mem_of_find?_eq_some hdeclared)
  exact ⟨by simpa using List.find?_some hdeclared, (Text.isDeclarable_iff _).mpr hchecked.name,
    hchecked.nodup⟩

theorem abstractField_ok {typeName : String} {x : Field M C W} {f : FieldInfo}
    (h : abstractField c typeName x = .ok f) :
    f.name = x.name ∧ x.arguments.mapM (argumentInfo c typeName x.name) = .ok f.arguments := by
  obtain ⟨infos, hinfos, h⟩ := bind_eq_ok h
  cases h
  exact ⟨rfl, hinfos⟩

theorem implementation_of_mem {interface : String} {expected : List (Field M C W)}
    {hs : List Handle} (h : implementations c w interface expected hs = .ok ()) {x : Handle}
    (hx : x ∈ hs) :
    ∃ found, w.fields? x = some found ∧
      Check.implementation c interface (c.nameOf x) found expected = .ok () := by
  induction hs with
  | nil => cases hx
  | cons y ys ih =>
    obtain ⟨found, hfound, h⟩ := bind_eq_ok h
    obtain ⟨⟨⟩, hcheck, h⟩ := bind_eq_ok h
    rcases List.mem_cons.mp hx with rfl | hx
    · exact ⟨found, fieldsOf_ok hfound, hcheck⟩
    · exact ih h hx

/-- What a field of an interface promises of the objects' fields: to yield the same named type and
to take its arguments, each of the same type. -/
structure Promised (declared : FieldInfo) (f : FieldInfo) : Prop where
  core : f.type.core = declared.type.core
  arguments : ∀ a ∈ declared.arguments, ∃ b, f.argument? a.name = some b ∧ b.type = a.type

namespace Building

/-- An interface of the schema, with the definition that it was finished from. -/
theorem interface_of_type? (hs : Building c d w st s) {name : String} {i : InterfaceType}
    (hi : s.type? name = some (.interface i)) :
    ∃ h def_ idef fields, h ∈ w.visited ∧ c.nameOf h = name ∧ c.get? h = some def_ ∧
      def_.kind = .interface idef ∧ w.fields? h = some fields ∧
      fields.mapM (abstractField c def_.name) = .ok i.fields ∧
      implementations c w def_.name fields (c.implementers h) = .ok () := by
  obtain ⟨h, hh, hname, hfinish⟩ := hs.visited_of_type? hi
  cases hget : c.get? h with
  | none => simp [finish, hget] at hfinish
  | some def_ =>
    cases hkind : def_.kind with
    | interface idef =>
      obtain ⟨fields, infos, hfields, _, hinfos, heq⟩ := finish_interface hget hkind hfinish
      cases heq
      have hprepared := prepare_of_mem hs.prepared hh
      simp only [prepare, hget, hkind] at hprepared
      obtain ⟨fields', hfields', hprepared⟩ := bind_eq_ok hprepared
      obtain ⟨⟨⟩, himplementations, _⟩ := bind_eq_ok hprepared
      have hsame := fieldsOf_ok hfields'
      rw [hfields] at hsame
      cases hsame
      exact ⟨h, def_, idef, fields, hh, hname, hget, hkind, hfields, hinfos, himplementations⟩
    | object o =>
      obtain ⟨_, _, _, _, _, heq⟩ := finish_object hget hkind hfinish
      cases heq
    | union u => cases finish_union hget hkind hfinish
    | enum e => cases finish_enum hget hkind hfinish

/-- An interface of an object was checked against it. -/
theorem implementation (hs : Building c d w st s) {h x : Handle} {t : ObjectType M C W}
    {def_ : TypeDef M C W} {o : ObjectDef M C W} {fields : List (Field M C W)}
    (ho : ObjectFrom c w h t def_ o fields) (hx : x ∈ w.visited)
    (hname : c.nameOf x ∈ t.interfaces) {interface : String} {expected : List (Field M C W)}
    (himplementations : implementations c w interface expected (c.implementers x) = .ok ()) :
    Check.implementation c interface (c.nameOf h) fields expected = .ok () := by
  have hmember := mem_interfaces hs.walk ho hx hname
  have hmem : h ∈ c.implementers x :=
    Catalog.mem_implementers.mpr ⟨o, Catalog.object?_eq_some.mpr ⟨def_, ho.get, ho.kind⟩, hmember⟩
  obtain ⟨found, hfound, hcheck⟩ := implementation_of_mem himplementations hmem
  rw [ho.found] at hfound
  cases hfound
  exact hcheck

end Building

namespace Linking

theorem interface_of_mem (hs : Linking c d w st s) {t : ObjectType M C W}
    (ht : .object t ∈ s.types) {name : String} (hname : name ∈ t.interfaces) :
    ∃ i, s.type? name = some (.interface i) ∧ Conformance.nonconforming? t i = none :=
  Conformance.interface_of_checkObject
    (Conformance.checkObject_of_checkTypes (schema_ok hs.link).2.2.2.2.2 ht) hname

theorem union_of_type? (hs : Linking c d w st s) {h : Handle} (hh : h ∈ w.visited)
    {u : UnionType} (hu : s.type? (c.nameOf h) = some (.union u)) :
    ∃ def_ udef, c.get? h = some def_ ∧ def_.kind = .union udef ∧
      u.members = distinct (udef.members.map c.nameOf) := by
  obtain ⟨ty, _, hfinish⟩ := hs.finish_of_visited hh
  rw [hs.type?_eq hh hfinish] at hu
  cases hu
  cases hget : c.get? h with
  | none => simp [finish, hget] at hfinish
  | some def_ =>
    cases hkind : def_.kind with
    | union udef =>
      cases finish_union hget hkind hfinish
      exact ⟨def_, udef, rfl, hkind, rfl⟩
    | object o =>
      obtain ⟨_, _, _, _, _, heq⟩ := finish_object hget hkind hfinish
      cases heq
    | interface i =>
      obtain ⟨_, _, _, _, _, heq⟩ := finish_interface hget hkind hfinish
      cases heq
    | enum e => cases finish_enum hget hkind hfinish

/-- **A field of an object keeps the promise of each interface that has it.** -/
theorem promised (hs : Linking c d w st s) {name : String} {t : ObjectType M C W}
    (ht : s.object? name = some t) {i : InterfaceType} (hi : s.type? i.name = some (.interface i))
    (hmem : i.name ∈ t.interfaces) {field : String} {expected : FieldInfo}
    (hexpected : i.fields.find? (·.name == field) = some expected) {f : PlannedField M C W}
    (hf : t.field? field = some f) : Promised expected f.info := by
  obtain ⟨h, def_, o, fields, ho⟩ := hs.object_of_object? ht
  obtain ⟨x, xdef, _, xfields, hx, hxname, _, _, _, hinfos, himplementations⟩ :=
    hs.building.interface_of_type? hi
  have hcheck := hs.building.implementation ho hx (hxname ▸ hmem) himplementations
  obtain ⟨declared, hdeclared, hplanned⟩ := ho.field? hf
  have hname : expected.name = field := by simpa using List.find?_some hexpected
  refine ⟨?_, fun a ha => ?_⟩
  · obtain ⟨i', hi', hconforms⟩ :=
      hs.interface_of_mem (List.mem_of_find?_eq_some (object?_eq_some ht)) hmem
    rw [hi] at hi'
    cases hi'
    exact Conformance.core_of_nonconforming? hconforms (List.mem_of_find?_eq_some hexpected)
      (hname.symm ▸ hf)
  · obtain ⟨y, hy, hyinfo⟩ := (mem_of_mapM hinfos expected).mp (List.mem_of_find?_eq_some hexpected)
    obtain ⟨hyname, hyarguments⟩ := abstractField_ok hyinfo
    obtain ⟨g, hg, -, hpromised⟩ := Check.field_of_implementation hcheck hy
    rw [← hyname, hname, hdeclared] at hg
    cases hg
    obtain ⟨z, hz, hza⟩ := (mem_of_mapM hyarguments a).mp ha
    obtain ⟨b, hb, hbtype⟩ := Check.argument_of_promisedArguments hpromised hz
    obtain ⟨hzname, hztype, _⟩ := argumentInfo_ok hza
    obtain ⟨b', _, hb', _, hbinfo, _⟩ := hplanned.argument?_eq_some hb
    refine ⟨b', hzname ▸ hb', ?_⟩
    rw [(argumentInfo_ok hbinfo).2.1, hbtype, hztype]

end Linking

end Link

end GraphSchema
