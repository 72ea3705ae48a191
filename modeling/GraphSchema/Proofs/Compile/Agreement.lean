import GraphSchema.Proofs.Compile.Accepted

/-! Where the compiler and the last check disagree.

The compiler lets a field stand in for one of its interface if it only adds non-nulls,
or is of an object for its interface or union (`Catalog.Subtype`). The last check
compares names and allows non-nulls on the interface's side only, so of the fields
that the compiler lets pass it takes just those whose type is written like the
interface's (`accepts_iff_of_subtype`). A catalog that passes everything but the last
check is compiled if all fields are such, and else is refused for the first one that
is not (`compile_agrees`). -/
namespace GraphSchema

open Except

namespace TypeRef

/-- How many non-nulls stand in the type. -/
def nonNulls : TypeRef → Nat
  | named _ => 0
  | list inner => inner.nonNulls
  | nonNull inner => inner.nonNulls + 1

@[simp] theorem accepts_refl (ref : TypeRef) : ref.accepts ref = true := by
  induction ref with
  | named name => simp [accepts]
  | list inner ih | nonNull inner ih => rwa [accepts]

/-- A type accepts no type with fewer non-nulls, and with as many only itself. -/
theorem eq_of_accepts {ref sub : TypeRef} (h : ref.accepts sub = true) :
    ref.nonNulls ≤ sub.nonNulls ∧ (sub.nonNulls ≤ ref.nonNulls → ref = sub) := by
  induction ref, sub using accepts.induct with
  | case1 ref sub ih =>
    rw [accepts] at h
    obtain ⟨hle, heq⟩ := ih h
    simp only [nonNulls]
    exact ⟨by omega, fun hge => congrArg nonNull (heq (by omega))⟩
  | case2 ref sub hno ih =>
    rw [accepts] at h
    · obtain ⟨hle, -⟩ := ih h
      simp only [nonNulls]
      exact ⟨by omega, fun hge => by omega⟩
    · exact hno
  | case3 name sub =>
    have hname : name = sub := by simpa [accepts] using h
    exact ⟨Nat.le_refl _, fun _ => congrArg named hname⟩
  | case4 ref sub ih =>
    rw [accepts] at h
    obtain ⟨hle, heq⟩ := ih h
    exact ⟨hle, fun hge => congrArg list (heq hge)⟩
  | case5 ref sub => simp_all [accepts]

end TypeRef

variable {M C W : Type} {c : Catalog M C W} {d : Description} {w : Walk M C W}
  {st st' : Store M C W} {s : Schema M C W}

/-! ### One field -/

/-- What stands in for a type has all of its non-nulls. -/
theorem Catalog.Subtype.nonNulls_le {sub sup : TypeExpr} (h : c.Subtype sub sup) :
    (Link.typeRef c sup).nonNulls ≤ (Link.typeRef c sub).nonNulls := by
  induction h with
  | refl ty => exact Nat.le_refl _
  | nonNull _ ih => exact Nat.le_succ_of_le ih
  | nonNulls _ ih => exact Nat.succ_le_succ ih
  | list _ ih => exact ih
  | interface _ _ | union _ _ => exact Nat.le_refl 0

/-- Of the types that may stand in for one, the last check takes those that are written alike. -/
theorem accepts_iff_of_subtype {sub sup : TypeExpr} (h : c.Subtype sub sup) :
    (Link.typeRef c sub).accepts (Link.typeRef c sup) = true ↔
      Link.typeRef c sub = Link.typeRef c sup := by
  constructor
  · intro haccepts
    exact (TypeRef.eq_of_accepts haccepts).2 h.nonNulls_le
  · intro heq
    rw [heq]
    exact TypeRef.accepts_refl _

namespace Conformance

/-! ### What the last check reports -/

theorem exists_of_checkTypes_error {types : List (SchemaType M C W)} {reason : String}
    (h : checkTypes s types = .error reason) :
    ∃ t, .object t ∈ types ∧ checkObject s t t.interfaces = .error reason := by
  induction types with
  | nil => cases h
  | cons ty types ih =>
    cases ty with
    | object o =>
      rw [checkTypes] at h
      cases hobject : checkObject s o o.interfaces with
      | error reason' =>
        rw [hobject] at h
        cases h
        exact ⟨o, List.mem_cons_self, hobject⟩
      | ok u =>
        rw [hobject] at h
        obtain ⟨t, ht, hreason⟩ := ih h
        exact ⟨t, List.mem_cons_of_mem _ ht, hreason⟩
    | interface i | union u | enum e =>
      obtain ⟨t, ht, hreason⟩ := ih h
      exact ⟨t, List.mem_cons_of_mem _ ht, hreason⟩

/-- An object is refused for something that it lists and that is no interface, or for a field. -/
theorem exists_of_checkObject_error {t : ObjectType M C W} {names : List String} {reason : String}
    (h : checkObject s t names = .error reason) :
    ∃ name ∈ names,
      ((∀ i, s.type? name ≠ some (.interface i)) ∧
        reason = s!"Type \"{name}\" is not interface") ∨
      ∃ i field, s.type? name = some (.interface i) ∧ nonconforming? t i = some field ∧
        reason = message t.name i.name field := by
  induction names with
  | nil => cases h
  | cons name names ih =>
    rw [checkObject] at h
    split at h
    · next i hi =>
      cases hfield : nonconforming? t i with
      | none =>
        rw [hfield] at h
        obtain ⟨name', hname', hreason⟩ := ih h
        exact ⟨name', List.mem_cons_of_mem _ hname', hreason⟩
      | some field =>
        rw [hfield] at h
        cases h
        exact ⟨name, List.mem_cons_self, .inr ⟨i, field, hi, hfield, rfl⟩⟩
    · next hno =>
      cases h
      exact ⟨name, List.mem_cons_self, .inl ⟨fun i hi => hno i hi, rfl⟩⟩

/-- An object conforms to an interface if it has fields that accept the types of the interface's. -/
theorem nonconforming?_eq_none_iff {t : ObjectType M C W} {i : InterfaceType} :
    nonconforming? t i = none ↔ ∀ expected ∈ i.fields, ∃ f, t.field? expected.name = some f ∧
      f.info.type.accepts expected.type = true := by
  simp only [nonconforming?, Option.map_eq_none_iff, List.find?_eq_none]
  refine forall₂_congr fun expected _ => ?_
  cases t.field? expected.name <;> simp

theorem exists_of_nonconforming? {t : ObjectType M C W} {i : InterfaceType} {field : String}
    (h : nonconforming? t i = some field) :
    ∃ expected ∈ i.fields, expected.name = field ∧ ∀ f, t.field? expected.name = some f →
      f.info.type.accepts expected.type = false := by
  obtain ⟨expected, hfind, hname⟩ := Option.map_eq_some_iff.mp h
  have hrefused := List.find?_some hfind
  refine ⟨expected, List.mem_of_find?_eq_some hfind, hname, fun f hf => ?_⟩
  simpa [hf] using hrefused

end Conformance

/-! ### Fields that deviate -/

namespace Catalog

/-- The object's field stands in for the interface's field by the rule of the compiler, but its type
is written otherwise. -/
structure Deviates (c : Catalog M C W) (memo : Memo (List (Field M C W)))
    (object interface : Handle) (promised f : Field M C W) : Prop where
  declared : promised ∈ cellFields memo interface
  found : (cellFields memo object).find? (·.name == promised.name) = some f
  subtype : c.Subtype f.type promised.type
  differs : Link.typeRef c f.type ≠ Link.typeRef c promised.type

/-- What the objects within reach list as interfaces are such, and no field deviates from them. -/
def Conforms (c : Catalog M C W) (memo : Memo (List (Field M C W))) (d : Description) : Prop :=
  ∀ x o i, c.Reaches memo d x → c.object? x = some o → i ∈ o.interfaces →
    c.IsInterface i ∧ ∀ promised f, ¬ c.Deviates memo x i promised f

/-- What the last check reports: something that an object lists as an interface is none, or a field
of the object deviates. -/
inductive Refuses (c : Catalog M C W) (memo : Memo (List (Field M C W))) (x i : Handle) :
    String → Prop where
  | notInterface (h : ¬ c.IsInterface i) :
    Refuses c memo x i s!"Type \"{c.nameOf i}\" is not interface"
  | field {promised f : Field M C W} (h : c.Deviates memo x i promised f) :
    Refuses c memo x i (Conformance.message (c.nameOf x) (c.nameOf i) promised.name)

end Catalog

namespace Link

theorem abstractField_type {typeName : String} {x : Field M C W} {f : FieldInfo}
    (h : abstractField c typeName x = .ok f) : f.type = typeRef c x.type := by
  obtain ⟨infos, -, h⟩ := bind_eq_ok h
  cases h
  rfl

/-- The field of an object that an interface's field finds, with its declaration. -/
theorem ObjectFrom.field?_eq_some {h : Handle} {t : ObjectType M C W} {def_ : TypeDef M C W}
    {o : ObjectDef M C W} {fields : List (Field M C W)} (ho : ObjectFrom c w h t def_ o fields)
    {name : String} {declared : Field M C W}
    (hdeclared : fields.find? (·.name == name) = some declared) :
    ∃ f, t.field? name = some f ∧ f.info.type = typeRef c declared.type := by
  have hfind := find?_of_mapM (p := fun x : Field M C W => x.name == name)
    (q := fun f : PlannedField M C W => f.info.name == name)
    (fun x f h => by rw [(plannedField_ok h).name]) ho.planned
  rcases hfind with ⟨hnone, -⟩ | ⟨x, f, hx, hf, hplanned⟩
  · rw [hnone] at hdeclared
    cases hdeclared
  · rw [hx] at hdeclared
    cases hdeclared
    exact ⟨f, hf, (plannedField_ok hplanned).type⟩

namespace Building

variable {x i : Handle} {t : ObjectType M C W} {def_ : TypeDef M C W} {o : ObjectDef M C W}
  {fields : List (Field M C W)}

/-- An interface that an object lists, as the schema has it. -/
structure InterfaceFrom (c : Catalog M C W) (st : Store M C W) (i : Handle)
    (found : InterfaceType) (object : String) (fields : List (Field M C W)) : Prop where
  isInterface : c.IsInterface i
  name : found.name = c.nameOf i
  declared : ∃ typeName, (Catalog.cellFields st.memo i).mapM (abstractField c typeName) =
    .ok found.fields
  implemented : ∃ typeName,
    Check.implementation c typeName object fields (Catalog.cellFields st.memo i) = .ok ()

theorem interfaceFrom (hs : Building c d w st s) (ho : ObjectFrom c w x t def_ o fields)
    (hi : i ∈ o.interfaces) {found : InterfaceType}
    (hfound : s.type? (c.nameOf i) = some (.interface found)) :
    InterfaceFrom c st i found (c.nameOf x) fields := by
  have hlisted : c.nameOf i ∈ t.interfaces := by
    rw [ho.interfaces, mem_distinct]
    exact List.mem_map_of_mem hi
  obtain ⟨y, idef, ikind, ifields, hy, hyname, hget, hkind, hifields, hinfos, himplementations⟩ :=
    hs.interface_of_type? hfound
  have hsame : y = i := hs.walk.sound.distinct y hy i (visited_of_interface hs.walk ho hi) hyname
  subst hsame
  have hcell : Catalog.cellFields st.memo y = ifields :=
    hs.walk.cellFields_eq hget (by rw [hkind]; rfl) hifields
  have hname : (SchemaType.interface found : SchemaType M C W).name = c.nameOf y := by
    simpa using List.find?_some hfound
  subst hcell
  exact ⟨⟨idef, ikind, hget, hkind⟩, hname, ⟨_, hinfos⟩,
    ⟨_, hs.implementation ho hy hlisted himplementations⟩⟩

/-- A field of the interface, as the schema has it and as it is declared, with the object's field of
its name. The last check takes the latter just if the two types are written alike. -/
theorem InterfaceFrom.field (ho : ObjectFrom c w x t def_ o fields) {found : InterfaceType}
    (hfrom : InterfaceFrom c st i found (c.nameOf x) fields) {promised : Field M C W}
    (hpromised : promised ∈ Catalog.cellFields st.memo i) {typeName : String}
    {expected : FieldInfo} (hexpected : abstractField c typeName promised = .ok expected) :
    ∃ declared f, fields.find? (·.name == promised.name) = some declared ∧
      c.Subtype declared.type promised.type ∧ t.field? expected.name = some f ∧
      (f.info.type.accepts expected.type = true ↔
        typeRef c declared.type = typeRef c promised.type) := by
  obtain ⟨_, himplemented⟩ := hfrom.implemented
  obtain ⟨declared, hdeclared, hsubtype, -⟩ :=
    Check.field_of_implementation himplemented hpromised
  obtain ⟨f, hf, htype⟩ := ho.field?_eq_some hdeclared
  have hrule := Catalog.subtype_of_isSubtype hsubtype
  refine ⟨declared, f, hdeclared, hrule, ?_, ?_⟩
  · rw [(abstractField_ok hexpected).1]
    exact hf
  · rw [htype, abstractField_type hexpected]
    exact accepts_iff_of_subtype hrule

/-- No field of an object that conforms to an interface deviates from it. -/
theorem not_deviates (hs : Building c d w st s) (ho : ObjectFrom c w x t def_ o fields)
    {found : InterfaceType} (hfrom : InterfaceFrom c st i found (c.nameOf x) fields)
    (hconforms : Conformance.nonconforming? t found = none) (promised f : Field M C W) :
    ¬ c.Deviates st.memo x i promised f := by
  intro hdeviates
  obtain ⟨typeName, hinfos⟩ := hfrom.declared
  obtain ⟨expected, hmem, hexpected⟩ := exists_of_mapM hinfos hdeviates.declared
  obtain ⟨declared, g, hdeclared, -, hg, hiff⟩ := hfrom.field ho hdeviates.declared hexpected
  obtain ⟨g', hg', haccepts⟩ := Conformance.nonconforming?_eq_none_iff.mp hconforms expected hmem
  rw [hg] at hg'
  cases hg'
  have hfound := hdeviates.found
  rw [hs.walk.cellFields_eq ho.get (by rw [ho.kind]; rfl) ho.found, hdeclared] at hfound
  cases hfound
  exact hdeviates.differs (hiff.mp haccepts)

/-- The field that an object is refused for deviates. -/
theorem exists_deviates (hs : Building c d w st s) (ho : ObjectFrom c w x t def_ o fields)
    {found : InterfaceType} (hfrom : InterfaceFrom c st i found (c.nameOf x) fields)
    {field : String} (hfield : Conformance.nonconforming? t found = some field) :
    ∃ promised f, c.Deviates st.memo x i promised f ∧ promised.name = field := by
  obtain ⟨expected, hmem, hname, hrefused⟩ := Conformance.exists_of_nonconforming? hfield
  obtain ⟨typeName, hinfos⟩ := hfrom.declared
  obtain ⟨promised, hpromised, hexpected⟩ := (mem_of_mapM hinfos expected).mp hmem
  obtain ⟨declared, g, hdeclared, hsubtype, hg, hiff⟩ := hfrom.field ho hpromised hexpected
  have hcell := hs.walk.cellFields_eq ho.get (by rw [ho.kind]; rfl) ho.found
  refine ⟨promised, declared, ⟨hpromised, by rw [hcell]; exact hdeclared, hsubtype, ?_⟩, ?_⟩
  · intro heq
    have haccepts := hiff.mpr heq
    rw [hrefused g hg] at haccepts
    cases haccepts
  · rw [← hname, (abstractField_ok hexpected).1]

/-- After the last check, what an object lists as an interface is one and no field deviates. -/
theorem not_deviates_of_check (hs : Building c d w st s) (hcheck : Conformance.check s = .ok ())
    (hx : x ∈ w.visited) (ho : c.object? x = some o) (hi : i ∈ o.interfaces) :
    c.IsInterface i ∧ ∀ promised f, ¬ c.Deviates st.memo x i promised f := by
  obtain ⟨def_, hget, hkind⟩ := Catalog.object?_eq_some.mp ho
  obtain ⟨t, fields, ht, hobject⟩ := hs.object_of_visited hx hget hkind
  have hlisted : c.nameOf i ∈ t.interfaces := by
    rw [hobject.interfaces, mem_distinct]
    exact List.mem_map_of_mem hi
  obtain ⟨found, hfound, hconforms⟩ := Conformance.interface_of_checkObject
    (Conformance.checkObject_of_checkTypes hcheck ht) hlisted
  have hfrom := hs.interfaceFrom hobject hi hfound
  exact ⟨hfrom.isInterface, hs.not_deviates hobject hfrom hconforms⟩

/-- What the last check reports is of a visited object and something that it lists. -/
theorem refuses_of_check (hs : Building c d w st s) {reason : String}
    (hcheck : Conformance.check s = .error reason) :
    ∃ x ∈ w.visited, ∃ o i, c.object? x = some o ∧ i ∈ o.interfaces ∧
      c.Refuses st.memo x i reason := by
  obtain ⟨t, ht, hobject⟩ := Conformance.exists_of_checkTypes_error hcheck
  obtain ⟨x, hx, hfinish⟩ := hs.visited_of_mem ht
  obtain ⟨def_, o, fields, ho⟩ := Linking.object_of_finish hx hfinish
  obtain ⟨name, hname, hreason⟩ := Conformance.exists_of_checkObject_error hobject
  rw [ho.interfaces, mem_distinct] at hname
  obtain ⟨i, hi, rfl⟩ := List.mem_map.mp hname
  refine ⟨x, hx, o, i, Catalog.object?_eq_some.mpr ⟨def_, ho.get, ho.kind⟩, hi, ?_⟩
  rcases hreason with ⟨hnone, rfl⟩ | ⟨found, field, hfound, hfield, rfl⟩
  · refine .notInterface ?_
    rintro ⟨idef, ikind, hget, hkind⟩
    have hvisited := visited_of_interface hs.walk ho hi
    obtain ⟨ty, -, hfinish'⟩ := hs.finish_of_visited hvisited
    have htype := hs.type?_eq hvisited hfinish'
    obtain ⟨_, _, _, _, _, rfl⟩ := finish_interface hget hkind hfinish'
    exact hnone _ htype
  · have hfrom := hs.interfaceFrom ho hi hfound
    obtain ⟨promised, f, hdeviates, rfl⟩ := hs.exists_deviates ho hfrom hfield
    have hobjectName : t.name = c.nameOf x := finish_name hfinish
    rw [hobjectName, hfrom.name]
    exact .field hdeviates

end Building

end Link

/-! ### The two together -/

namespace Catalog

/-- All of the compiler's own checks pass: the walk ends and its types are finished. -/
structure Passes (c : Catalog M C W) (d : Description) (st : Store M C W) (w : Walk M C W)
    (st' : Store M C W) (types : List (SchemaType M C W)) : Prop where
  limits : d.limits.validate = .ok ()
  misuses : c.misuses = []
  walk : c.walk c.size c.size d st = (.ok w, st')
  prepared : Link.prepareAll c w w.visited = .ok ()
  finished : w.visited.mapM (Link.finish c w) = .ok types

namespace Passes

variable {types : List (SchemaType M C W)}

/-- The schema that only the last check is still to accept. -/
def schema (c : Catalog M C W) (d : Description) (types : List (SchemaType M C W)) :
    Schema M C W :=
  ⟨types, c.nameOf d.query, d.mutation.map c.nameOf, d.limits⟩

theorem building (h : c.Passes d st w st' types) :
    Link.Building c d w st' (schema c d types) :=
  ⟨finished_of_walk h.walk, h.prepared, h.finished⟩

/-- What is left of the compilation is the last check. -/
theorem compile_eq (h : c.Passes d st w st' types) :
    (c.compile d st).1 = match Conformance.check (schema c d types) with
      | .ok () => .ok (schema c d types)
      | .error reason => .error (.nonconforming reason) := by
  obtain ⟨w₀, hstart, hrun⟩ := walk_ok h.walk
  have hlink : (c.compile d st).1 = Link.schema c d w := by
    rw [compile, compileAt_eq, compileWith]
    simp only [h.limits, h.misuses, hstart, hrun]
  rw [hlink, Link.schema, h.prepared]
  show (w.visited.mapM (Link.finish c w) >>= _) = _
  rw [h.finished]
  show (match Conformance.check (schema c d types) with
    | .ok () => _
    | .error reason => _) = _
  cases Conformance.check (schema c d types) <;> rfl

theorem check_of_ok (h : c.Passes d st w st' types) {s : Schema M C W}
    (hs : (c.compile d st).1 = .ok s) : Conformance.check (schema c d types) = .ok () := by
  rw [h.compile_eq] at hs
  cases hcheck : Conformance.check (schema c d types) with
  | ok _ => rfl
  | error reason =>
    rw [hcheck] at hs
    cases hs

theorem check_of_error (h : c.Passes d st w st' types) {e : DefinitionError}
    (he : (c.compile d st).1 = .error e) :
    ∃ reason, Conformance.check (schema c d types) = .error reason ∧ e = .nonconforming reason := by
  rw [h.compile_eq] at he
  cases hcheck : Conformance.check (schema c d types) with
  | ok _ =>
    rw [hcheck] at he
    cases he
  | error reason =>
    rw [hcheck] at he
    cases he
    exact ⟨reason, rfl, rfl⟩

end Passes

/-- **Where the compiler and the last check agree.** When all of the compiler's own checks have
passed, compiling succeeds just if no field within reach deviates: each field of an object is
written with the very type of the interface's field, though the compiler's rule lets it be a
subtype. Otherwise the last check refuses the schema, for such a field or for an interface that is
none. -/
theorem compile_agrees {types : List (SchemaType M C W)} (h : c.Passes d st w st' types) :
    ((∃ s, (c.compile d st).1 = .ok s) ↔ c.Conforms st'.memo d) ∧
    ∀ e, (c.compile d st).1 = .error e → ∃ x o i reason, c.Reaches st'.memo d x ∧
      c.object? x = some o ∧ i ∈ o.interfaces ∧ c.Refuses st'.memo x i reason ∧
      e = .nonconforming reason := by
  have hreached := (traverses_of_walk h.walk).reached
  have herror : ∀ e, (c.compile d st).1 = .error e → ∃ x o i reason, c.Reaches st'.memo d x ∧
      c.object? x = some o ∧ i ∈ o.interfaces ∧ c.Refuses st'.memo x i reason ∧
      e = .nonconforming reason := by
    intro e he
    obtain ⟨reason, hcheck, rfl⟩ := h.check_of_error he
    obtain ⟨x, hx, o, i, ho, hi, hrefuses⟩ := h.building.refuses_of_check hcheck
    exact ⟨x, o, i, reason, (hreached x).mp hx, ho, hi, hrefuses, rfl⟩
  refine ⟨⟨?_, fun hconforms => ?_⟩, herror⟩
  · rintro ⟨s, hs⟩ x o i hx ho hi
    exact h.building.not_deviates_of_check (h.check_of_ok hs) ((hreached x).mpr hx) ho hi
  · cases hanswer : (c.compile d st).1 with
    | ok s => exact ⟨s, rfl⟩
    | error e =>
      obtain ⟨x, o, i, reason, hx, ho, hi, hrefuses, -⟩ := herror e hanswer
      obtain ⟨hinterface, hnone⟩ := hconforms x o i hx ho hi
      cases hrefuses with
      | notInterface hno => exact absurd hinterface hno
      | field hdeviates => exact absurd hdeviates (hnone _ _)

/-- An object whose own type stands in for its interface. -/
def deviant : Catalog Unit Unit Unit where
  id := 0
  types := [
    { name := "Query"
      kind := .object {
        model := .unit Unit Unit
        fields := some (.done [resolved "i" (.interface ⟨0, 1⟩)]) } },
    { name := "I"
      kind := .interface {
        backing := .unit
        fields := some (.done [⟨"friend", none, none, .interface ⟨0, 1⟩, [], .abstract⟩]) } },
    { name := "O"
      kind := .object {
        model := .unit Unit Unit
        interfaces := [⟨0, 1⟩]
        fields := some (.done [resolved "friend" (.object ⟨0, 2⟩)]) } }]
where
  resolved (name : String) (ty : TypeExpr) : Field Unit Unit Unit :=
    ⟨name, none, none, ty, [], .resolver .dynamic fun _ _ _ w => (.ok .null, w)⟩

theorem deviant_passes :
    ∃ w st' types, deviant.Passes { query := ⟨0, 0⟩ } ⟨Memo.fresh, ()⟩ w st' types := by
  have hall : (match deviant.walk 3 3 { query := ⟨0, 0⟩ } ⟨Memo.fresh, ()⟩ with
      | (.ok w, _) => (Link.prepareAll deviant w w.visited).isOk &&
          (w.visited.mapM (Link.finish deviant w)).isOk
      | (.error _, _) => false) = true := by
    decide +kernel
  rcases hwalk : deviant.walk 3 3 { query := ⟨0, 0⟩ } ⟨Memo.fresh, ()⟩ with ⟨_ | w, st'⟩
  · rw [hwalk] at hall
    cases hall
  · rw [hwalk] at hall
    obtain ⟨hprepared, hfinished⟩ := (Bool.and_eq_true_iff).mp hall
    obtain ⟨⟨⟩, hprepared⟩ := exists_of_isOk hprepared
    obtain ⟨types, htypes⟩ := exists_of_isOk hfinished
    exact ⟨w, st', types, rfl, rfl, hwalk, hprepared, htypes⟩

/-- Its compiler lets the object pass, and the last check does not. -/
theorem compile_agrees_deviant :
    ∃ w st' types, deviant.Passes { query := ⟨0, 0⟩ } ⟨Memo.fresh, ()⟩ w st' types ∧
      (deviant.compile { query := ⟨0, 0⟩ } ⟨Memo.fresh, ()⟩).1 =
        .error (.nonconforming "Field \"O.friend\" is not sub-type of \"I.friend\"") ∧
      ¬ deviant.Conforms st'.memo { query := ⟨0, 0⟩ } := by
  obtain ⟨w, st', types, hpasses⟩ := deviant_passes
  have hrefused : (deviant.compile { query := ⟨0, 0⟩ } ⟨Memo.fresh, ()⟩).1 =
      .error (.nonconforming "Field \"O.friend\" is not sub-type of \"I.friend\"") := by
    have hanswer : (match (deviant.compile { query := ⟨0, 0⟩ } ⟨Memo.fresh, ()⟩).1 with
        | .ok _ => none
        | .error e => some e) =
          some (.nonconforming "Field \"O.friend\" is not sub-type of \"I.friend\"") := by
      decide +kernel
    cases hcompile : (deviant.compile { query := ⟨0, 0⟩ } ⟨Memo.fresh, ()⟩).1 with
    | ok s =>
      rw [hcompile] at hanswer
      cases hanswer
    | error e =>
      rw [hcompile] at hanswer
      rw [Option.some.inj hanswer]
  refine ⟨w, st', types, hpasses, hrefused, fun hconforms => ?_⟩
  obtain ⟨s, hs⟩ := (compile_agrees hpasses).1.mpr hconforms
  rw [hrefused] at hs
  cases hs

end Catalog

end GraphSchema
