import GraphSchema.Proofs.Compile.Link
import GraphSchema.Proofs.Direct.Linked
import GraphSchema.StarWars.Schema

/-! The plans of a linked schema.

A field of an object is planned from its declaration (`planned_of_object?`). If the
declaration takes each type for what it is and every interface has an implementer,
the plan only comes to types that the schema has: compiled schemas are linked in the
sense that direct evaluation needs (`linked_of_linking`). -/
namespace GraphSchema.Link

open Except Direct Execution

variable {M C W : Type} {c : Catalog M C W} {d : Description} {w : Walk M C W}
  {st : Store M C W} {s : Schema M C W}

/-! ### Fields of objects -/

/-- What a planned field takes over from its declaration. -/
structure PlannedFrom (c : Catalog M C W) (w : Walk M C W) (typeName : String) (model : Model M W)
    (declared : Field M C W) (f : PlannedField M C W) : Prop where
  body : ∃ shape, bodyOf typeName model declared = .ok (shape, f.plan.source) ∧
    shape.produces c.backing? declared.type = true
  arguments : declared.arguments.mapM (argumentPlan c typeName declared.name) = .ok f.plan.arguments
  output : outputPlan c w declared.type = .ok f.plan.output
  infos : declared.arguments.mapM (argumentInfo c typeName declared.name) = .ok f.info.arguments
  name : f.info.name = declared.name
  type : f.info.type = typeRef c declared.type

theorem plannedField_ok {typeName : String} {model : Model M W} {declared : Field M C W}
    {f : PlannedField M C W} (h : plannedField c w typeName model declared = .ok f) :
    PlannedFrom c w typeName model declared f := by
  obtain ⟨⟨shape, source⟩, hbody, h⟩ := bind_eq_ok h
  dsimp only at h
  cases hfit : shape.produces c.backing? declared.type with
  | false =>
    rw [hfit] at h
    cases h
  | true =>
    rw [hfit] at h
    obtain ⟨arguments, harguments, h⟩ := bind_eq_ok h
    obtain ⟨output, houtput, h⟩ := bind_eq_ok h
    obtain ⟨infos, hinfos, h⟩ := bind_eq_ok h
    cases h
    exact ⟨⟨shape, hbody, hfit⟩, harguments, houtput, hinfos, rfl, rfl⟩

/-- An object of a schema, with the definition that it was finished from. -/
structure ObjectFrom (c : Catalog M C W) (w : Walk M C W) (h : Handle) (t : ObjectType M C W)
    (def_ : TypeDef M C W) (o : ObjectDef M C W) (fields : List (Field M C W)) : Prop where
  visited : h ∈ w.visited
  get : c.get? h = some def_
  kind : def_.kind = .object o
  found : w.fields? h = some fields
  checked : Check.fields c def_.name fields = .ok ()
  planned : fields.mapM (plannedField c w def_.name o.model) = .ok t.fields
  name : t.name = def_.name
  interfaces : t.interfaces = distinct (o.interfaces.map c.nameOf)

/-- A visited object definition is an object of the schema, finished from it. -/
theorem Building.object_of_visited (hs : Building c d w st s) {h : Handle} (hh : h ∈ w.visited)
    {def_ : TypeDef M C W} {o : ObjectDef M C W} (hget : c.get? h = some def_)
    (hkind : def_.kind = .object o) :
    ∃ t fields, SchemaType.object t ∈ s.types ∧ ObjectFrom c w h t def_ o fields := by
  obtain ⟨ty, hty, hfinish⟩ := hs.finish_of_visited hh
  obtain ⟨fields, planned, hfields, hchecked, hplanned, rfl⟩ := finish_object hget hkind hfinish
  exact ⟨_, fields, hty, hh, hget, hkind, hfields, hchecked, hplanned, rfl, rfl⟩

namespace Linking

theorem object_of_finish {h : Handle} (hh : h ∈ w.visited) {t : ObjectType M C W}
    (hfinish : finish c w h = .ok (.object t)) :
    ∃ def_ o fields, ObjectFrom c w h t def_ o fields := by
  cases hget : c.get? h with
  | none => simp [finish, hget] at hfinish
  | some def_ =>
    cases hkind : def_.kind with
    | object o =>
      obtain ⟨fields, planned, hfields, hcheck, hplanned, heq⟩ := finish_object hget hkind hfinish
      cases heq
      exact ⟨def_, o, fields, hh, hget, hkind, hfields, hcheck, hplanned, rfl, rfl⟩
    | interface i =>
      obtain ⟨_, _, _, _, _, heq⟩ := finish_interface hget hkind hfinish
      cases heq
    | union u => cases finish_union hget hkind hfinish
    | enum e => cases finish_enum hget hkind hfinish

theorem object_of_object? (hs : Linking c d w st s) {name : String} {t : ObjectType M C W}
    (ht : s.object? name = some t) : ∃ h def_ o fields, ObjectFrom c w h t def_ o fields := by
  obtain ⟨h, hh, _, hfinish⟩ := hs.visited_of_type? (object?_eq_some ht)
  exact ⟨h, object_of_finish hh hfinish⟩

/-- A visited object definition is an object of the schema. -/
theorem object?_of_visited (hs : Linking c d w st s) {h : Handle} (hh : h ∈ w.visited)
    {def_ : TypeDef M C W} {o : ObjectDef M C W} (hget : c.get? h = some def_)
    (hkind : def_.kind = .object o) :
    ∃ t, s.object? def_.name = some t ∧ SchemaType.object t ∈ s.types ∧
      t.interfaces = distinct (o.interfaces.map c.nameOf) := by
  obtain ⟨ty, hmem, hfinish⟩ := hs.finish_of_visited hh
  have htype := hs.type?_eq hh hfinish
  obtain ⟨_, _, _, _, _, rfl⟩ := finish_object hget hkind hfinish
  rw [Catalog.nameOf_eq hget] at htype
  exact ⟨_, object?_of_type? htype, hmem, rfl⟩

end Linking

/-! ### Types within reach -/

/-- The types that a type expression mentions have been visited. -/
def Visited (w : Walk M C W) (ty : TypeExpr) : Prop := ∀ h ∈ ty.named, h ∈ w.visited

/-- At the core of a type as it is written stands the name of its named type. -/
theorem core_typeRef_of_named {ty : TypeExpr} {h : Handle} (hty : ty.named = some h) :
    (typeRef c ty).core = c.nameOf h := by
  induction ty with
  | list inner ih | nonNull inner ih => exact ih hty
  | scalar k => cases hty
  | _ =>
    cases hty
    rfl

/-- A declared field only mentions visited types. -/
theorem visited_of_field (hw : Walk.Finished c d w st) {h : Handle} {def_ : TypeDef M C W}
    {o : ObjectDef M C W} {fields : List (Field M C W)} (hget : c.get? h = some def_)
    (hkind : def_.kind = .object o) (hfields : w.fields? h = some fields) {f : Field M C W}
    (hf : f ∈ fields) : Visited w f.type := by
  intro x hx
  refine hw.mentions_visited (m := (x, def_.name ++ "." ++ f.name)) hget hfields ?_
  have hx' : f.type.named = some x := hx
  simp only [Walk.mentions, hkind, Walk.fieldMentions, List.mem_append, List.mem_flatMap,
    List.mem_map]
  exact .inl ⟨f, hf, x, by simp [hx'], rfl⟩

/-- The interfaces of an object are visited with it. -/
theorem visited_of_interface (hw : Walk.Finished c d w st) {h x : Handle} {t : ObjectType M C W}
    {def_ : TypeDef M C W} {o : ObjectDef M C W} {fields : List (Field M C W)}
    (ho : ObjectFrom c w h t def_ o fields) (hx : x ∈ o.interfaces) : x ∈ w.visited := by
  refine hw.mentions_visited (m := (x, def_.name)) ho.get ho.found ?_
  simp only [Walk.mentions, ho.kind, List.mem_append, List.mem_map]
  exact .inr ⟨x, hx, rfl⟩

/-- The members of a union are visited with it. -/
theorem visited_of_member (hw : Walk.Finished c d w st) {h x : Handle} (hh : h ∈ w.visited)
    {def_ : TypeDef M C W} {u : UnionDef M} (hget : c.get? h = some def_)
    (hkind : def_.kind = .union u) (hx : x ∈ u.members) : x ∈ w.visited := by
  obtain ⟨fields, hfields⟩ := Walk.fields?_of_mem (hw.sound.listed ▸ hh)
  refine hw.mentions_visited (m := (x, def_.name)) hget hfields ?_
  simp only [Walk.mentions, hkind, List.mem_map]
  exact ⟨x, hx, rfl⟩

/-- An interface of an object by its name is one by its handle. -/
theorem mem_interfaces (hw : Walk.Finished c d w st) {h x : Handle} {t : ObjectType M C W}
    {def_ : TypeDef M C W} {o : ObjectDef M C W} {fields : List (Field M C W)}
    (ho : ObjectFrom c w h t def_ o fields) (hx : x ∈ w.visited)
    (hname : c.nameOf x ∈ t.interfaces) : x ∈ o.interfaces := by
  rw [ho.interfaces, mem_distinct] at hname
  obtain ⟨y, hy, hname⟩ := List.mem_map.mp hname
  have hsame : y = x := hw.sound.distinct y (visited_of_interface hw ho hy) x hx hname
  exact hsame ▸ hy

theorem implementer_spec {h x : Handle} (hx : x ∈ c.implementers h) :
    ∃ def_ o, c.get? x = some def_ ∧ def_.kind = .object o ∧ h ∈ o.interfaces := by
  obtain ⟨o, ho, hmem⟩ := Catalog.mem_implementers.mp hx
  obtain ⟨def_, hget, hkind⟩ := Catalog.object?_eq_some.mp ho
  exact ⟨def_, o, hget, hkind, hmem⟩

/-! ### Fitting plans -/

/-- Whether each type that the expression mentions is of the kind it is taken for. -/
def isTagged (c : Catalog M C W) : TypeExpr → Bool
  | .scalar _ => true
  | .enum h => match c.get? h with
    | some { kind := .enum _, .. } => true
    | _ => false
  | .object h => match c.get? h with
    | some { kind := .object _, .. } => true
    | _ => false
  | .interface h => match c.get? h with
    | some { kind := .interface _, .. } => true
    | _ => false
  | .union h => match c.get? h with
    | some { kind := .union _, .. } => true
    | _ => false
  | .list inner | .nonNull inner => isTagged c inner

theorem enum_of_isTagged {h : Handle} (ht : isTagged c (.enum h) = true) :
    ∃ def_ e, c.get? h = some def_ ∧ def_.kind = .enum e := by
  unfold isTagged at ht
  split at ht
  · next e hget => exact ⟨_, e, hget, rfl⟩
  · cases ht

theorem object_of_isTagged {h : Handle} (ht : isTagged c (.object h) = true) :
    ∃ def_ o, c.get? h = some def_ ∧ def_.kind = .object o := by
  unfold isTagged at ht
  split at ht
  · next o hget => exact ⟨_, o, hget, rfl⟩
  · cases ht

theorem interface_of_isTagged {h : Handle} (ht : isTagged c (.interface h) = true) :
    ∃ def_ i, c.get? h = some def_ ∧ def_.kind = .interface i := by
  unfold isTagged at ht
  split at ht
  · next i hget => exact ⟨_, i, hget, rfl⟩
  · cases ht

theorem union_of_isTagged {h : Handle} (ht : isTagged c (.union h) = true) :
    ∃ def_ u, c.get? h = some def_ ∧ def_.kind = .union u := by
  unfold isTagged at ht
  split at ht
  · next u hget => exact ⟨_, u, hget, rfl⟩
  · cases ht

/-- What a schema needs of one of its types and compiling does not check: the fields take the types
they mention for what they are, as a union does its members, and an interface has implementers. -/
def isWellFormedType (c : Catalog M C W) (memo : Memo (List (Field M C W))) (h : Handle) :
    Kind M C W → Bool
  | .object _ => fieldsTagged
  | .interface _ => fieldsTagged && !(c.implementers h).isEmpty
  | .union u => u.members.all fun m => isTagged c (.object m)
  | .enum _ => true
where
  fieldsTagged : Bool :=
    match memo h.index with
    | .ready fields => fields.all fun f => isTagged c f.type
    | _ => true

/-- The types are all well formed, with the field lists in the cells. -/
def WellFormed (c : Catalog M C W) (memo : Memo (List (Field M C W))) (types : Handle → Prop) :
    Prop :=
  ∀ h def_, types h → c.get? h = some def_ → isWellFormedType c memo h def_.kind = true

/-- Whether every type of the catalog is well formed. -/
def isWellFormed (c : Catalog M C W) (memo : Memo (List (Field M C W))) : Bool :=
  c.handles.all fun h => (c.get? h).all fun def_ => isWellFormedType c memo h def_.kind

theorem wellFormed_of_isWellFormed {memo : Memo (List (Field M C W))}
    (h : isWellFormed c memo = true) (types : Handle → Prop) : WellFormed c memo types := by
  intro x def_ _ hget
  have hx : x ∈ c.handles := Catalog.mem_handles.mpr (by rw [hget]; rfl)
  have hall := List.all_eq_true.mp h x hx
  rwa [hget] at hall

namespace Linking

theorem fits_enum (hs : Linking c d w st s) {h : Handle} (hh : h ∈ w.visited)
    {def_ : TypeDef M C W} {e : EnumDef} (hget : c.get? h = some def_)
    (hkind : def_.kind = .enum e) : e.values ≠ [] := by
  have hprepared := hs.prepared hh
  simp only [prepare, hget, hkind, Check.enumValues] at hprepared
  intro hempty
  simp [hempty] at hprepared

theorem dispatcher_ok {name : String} {resolveType : Option (M → Option String)}
    {possible : List Handle} {dispatcher : Dispatcher M}
    (h : Link.dispatcher c name resolveType possible = .ok dispatcher) :
    dispatcher = ⟨name, resolveType, possible.map fun h => ⟨c.nameOf h, predicate c h⟩⟩ := by
  unfold Link.dispatcher at h
  dsimp only at h
  split at h
  · split at h <;> cases h
  · exact (Except.ok.inj h).symm

/-- The dispatcher of an interface or union fits if its possible types are objects that may stand
for it. -/
theorem fits_abstract {name : String} {resolveType : Option (M → Option String)}
    {possible : List Handle} {declared : String} (hne : possible ≠ [])
    (h : ∀ x ∈ possible, ∃ t, s.object? (c.nameOf x) = some t ∧
      concrete s declared (some (c.nameOf x)) = .ok t) :
    Fits s declared (.abstract (M := M)
      ⟨name, resolveType, possible.map fun x => ⟨c.nameOf x, predicate c x⟩⟩) := by
  refine ⟨by simpa using hne, fun candidate hcandidate => ?_⟩
  obtain ⟨x, hx, rfl⟩ := List.mem_map.mp hcandidate
  exact h x hx

theorem interface_member (hs : Linking c d w st s) {h x : Handle} (hh : h ∈ w.visited)
    {def_ : TypeDef M C W} {i : InterfaceDef M C W} (hget : c.get? h = some def_)
    (hkind : def_.kind = .interface i) (hx : x ∈ c.implementers h) :
    ∃ t, s.object? (c.nameOf x) = some t ∧
      concrete s (c.nameOf h) (some (c.nameOf x)) = .ok t := by
  obtain ⟨ty, _, hfinish⟩ := hs.finish_of_visited hh
  have htype := hs.type?_eq hh hfinish
  obtain ⟨fields, infos, hfields, _, _, rfl⟩ := finish_interface hget hkind hfinish
  obtain ⟨xdef, o, hxget, hxkind, himplements⟩ := implementer_spec hx
  have hxvisited : x ∈ w.visited := by
    refine hs.walk.mentions_visited (m := (x, def_.name)) hget hfields ?_
    simp only [Walk.mentions, hkind, List.mem_append, List.mem_map]
    exact .inr ⟨x, hx, rfl⟩
  obtain ⟨t, hobject, hmem, hinterfaces⟩ := hs.object?_of_visited hxvisited hxget hxkind
  rw [Catalog.nameOf_eq hxget]
  refine ⟨t, hobject, concrete_interface htype ?_ hobject⟩
  rw [← object?_name hobject]
  refine mem_possibleTypes_interface hmem ?_
  rw [hinterfaces, mem_distinct, ← Catalog.nameOf_eq hget]
  exact List.mem_map_of_mem himplements

theorem union_member_of_object (hs : Linking c d w st s) {h x : Handle} (hh : h ∈ w.visited)
    {def_ : TypeDef M C W} {u : UnionDef M} (hget : c.get? h = some def_)
    (hkind : def_.kind = .union u) (hx : x ∈ u.members) {o : ObjectDef M C W}
    (ho : c.object? x = some o) :
    ∃ t, s.object? (c.nameOf x) = some t ∧
      concrete s (c.nameOf h) (some (c.nameOf x)) = .ok t := by
  obtain ⟨ty, _, hfinish⟩ := hs.finish_of_visited hh
  have htype := hs.type?_eq hh hfinish
  rw [finish_union hget hkind hfinish] at htype
  obtain ⟨xdef, hxget, hxkind⟩ := Catalog.object?_eq_some.mp ho
  have hxvisited := visited_of_member hs.walk hh hget hkind hx
  obtain ⟨t, hobject, _, _⟩ := hs.object?_of_visited hxvisited hxget hxkind
  rw [Catalog.nameOf_eq hxget]
  refine ⟨t, hobject, concrete_union htype ?_ hobject⟩
  rw [mem_distinct, ← Catalog.nameOf_eq hxget]
  exact List.mem_map_of_mem hx

theorem union_member (hs : Linking c d w st s) (hwf : WellFormed c st.memo (· ∈ w.visited))
    {h x : Handle} (hh : h ∈ w.visited) {def_ : TypeDef M C W} {u : UnionDef M}
    (hget : c.get? h = some def_)
    (hkind : def_.kind = .union u) (hx : x ∈ u.members) :
    ∃ t, s.object? (c.nameOf x) = some t ∧
      concrete s (c.nameOf h) (some (c.nameOf x)) = .ok t := by
  have hmembers := hwf h def_ hh hget
  rw [hkind] at hmembers
  obtain ⟨xdef, o, hxget, hxkind⟩ := object_of_isTagged (List.all_eq_true.mp hmembers x hx)
  exact hs.union_member_of_object hh hget hkind hx
    (Catalog.object?_eq_some.mpr ⟨xdef, hxget, hxkind⟩)

theorem dispatcherOf_ok {h : Handle} {def_ : TypeDef M C W} (hget : c.get? h = some def_)
    {dispatcher : Dispatcher M} (hd : dispatcherOf c w h = .ok dispatcher) :
    h ∈ w.visited ∧ ∃ resolveType possible,
      possibleTypes c h def_ = some (resolveType, possible) ∧
      Link.dispatcher c def_.name resolveType possible = .ok dispatcher := by
  simp only [dispatcherOf, hget] at hd
  cases hpossible : possibleTypes c h def_ with
  | none => simp [hpossible] at hd
  | some found =>
    obtain ⟨resolveType, possible⟩ := found
    simp only [hpossible] at hd
    by_cases hv : w.visited.contains h = true
    · rw [if_pos hv] at hd
      exact ⟨by simpa using hv, resolveType, possible, rfl, hd⟩
    · rw [if_neg hv] at hd
      cases hd

theorem fits_interface (hs : Linking c d w st s) (hwf : WellFormed c st.memo (· ∈ w.visited))
    {h : Handle} {def_ : TypeDef M C W} {i : InterfaceDef M C W} (hget : c.get? h = some def_)
    (hkind : def_.kind = .interface i) {dispatcher : Dispatcher M}
    (hd : dispatcherOf c w h = .ok dispatcher) :
    Fits s (c.nameOf h) (.abstract dispatcher) := by
  obtain ⟨hh, resolveType, possible, hpossible, hd⟩ := dispatcherOf_ok hget hd
  simp only [possibleTypes, hkind, Option.some.injEq, Prod.mk.injEq] at hpossible
  obtain ⟨-, rfl⟩ := hpossible
  rw [dispatcher_ok hd]
  have hwf' := hwf h def_ hh hget
  rw [hkind, isWellFormedType, Bool.and_eq_true] at hwf'
  exact fits_abstract (by simpa using hwf'.2) fun x hx => hs.interface_member hh hget hkind hx

theorem fits_union (hs : Linking c d w st s) (hwf : WellFormed c st.memo (· ∈ w.visited))
    {h : Handle} {def_ : TypeDef M C W} {u : UnionDef M} (hget : c.get? h = some def_)
    (hkind : def_.kind = .union u) {dispatcher : Dispatcher M}
    (hd : dispatcherOf c w h = .ok dispatcher) :
    Fits s (c.nameOf h) (.abstract dispatcher) := by
  obtain ⟨hh, resolveType, possible, hpossible, hd⟩ := dispatcherOf_ok hget hd
  simp only [possibleTypes, hkind, Option.some.injEq, Prod.mk.injEq] at hpossible
  obtain ⟨-, rfl⟩ := hpossible
  rw [dispatcher_ok hd]
  refine fits_abstract ?_ fun x hx => hs.union_member hwf hh hget hkind hx
  -- a union without members does not pass its own check
  have hprepared := hs.prepared hh
  simp only [prepare, hget, hkind] at hprepared
  intro hempty
  simp [hempty] at hprepared
  cases hprepared

theorem fits_object (hs : Linking c d w st s) {h : Handle} (hh : h ∈ w.visited)
    {def_ : TypeDef M C W} {o : ObjectDef M C W} (hget : c.get? h = some def_)
    (hkind : def_.kind = .object o) (isTypeOf : Option (M → Bool)) :
    Fits s (c.nameOf h) (.object def_.name isTypeOf) := by
  obtain ⟨t, hobject, _, _⟩ := hs.object?_of_visited hh hget hkind
  refine ⟨t, hobject, fun given => ?_⟩
  rw [Catalog.nameOf_eq hget]
  exact concrete_object hobject given

/-- The plan of a type expression fits the type that the expression writes. -/
theorem fits_outputPlan (hs : Linking c d w st s) (hwf : WellFormed c st.memo (· ∈ w.visited))
    {ty : TypeExpr} (htagged : isTagged c ty = true) (hvisited : Visited w ty) {plan : OutputPlan M}
    (hplan : outputPlan c w ty = .ok plan) : Fits s (typeRef c ty).core plan := by
  induction ty generalizing plan with
  | scalar k =>
    cases hplan
    exact hs.type?_scalar k
  | enum h =>
    obtain ⟨def_, e, hget, hkind⟩ := enum_of_isTagged htagged
    obtain ⟨found, hfound, rfl⟩ := map_eq_ok hplan
    rw [enumOf_eq_ok.mpr (Catalog.enum?_eq_some.mpr ⟨def_, hget, hkind⟩)] at hfound
    cases hfound
    exact hs.fits_enum (hvisited h rfl) hget hkind
  | object h =>
    obtain ⟨def_, o, hget, hkind⟩ := object_of_isTagged htagged
    simp only [outputPlan, hget, Except.ok.injEq] at hplan
    subst hplan
    exact hs.fits_object (hvisited h rfl) hget hkind _
  | interface h =>
    obtain ⟨def_, i, hget, hkind⟩ := interface_of_isTagged htagged
    obtain ⟨dispatcher, hdispatcher, rfl⟩ := map_eq_ok hplan
    exact hs.fits_interface hwf hget hkind hdispatcher
  | union h =>
    obtain ⟨def_, u, hget, hkind⟩ := union_of_isTagged htagged
    obtain ⟨dispatcher, hdispatcher, rfl⟩ := map_eq_ok hplan
    exact hs.fits_union hwf hget hkind hdispatcher
  | list inner ih =>
    obtain ⟨plan, hinner, rfl⟩ := map_eq_ok hplan
    have hfits := ih htagged hvisited hinner
    exact hfits
  | nonNull inner ih =>
    obtain ⟨plan, hinner, rfl⟩ := map_eq_ok hplan
    have hfits := ih htagged hvisited hinner
    exact hfits

/-- **The plans of a compiled schema only come to types that it has.** -/
theorem linked (hs : Linking c d w st s) (hwf : WellFormed c st.memo (· ∈ w.visited)) :
    Linked s := by
  intro name t ht f hf
  obtain ⟨h, def_, o, fields, hfrom⟩ := hs.object_of_object? ht
  obtain ⟨declared, hdeclared, hplanned⟩ := (mem_of_mapM hfrom.planned f).mp hf
  have hfield := plannedField_ok hplanned
  have hready := hs.walk.ready hfrom.get hfrom.found (by rw [hfrom.kind]; rfl)
  rw [hfield.type]
  refine hs.fits_outputPlan hwf ?_ (visited_of_field hs.walk hfrom.get hfrom.kind hfrom.found
    hdeclared) hfield.output
  have htagged := hwf h def_ hfrom.visited hfrom.get
  rw [hfrom.kind, isWellFormedType, isWellFormedType.fieldsTagged, hready] at htagged
  exact List.all_eq_true.mp htagged declared hdeclared

end Linking

/-! ### The Star Wars schema -/

/-- The catalog of the Star Wars schema, compiled without limits. Irreducible, as nothing but the
kernel gets far in unfolding it. -/
@[irreducible] def starWars :
    Except DefinitionError (Schema StarWars.Source StarWars.Context Unit) ×
      Store StarWars.Source StarWars.Context Unit :=
  StarWars.catalog.1.compile { query := StarWars.catalog.2 } ⟨Memo.fresh, ()⟩

def starWarsSchema : Schema StarWars.Source StarWars.Context Unit :=
  starWars.1.toOption.getD ⟨[], "", none, {}⟩

theorem starWars_compiles :
    StarWars.catalog.1.compile { query := StarWars.catalog.2 } ⟨Memo.fresh, ()⟩ =
      (.ok starWarsSchema, starWars.2) := by
  have heq : starWars = (.ok starWarsSchema, starWars.2) := Except.eq_ok_getD (by decide +kernel) _
  rw [← heq, starWars]

theorem starWars_wellFormed (types : Handle → Prop) :
    WellFormed StarWars.catalog.1 starWars.2.memo types :=
  wellFormed_of_isWellFormed (by decide +kernel) types

end GraphSchema.Link
