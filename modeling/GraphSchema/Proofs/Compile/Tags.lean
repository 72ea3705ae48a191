import GraphSchema.Proofs.Compile.Dispatch

/-! What a type is taken for, and what it is.

A declared type takes its named type for an enum, object, interface or union. Compiling
never compares that with the definition: it notices a disagreement where a plan needs the
values of an enum or the possible types of an interface or union, and an object needs
neither. So among the fields of objects interfaces and unions pass for each other and
anything passes for an object, and the fields of an interface that nothing implements have
no plans at all (`tags_admitted`). -/
namespace GraphSchema

open Except Link

variable {M C W : Type}

inductive Tag where
  | enum
  | object
  | interface
  | union
  deriving DecidableEq, Repr

namespace Tag

/-- Whether a type taken for the one kind may be of the other where a plan is made of it. -/
def admits : Tag → Tag → Bool
  | enum, kind => kind == enum
  | object, _ => true
  | interface, kind | union, kind => kind == interface || kind == union

end Tag

/-- What the type takes its named type for. -/
def TypeExpr.tagged? : TypeExpr → Option (Tag × Handle)
  | .scalar _ => none
  | .enum h => some (.enum, h)
  | .object h => some (.object, h)
  | .interface h => some (.interface, h)
  | .union h => some (.union, h)
  | .list inner | .nonNull inner => inner.tagged?

def Kind.tag : Kind M C W → Tag
  | .enum _ => .enum
  | .object _ => .object
  | .interface _ => .interface
  | .union _ => .union

theorem TypeExpr.named_of_tagged? {ty : TypeExpr} {tag : Tag} {h : Handle}
    (hty : ty.tagged? = some (tag, h)) : ty.named = some h := by
  induction ty with
  | scalar s => cases hty
  | list inner ih | nonNull inner ih => exact ih hty
  | _ =>
    cases hty
    rfl

/-- A type that an argument may have takes its named type for an enum. -/
theorem TypeExpr.enum_of_isInput {ty : TypeExpr} (hinput : ty.isInput = true) {tag : Tag}
    {h : Handle} (hty : ty.tagged? = some (tag, h)) : tag = .enum := by
  induction ty with
  | scalar s => cases hty
  | list inner ih | nonNull inner ih => exact ih hinput hty
  | enum x =>
    cases hty
    rfl
  | _ => cases hinput

namespace Catalog

/-- What the type takes its named type for is admitted for what it is. -/
def Admits (c : Catalog M C W) (ty : TypeExpr) : Prop :=
  ∀ tag h, ty.tagged? = some (tag, h) → ∃ t, c.get? h = some t ∧ tag.admits t.kind.tag = true

/-- Plans are made of the fields, be it for an implementer. -/
def IsPlanned (c : Catalog M C W) (x : Handle) : Prop :=
  (∃ o, c.object? x = some o) ∨ c.implementers x ≠ []

variable {c : Catalog M C W} {d : Description} {w : Walk M C W} {st : Store M C W}
  {s : Schema M C W} {h x : Handle} {t : TypeDef M C W} {ty : TypeExpr}

/-! ### Plans -/

theorem enum_of_enumOf {e : EnumDef} (he : enumOf c h = .ok e) :
    ∃ t, c.get? h = some t ∧ t.kind.tag = .enum := by
  obtain ⟨t, hget, hkind⟩ := enum?_eq_some.mp (enumOf_eq_ok.mp he)
  exact ⟨t, hget, by rw [hkind]; rfl⟩

theorem abstract_of_dispatcherOf {D : Dispatcher M} (hD : dispatcherOf c w h = .ok D) :
    ∃ t, c.get? h = some t ∧ (t.kind.tag = .interface ∨ t.kind.tag = .union) := by
  cases hget : c.get? h with
  | none => simp [dispatcherOf, hget] at hD
  | some t =>
    obtain ⟨-, resolveType, possible, hpossible, -⟩ := Linking.dispatcherOf_ok hget hD
    refine ⟨t, rfl, ?_⟩
    cases possible_iff.mpr hpossible with
    | interface kind => exact .inl (by rw [kind]; rfl)
    | union kind => exact .inr (by rw [kind]; rfl)

/-- A type that has a plan is admitted. -/
theorem admits_of_outputPlan {plan : OutputPlan M} (hplan : outputPlan c w ty = .ok plan) :
    c.Admits ty := by
  intro tag h hty
  induction ty generalizing plan with
  | scalar k => cases hty
  | list inner ih | nonNull inner ih =>
    obtain ⟨plan, hinner, -⟩ := map_eq_ok hplan
    exact ih hinner hty
  | enum x =>
    cases hty
    obtain ⟨e, he, -⟩ := map_eq_ok hplan
    obtain ⟨t, hget, hkind⟩ := enum_of_enumOf he
    exact ⟨t, hget, by rw [hkind]; rfl⟩
  | object x =>
    cases hty
    cases hget : c.get? h with
    | none => simp [outputPlan, hget] at hplan
    | some t => exact ⟨t, rfl, rfl⟩
  | interface x | union x =>
    cases hty
    obtain ⟨D, hD, -⟩ := map_eq_ok hplan
    obtain ⟨t, hget, hkind | hkind⟩ := abstract_of_dispatcherOf hD
    · exact ⟨t, hget, by rw [hkind]; rfl⟩
    · exact ⟨t, hget, by rw [hkind]; rfl⟩

theorem enum_of_inputPlan {input : InputPlan} (hplan : inputPlan c ty = .ok input)
    (hty : ty.tagged? = some (.enum, h)) : ∃ t, c.get? h = some t ∧ t.kind.tag = .enum := by
  induction ty generalizing input with
  | list inner ih =>
    obtain ⟨input, hinner, -⟩ := map_eq_ok hplan
    exact ih hinner hty
  | nonNull inner ih => exact ih hplan hty
  | enum x =>
    cases hty
    obtain ⟨e, he, -⟩ := map_eq_ok hplan
    exact enum_of_enumOf he
  | _ => cases hty

/-! ### Subtypes -/

/-- What an object's field is admitted for it is admitted for in the interface's. -/
theorem Admits.of_subtype {sub sup : TypeExpr} (hsub : c.Subtype sub sup) (h : c.Admits sub)
    (hinterface : ∀ x o i, sub.named = some x → c.object? x = some o → i ∈ o.interfaces →
      c.IsInterface i) : c.Admits sup := by
  induction hsub with
  | refl ty => exact h
  | nonNull _ ih | nonNulls _ ih | list _ ih => exact ih h hinterface
  | @interface x i o ho hi =>
    rintro tag i' ⟨⟩
    obtain ⟨t, def_, hget, hkind⟩ := hinterface x o i rfl ho hi
    exact ⟨t, hget, by rw [hkind]; rfl⟩
  | @union x u def_ hu hx =>
    rintro tag u' ⟨⟩
    obtain ⟨t, hget, hkind⟩ := union?_eq_some.mp hu
    exact ⟨t, hget, by rw [hkind]; rfl⟩

/-! ### Fields -/

/-- The field and its arguments have been admitted. -/
structure FieldAdmitted (c : Catalog M C W) (f : Field M C W) : Prop where
  type : c.Admits f.type
  arguments : ∀ a ∈ f.arguments, ∀ h, a.type.tagged? = some (.enum, h) →
    ∃ t, c.get? h = some t ∧ t.kind.tag = .enum

theorem fieldAdmitted_of_planned {typeName : String} {model : Model M W} {declared : Field M C W}
    {f : PlannedField M C W} (hplanned : PlannedFrom c w typeName model declared f) :
    c.FieldAdmitted declared where
  type := admits_of_outputPlan hplanned.output
  arguments a ha h hty := by
    obtain ⟨plan, -, hplan⟩ := exists_of_mapM hplanned.arguments ha
    obtain ⟨input, hinput, -⟩ := bind_eq_ok hplan
    exact enum_of_inputPlan hinput hty

theorem fieldChecked_of_hasField (hs : Linking c d w st s) (hx : x ∈ w.visited)
    {f : Field M C W} (hf : c.HasField st.memo x f) : f.Checked := by
  obtain ⟨⟨t, hget, hfields⟩, hmem⟩ := hf
  have haccepts := hs.accepts hx hget
  cases hkind : t.kind with
  | object o | interface i =>
    rw [hkind] at haccepts
    exact haccepts.1.each f hmem
  | union u => simp [hkind, Kind.hasFields] at hfields
  | enum e => simp [hkind, Kind.hasFields] at hfields

theorem fieldAdmitted_of_object (hs : Linking c d w st s) (hx : x ∈ w.visited) {o : ObjectDef M C W}
    (ho : c.object? x = some o) {f : Field M C W} (hf : f ∈ cellFields st.memo x) :
    c.FieldAdmitted f := by
  obtain ⟨t, hget, hkind⟩ := object?_eq_some.mp ho
  obtain ⟨object, fields, -, hfrom⟩ := hs.building.object_of_visited hx hget hkind
  rw [hs.walk.cellFields_eq hget (by rw [hkind]; rfl) hfrom.found] at hf
  obtain ⟨plan, -, hplan⟩ := exists_of_mapM hfrom.planned hf
  exact fieldAdmitted_of_planned (plannedField_ok hplan)

/-- A field of an interface stands for one of an implementer. -/
theorem fieldAdmitted_of_implementer (hs : Linking c d w st s) (hx : x ∈ w.visited)
    {o : ObjectDef M C W} (ho : c.object? x = some o) {i : Handle} (hi : i ∈ o.interfaces)
    {f : Field M C W} (hf : f ∈ cellFields st.memo i) : c.FieldAdmitted f := by
  have hinterface : ∀ x o i, x ∈ w.visited → c.object? x = some o → i ∈ o.interfaces →
      c.IsInterface i := by
    intro x o i hx ho hi
    obtain ⟨t, hget, hkind⟩ := object?_eq_some.mp ho
    obtain ⟨object, fields, hobject, hfrom⟩ := hs.building.object_of_visited hx hget hkind
    exact (hs.keeps_interface hfrom hobject hi).1
  obtain ⟨t, hget, hkind⟩ := object?_eq_some.mp ho
  obtain ⟨object, fields, hobject, hfrom⟩ := hs.building.object_of_visited hx hget hkind
  obtain ⟨own, hown, hstands⟩ := (hs.keeps_interface hfrom hobject hi).2 f hf
  have hadmitted := fieldAdmitted_of_object hs hx ho
    (hs.walk.cellFields_eq hget (by rw [hkind]; rfl) hfrom.found ▸ hown)
  refine ⟨hadmitted.type.of_subtype hstands.subtype fun y o i hy ho hi => ?_, fun a ha h hty => ?_⟩
  · exact hinterface y o i
      (visited_of_field hs.walk hfrom.get hfrom.kind hfrom.found hown y hy) ho hi
  · obtain ⟨b, hb, -, htype⟩ := hstands.arguments a ha
    exact hadmitted.arguments b hb h (htype ▸ hty)

/-- **How far what a type is taken for agrees with what it is.** Whatever a field of a compiled
object or interface mentions, or an argument of it, is a type of the catalog, and an argument takes
it for an enum. If the field is one of an object, or its interface has an implementer, then what an
argument takes for an enum is one, what the field takes for an enum is one, and what it takes for an
interface or union is an interface or union; but anything passes there for an object. -/
theorem tags_admitted {st' : Store M C W} (hcompile : c.compile d st = (.ok s, st'))
    (hreach : c.Reaches st'.memo d x) {f : Field M C W} (hf : c.HasField st'.memo x f) :
    (∀ tag h, f.type.tagged? = some (tag, h) →
      ∃ t, c.get? h = some t ∧ (c.IsPlanned x → tag.admits t.kind.tag = true)) ∧
    ∀ a ∈ f.arguments, ∀ tag h, a.type.tagged? = some (tag, h) → tag = .enum ∧
      ∃ t, c.get? h = some t ∧ (c.IsPlanned x → t.kind.tag = .enum) := by
  obtain ⟨w, hs, hreached⟩ := visited_of_compile hcompile
  have hplanned : c.IsPlanned x → c.FieldAdmitted f := by
    obtain ⟨⟨t, hget, hfields⟩, hmem⟩ := hf
    intro hplanned
    cases hkind : t.kind with
    | object o =>
      exact fieldAdmitted_of_object hs ((hreached x).mpr hreach)
        (object?_eq_some.mpr ⟨t, hget, hkind⟩) hmem
    | interface i =>
      rcases hplanned with ⟨o, ho⟩ | himplementers
      · obtain ⟨t', hget', hkind'⟩ := object?_eq_some.mp ho
        cases hget.symm.trans hget'
        cases hkind.symm.trans hkind'
      · obtain ⟨y, hy⟩ := List.exists_mem_of_ne_nil _ himplementers
        obtain ⟨o, ho, hi⟩ := mem_implementers.mp hy
        exact fieldAdmitted_of_implementer hs
          ((hreached y).mpr (.implementer hreach ⟨t, i, hget, hkind⟩ ho hi)) ho hi hmem
    | union u => simp [hkind, Kind.hasFields] at hfields
    | enum e => simp [hkind, Kind.hasFields] at hfields
  have hchecked := fieldChecked_of_hasField hs ((hreached x).mpr hreach) hf
  refine ⟨fun tag h hty => ?_, fun a ha tag h hty => ?_⟩
  · obtain ⟨t, hget⟩ := hs.walk.get? ((hreached h).mpr
      (.field hreach hf (TypeExpr.named_of_tagged? hty)))
    refine ⟨t, hget, fun hx => ?_⟩
    obtain ⟨t', hget', hadmits⟩ := (hplanned hx).type tag h hty
    cases hget.symm.trans hget'
    exact hadmits
  · obtain ⟨t, hget⟩ := hs.walk.get? ((hreached h).mpr
      (.argument hreach hf ha (TypeExpr.named_of_tagged? hty)))
    obtain rfl := TypeExpr.enum_of_isInput (hchecked.arguments a ha).input hty
    refine ⟨rfl, t, hget, fun hx => ?_⟩
    obtain ⟨t', hget', hkind⟩ := (hplanned hx).arguments a ha h hty
    cases hget.symm.trans hget'
    exact hkind

/-! ### The table is exact -/

/-- A field that takes a type of some kind for one of another: a field of the root of queries, or
one that an interface without implementers promises. -/
def mistaken (promised : Bool) (tag kind : Tag) : Catalog Unit Unit Unit where
  id := 0
  types := [
    { name := "Query"
      kind := .object {
        model := .unit Unit Unit
        fields := some (.done [
          resolved (if promised then .interface ⟨0, 3⟩ else taken ⟨0, 1⟩)]) } },
    { name := "T", kind := actual },
    { name := "O"
      kind := .object {
        model := .unit Unit Unit
        fields := some (.done [resolved (.scalar .int)]) } },
    { name := "I"
      kind := .interface { backing := .unit, fields := some (.done [abstract (taken ⟨0, 1⟩)]) } }]
where
  resolved (ty : TypeExpr) : Field Unit Unit Unit :=
    ⟨"f", none, none, ty, [], .resolver .dynamic fun _ _ _ w => (.ok .null, w)⟩
  abstract (ty : TypeExpr) : Field Unit Unit Unit := ⟨"f", none, none, ty, [], .abstract⟩
  taken (h : Handle) : TypeExpr :=
    match tag with
    | .enum => .enum h
    | .object => .object h
    | .interface => .interface h
    | .union => .union h
  actual : Kind Unit Unit Unit :=
    match kind with
    | .enum => .enum {
        leaf := "E"
        equal := (· == ·)
        values := [⟨"A", none, none, ⟨"E", 0⟩⟩] }
    | .object => .object {
        model := .unit Unit Unit
        fields := some (.done [resolved (.scalar .int)]) }
    | .interface => .interface {
        backing := .unit
        fields := some (.done [abstract (.scalar .int)]) }
    | .union => .union { backing := .unit, members := [⟨0, 2⟩] }

/-- The mistake is noticed only where a plan is made and the table does not admit it. -/
theorem mistaken_compiles (promised : Bool) (tag kind : Tag) :
    ((mistaken promised tag kind).compile { query := ⟨0, 0⟩ } ⟨Memo.fresh, ()⟩).1.isOk =
      (promised || tag.admits kind) := by
  cases promised <;> cases tag <;> cases kind <;> decide +kernel

/-- An interface passes for an object. -/
theorem tags_admitted_mistaken :
    let c := mistaken false .object .interface
    ∃ s st', c.compile { query := ⟨0, 0⟩ } ⟨Memo.fresh, ()⟩ = (.ok s, st') ∧
      ∃ f, c.HasField st'.memo ⟨0, 0⟩ f ∧ f.type.tagged? = some (.object, ⟨0, 1⟩) ∧
        ∃ t, c.get? ⟨0, 1⟩ = some t ∧ t.kind.tag = .interface ∧
          Tag.object.admits t.kind.tag = true := by
  intro c
  have hcompile := eq_ok_getD (x := c.compile { query := ⟨0, 0⟩ } ⟨Memo.fresh, ()⟩)
    (by rw [mistaken_compiles]; rfl) ⟨[], "", none, {}⟩
  have htagged : (cellFields (c.compile { query := ⟨0, 0⟩ } ⟨Memo.fresh, ()⟩).2.memo ⟨0, 0⟩).any
      (fun f => f.type.tagged? == some (.object, ⟨0, 1⟩)) = true := by
    decide +kernel
  obtain ⟨f, hf, htagged⟩ := List.any_eq_true.mp htagged
  have hfield : c.HasField (c.compile { query := ⟨0, 0⟩ } ⟨Memo.fresh, ()⟩).2.memo ⟨0, 0⟩ f :=
    ⟨⟨_, rfl, rfl⟩, hf⟩
  obtain ⟨htype, -⟩ := tags_admitted hcompile (.root (List.mem_cons_self ..)) hfield
  obtain ⟨t, hget, hadmits⟩ := htype .object ⟨0, 1⟩ (by simpa using htagged)
  refine ⟨_, _, hcompile, f, hfield, by simpa using htagged, t, hget, ?_, hadmits (.inl ⟨_, rfl⟩)⟩
  cases hget
  rfl

end Catalog

end GraphSchema
