import GraphSchema.Proofs.Completion.Recheck

/-! Which models become objects.

A plan does not know what backs its type: it asks the predicates of the possible types, and
an interface or union may choose for itself. All of these answer for models of their own
backing only, so a model of another one is refused wherever any of them is asked, at any
depth. Where none is asked (the position is `Unguarded`) it becomes an object like any other
(`foreign_model`). -/
namespace GraphSchema

open Completion Link

variable {M C W : Type}

/-- The object, interface or union at the core of a type. -/
def TypeExpr.composite? : TypeExpr → Option Handle
  | .object h | .interface h | .union h => some h
  | .scalar _ | .enum _ => none
  | .list inner | .nonNull inner => inner.composite?

theorem TypeExpr.composite?_of_abstract? {ty : TypeExpr} {h : Handle}
    (tag : ty.abstract? = some h) : ty.composite? = some h := by
  cases ty with
  | interface x | union x => exact tag
  | _ => cases tag

/-- The predicate or choice of a definition answers for models of its own backing only, and what it
implements or unites has the same backing. -/
def Kind.KeepsBacking [Backed M] (c : Catalog M C W) : Kind M C W → Prop
  | .object o =>
    (∀ p ∈ o.isTypeOf, ∀ m, p m = true → Backed.backing m = o.model.backing) ∧
      ∀ i ∈ o.interfaces, ∀ b ∈ c.backing? i, b = o.model.backing
  | .interface i => ∀ choose ∈ i.resolveType, ∀ m, (choose m).isSome → Backed.backing m = i.backing
  | .union u =>
    (∀ choose ∈ u.resolveType, ∀ m, (choose m).isSome → Backed.backing m = u.backing) ∧
      ∀ x ∈ u.members, ∀ b ∈ c.backing? x, b = u.backing
  | .enum _ => True

namespace Catalog

def KeepsBackings [Backed M] (c : Catalog M C W) : Prop :=
  ∀ h t, c.get? h = some t → t.kind.KeepsBacking c

/-- Nothing is asked of a model at the position: the object has no predicate, or it is the only one
that the interface or union could come to. -/
inductive Unguarded (c : Catalog M C W) : TypeExpr → Prop where
  | object {h : Handle} (bare : predicate c h = none) : Unguarded c (.object h)
  | abstract {ty : TypeExpr} {h x : Handle} {t : TypeDef M C W}
    {resolveType : Option (M → Option String)} (tag : ty.abstract? = some h)
    (get : c.get? h = some t) (only : c.Possible h t resolveType [x])
    (bare : predicate c x = none) : Unguarded c ty
  | list {inner : TypeExpr} (h : Unguarded c inner) : Unguarded c (.list inner)
  | nonNull {inner : TypeExpr} (h : Unguarded c inner) : Unguarded c (.nonNull inner)

/-- The type takes the model for one of its objects. -/
inductive Takes (c : Catalog M C W) (m : M) : TypeExpr → Prop where
  | object {h : Handle} {t : TypeDef M C W} (get : c.get? h = some t)
    (recognised : ∀ p, predicate c h = some p → p m = true) : Takes c m (.object h)
  | abstract {ty : TypeExpr} {h : Handle} {t : TypeDef M C W}
    {resolveType : Option (M → Option String)} {possible : List Handle} {name : String}
    (tag : ty.abstract? = some h) (get : c.get? h = some t)
    (types : c.Possible h t resolveType possible)
    (dispatched : c.Dispatches t.name resolveType possible m (.ok name)) : Takes c m ty
  | list {inner : TypeExpr} (h : Takes c m inner) : Takes c m (.list inner)
  | nonNull {inner : TypeExpr} (h : Takes c m inner) : Takes c m (.nonNull inner)

variable {c : Catalog M C W} {h x : Handle} {t : TypeDef M C W} {ty : TypeExpr} {m : M}
  {resolveType : Option (M → Option String)} {possible : List Handle}

/-! ### Objects of a value -/

theorem StandsIn.not_contains {r : Rendered M} (h : c.StandsIn ty r) {given : Option String} :
    ¬ r.Contains m given := by
  intro hm
  cases h with
  | list inner =>
    cases hm with
    | item hmem _ => cases hmem
  | enum | object | abstract => cases hm

/-- Where there is an object in a slot there is a value. -/
theorem InSlot.value_of_contains {absorbed : List Located} {nulled : List Path}
    {path anchor : Path} {p : Produced M} {r : Rendered M}
    (h : c.InSlot absorbed nulled ty path anchor p r) {given : Option String}
    (hm : r.Contains m given) :
    c.ValueOf absorbed nulled ty path (ty.anchor path anchor) p r := by
  cases h with
  | value h kept => exact h
  | null loose lost bare => cases hm
  | standIn loose lost stands => exact absurd hm stands.not_contains

/-- Every object of a value was taken for one, at any depth. -/
theorem ValueOf.takes {absorbed : List Located} {nulled : List Path} {path anchor : Path}
    {p : Produced M} {r : Rendered M} (h : c.ValueOf absorbed nulled ty path anchor p r)
    {given : Option String} (hm : r.Contains m given) : c.Takes m ty := by
  induction ty generalizing path anchor p r with
  | scalar s =>
    cases h with
    | abstract tag => cases tag
    | scalar shows => cases hm
  | enum h =>
    cases h with
    | abstract tag => cases tag
    | enum get declared stands => cases hm
  | object h =>
    cases h with
    | abstract tag => cases tag
    | object get recognised =>
      cases hm
      exact .object get recognised
  | interface h | union h =>
    cases h with
    | abstract tag get types mem dispatched =>
      cases hm
      exact .abstract tag get types dispatched
  | nonNull inner ih =>
    cases h with
    | abstract tag => cases tag
    | nonNull h => exact .nonNull (ih h hm)
  | list inner ih =>
    cases h with
    | abstract tag => cases tag
    | list length items =>
      cases hm with
      | item hmem hm =>
        obtain ⟨i, hi⟩ := List.getElem?_of_mem hmem
        obtain ⟨hlt, -⟩ := List.getElem?_eq_some_iff.mp hi
        have hitem := items i _ _ (List.getElem?_eq_getElem (length ▸ hlt)) hi
        exact .list (ih (hitem.value_of_contains hm) hm)

/-! ### Backings -/

section

variable [Backed M]

theorem keepsBackings_of_types (hc : ∀ t ∈ c.types, t.kind.KeepsBacking c) : c.KeepsBackings := by
  intro h t hget
  unfold get? at hget
  split at hget
  · exact hc t (List.mem_of_getElem? hget)
  · cases hget

theorem backing_of_predicate (hc : c.KeepsBackings) {p : M → Bool}
    (hp : predicate c x = some p) (hm : p m = true) :
    c.backing? x = some (Backed.backing m) := by
  obtain ⟨o, ho, hp⟩ := Option.bind_eq_some_iff.mp hp
  obtain ⟨def_, hget, hkind⟩ := object?_eq_some.mp ho
  have hkeeps := hc x def_ hget
  rw [hkind] at hkeeps
  rw [backing?_eq hget, hkind, hkeeps.1 p hp m hm]
  rfl

theorem backing_of_chosen (hc : c.KeepsBackings) (hget : c.get? h = some t)
    (hp : c.Possible h t resolveType possible) {choose : M → Option String}
    (set : resolveType = some choose) (names : (choose m).isSome) :
    c.backing? h = some (Backed.backing m) := by
  have hkeeps := hc h t hget
  rw [backing?_eq hget]
  cases hp with
  | interface kind =>
    rw [kind] at hkeeps ⊢
    rw [hkeeps choose set m names]
    rfl
  | union kind =>
    rw [kind] at hkeeps ⊢
    rw [hkeeps.1 choose set m names]
    rfl

/-- A possible type has the backing of its interface or union. -/
theorem backing_of_possible (hc : c.KeepsBackings) (hget : c.get? h = some t)
    (hp : c.Possible h t resolveType possible) (hx : x ∈ possible) {b : Backing}
    (hb : c.backing? x = some b) : c.backing? h = some b := by
  cases hp with
  | interface kind ordered mem_iff =>
    obtain ⟨o, ho, hi⟩ := (mem_iff x).mp hx
    obtain ⟨def_, hxget, hkind⟩ := object?_eq_some.mp ho
    have hkeeps := hc x def_ hxget
    rw [hkind] at hkeeps
    rw [backing?_eq hxget, hkind] at hb
    rw [backing?_eq hget, hkeeps.2 h hi _ (backing?_eq hget), ← hb]
    rfl
  | union kind =>
    have hkeeps := hc h t hget
    rw [kind] at hkeeps
    rw [backing?_eq hget, kind, hkeeps.2 x hx b hb]
    rfl

/-- A type only takes models of its own backing, unless it asks nothing of them. -/
theorem backing_of_takes (hc : c.KeepsBackings) (htakes : c.Takes m ty)
    (hty : ty.composite? = some h) :
    c.backing? h = some (Backed.backing m) ∨ c.Unguarded ty := by
  induction htakes with
  | @object x t get recognised =>
    cases hty
    cases hp : predicate c h with
    | none => exact .inr (.object hp)
    | some p => exact .inl (backing_of_predicate hc hp (recognised p hp))
  | @abstract ty x t resolveType possible name tag get types dispatched =>
    cases (TypeExpr.composite?_of_abstract? tag).symm.trans hty
    cases dispatched with
    | chosen set names => exact .inl (backing_of_chosen hc get types set (by rw [names]; rfl))
    | recognised silent split takes =>
      obtain ⟨p, hp, hm⟩ := takes
      exact .inl
        (backing_of_possible hc get types (by simp [split]) (backing_of_predicate hc hp hm))
    | sole silent only bare =>
      subst only
      exact .inr (.abstract tag get types bare)
  | list _ ih => exact (ih hty).imp_right .list
  | nonNull _ ih => exact (ih hty).imp_right .nonNull

/-! ### Positions -/

variable {w : Walk M C W} {plan : OutputPlan M} {site : String} {path anchor : Path}

/-- Below its lists and non-nulls, a position that asks nothing makes an object of any model that
the interface or union has no name for. -/
theorem value_of_unguarded (hplan : outputPlan c w ty = .ok plan) (hty : ty.composite? = some h)
    (hc : c.KeepsBackings) (hforeign : c.backing? h ≠ some (Backed.backing m))
    (hbare : c.Unguarded ty) :
    ∃ given, value site plan.core path anchor (.model m) = .ok (some (.object m anchor given)) := by
  induction hbare generalizing plan with
  | @object x bare =>
    obtain ⟨t, -, rfl⟩ := object_of_outputPlan hplan
    rw [bare]
    exact ⟨none, rfl⟩
  | @abstract ty x y t resolveType tag get only bare =>
    cases (TypeExpr.composite?_of_abstract? tag).symm.trans hty
    obtain ⟨t', resolveType', possible, get', hpossible, rfl⟩ := dispatcher_of_outputPlan tag hplan
    cases get.symm.trans get'
    cases (possible_iff.mp only).symm.trans (possible_iff.mp hpossible)
    have silent : Silent resolveType m := by
      intro choose set
      rw [← Option.not_isSome_iff_eq_none]
      exact fun names => hforeign (backing_of_chosen hc get only set names)
    have hr : (c.dispatcherOver t.name resolveType [y]).resolve m = .ok (c.nameOf y) :=
      dispatches_iff.mp (.sole silent rfl bare)
    refine ⟨some (c.nameOf y), ?_⟩
    simp only [OutputPlan.core, value, hr]
  | list _ ih | nonNull _ ih =>
    obtain ⟨plan, hinner, rfl⟩ := Except.map_eq_ok hplan
    have hvalue := ih hinner hty
    exact hvalue

/-- A type refuses a model of another backing that it does not take. -/
theorem value_of_not_takes (hplan : outputPlan c w ty = .ok plan) (hty : ty.composite? = some h)
    (hc : c.KeepsBackings) (hforeign : c.backing? h ≠ some (Backed.backing m))
    (hno : ¬ c.Takes m ty) :
    ∃ e, value site plan.core path anchor (.model m) = .fail path e ∧
      (e = .wrongType site (c.nameOf h) ∨ e = .dispatch .unresolved) := by
  induction ty generalizing plan with
  | scalar s => cases hty
  | enum x => cases hty
  | object x =>
    cases hty
    obtain ⟨t, hget, rfl⟩ := object_of_outputPlan hplan
    cases hp : predicate c h with
    | none => exact absurd (.object hget fun q hq => nomatch hp.symm.trans hq) hno
    | some p =>
      have hm : p m = false := by
        rw [← Bool.not_eq_true]
        exact fun hm => hno (.object hget fun q hq => Option.some.inj (hp.symm.trans hq) ▸ hm)
      refine ⟨_, ?_, .inl rfl⟩
      simp [OutputPlan.core, value, hm, nameOf_eq hget]
  | interface x | union x =>
    cases hty
    obtain ⟨t, resolveType, possible, hget, hpossible, rfl⟩ := dispatcher_of_outputPlan rfl hplan
    have hr : c.Dispatches t.name resolveType possible m
      ((c.dispatcherOver t.name resolveType possible).resolve m) := dispatches_resolve
    cases hresolve : (c.dispatcherOver t.name resolveType possible).resolve m with
    | ok name =>
      rw [hresolve] at hr
      exact absurd (.abstract rfl hget hpossible hr) hno
    | error e =>
      rw [hresolve] at hr
      refine ⟨.dispatch e, by simp only [OutputPlan.core, value, hresolve], .inr ?_⟩
      cases hr with
      | unresolved => rfl
      | notPossible set names =>
        exact absurd (backing_of_chosen hc hget hpossible set (by rw [names]; rfl)) hforeign
  | list inner ih =>
    obtain ⟨plan, hinner, rfl⟩ := Except.map_eq_ok hplan
    have hvalue := ih hinner hty fun htakes => hno (.list htakes)
    exact hvalue
  | nonNull inner ih =>
    obtain ⟨plan, hinner, rfl⟩ := Except.map_eq_ok hplan
    have hvalue := ih hinner hty fun htakes => hno (.nonNull htakes)
    exact hvalue

/-- **Only predicates and choices keep models of another backing out.** Take a field of an object
that a compiled schema has, with an object, interface or union at the core of its type. Whatever
the field yields, each object of the completed value has the backing of that type, at every depth,
unless the position is unguarded. A model of another backing fails in its place at a guarded
position, and is an object like any other at one that is not. -/
theorem models_guarded {d : Description} {st st' : Store M C W} {s : Schema M C W}
    (hcompile : c.compile d st = (.ok s, st')) (hc : c.KeepsBackings)
    (hreach : c.Reaches st'.memo d x) {o : ObjectDef M C W} (ho : c.object? x = some o)
    {declared : Field M C W} (hdeclared : declared ∈ cellFields st'.memo x)
    (hty : declared.type.composite? = some h) :
    ∃ t f, .object t ∈ s.types ∧ t.name = c.nameOf x ∧ f ∈ t.fields ∧
      f.info.name = declared.name ∧
      (∀ path anchor p r,
        (complete f.plan.site f.plan.output path anchor p).result = .ok (some r) →
        ∀ m given, r.Contains m given →
          c.backing? h = some (Backed.backing m) ∨ c.Unguarded declared.type) ∧
      ∀ m, c.backing? h ≠ some (Backed.backing m) → ∀ path anchor,
        (c.Unguarded declared.type → ∃ given,
          value f.plan.site f.plan.output.core path anchor (.model m) =
            .ok (some (.object m anchor given))) ∧
        (¬ c.Unguarded declared.type → ∃ e,
          value f.plan.site f.plan.output.core path anchor (.model m) = .fail path e ∧
            (e = .wrongType f.plan.site (c.nameOf h) ∨ e = .dispatch .unresolved)) := by
  obtain ⟨w, hs, hreached⟩ := visited_of_compile hcompile
  have hx : x ∈ w.visited := (hreached x).mpr hreach
  obtain ⟨def_, hget, hkind⟩ := object?_eq_some.mp ho
  obtain ⟨t, fields, ht, hfrom⟩ := hs.building.object_of_visited hx hget hkind
  rw [hs.walk.cellFields_eq hget (by rw [hkind]; rfl) hfrom.found] at hdeclared
  obtain ⟨f, hf, hplanned⟩ := Except.exists_of_mapM hfrom.planned hdeclared
  have hfield := plannedField_ok hplanned
  refine ⟨t, f, ht, hfrom.name.trans (nameOf_eq hget).symm, hf, hfield.name, ?_, ?_⟩
  · intro path anchor p r hr m given hm
    have hrechecked := rechecked_of_plan hfield.output f.plan.site path anchor p
    exact backing_of_takes hc ((hrechecked.conforms r hr).takes hm) hty
  · intro m hforeign path anchor
    refine ⟨value_of_unguarded hfield.output hty hc hforeign, fun hguarded => ?_⟩
    exact value_of_not_takes hfield.output hty hc hforeign fun htakes =>
      (backing_of_takes hc htakes hty).elim hforeign hguarded

end

/-- A field that yields the root where a character is declared, with nothing that could tell. -/
def unguarded : Catalog StarWars.Source Unit Unit where
  id := 0
  types := [
    { name := "Query"
      kind := .object {
        model := .unit StarWars.Source Unit
        fields := some (.done [⟨"o", none, none, .object ⟨0, 1⟩, [],
          .resolver .dynamic fun _ _ _ w => (.ok (.model .root), w)⟩]) } },
    { name := "O"
      kind := .object {
        model := StarWars.Source.characters Unit
        fields := some (.done [⟨"name", none, none, .scalar .string, [], .property⟩]) } }]

theorem unguarded_keepsBackings : unguarded.KeepsBackings := by
  refine keepsBackings_of_types fun t ht => ?_
  simp only [unguarded, List.mem_cons, List.not_mem_nil, or_false] at ht
  rcases ht with rfl | rfl <;> constructor <;> intro x hx <;> cases hx

/-- It compiles, and the root becomes an object there. -/
theorem models_guarded_unguarded :
    ∃ s st', unguarded.compile { query := ⟨0, 0⟩ } ⟨Memo.fresh, ()⟩ = (.ok s, st') ∧
      ∃ t f, .object t ∈ s.types ∧ t.name = "Query" ∧ f ∈ t.fields ∧ f.info.name = "o" ∧
        unguarded.backing? ⟨0, 1⟩ ≠ some (Backed.backing StarWars.Source.root) ∧
        ∀ path anchor, ∃ given, value f.plan.site f.plan.output.core path anchor (.model .root) =
          .ok (some (.object .root anchor given)) := by
  have hcompile := Except.eq_ok_getD (x := unguarded.compile { query := ⟨0, 0⟩ } ⟨Memo.fresh, ()⟩)
    (by decide +kernel) ⟨[], "", none, {}⟩
  refine ⟨_, _, hcompile, ?_⟩
  have hdeclared : (cellFields (unguarded.compile { query := ⟨0, 0⟩ } ⟨Memo.fresh, ()⟩).2.memo
      ⟨0, 0⟩).any (fun f => f.name == "o" && f.type == .object ⟨0, 1⟩) = true := by
    decide +kernel
  obtain ⟨declared, hdeclared, heq⟩ := List.any_eq_true.mp hdeclared
  obtain ⟨hname, htype⟩ : declared.name = "o" ∧ declared.type = .object ⟨0, 1⟩ := by
    simpa using heq
  have hforeign : unguarded.backing? ⟨0, 1⟩ ≠ some (Backed.backing StarWars.Source.root) := by
    decide
  obtain ⟨t, f, ht, htname, hf, hfname, -, hmodels⟩ := models_guarded hcompile
    unguarded_keepsBackings (.root (List.mem_cons_self ..)) rfl hdeclared (by rw [htype]; rfl)
  refine ⟨t, f, ht, htname, hf, hfname.trans hname, hforeign, fun path anchor => ?_⟩
  exact (hmodels .root hforeign path anchor).1 (htype ▸ .object rfl)

end Catalog

end GraphSchema
