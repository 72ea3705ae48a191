import GraphSchema.Proofs.Run.Selections
import GraphSchema.Proofs.Typing.Fields

/-! Schemas whose types keep to their backings.

A schema is typed if its resolvers and properties keep to static shapes and if types
that stand in for one another have the same backing, as it is when they are declared
by typed builders. Whatever object is found for a model, by a type of the backing of
the model, is then declared over that backing (`placed_of_concrete`). -/
namespace GraphSchema

open Direct Execution Link Query

variable {M C W : Type} [Backed M]

/-- What the builder of an object sees to: the model, the resolvers, and that the interfaces are
declared over the same backing. The fields are those in the cell of the object. -/
structure ObjectDef.IsTyped (c : Catalog M C W) (cell : Cell (List (Field M C W)))
    (o : ObjectDef M C W) : Prop where
  model : o.model.IsTyped
  fields : ∀ fields, cell = .ready fields → ∀ f ∈ fields, f.body.IsTyped o.model.backing
  interfaces : ∀ i ∈ o.interfaces, c.backing? i = some o.model.backing

/-- What the builders of some types see to: the roots have nothing behind them, the objects are
typed, and the members of a union are declared over its backing. -/
structure Catalog.IsTyped (c : Catalog M C W) (d : Description)
    (memo : Memo (List (Field M C W))) (types : Handle → Prop) : Prop where
  query : c.backing? d.query = some .unit
  mutation : ∀ h ∈ d.mutation, c.backing? h = some .unit
  object : ∀ h def_ o, types h → c.get? h = some def_ → def_.kind = .object o →
    o.IsTyped c (memo h.index)
  union : ∀ h def_ u, types h → c.get? h = some def_ → def_.kind = .union u →
    ∀ m ∈ u.members, c.backing? m = some u.backing

theorem Catalog.IsTyped.mono {c : Catalog M C W} {d : Description}
    {memo : Memo (List (Field M C W))} {types types' : Handle → Prop} (h : c.IsTyped d memo types)
    (hsub : ∀ x, types' x → types x) : c.IsTyped d memo types' :=
  ⟨h.query, h.mutation, fun x def_ o hx => h.object x def_ o (hsub x hx),
    fun x def_ u hx => h.union x def_ u (hsub x hx)⟩

namespace Link

/-- A field of an object as its typed declaration. -/
structure TypedFrom (c : Catalog M C W) (w : Walk M C W) (typeName : String) (model : Model M W)
    (declared : Field M C W) (f : PlannedField M C W) : Prop where
  modelTyped : model.IsTyped
  bodyTyped : declared.body.IsTyped model.backing
  visited : Visited w declared.type
  planned : PlannedFrom c w typeName model declared f

/-- The object is declared over the backing of the model. -/
def Placed (c : Catalog M C W) (w : Walk M C W) (t : ObjectType M C W) (m : M) : Prop :=
  ∃ h def_ o fields, ObjectFrom c w h t def_ o fields ∧ Backed.backing m = o.model.backing

namespace Linking

variable {c : Catalog M C W} {d : Description} {w : Walk M C W} {st : Store M C W}
  {s : Schema M C W}

theorem typed_field (hs : Linking c d w st s) (htyped : c.IsTyped d st.memo (· ∈ w.visited))
    {h : Handle} {t : ObjectType M C W} {def_ : TypeDef M C W} {o : ObjectDef M C W}
    {fields : List (Field M C W)} (ho : ObjectFrom c w h t def_ o fields)
    {f : PlannedField M C W} (hf : f ∈ t.fields) :
    ∃ declared, TypedFrom c w def_.name o.model declared f := by
  have hobject := htyped.object h def_ o ho.visited ho.get ho.kind
  have hready := hs.walk.ready ho.get ho.found (by rw [ho.kind]; rfl)
  obtain ⟨declared, hdeclared, hplanned⟩ := (Except.mem_of_mapM ho.planned f).mp hf
  exact ⟨declared, hobject.model, hobject.fields fields hready declared hdeclared,
    visited_of_field hs.walk ho.get ho.kind ho.found hdeclared, plannedField_ok hplanned⟩

/-! ### Models of the types of a schema -/

theorem placed_of_type? (hs : Linking c d w st s) {h : Handle} (hh : h ∈ w.visited)
    {t : ObjectType M C W} (ht : s.type? (c.nameOf h) = some (.object t)) {m : M}
    (hm : c.backing? h = some (Backed.backing m)) : Placed c w t m := by
  obtain ⟨ty, _, hfinish⟩ := hs.finish_of_visited hh
  rw [hs.type?_eq hh hfinish] at ht
  cases ht
  obtain ⟨def_, o, fields, ho⟩ := object_of_finish hh hfinish
  rw [Catalog.backing?_eq ho.get, ho.kind] at hm
  exact ⟨h, def_, o, fields, ho, (Option.some.inj hm).symm⟩

/-- An object that is found for a model by a type of the model's backing is of that backing. -/
theorem placed_of_concrete (hs : Linking c d w st s)
    (htyped : c.IsTyped d st.memo (· ∈ w.visited)) {h : Handle} (hh : h ∈ w.visited) {m : M}
    (hm : c.backing? h = some (Backed.backing m)) {given : Option String} {t : ObjectType M C W}
    (hconcrete : concrete s (c.nameOf h) given = .ok t) : Placed c w t m := by
  obtain ⟨ht, hd | ⟨i, hi, hmem⟩ | ⟨u, hu, hmem⟩⟩ := concrete_cases hconcrete
  · exact hs.placed_of_type? hh hd hm
  · -- an interface: its backing is that of the object, which lists it
    obtain ⟨x, def_, o, fields, ho⟩ := hs.object_of_object? ht
    have hname : i.name = c.nameOf h := type?_name hi
    have hinterface := mem_interfaces hs.walk ho hh (hname ▸ mem_interfaces_of_possible hs ht hmem)
    have hobject := htyped.object x def_ o ho.visited ho.get ho.kind
    rw [hobject.interfaces h hinterface] at hm
    exact ⟨x, def_, o, fields, ho, (Option.some.inj hm).symm⟩
  · -- a union: its backing is that of the member of the object's name
    obtain ⟨def_, udef, hget, hkind, hmembers⟩ := hs.union_of_type? hh hu
    rw [hmembers, mem_distinct] at hmem
    obtain ⟨x, hx, hname⟩ := List.mem_map.mp hmem
    have hbacking := htyped.union h def_ udef hh hget hkind x hx
    rw [Catalog.backing?_eq hget, hkind] at hm
    exact hs.placed_of_type? (visited_of_member hs.walk hh hget hkind hx)
      (hname.symm ▸ object?_eq_some ht) (hbacking.trans hm)

theorem placed_root (hs : Linking c d w st s) (htyped : c.IsTyped d st.memo (· ∈ w.visited))
    {op : Operation} {root : String} (hroot : op.root? s = some root) {t : ObjectType M C W}
    (ht : s.object? root = some t) : Placed c w t (Backed.unit : M) := by
  obtain ⟨_, _, hquery, hmutation, _, _⟩ := schema_ok hs.link
  have htype := object?_eq_some ht
  unfold Operation.root? at hroot
  split at hroot
  · cases hroot
    rw [hquery] at htype
    exact hs.placed_of_type? hs.walk.query htype (by rw [htyped.query, Backed.backing_unit])
  · rw [hmutation] at hroot
    obtain ⟨h, hh, rfl⟩ := Option.map_eq_some_iff.mp hroot
    exact hs.placed_of_type? (hs.walk.mutation h hh) htype
      (by rw [htyped.mutation h hh, Backed.backing_unit])
  · cases hroot

end Linking

end Link

end GraphSchema
