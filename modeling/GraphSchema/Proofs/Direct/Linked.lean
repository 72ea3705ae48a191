import GraphSchema.Proofs.Direct.Evaluate

/-! Schemas whose plans only come to types that they have.

What a plan completes is rendered by looking up the type of each object again, by the
declared type of the position and the name that came with it. In a linked schema
that lookup never fails, for objects as for the stand-ins of nulls. -/
namespace GraphSchema.Direct

open Execution

variable {M C W : Type} {s : Schema M C W}

/-- Whatever the plan completes is an object that the schema knows at positions of the declared
type, or no object at all. -/
def Fits (s : Schema M C W) (declared : String) : OutputPlan M → Prop
  | .scalar _ => s.type? declared = none
  | .enum e => e.values ≠ []
  | .object name _ => ∃ t, s.object? name = some t ∧ ∀ given, concrete s declared given = .ok t
  | .abstract d => d.candidates ≠ [] ∧ ∀ c ∈ d.candidates,
      ∃ t, s.object? c.name = some t ∧ concrete s declared (some c.name) = .ok t
  | .list inner | .nonNull inner => Fits s declared inner

def Linked (s : Schema M C W) : Prop :=
  ∀ name t, s.object? name = some t → ∀ f ∈ t.fields, Fits s f.info.type.core f.plan.output

/-- The null item of a plan that fits is a null of a scalar, or stands in for a value, a list or an
object of a type that the schema has. -/
theorem nullItem_cases {declared : String} {plan : OutputPlan M} (hloose : plan.isNonNull = false)
    (hfits : Fits s declared plan) :
    (plan.nullItem = (.null, false) ∧ s.type? declared = none) ∨
      (∃ v, plan.nullItem = (.value v, true)) ∨ plan.nullItem = (.list [], true) ∨
      ∃ given t, plan.nullItem = (.hole given, true) ∧ concrete s declared given = .ok t := by
  cases plan with
  | nonNull inner => cases hloose
  | scalar k => exact .inl ⟨rfl, hfits⟩
  | enum e =>
    obtain ⟨first, rest, hvalues⟩ := List.exists_cons_of_ne_nil hfits
    exact .inr (.inl ⟨.enum first.name, by simp only [OutputPlan.nullItem, hvalues]⟩)
  | list inner => exact .inr (.inr (.inl rfl))
  | object name isTypeOf =>
    obtain ⟨t, _, ht⟩ := hfits
    exact .inr (.inr (.inr ⟨none, t, rfl, ht none⟩))
  | abstract d =>
    obtain ⟨typeName, resolveType, candidates⟩ := d
    cases candidates with
    | nil => exact absurd rfl hfits.1
    | cons c rest =>
      obtain ⟨t, _, ht⟩ := hfits.2 c (List.mem_cons_self ..)
      exact .inr (.inr (.inr ⟨some c.name, t, rfl, ht⟩))

theorem object?_eq_some {name : String} {t : ObjectType M C W} (h : s.object? name = some t) :
    s.type? name = some (.object t) := by
  unfold Schema.object? at h
  split at h
  · next u hu =>
    rw [hu, Option.some.inj h]
  · cases h

theorem mem_types_of_object? {name : String} {t : ObjectType M C W} (h : s.object? name = some t) :
    .object t ∈ s.types :=
  List.mem_of_find?_eq_some (object?_eq_some h)

theorem type?_name {name : String} {d : SchemaType M C W} (h : s.type? name = some d) :
    d.name = name := by
  have hd := List.find?_some h
  simpa using hd

theorem object?_name {name : String} {t : ObjectType M C W} (h : s.object? name = some t) :
    t.name = name :=
  type?_name (object?_eq_some h)

theorem object?_of_type? {name : String} {t : ObjectType M C W}
    (h : s.type? name = some (.object t)) : s.object? name = some t := by
  rw [Schema.object?, h]

theorem member_eq_ok {name kind otherwise : String} {possible : List String}
    {given : Option String} {t : ObjectType M C W}
    (h : concrete.member s given name kind otherwise possible = .ok t) :
    s.object? t.name = some t ∧ t.name ∈ possible := by
  unfold concrete.member at h
  cases given with
  | none => cases h
  | some given =>
    by_cases hc : possible.contains given = true
    · simp only [hc, if_true] at h
      cases ho : s.object? given with
      | none => simp [ho] at h
      | some u =>
        simp only [ho, Except.ok.injEq] at h
        subst h
        have hname := object?_name ho
        rw [hname]
        exact ⟨ho, by simpa using hc⟩
    · simp only [hc] at h
      cases h

theorem mem_standing {declared : String} {d : SchemaType M C W} {t : ObjectType M C W}
    (hd : s.type? declared = some d) (ht : s.object? t.name = some t)
    (hmem : t.name ∈ s.possibleTypes d) : t ∈ standing s declared := by
  simp only [standing, hd, List.mem_filterMap]
  exact ⟨t.name, hmem, ht⟩

theorem object?_of_standing {declared : String} {t : ObjectType M C W}
    (h : t ∈ standing s declared) : s.object? t.name = some t := by
  unfold standing at h
  cases hd : s.type? declared with
  | none =>
    rw [hd] at h
    cases h
  | some d =>
    rw [hd] at h
    obtain ⟨name, _, ht⟩ := List.mem_filterMap.mp h
    rw [object?_name ht]
    exact ht

/-- The type found for an object is the declared type or one of the types that it has. -/
theorem concrete_cases {declared : String} {given : Option String} {t : ObjectType M C W}
    (h : concrete s declared given = .ok t) :
    s.object? t.name = some t ∧
      (s.type? declared = some (.object t) ∨
        (∃ i, s.type? declared = some (.interface i) ∧ t.name ∈ s.possibleTypes (.interface i)) ∨
        ∃ u, s.type? declared = some (.union u) ∧ t.name ∈ u.members) := by
  unfold concrete at h
  cases hd : s.type? declared with
  | none => simp [hd] at h
  | some d =>
    rw [hd] at h
    cases d with
    | object u =>
      simp only [Except.ok.injEq] at h
      subst h
      have hname : u.name = declared := type?_name hd
      exact ⟨object?_of_type? (hname.symm ▸ hd), .inl rfl⟩
    | interface i =>
      obtain ⟨ho, hmem⟩ := member_eq_ok h
      exact ⟨ho, .inr (.inl ⟨i, rfl, hmem⟩)⟩
    | union u =>
      obtain ⟨ho, hmem⟩ := member_eq_ok h
      exact ⟨ho, .inr (.inr ⟨u, rfl, hmem⟩)⟩
    | enum e => cases h

/-- The type found for an object may stand where it was looked up. -/
theorem standing_of_concrete {declared : String} {given : Option String} {t : ObjectType M C W}
    (h : concrete s declared given = .ok t) : t ∈ standing s declared := by
  obtain ⟨ho, hd | ⟨i, hd, hmem⟩ | ⟨u, hd, hmem⟩⟩ := concrete_cases h
  · exact mem_standing hd ho (by simp [Schema.possibleTypes])
  · exact mem_standing hd ho hmem
  · exact mem_standing hd ho hmem

theorem object?_of_concrete {declared : String} {given : Option String} {t : ObjectType M C W}
    (h : concrete s declared given = .ok t) : s.object? t.name = some t :=
  (concrete_cases h).1

/-! ### Lookups that succeed -/

theorem concrete_object {declared : String} {t : ObjectType M C W}
    (h : s.object? declared = some t) (given : Option String) :
    concrete s declared given = .ok t := by
  simp only [concrete, object?_eq_some h]

theorem member_of_mem {name kind otherwise given : String} {possible : List String}
    {t : ObjectType M C W} (hmem : given ∈ possible) (ht : s.object? given = some t) :
    concrete.member s (some given) name kind otherwise possible = .ok t := by
  have hc : possible.contains given = true := by simpa using hmem
  simp only [concrete.member, hc, if_true, ht]

theorem concrete_interface {declared given : String} {i : InterfaceType} {t : ObjectType M C W}
    (h : s.type? declared = some (.interface i)) (hmem : given ∈ s.possibleTypes (.interface i))
    (ht : s.object? given = some t) : concrete s declared (some given) = .ok t := by
  simp only [concrete, h]
  exact member_of_mem hmem ht

theorem concrete_union {declared given : String} {u : UnionType} {t : ObjectType M C W}
    (h : s.type? declared = some (.union u)) (hmem : given ∈ u.members)
    (ht : s.object? given = some t) : concrete s declared (some given) = .ok t := by
  simp only [concrete, h]
  exact member_of_mem hmem ht

theorem mem_possibleTypes_interface {i : InterfaceType} {t : ObjectType M C W}
    (ht : SchemaType.object t ∈ s.types) (hi : i.name ∈ t.interfaces) :
    t.name ∈ s.possibleTypes (.interface i) := by
  simp only [Schema.possibleTypes, List.mem_filterMap]
  exact ⟨.object t, ht, by simp [hi]⟩

/-- A value is only ever taken for one of the candidates. -/
theorem mem_candidates_of_resolve {d : Dispatcher M} {m : M} {name : String}
    (h : d.resolve m = .ok name) : ∃ c ∈ d.candidates, c.name = name := by
  unfold Dispatcher.resolve at h
  cases hc : d.chosen m with
  | some chosen =>
    by_cases ha : d.candidates.any (·.name == chosen) = true
    · simp only [hc, ha, if_true, Except.ok.injEq] at h
      subst h
      obtain ⟨c, hmem, hname⟩ := List.any_eq_true.mp ha
      exact ⟨c, hmem, by simpa using hname⟩
    · simp [hc, ha] at h
  | none =>
    cases hb : d.byPredicate m with
    | none => simp [hc, hb] at h
    | some found =>
      simp only [hc, hb, Except.ok.injEq] at h
      subst h
      unfold Dispatcher.byPredicate at hb
      obtain ⟨c, hfind, hname⟩ := Option.map_eq_some_iff.mp hb
      exact ⟨c, List.mem_of_find?_eq_some hfind, hname⟩

end GraphSchema.Direct
