import GraphSchema.Proofs.Compile.Walk
import GraphSchema.Proofs.Success

/-! What linking checks and builds.

A schema that links has been through every check (`schema_ok`), and each of its types
is the finished form of one visited type. As visited types have names of their own,
looking a type up by its name finds just that form (`type?_eq`). -/
namespace GraphSchema

open Except

variable {M C W : Type}

namespace Link

variable {c : Catalog M C W} {d : Description} {w : Walk M C W} {s : Schema M C W}

/-! ### The link as a whole -/

theorem schema_ok (h : schema c d w = .ok s) :
    prepareAll c w w.visited = .ok () ∧ w.visited.mapM (finish c w) = .ok s.types ∧
      s.query = c.nameOf d.query ∧ s.mutation = d.mutation.map c.nameOf ∧ s.limits = d.limits ∧
      Conformance.check s = .ok () := by
  unfold schema at h
  obtain ⟨⟨⟩, hprepared, h⟩ := bind_eq_ok h
  obtain ⟨types, htypes, h⟩ := bind_eq_ok h
  dsimp only at h
  cases hcheck : Conformance.check
      (⟨types, c.nameOf d.query, d.mutation.map c.nameOf, d.limits⟩ : Schema M C W) with
  | error reason =>
    rw [hcheck] at h
    cases h
  | ok u =>
    rw [hcheck] at h
    cases h
    exact ⟨hprepared, htypes, rfl, rfl, rfl, hcheck⟩

theorem prepare_of_mem {hs : List Handle} (h : prepareAll c w hs = .ok ()) {x : Handle}
    (hx : x ∈ hs) : prepare c w x = .ok () := by
  induction hs with
  | nil => cases hx
  | cons y ys ih =>
    obtain ⟨⟨⟩, hy, hys⟩ := bind_eq_ok h
    rcases List.mem_cons.mp hx with rfl | hx
    · exact hy
    · exact ih hys hx

theorem enumOf_eq_ok {h : Handle} {e : EnumDef} : enumOf c h = .ok e ↔ c.enum? h = some e := by
  unfold enumOf
  cases c.enum? h <;> simp

theorem fieldsOf_ok {h : Handle} {fields : List (Field M C W)} (hf : fieldsOf c w h = .ok fields) :
    w.fields? h = some fields := by
  unfold fieldsOf at hf
  cases hfields : w.fields? h with
  | none => simp [hfields] at hf
  | some found =>
    simp only [hfields, Except.ok.injEq] at hf
    rw [hf]

/-! ### Finished types -/

theorem finish_object {h : Handle} {t : TypeDef M C W} {o : ObjectDef M C W}
    (ht : c.get? h = some t) (hkind : t.kind = .object o) {ty : SchemaType M C W}
    (hfinish : finish c w h = .ok ty) :
    ∃ fields planned, w.fields? h = some fields ∧ Check.fields c t.name fields = .ok () ∧
      fields.mapM (plannedField c w t.name o.model) = .ok planned ∧
      ty = .object ⟨t.name, t.description, distinct (o.interfaces.map c.nameOf), planned⟩ := by
  simp only [finish, ht, hkind] at hfinish
  obtain ⟨fields, hfields, hfinish⟩ := bind_eq_ok hfinish
  obtain ⟨⟨⟩, hcheck, hfinish⟩ := bind_eq_ok hfinish
  obtain ⟨planned, hplanned, hfinish⟩ := bind_eq_ok hfinish
  cases hfinish
  exact ⟨fields, planned, fieldsOf_ok hfields, hcheck, hplanned, rfl⟩

theorem finish_interface {h : Handle} {t : TypeDef M C W} {i : InterfaceDef M C W}
    (ht : c.get? h = some t) (hkind : t.kind = .interface i) {ty : SchemaType M C W}
    (hfinish : finish c w h = .ok ty) :
    ∃ fields infos, w.fields? h = some fields ∧ Check.fields c t.name fields = .ok () ∧
      fields.mapM (abstractField c t.name) = .ok infos ∧
      ty = .interface ⟨t.name, t.description, infos⟩ := by
  simp only [finish, ht, hkind] at hfinish
  obtain ⟨fields, hfields, hfinish⟩ := bind_eq_ok hfinish
  obtain ⟨⟨⟩, hcheck, hfinish⟩ := bind_eq_ok hfinish
  obtain ⟨infos, hinfos, hfinish⟩ := bind_eq_ok hfinish
  cases hfinish
  exact ⟨fields, infos, fieldsOf_ok hfields, hcheck, hinfos, rfl⟩

theorem finish_union {h : Handle} {t : TypeDef M C W} {u : UnionDef M}
    (ht : c.get? h = some t) (hkind : t.kind = .union u) {ty : SchemaType M C W}
    (hfinish : finish c w h = .ok ty) :
    ty = .union ⟨t.name, t.description, distinct (u.members.map c.nameOf)⟩ := by
  simp only [finish, ht, hkind, Except.ok.injEq] at hfinish
  exact hfinish.symm

theorem finish_enum {h : Handle} {t : TypeDef M C W} {e : EnumDef}
    (ht : c.get? h = some t) (hkind : t.kind = .enum e) {ty : SchemaType M C W}
    (hfinish : finish c w h = .ok ty) : ty = .enum ⟨t.name, t.description, e.values⟩ := by
  simp only [finish, ht, hkind, Except.ok.injEq] at hfinish
  exact hfinish.symm

theorem finish_name {h : Handle} {ty : SchemaType M C W} (hfinish : finish c w h = .ok ty) :
    ty.name = c.nameOf h := by
  cases ht : c.get? h with
  | none => simp [finish, ht] at hfinish
  | some t =>
    rw [Catalog.nameOf_eq ht]
    cases hkind : t.kind with
    | object o =>
      obtain ⟨_, _, _, _, _, rfl⟩ := finish_object ht hkind hfinish
      rfl
    | interface i =>
      obtain ⟨_, _, _, _, _, rfl⟩ := finish_interface ht hkind hfinish
      rfl
    | union u =>
      rw [finish_union ht hkind hfinish]
      rfl
    | enum e =>
      rw [finish_enum ht hkind hfinish]
      rfl

theorem mem_distinct (names : List String) (x : String) : x ∈ distinct names ↔ x ∈ names := by
  have hfold : ∀ acc : List String,
      x ∈ names.foldl (fun acc name => if acc.contains name then acc else acc ++ [name]) acc ↔
        x ∈ acc ∨ x ∈ names := by
    induction names with
    | nil => simp
    | cons name names ih =>
      intro acc
      rw [List.foldl_cons, ih, List.mem_cons]
      by_cases hc : acc.contains name = true
      · rw [if_pos hc]
        have hmem : name ∈ acc := by simpa using hc
        constructor
        · rintro (h | h)
          · exact .inl h
          · exact .inr (.inr h)
        · rintro (h | rfl | h)
          · exact .inl h
          · exact .inl hmem
          · exact .inr h
      · rw [if_neg hc, List.mem_append, List.mem_singleton, or_assoc]
  rw [distinct, hfold]
  simp

/-! ### Types by name -/

/-- The types of a schema, finished from a walk that all checks but the last one have passed. -/
structure Building (c : Catalog M C W) (d : Description) (w : Walk M C W) (st : Store M C W)
    (s : Schema M C W) : Prop where
  walk : Walk.Finished c d w st
  prepared : prepareAll c w w.visited = .ok ()
  finished : w.visited.mapM (finish c w) = .ok s.types

variable {st : Store M C W}

namespace Building

theorem finish_of_visited (hs : Building c d w st s) {h : Handle} (hh : h ∈ w.visited) :
    ∃ ty ∈ s.types, finish c w h = .ok ty :=
  exists_of_mapM hs.finished hh

theorem visited_of_mem (hs : Building c d w st s) {ty : SchemaType M C W} (hty : ty ∈ s.types) :
    ∃ h ∈ w.visited, finish c w h = .ok ty :=
  (mem_of_mapM hs.finished ty).mp hty

/-- The name of a visited type finds that type. -/
theorem type?_eq (hs : Building c d w st s) {h : Handle} (hh : h ∈ w.visited)
    {ty : SchemaType M C W} (hfinish : finish c w h = .ok ty) :
    s.type? (c.nameOf h) = some ty := by
  obtain ⟨ty', hty', hfinish'⟩ := hs.finish_of_visited hh
  rw [hfinish] at hfinish'
  cases hfinish'
  cases hfind : s.type? (c.nameOf h) with
  | none =>
    have hnone := List.find?_eq_none.mp hfind ty hty'
    simp [finish_name hfinish] at hnone
  | some found =>
    have hname : found.name = c.nameOf h := by simpa using List.find?_some hfind
    obtain ⟨h', hh', hfound⟩ := hs.visited_of_mem (List.mem_of_find?_eq_some hfind)
    have hsame : h' = h :=
      hs.walk.sound.distinct h' hh' h hh ((finish_name hfound).symm.trans hname)
    rw [hsame, hfinish] at hfound
    exact congrArg some (Except.ok.inj hfound).symm

/-- Only visited types have names in the schema. -/
theorem visited_of_type? (hs : Building c d w st s) {name : String} {ty : SchemaType M C W}
    (hty : s.type? name = some ty) :
    ∃ h ∈ w.visited, c.nameOf h = name ∧ finish c w h = .ok ty := by
  obtain ⟨h, hh, hfinish⟩ := hs.visited_of_mem (List.mem_of_find?_eq_some hty)
  have hname : ty.name = name := by simpa using List.find?_some hty
  exact ⟨h, hh, (finish_name hfinish).symm.trans hname, hfinish⟩

end Building

/-- A linked schema, with the walk that it is linked from. -/
structure Linking (c : Catalog M C W) (d : Description) (w : Walk M C W) (st : Store M C W)
    (s : Schema M C W) : Prop where
  walk : Walk.Finished c d w st
  link : schema c d w = .ok s

namespace Linking

theorem building (hs : Linking c d w st s) : Building c d w st s :=
  ⟨hs.walk, (schema_ok hs.link).1, (schema_ok hs.link).2.1⟩

theorem finish_of_visited (hs : Linking c d w st s) {h : Handle} (hh : h ∈ w.visited) :
    ∃ ty ∈ s.types, finish c w h = .ok ty :=
  hs.building.finish_of_visited hh

theorem visited_of_mem (hs : Linking c d w st s) {ty : SchemaType M C W} (hty : ty ∈ s.types) :
    ∃ h ∈ w.visited, finish c w h = .ok ty :=
  hs.building.visited_of_mem hty

/-- A schema names its types in the order of their visits. -/
theorem typeNames_eq (hs : Linking c d w st s) : s.typeNames = w.visited.map c.nameOf :=
  map_of_mapM (fun _ _ hfinish => finish_name hfinish) (schema_ok hs.link).2.1

theorem prepared (hs : Linking c d w st s) {h : Handle} (hh : h ∈ w.visited) :
    prepare c w h = .ok () :=
  prepare_of_mem (schema_ok hs.link).1 hh

theorem type?_eq (hs : Linking c d w st s) {h : Handle} (hh : h ∈ w.visited)
    {ty : SchemaType M C W} (hfinish : finish c w h = .ok ty) :
    s.type? (c.nameOf h) = some ty :=
  hs.building.type?_eq hh hfinish

theorem visited_of_type? (hs : Linking c d w st s) {name : String} {ty : SchemaType M C W}
    (hty : s.type? name = some ty) :
    ∃ h ∈ w.visited, c.nameOf h = name ∧ finish c w h = .ok ty :=
  hs.building.visited_of_type? hty

/-- No type of a schema has the name of a scalar. -/
theorem type?_scalar (hs : Linking c d w st s) (k : Scalar) : s.type? k.name = none := by
  cases hty : s.type? k.name with
  | none => rfl
  | some ty =>
    obtain ⟨h, hh, hname, _⟩ := hs.visited_of_type? hty
    have hproper := (hs.walk.sound.proper h hh).2
    rw [hname] at hproper
    cases k <;> exact absurd hproper (by decide)

end Linking

end Link

theorem Catalog.linking_of_compile {c : Catalog M C W} {d : Description} {st st' : Store M C W}
    {s : Schema M C W} (h : c.compile d st = (.ok s, st')) : ∃ w, Link.Linking c d w st' s := by
  obtain ⟨w, hwalk, hlink⟩ := Catalog.compile_ok h
  exact ⟨w, hwalk, hlink⟩

end GraphSchema
