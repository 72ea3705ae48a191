import Mathlib.Data.Set.Basic
import GraphSchema.Proofs.Completion.Recheck

/-! Subtypes as sets of values.

A declared type stands for the values that a field of it may have in a response
(`values`), and what a field completes to shows one of them (`FieldShown.mem_values`). One
type is a subtype of another by the rules of `Subtype`: `isSubtype` decides these
(`isSubtype_iff`), though it looks at both types at once and strips a non-null off the
first one wherever the second has none. The rules make a preorder and each of them only
adds values. So a field of an object never yields what the interface that promises it
forbids (`isSubtype_sound`). -/
namespace GraphSchema

variable {M C W : Type}

/-- A value in a response. Of an object only its type is told. -/
inductive ResponseValue where
  | null
  | scalar (v : Value)
  | enum (name : String)
  | object (type : Handle)
  | list (items : List ResponseValue)

namespace Catalog

/-- The values that a field of the type may have. -/
def values (c : Catalog M C W) : TypeExpr → Set ResponseValue
  | .scalar s => {v | v = .null ∨ ∃ x shown, s.Shows x shown ∧ v = .scalar shown}
  | .enum h => {v | v = .null ∨ ∃ e d, c.enum? h = some e ∧ d ∈ e.values ∧ v = .enum d.name}
  | .object h => {v | v = .null ∨ v = .object h}
  | .interface h => {v | v = .null ∨ ∃ x, c.implements x h = true ∧ v = .object x}
  | .union h => {v | v = .null ∨ ∃ u x, c.union? h = some u ∧ x ∈ u.members ∧ v = .object x}
  | .list inner => {v | v = .null ∨ ∃ items, v = .list items ∧ ∀ x ∈ items, x ∈ c.values inner}
  | .nonNull inner => {v | v ∈ c.values inner ∧ v ≠ .null}

variable {c : Catalog M C W} {a b : TypeExpr}

theorem implements_iff {x i : Handle} :
    c.implements x i = true ↔ ∃ o, c.object? x = some o ∧ i ∈ o.interfaces := by
  unfold implements
  cases c.object? x <;> simp

/-! ### The check decides the rules -/

theorem isSubtype_self (ty : TypeExpr) : c.isSubtype ty ty = true := by
  induction ty with
  | list inner ih | nonNull inner ih => rwa [isSubtype]
  | _ => simp [isSubtype]

/-- What stands in for a non-null stands in for what is within. -/
theorem isSubtype_of_nonNull (h : c.isSubtype a (.nonNull b) = true) : c.isSubtype a b = true := by
  induction a generalizing b with
  | nonNull a ih =>
    rw [isSubtype] at h
    cases b with
    | nonNull b =>
      rw [isSubtype]
      exact ih h
    | _ =>
      rw [isSubtype]
      · exact h
      · rintro _ ⟨⟩
  | _ => simp [isSubtype] at h

theorem isSubtype_iff : c.isSubtype a b = true ↔ c.Subtype a b := by
  refine ⟨subtype_of_isSubtype, fun h => ?_⟩
  induction h with
  | refl ty => exact isSubtype_self ty
  | @nonNull a b _ ih =>
    cases b with
    | nonNull b =>
      rw [isSubtype]
      exact isSubtype_of_nonNull ih
    | _ =>
      rw [isSubtype]
      · exact ih
      · rintro _ ⟨⟩
  | nonNulls _ ih | list _ ih => rwa [isSubtype]
  | interface ho hi =>
    rw [isSubtype]
    exact implements_iff.mpr ⟨_, ho, hi⟩
  | union hu hx =>
    rw [isSubtype, hu]
    simpa using hx

/-! ### The rules -/

/-- The rules chain. Whatever stands in for a non-null type has its wrapper taken off first, and
nothing but itself stands above an interface or a union. -/
theorem Subtype.trans {d : TypeExpr} (hab : c.Subtype a b) (hbd : c.Subtype b d) :
    c.Subtype a d := by
  induction hab generalizing d with
  | refl ty => exact hbd
  | nonNull _ ih => exact .nonNull (ih hbd)
  | nonNulls hab ih =>
    cases hbd with
    | refl => exact .nonNulls hab
    | nonNull hbd => exact .nonNull (ih hbd)
    | nonNulls hbd => exact .nonNulls (ih hbd)
  | list hab ih =>
    cases hbd with
    | refl => exact .list hab
    | list hbd => exact .list (ih hbd)
  | interface ho hi =>
    cases hbd
    exact .interface ho hi
  | union hu hx =>
    cases hbd
    exact .union hu hx

theorem Subtype.values_subset (h : c.Subtype a b) : c.values a ⊆ c.values b := by
  induction h with
  | refl ty => exact Set.Subset.rfl
  | nonNull _ ih => exact fun v hv => ih hv.1
  | nonNulls _ ih => exact fun v hv => ⟨ih hv.1, hv.2⟩
  | list _ ih =>
    rintro v (rfl | ⟨items, rfl, hitems⟩)
    · exact .inl rfl
    · exact .inr ⟨items, rfl, fun x hx => ih (hitems x hx)⟩
  | interface ho hi =>
    rintro v (rfl | rfl)
    · exact .inl rfl
    · exact .inr ⟨_, implements_iff.mpr ⟨_, ho, hi⟩, rfl⟩
  | union hu hx =>
    rintro v (rfl | rfl)
    · exact .inl rfl
    · exact .inr ⟨_, _, hu, hx, rfl⟩

/-! ### What a field yields -/

/-- What a completed value is in the response, when all that was kept to be nulled is null. -/
inductive Shown (c : Catalog M C W) (nulled : List Path) :
    TypeExpr → Path → Rendered M → ResponseValue → Prop where
  | null (ty : TypeExpr) (path : Path) : Shown c nulled ty path .null .null
  | nulled {ty : TypeExpr} {path : Path} {r : Rendered M} (recorded : path ∈ nulled) :
    Shown c nulled ty path r .null
  | scalar {s : Scalar} {path : Path} {v : Value} (kept : path ∉ nulled) :
    Shown c nulled (.scalar s) path (.value v) (.scalar v)
  | enum {h : Handle} {path : Path} {name : String} (kept : path ∉ nulled) :
    Shown c nulled (.enum h) path (.value (.enum name)) (.enum name)
  | object {h : Handle} {path anchor : Path} {m : M} (kept : path ∉ nulled) :
    Shown c nulled (.object h) path (.object m anchor none) (.object h)
  /-- An object of an abstract type is of the possible type that it was dispatched to. -/
  | abstract {ty : TypeExpr} {h x : Handle} {path anchor : Path} {m : M} {t : TypeDef M C W}
    {resolveType : Option (M → Option String)} {possible : List Handle} (kept : path ∉ nulled)
    (tag : ty.abstract? = some h) (get : c.get? h = some t)
    (types : c.Possible h t resolveType possible) (mem : x ∈ possible) :
    Shown c nulled ty path (.object m anchor (some (c.nameOf x))) (.object x)
  | list {inner : TypeExpr} {path : Path} {rs : List (Rendered M)} {vs : List ResponseValue}
    (kept : path ∉ nulled) (length : vs.length = rs.length)
    (items : ∀ i r v, rs[i]? = some r → vs[i]? = some v →
      Shown c nulled inner (path ++ [.index i]) r v) :
    Shown c nulled (.list inner) path (.list rs) (.list vs)
  | nonNull {inner : TypeExpr} {path : Path} {r : Rendered M} {v : ResponseValue}
    (h : Shown c nulled inner path r v) : Shown c nulled (.nonNull inner) path r v

/-- What a field of the type has in the response. One that fails is null if it may be, and has
nothing there otherwise. -/
inductive FieldShown (c : Catalog M C W) (ty : TypeExpr) (path : Path)
    (done : Completed (Option (Rendered M))) : ResponseValue → Prop where
  | null (h : done.result = .ok none) : FieldShown c ty path done .null
  | failed {e : Located} (h : done.result = .error e) (loose : ty.isNonNull = false) :
    FieldShown c ty path done .null
  | value {r : Rendered M} {v : ResponseValue} (h : done.result = .ok (some r))
    (shown : c.Shown done.nulled ty path r v) : FieldShown c ty path done v

theorem null_mem_values {ty : TypeExpr} (h : ty.isNonNull = false) : .null ∈ c.values ty := by
  cases ty with
  | nonNull inner => cases h
  | _ => exact .inl rfl

theorem mem_values_of_possible {ty : TypeExpr} (htagged : Link.isTagged c ty = true) {h x : Handle}
    (tag : ty.abstract? = some h) {t : TypeDef M C W} (get : c.get? h = some t)
    {resolveType : Option (M → Option String)} {possible : List Handle}
    (types : c.Possible h t resolveType possible) (mem : x ∈ possible) :
    .object x ∈ c.values ty := by
  cases ty with
  | interface i =>
    cases tag
    obtain ⟨t', d, get', kind⟩ := Link.interface_of_isTagged htagged
    cases get.symm.trans get'
    cases types with
    | interface _ _ mem_iff => exact .inr ⟨x, implements_iff.mpr ((mem_iff x).mp mem), rfl⟩
    | union kind' => cases kind.symm.trans kind'
  | union u =>
    cases tag
    obtain ⟨t', d, get', kind⟩ := Link.union_of_isTagged htagged
    cases get.symm.trans get'
    cases types with
    | interface kind' => cases kind.symm.trans kind'
    | @union d' kind' => exact .inr ⟨d', x, union?_eq_some.mpr ⟨t, get, kind'⟩, mem, rfl⟩
  | _ => cases tag

variable {ty : TypeExpr} {absorbed : List Located} {nulled : List Path} {path anchor : Path}
  {p : Produced M} {r : Rendered M} {v : ResponseValue}

/-- A slot whose path was kept is null in the response. -/
theorem Shown.eq_null (h : c.Shown nulled ty path r v) (recorded : path ∈ nulled) : v = .null := by
  induction h with
  | null | nulled => rfl
  | nonNull _ ih => exact ih recorded
  | scalar kept | enum kept | object kept | abstract kept | list kept => exact absurd recorded kept

/-- What a null shows is null. -/
theorem Shown.of_null (h : c.Shown nulled ty path .null v) : v = .null := by
  generalize hr : (.null : Rendered M) = r at h
  induction h with
  | null | nulled => rfl
  | nonNull _ ih => exact ih hr
  | _ => cases hr

/-- What stands in a slot shows a value of its type if a value in it does. -/
theorem InSlot.mem_values (h : c.InSlot absorbed nulled ty path anchor p r)
    (hvalue : c.ValueOf absorbed nulled ty path (ty.anchor path anchor) p r → path ∉ nulled →
      v ∈ c.values ty) (hshown : c.Shown nulled ty path r v) : v ∈ c.values ty := by
  cases h with
  | value h kept => exact hvalue h kept
  | null loose => exact hshown.of_null ▸ null_mem_values loose
  | standIn loose _ _ recorded => exact hshown.eq_null recorded ▸ null_mem_values loose

/-- **What a completed value shows is a value of its type**, and it is no null. -/
theorem ValueOf.mem_values (h : c.ValueOf absorbed nulled ty path anchor p r)
    (htagged : Link.isTagged c ty = true) (kept : path ∉ nulled)
    (hshown : c.Shown nulled ty path r v) : v ∈ c.values ty ∧ v ≠ .null := by
  induction ty generalizing path anchor p r v with
  | scalar s =>
    cases h with
    | abstract tag => cases tag
    | scalar shows =>
      cases hshown with
      | nulled recorded => exact absurd recorded kept
      | scalar => exact ⟨.inr ⟨_, _, shows, rfl⟩, nofun⟩
  | enum h' =>
    cases h with
    | abstract tag => cases tag
    | enum get declared =>
      cases hshown with
      | nulled recorded => exact absurd recorded kept
      | enum => exact ⟨.inr ⟨_, _, get, declared, rfl⟩, nofun⟩
  | object h' =>
    cases h with
    | abstract tag => cases tag
    | object get =>
      cases hshown with
      | nulled recorded => exact absurd recorded kept
      | object => exact ⟨.inr rfl, nofun⟩
  | interface h' | union h' =>
    cases h with
    | abstract _ _ _ mem =>
      generalize hr : Rendered.object _ _ _ = r at hshown
      cases hshown with
      | null => cases hr
      | nulled recorded => exact absurd recorded kept
      | abstract _ tag get types mem =>
        exact ⟨mem_values_of_possible htagged tag get types mem, nofun⟩
  | list inner ih =>
    cases h with
    | abstract tag => cases tag
    | list length items =>
      cases hshown with
      | nulled recorded => exact absurd recorded kept
      | @list _ _ rs vs _ length' items' =>
        refine ⟨.inr ⟨vs, rfl, fun x hx => ?_⟩, nofun⟩
        obtain ⟨i, hi, hget⟩ := List.mem_iff_getElem.mp hx
        have hr := List.getElem?_eq_getElem (length' ▸ hi)
        have hp := List.getElem?_eq_getElem (length ▸ length' ▸ hi)
        have hshown := items' i _ x hr (hget ▸ List.getElem?_eq_getElem hi)
        exact (items i _ _ hp hr).mem_values (fun h kept => (ih h htagged kept hshown).1) hshown
  | nonNull inner ih =>
    cases h with
    | abstract tag => cases tag
    | nonNull h =>
      cases hshown with
      | null => exact absurd rfl h.ne_null
      | nulled recorded => exact absurd recorded kept
      | abstract _ tag => cases tag
      | nonNull hshown =>
        have hv := ih h htagged kept hshown
        exact ⟨hv, hv.2⟩

/-- **What a field comes to in the response is a value of its type.** -/
theorem FieldShown.mem_values {w : Walk M C W} {plan : OutputPlan M} {site : String}
    (hplan : Link.outputPlan c w ty = .ok plan) (htagged : Link.isTagged c ty = true)
    (h : c.FieldShown ty path (Completion.complete site plan path anchor p) v) :
    v ∈ c.values ty := by
  have hdone := Completion.rechecked_of_plan hplan site path anchor p
  cases h with
  | null hnone =>
    refine null_mem_values ?_
    rw [← Completion.isNonNull_of_outputPlan hplan, ← Bool.not_eq_true]
    exact fun hs => Completion.complete_ne_none hs hnone
  | failed _ loose => exact null_mem_values loose
  | value hr shown =>
    refine ((hdone.conforms _ hr).mem_values htagged (fun hmem => ?_) shown).1
    obtain ⟨_, _, hprefix⟩ := hdone.nulled _ hmem
    exact Path.not_snoc_prefix hprefix

/-- **Subtyping is a sound preorder.** A type that stands in for another one has only values of that
one, every type stands in for itself, and standing in chains. So where the fields of an object have
passed the check against those of an interface, each field that the interface promises is there, of
a type that has only values of the promised one, and in no response does it have any other. -/
theorem isSubtype_sound (c : Catalog M C W) :
    (∀ sub sup, c.isSubtype sub sup = true → c.values sub ⊆ c.values sup) ∧
    (∀ ty, c.isSubtype ty ty = true) ∧
    (∀ x y z, c.isSubtype x y = true → c.isSubtype y z = true → c.isSubtype x z = true) ∧
    ∀ interface object found promised,
      Check.implementation c interface object found promised = .ok () → ∀ e ∈ promised,
      ∃ f, found.find? (·.name == e.name) = some f ∧ c.values f.type ⊆ c.values e.type ∧
        ∀ (w : Walk M C W) plan site path anchor p v, Link.isTagged c f.type = true →
          Link.outputPlan c w f.type = .ok plan →
          c.FieldShown f.type path (Completion.complete site plan path anchor p) v →
          v ∈ c.values e.type := by
  refine ⟨fun sub sup h => (isSubtype_iff.mp h).values_subset, isSubtype_self,
    fun x y z hxy hyz => ?_, fun interface object found promised h e he => ?_⟩
  · exact isSubtype_iff.mpr ((isSubtype_iff.mp hxy).trans (isSubtype_iff.mp hyz))
  · obtain ⟨f, hf, hsubtype, -⟩ := Check.field_of_implementation h he
    have hvalues := (isSubtype_iff.mp hsubtype).values_subset
    exact ⟨f, hf, hvalues, fun w plan site path anchor p v htagged hplan hv =>
      hvalues (hv.mem_values hplan htagged)⟩

/-- A catalog of an interface and an object that implements it. -/
def crew : Catalog Unit Unit Unit where
  id := 0
  types := [
    { name := "Member", kind := .interface { backing := .unit } },
    { name := "Pilot", kind := .object { model := .unit Unit Unit, interfaces := [⟨0, 0⟩] } }]

/-- A field of the type, as an interface declares it. -/
def crewField (ty : TypeExpr) : Field Unit Unit Unit := ⟨"crew", none, none, ty, [], .abstract⟩

/-- A list of pilots, none of them null, stands in for a list of members. -/
theorem isSubtype_sound_crew :
    let pilots : TypeExpr := .nonNull (.list (.nonNull (.object ⟨0, 1⟩)))
    let loose : TypeExpr := .list (.object ⟨0, 1⟩)
    let members : TypeExpr := .list (.interface ⟨0, 0⟩)
    crew.isSubtype pilots loose = true ∧ crew.isSubtype loose members = true ∧
      crew.isSubtype pilots members = true ∧ crew.values pilots ⊆ crew.values members ∧
      Check.implementation crew "Vessel" "Ship" [crewField pilots] [crewField members] = .ok () ∧
      ResponseValue.list [.object ⟨0, 1⟩] ∈ crew.values members := by
  intro pilots loose members
  obtain ⟨sound, -, chain, implemented⟩ := isSubtype_sound crew
  have hsubtype := chain pilots loose members (by decide) (by decide)
  have hcheck : Check.implementation crew "Vessel" "Ship" [crewField pilots] [crewField members] =
    .ok () := rfl
  refine ⟨by decide, by decide, hsubtype, sound _ _ hsubtype, hcheck, ?_⟩
  obtain ⟨f, hf, -, hyields⟩ := implemented _ _ _ _ hcheck (crewField members) (by simp)
  cases hf
  refine hyields .empty (.nonNull (.list (.nonNull (.object "Pilot" none)))) "Ship.crew"
    [.key "crew"] [] (.list [.model ()]) _ rfl rfl ?_
  refine .value rfl (.nonNull (.list (by decide) rfl fun i r v hr hv => ?_))
  cases i with
  | zero =>
    cases hr
    cases hv
    exact .nonNull (.object (by decide))
  | succ i => cases hr

end Catalog

end GraphSchema
