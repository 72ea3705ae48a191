import GraphSchema.Plan.Completion

/-! Values against types, directly.

A produced value that is of its type comes to a tree, one that is not to nothing. A
failure in a position that may be null leaves a null there; in one that may not, it
is the failure of the list around it. There are no paths and nothing to be mended
later: `Completion` is measured against this. -/
namespace GraphSchema.Direct

variable {M : Type}

/-- What a value comes to. The objects in it are still to be evaluated. -/
inductive Accepted (M : Type) where
  | null
  | value (v : Value)
  /-- A list whose items may be null unless it is strict. -/
  | list (strict : Bool) (items : List (Accepted M))
  | object (model : M) (typeName : String)

/-- What a position is after a failure in it: null, unless it is strict. -/
def slot {α : Type} (strict : Bool) (null : α) (r : Option α) : Option α :=
  if strict then r else some (r.getD null)

@[simp] theorem slot_strict {α : Type} (null : α) (r : Option α) : slot true null r = r := rfl

@[simp] theorem slot_loose {α : Type} (null : α) (r : Option α) :
    slot false null r = some (r.getD null) := rfl

/-- A null where none may be is a failure. -/
def require : Option (Accepted M) → Option (Accepted M)
  | some .null => none
  | r => r

def conformEnum (e : EnumDef) : Produced M → Option (Accepted M)
  | .null => some .null
  | .leaf l => (e.nameOf l).map fun name => .value (.enum name)
  | .value (.enum name) => (e.values.parse name).map fun _ => .value (.enum name)
  | _ => none

def conformObject (name : String) (isTypeOf : Option (M → Bool)) : Produced M → Option (Accepted M)
  | .null => some .null
  | .model m => if isTypeOf.all (· m) then some (.object m name) else none
  | _ => none

def conformAbstract (d : Dispatcher M) : Produced M → Option (Accepted M)
  | .null => some .null
  | .model m => (d.resolve m).toOption.map (.object m)
  | _ => none

def conformScalar (s : Scalar) : Produced M → Option (Accepted M)
  | .null => some .null
  | .value v => if s.holds v then some (.value (Completion.scalarValue s v)) else none
  | _ => none

/-- The value as one of the type, if it is one. -/
def conform : OutputPlan M → Produced M → Option (Accepted M)
  | .nonNull inner, p => require (conform inner p)
  | .list inner, p =>
    match p with
    | .null => some .null
    | .list ps =>
      (ps.mapM fun p => slot inner.isNonNull .null (conform inner p)).map (.list inner.isNonNull)
    | _ => none
  | .scalar s, p => conformScalar s p
  | .enum e, p => conformEnum e p
  | .object name isTypeOf, p => conformObject name isTypeOf p
  | .abstract d, p => conformAbstract d p

/-! ### What conforms -/

theorem require_eq_some_iff {t : Option (Accepted M)} {u : Accepted M} :
    require t = some u ↔ t = some u ∧ u ≠ .null := by
  match t with
  | none => simp [require]
  | some .null =>
    simp only [require, Option.some.injEq]
    exact ⟨nofun, fun h => absurd h.1.symm h.2⟩
  | some (.value _) | some (.list _ _) | some (.object _ _) =>
    simp only [require, Option.some.injEq]
    constructor
    · rintro rfl
      exact ⟨rfl, nofun⟩
    · exact And.left

section

variable {p : Produced M} {accepted : Accepted M}

theorem conformScalar_cases {k : Scalar} (h : conformScalar k p = some accepted) :
    accepted = .null ∨ ∃ v, accepted = .value v := by
  cases p with
  | null => exact .inl (Option.some.inj h).symm
  | value v =>
    by_cases hv : k.holds v = true
    · rw [conformScalar, if_pos hv] at h
      exact .inr ⟨_, (Option.some.inj h).symm⟩
    · rw [conformScalar, if_neg hv] at h
      cases h
  | _ => cases h

theorem conformEnum_cases {e : EnumDef} (h : conformEnum e p = some accepted) :
    accepted = .null ∨ ∃ v, accepted = .value v := by
  cases p with
  | null => exact .inl (Option.some.inj h).symm
  | leaf l =>
    obtain ⟨name, _, rfl⟩ := Option.map_eq_some_iff.mp h
    exact .inr ⟨_, rfl⟩
  | value v =>
    cases v with
    | enum name =>
      obtain ⟨_, _, rfl⟩ := Option.map_eq_some_iff.mp h
      exact .inr ⟨_, rfl⟩
    | _ => cases h
  | _ => cases h

theorem conformObject_cases {name : String} {isTypeOf : Option (M → Bool)}
    (h : conformObject name isTypeOf p = some accepted) :
    accepted = .null ∨ ∃ m, accepted = .object m name := by
  cases p with
  | null => exact .inl (Option.some.inj h).symm
  | model m =>
    by_cases hm : isTypeOf.all (· m) = true
    · rw [conformObject, if_pos hm] at h
      exact .inr ⟨m, (Option.some.inj h).symm⟩
    · rw [conformObject, if_neg hm] at h
      cases h
  | _ => cases h

theorem conformAbstract_cases {d : Dispatcher M} (h : conformAbstract d p = some accepted) :
    accepted = .null ∨ ∃ m name, d.resolve m = .ok name ∧ accepted = .object m name := by
  cases p with
  | null => exact .inl (Option.some.inj h).symm
  | model m =>
    obtain ⟨name, hname, rfl⟩ := Option.map_eq_some_iff.mp h
    cases hr : d.resolve m with
    | error e =>
      rw [hr] at hname
      cases hname
    | ok found =>
      rw [hr] at hname
      obtain rfl := Option.some.inj hname
      exact .inr ⟨m, found, hr, rfl⟩
  | _ => cases h

/-- An item in its slot is null or has conformed. -/
theorem slot_conform {plan : OutputPlan M}
    (h : slot plan.isNonNull .null (conform plan p) = some accepted) :
    (conform plan p = none ∧ plan.isNonNull = false ∧ accepted = .null) ∨
      conform plan p = some accepted := by
  cases hc : conform plan p with
  | some t =>
    rw [hc] at h
    refine .inr ?_
    cases hs : plan.isNonNull with
    | true => rwa [hs, slot_strict] at h
    | false => rwa [hs, slot_loose] at h
  | none =>
    rw [hc] at h
    cases hs : plan.isNonNull with
    | true =>
      rw [hs] at h
      cases h
    | false =>
      rw [hs] at h
      exact .inl ⟨rfl, rfl, (Option.some.inj h).symm⟩

end

end GraphSchema.Direct
