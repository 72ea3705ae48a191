import GraphSchema.Proofs.Direct.Conform
import GraphSchema.Proofs.Nulling

/-! Completion against conformance.

Completing a value succeeds exactly if the value conforms to its type, and it gives
none exactly for a null (`complete_agrees`). The stand-ins that it leaves in a list
all stand at or below the items of the list (`value_nulled_below`). -/
namespace GraphSchema.Completion

open Direct GraphSchema.Path

variable {M : Type} {site : String}

/-! ### The cases of completion -/

@[simp] theorem value_null (plan : OutputPlan M) (path anchor : Path) :
    value site plan path anchor .null = .ok none := by
  cases plan <;> rfl

theorem value_nonNull {p : Produced M} (hp : p.isNull = false) (inner : OutputPlan M)
    (path anchor : Path) :
    value site (.nonNull inner) path anchor p =
      require site path (value site inner path anchor p) := by
  simp [value, hp]

theorem require_eq_ok {path : Path} {c : Completed (Option (Rendered M))} {r : Rendered M}
    (h : (require site path c).result = .ok (some r)) : c.result = .ok (some r) := by
  obtain ⟨result, absorbed, nulled⟩ := c
  match result, h with
  | .ok (some _), h => exact h
  | .error _, h => exact h

theorem require_eq_some {t : Option (Accepted M)} {u : Accepted M} (h : Direct.require t = some u) :
    t = some u := by
  match t, h with
  | some (.value _), h | some (.list _ _), h | some (.object _ _), h => exact h

theorem require_ne_null (t : Option (Accepted M)) : Direct.require t ≠ some .null := by
  match t with
  | none | some .null | some (.value _) | some (.list _ _) | some (.object _ _) => exact nofun

/-- Requiring a value twice asks no more of it. -/
theorem require_require (path : Path) (c : Completed (Option (Rendered M))) :
    require site path (require site path c) = require site path c := by
  obtain ⟨result, absorbed, nulled⟩ := c
  match result with
  | .ok none => rfl
  | .ok (some r) => rfl
  | .error e => rfl

theorem complete_nonNull (inner : OutputPlan M) (path anchor : Path) (p : Produced M) :
    complete site (.nonNull inner) path anchor p =
      require site path (value site (.nonNull inner) path anchor p) := by
  by_cases hp : p.isNull = true
  · cases p <;> simp [Produced.isNull] at hp
    simp [complete]
  · rw [value_nonNull (by simpa using hp), require_require]
    rfl

theorem complete_loose {plan : OutputPlan M} (h : plan.isNonNull = false) (path anchor : Path)
    (p : Produced M) : complete site plan path anchor p = value site plan path path p := by
  cases plan <;> first | rfl | simp [OutputPlan.isNonNull] at h

/-! ### Slots -/

section

variable {plan : OutputPlan M} {path : Path} {c : Completed (Option (Rendered M))}

/-- The nulls of a slot that takes a null. -/
def nullsOf (plan : OutputPlan M) (path : Path) (nulled : List Path) : List Path :=
  if plan.nullItem.2 then nulled ++ [path] else nulled

theorem slot_some {r : Rendered M} (h : c.result = .ok (some r)) :
    slot plan path c = ⟨.ok r, c.absorbed, c.nulled⟩ := by
  simp [slot, h]

theorem slot_none (h : c.result = .ok none) :
    slot plan path c = ⟨.ok plan.nullItem.1, c.absorbed, nullsOf plan path c.nulled⟩ := by
  simp [slot, h, nullsOf]

theorem slot_strict_error {e : Located} (h : c.result = .error e) (hs : plan.isNonNull = true) :
    slot plan path c = ⟨.error e, c.absorbed, c.nulled⟩ := by
  simp [slot, h, hs]

theorem slot_loose_error {e : Located} (h : c.result = .error e) (hs : plan.isNonNull = false) :
    slot plan path c =
      ⟨.ok plan.nullItem.1, c.absorbed ++ [e], nullsOf plan path c.nulled⟩ := by
  simp [slot, h, hs, nullsOf]

theorem nullsOf_below {nulled : List Path} (h : ∀ q ∈ nulled, path <+: q) :
    ∀ q ∈ nullsOf plan path nulled, path <+: q := by
  intro q hq
  unfold nullsOf at hq
  split at hq
  · rcases List.mem_append.mp hq with hq | hq
    · exact h q hq
    · exact List.mem_singleton.mp hq ▸ List.prefix_refl path
  · exact h q hq

end

/-! ### Lists -/

/-- An item of a list: completed at its own path, then put in its slot. -/
def item (site : String) (inner : OutputPlan M) (path anchor : Path) (i : Nat) (p : Produced M) :
    Completed (Rendered M) :=
  slot inner (path ++ [.index i]) (complete site inner (path ++ [.index i]) anchor p)

/-- A list succeeds if its first item does and the others do. -/
theorem items_cons_ok {f : Nat → Produced M → Completed (Rendered M)} {i : Nat} {p : Produced M}
    {ps : List (Produced M)} {rs : List (Rendered M)} (h : (items f i (p :: ps)).result = .ok rs) :
    ∃ r rest, (f i p).result = .ok r ∧ (items f (i + 1) ps).result = .ok rest ∧ rs = r :: rest ∧
      (items f i (p :: ps)).nulled = (f i p).nulled ++ (items f (i + 1) ps).nulled := by
  cases hf : (f i p).result with
  | error e => simp [items, hf] at h
  | ok r =>
    cases htail : (items f (i + 1) ps).result with
    | error e => simp [items, hf, htail, Except.map] at h
    | ok rest =>
      simp only [items, hf, htail, Except.map, Except.ok.injEq] at h
      exact ⟨r, rest, rfl, rfl, h.symm, by simp [items, hf]⟩

theorem value_items (inner : OutputPlan M) (path anchor : Path) (ps : List (Produced M)) :
    value site (.list inner) path anchor (.list ps) =
      (items (item site inner path anchor) 0 ps).map fun rs => some (.list rs) :=
  value_list site inner path anchor ps

/-! ### Success -/

/-- A completion that comes to the same as conformance: a null, a value, or a failure. -/
def Agrees : Except Located (Option (Rendered M)) → Option (Accepted M) → Prop
  | .ok none, some .null => True
  | .ok (some _), some t => t ≠ .null
  | .error _, none => True
  | _, _ => False

theorem agrees_ok_some {r : Rendered M} {t : Option (Accepted M)} (h : Agrees (.ok (some r)) t) :
    ∃ u, t = some u ∧ u ≠ .null := by
  match t with
  | none => exact absurd h id
  | some u => exact ⟨u, rfl, h⟩

theorem agrees_ok_none {t : Option (Accepted M)} (h : Agrees (.ok none) t) : t = some .null := by
  match t with
  | some .null => rfl
  | none | some (.value _) | some (.list _ _) | some (.object _ _) => exact absurd h id

theorem agrees_error {e : Located} {t : Option (Accepted M)} (h : Agrees (.error e) t) :
    t = none := by
  match t with
  | none => rfl
  | some _ => exact absurd h id

theorem require_agrees (site : String) (path : Path) {c : Completed (Option (Rendered M))}
    {t : Option (Accepted M)} (h : Agrees c.result t) :
    Agrees (require site path c).result (Direct.require t) := by
  obtain ⟨result, absorbed, nulled⟩ := c
  match result, h with
  | .ok none, h =>
    rw [agrees_ok_none h]
    trivial
  | .ok (some r), h =>
    obtain ⟨u, rfl, hu⟩ := agrees_ok_some h
    cases u <;> first | exact absurd rfl hu | exact hu
  | .error e, h =>
    rw [agrees_error h]
    trivial

theorem slot_isOk {plan : OutputPlan M} {path : Path} {c : Completed (Option (Rendered M))}
    {t : Option (Accepted M)} (h : Agrees c.result t) :
    (slot plan path c).result.isOk = (Direct.slot plan.isNonNull .null t).isSome := by
  cases hc : c.result with
  | ok r =>
    rw [hc] at h
    cases r with
    | none =>
      rw [slot_none hc, agrees_ok_none h]
      cases plan.isNonNull <;> rfl
    | some r =>
      obtain ⟨u, rfl, _⟩ := agrees_ok_some h
      rw [slot_some hc]
      cases plan.isNonNull <;> rfl
  | error e =>
    rw [hc] at h
    rw [agrees_error h]
    cases hs : plan.isNonNull with
    | true =>
      rw [slot_strict_error hc hs]
      rfl
    | false =>
      rw [slot_loose_error hc hs]
      rfl

theorem items_isOk {f : Nat → Produced M → Completed (Rendered M)}
    {g : Produced M → Option (Accepted M)} (h : ∀ i p, (f i p).result.isOk = (g p).isSome) (i : Nat)
    (ps : List (Produced M)) : (items f i ps).result.isOk = (ps.mapM g).isSome := by
  induction ps generalizing i with
  | nil => rfl
  | cons p ps ih =>
    have hp := h i p
    have hps := ih (i + 1)
    rw [items]
    cases hf : (f i p).result with
    | error e =>
      cases hg : g p with
      | none => simp [List.mapM_cons, hg, Except.isOk, Except.toBool]
      | some t => simp [hf, hg, Except.isOk, Except.toBool] at hp
    | ok r =>
      cases hg : g p with
      | none => simp [hf, hg, Except.isOk, Except.toBool] at hp
      | some t =>
        cases hr : (items f (i + 1) ps).result <;> cases ht : ps.mapM g <;>
          simp_all [List.mapM_cons, Except.isOk, Except.toBool, Except.map]

theorem map_agrees {c : Completed (List (Rendered M))} {strict : Bool}
    {ts : Option (List (Accepted M))} (h : c.result.isOk = ts.isSome) :
    Agrees (c.map fun rs => some (.list rs)).result (ts.map (.list strict)) := by
  obtain ⟨result, absorbed, nulled⟩ := c
  cases result <;> cases ts <;>
    simp_all [Completed.map, Except.map, Agrees, Except.isOk, Except.toBool]

theorem scalar_agrees (site : String) (s : Scalar) (path anchor : Path) (p : Produced M) :
    Agrees (value site (.scalar s) path anchor p).result (conformScalar s p) := by
  cases p with
  | value v => by_cases hv : s.holds v = true <;>
      simp [value, scalar, conformScalar, hv, Completed.ok, Completed.fail, Agrees]
  | _ => simp [value, conformScalar, Completed.ok, Completed.fail, Agrees]

theorem enum_agrees (site : String) (e : EnumDef) (path anchor : Path) (p : Produced M) :
    Agrees (value site (.enum e) path anchor p).result (conformEnum e p) := by
  cases p with
  | leaf l => cases hl : e.nameOf l <;>
      simp [value, conformEnum, hl, Completed.ok, Completed.fail, Agrees]
  | value v =>
    cases v with
    | enum name => cases hn : e.values.parse name <;>
        simp [value, conformEnum, hn, Completed.ok, Completed.fail, Agrees]
    | _ => simp [value, conformEnum, Completed.fail, Agrees]
  | _ => simp [value, conformEnum, Completed.ok, Completed.fail, Agrees]

theorem object_agrees (site : String) (name : String) (isTypeOf : Option (M → Bool))
    (path anchor : Path) (p : Produced M) :
    Agrees (value site (.object name isTypeOf) path anchor p).result
      (conformObject name isTypeOf p) := by
  cases p with
  | model m =>
    cases isTypeOf with
    | none => simp [value, conformObject, Completed.ok, Agrees]
    | some recognised => by_cases hm : recognised m = true <;>
        simp [value, conformObject, hm, Completed.ok, Completed.fail, Agrees]
  | _ => simp [value, conformObject, Completed.ok, Completed.fail, Agrees]

theorem abstract_agrees (site : String) (d : Dispatcher M) (path anchor : Path) (p : Produced M) :
    Agrees (value site (.abstract d) path anchor p).result (conformAbstract d p) := by
  cases p with
  | model m => cases hm : d.resolve m <;>
      simp [value, conformAbstract, hm, Completed.ok, Completed.fail, Agrees, Except.toOption]
  | _ => simp [value, conformAbstract, Completed.ok, Completed.fail, Agrees]

/-- What a value comes to before it is asked whether it may be null. -/
def conformAny (plan : OutputPlan M) (p : Produced M) : Option (Accepted M) :=
  if p.isNull then some .null else conform plan p

theorem conform_null (plan : OutputPlan M) :
    conform plan .null = if plan.isNonNull then none else some .null := by
  induction plan with
  | nonNull inner ih =>
    rw [conform, ih]
    cases inner.isNonNull <;> rfl
  | _ => rfl

theorem conform_eq (plan : OutputPlan M) (p : Produced M) :
    conform plan p = if plan.isNonNull then Direct.require (conformAny plan p)
      else conformAny plan p := by
  by_cases hp : p.isNull = true
  · cases p <;> simp [Produced.isNull] at hp
    rw [conform_null]
    cases plan.isNonNull <;> rfl
  · rw [conformAny, if_neg hp]
    cases plan with
    | nonNull inner =>
      rw [conform]
      cases hi : conform inner p with
      | none => rfl
      | some t => cases t <;> rfl
    | _ => rfl

theorem complete_agrees_of_value {plan : OutputPlan M} (path anchor : Path) (p : Produced M)
    (h : ∀ anchor, Agrees (value site plan path anchor p).result (conformAny plan p)) :
    Agrees (complete site plan path anchor p).result (conform plan p) := by
  rw [conform_eq]
  cases hs : plan.isNonNull with
  | false =>
    rw [complete_loose hs]
    exact h path
  | true =>
    cases plan with
    | nonNull inner =>
      rw [complete_nonNull]
      exact require_agrees site path (h anchor)
    | _ => simp [OutputPlan.isNonNull] at hs

theorem value_agrees (plan : OutputPlan M) (path anchor : Path) (p : Produced M) :
    Agrees (value site plan path anchor p).result (conformAny plan p) := by
  induction plan generalizing path anchor p with
  | scalar s =>
    have h := scalar_agrees site s path anchor p
    cases p <;> exact h
  | enum e =>
    have h := enum_agrees site e path anchor p
    cases p <;> exact h
  | object name isTypeOf =>
    have h := object_agrees site name isTypeOf path anchor p
    cases p <;> exact h
  | abstract d =>
    have h := abstract_agrees site d path anchor p
    cases p <;> exact h
  | list inner ih =>
    cases p with
    | list ps =>
      rw [value_items]
      refine map_agrees (items_isOk (fun i p => ?_) 0 ps)
      exact slot_isOk (complete_agrees_of_value _ _ p fun anchor => ih _ anchor p)
    | null => trivial
    | _ => simp [value, conformAny, conform, Produced.isNull, Completed.fail, Agrees]
  | nonNull inner ih =>
    by_cases hp : p.isNull = true
    · cases p <;> simp [Produced.isNull] at hp
      trivial
    · have h := require_agrees site path (ih path anchor p)
      rw [value_nonNull (by simpa using hp)]
      rw [conformAny, if_neg hp] at h ⊢
      exact h

/-- **Completing a value succeeds exactly if the value conforms to its type.** -/
theorem complete_agrees (site : String) (plan : OutputPlan M) (path anchor : Path)
    (p : Produced M) :
    Agrees (complete site plan path anchor p).result (conform plan p) :=
  complete_agrees_of_value path anchor p fun anchor => value_agrees plan path anchor p

/-- Nothing comes of a position that may not be null rather than a null. -/
theorem isNonNull_of_agrees_none {plan : OutputPlan M} {p : Produced M}
    (h : Agrees (.ok none) (conform plan p)) : plan.isNonNull = false := by
  cases hs : plan.isNonNull with
  | false => rfl
  | true =>
    have hnull := agrees_ok_none h
    rw [conform_eq, hs] at hnull
    exact absurd hnull (require_ne_null _)

/-! ### Stand-ins -/

theorem slot_nulled_below {plan : OutputPlan M} {path : Path}
    {c : Completed (Option (Rendered M))} (h : ∀ q ∈ c.nulled, path <+: q) :
    ∀ q ∈ (slot plan path c).nulled, path <+: q := by
  cases hc : c.result with
  | ok r =>
    cases r with
    | none =>
      rw [slot_none hc]
      exact nullsOf_below h
    | some r =>
      rw [slot_some hc]
      exact h
  | error e =>
    cases hs : plan.isNonNull with
    | true =>
      rw [slot_strict_error hc hs]
      exact h
    | false =>
      rw [slot_loose_error hc hs]
      exact nullsOf_below h

theorem items_nulled_within {f : Nat → Produced M → Completed (Rendered M)} {path : Path}
    (h : ∀ i p, ∀ q ∈ (f i p).nulled, path ++ [.index i] <+: q) (i : Nat)
    (ps : List (Produced M)) : Within path i (items f i ps).nulled := by
  induction ps generalizing i with
  | nil =>
    intro q hq
    cases hq
  | cons p ps ih =>
    rw [items]
    cases hr : (f i p).result with
    | error e => exact within_of_below (h i p)
    | ok r =>
      exact within_append (within_of_below (h i p)) (within_of_succ (ih (i + 1)))

theorem require_nulled (path : Path) (c : Completed (Option (Rendered M))) :
    (require site path c).nulled = c.nulled := by
  unfold require
  split <;> rfl

theorem require_absorbed (path : Path) (c : Completed (Option (Rendered M))) :
    (require site path c).absorbed = c.absorbed := by
  unfold require
  split <;> rfl

/-- The nullability of the value itself adds nothing to what it leaves. -/
theorem complete_leaves (site : String) (plan : OutputPlan M) (path anchor : Path)
    (p : Produced M) :
    ∃ anchor',
      (complete site plan path anchor p).absorbed = (value site plan path anchor' p).absorbed ∧
      (complete site plan path anchor p).nulled = (value site plan path anchor' p).nulled := by
  cases hs : plan.isNonNull with
  | false => exact ⟨path, by rw [complete_loose hs], by rw [complete_loose hs]⟩
  | true =>
    cases plan with
    | nonNull inner =>
      exact ⟨anchor, by rw [complete_nonNull, require_absorbed],
        by rw [complete_nonNull, require_nulled]⟩
    | _ => simp [OutputPlan.isNonNull] at hs

/-- No failure was absorbed, and nothing is to be nulled. -/
def Quiet {α : Type} (c : Completed α) : Prop := c.absorbed = [] ∧ c.nulled = []

theorem scalar_quiet (s : Scalar) (path anchor : Path) (p : Produced M) :
    Quiet (value site (.scalar s) path anchor p) := by
  cases p with
  | value v =>
    rw [value, scalar]
    split <;> exact ⟨rfl, rfl⟩
  | _ => exact ⟨rfl, rfl⟩

theorem enum_quiet (e : EnumDef) (path anchor : Path) (p : Produced M) :
    Quiet (value site (.enum e) path anchor p) := by
  cases p with
  | leaf l => cases hl : e.nameOf l <;> simp [value, hl, Quiet, Completed.ok, Completed.fail]
  | value v =>
    cases v with
    | enum name =>
      cases hn : e.values.parse name <;> simp [value, hn, Quiet, Completed.ok, Completed.fail]
    | _ => exact ⟨rfl, rfl⟩
  | _ => exact ⟨rfl, rfl⟩

theorem object_quiet (name : String) (isTypeOf : Option (M → Bool)) (path anchor : Path)
    (p : Produced M) : Quiet (value site (.object name isTypeOf) path anchor p) := by
  cases p with
  | model m =>
    cases isTypeOf with
    | none => exact ⟨rfl, rfl⟩
    | some recognised =>
      by_cases hm : recognised m = true <;> simp [value, hm, Quiet, Completed.ok, Completed.fail]
  | _ => exact ⟨rfl, rfl⟩

theorem abstract_quiet (d : Dispatcher M) (path anchor : Path) (p : Produced M) :
    Quiet (value site (.abstract d) path anchor p) := by
  cases p with
  | model m => cases hm : d.resolve m <;> simp [value, hm, Quiet, Completed.ok, Completed.fail]
  | _ => exact ⟨rfl, rfl⟩

/-- **Whatever is to be nulled after completing a value is below the value.** -/
theorem value_nulled_below (plan : OutputPlan M) (path anchor : Path) (p : Produced M) :
    ∀ q ∈ (value site plan path anchor p).nulled, path <+: q := by
  induction plan generalizing path anchor p with
  | list inner ih =>
    cases p with
    | list ps =>
      rw [value_items]
      refine below_of_within (i := 0) (items_nulled_within (fun i p => ?_) 0 ps)
      obtain ⟨anchor', -, h⟩ := complete_leaves site inner (path ++ [.index i]) anchor p
      refine slot_nulled_below ?_
      rw [h]
      exact ih _ anchor' p
    | _ =>
      intro q hq
      cases hq
  | nonNull inner ih =>
    by_cases hp : p.isNull = true
    · cases p <;> simp [Produced.isNull] at hp
      intro q hq
      cases hq
    · rw [value_nonNull (by simpa using hp), require_nulled]
      exact ih path anchor p
  | scalar s => simp [(scalar_quiet s path anchor p).2]
  | enum e => simp [(enum_quiet e path anchor p).2]
  | object name isTypeOf => simp [(object_quiet name isTypeOf path anchor p).2]
  | abstract d => simp [(abstract_quiet d path anchor p).2]

theorem complete_nulled_below (site : String) (plan : OutputPlan M) (path anchor : Path)
    (p : Produced M) :
    ∀ q ∈ (complete site plan path anchor p).nulled, path <+: q := by
  obtain ⟨anchor', -, h⟩ := complete_leaves site plan path anchor p
  rw [h]
  exact value_nulled_below plan path anchor' p

end GraphSchema.Completion
