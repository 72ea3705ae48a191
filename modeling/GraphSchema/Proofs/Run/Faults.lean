import GraphSchema.Proofs.Direct.Completion

/-! The failures within a value.

All that is wrong with a value of a type, in reading order and each with its place:
the items of a list one after another, until one that may not be null fails. What
completion absorbs, followed by the failure that it ends with, is just this list
(`complete_failures`): an absorbed failure is kept, and one that is handed on is
handed on once. -/
namespace GraphSchema

/-- Something wrong with a value, and the place of the response it is wrong at. -/
structure Fault where
  path : Path
  cause : CompletionError

def Fault.located (f : Fault) : Located := ⟨f.path, f.cause.message⟩

/-- Every failure of a completion, the last one being that of the value as a whole. -/
def Completed.failures {α : Type} (c : Completed α) : List Located :=
  c.absorbed ++ match c.result with
    | .ok _ => []
    | .error e => [e]

namespace Completion

open Direct

variable {M : Type}

/-! ### Faults -/

def scalarFaults (site : String) (s : Scalar) (path : Path) : Produced M → List Fault
  | .null => []
  | .value v => if s.holds v then [] else [⟨path, .wrongScalar site s v⟩]
  | other => [⟨path, .wrongKind site "a scalar" other.kind⟩]

def enumFaults (site : String) (e : EnumDef) (path : Path) : Produced M → List Fault
  | .null => []
  | .leaf l => if (e.nameOf l).isSome then [] else [⟨path, .namelessEnumValue site⟩]
  | .value (.enum name) =>
    if (e.values.parse name).isSome then []
    else [⟨path, .wrongKind site "an enum value" "a scalar"⟩]
  | other => [⟨path, .wrongKind site "an enum value" other.kind⟩]

def objectFaults (site name : String) (isTypeOf : Option (M → Bool)) (path : Path) :
    Produced M → List Fault
  | .null => []
  | .model m => if isTypeOf.all (· m) then [] else [⟨path, .wrongType site name⟩]
  | other => [⟨path, .wrongKind site "an object" other.kind⟩]

def abstractFaults (site : String) (d : Dispatcher M) (path : Path) : Produced M → List Fault
  | .null => []
  | .model m => match d.resolve m with
    | .ok _ => []
    | .error e => [⟨path, .dispatch e⟩]
  | other => [⟨path, .wrongKind site "an object" other.kind⟩]

/-- The faults of the items from the one at `i` on, up to the first that stops the list. -/
def itemFaults (faults : Nat → Produced M → List Fault) (stops : Produced M → Bool) :
    Nat → List (Produced M) → List Fault
  | _, [] => []
  | i, p :: ps => faults i p ++ if stops p then [] else itemFaults faults stops (i + 1) ps

/-- A fault of the items is one of an item. -/
theorem mem_itemFaults {faults : Nat → Produced M → List Fault} {stops : Produced M → Bool}
    {i : Nat} {ps : List (Produced M)} {f : Fault} (h : f ∈ itemFaults faults stops i ps) :
    ∃ j p, ps[j]? = some p ∧ f ∈ faults (i + j) p := by
  induction ps generalizing i with
  | nil => cases h
  | cons p ps ih =>
    rcases List.mem_append.mp h with h | h
    · exact ⟨0, p, rfl, h⟩
    · split at h
      · cases h
      · obtain ⟨j, p', hp', hf⟩ := ih h
        exact ⟨j + 1, p', hp', by rwa [Nat.add_assoc, Nat.add_comm 1 j] at hf⟩

/-- A null that is a value of the type so far. -/
def isLooseNull : Option (Accepted M) → Bool
  | some .null => true
  | _ => false

/-- All that is wrong with a value of the type at the path. -/
def faults (site : String) : OutputPlan M → Path → Produced M → List Fault
  | .nonNull inner, path, p =>
    faults site inner path p ++
      if isLooseNull (conform inner p) then [⟨path, .nullInNonNull site⟩] else []
  | .list inner, path, p =>
    match p with
    | .null => []
    | .list ps =>
      itemFaults (fun i p => faults site inner (path ++ [.index i]) p)
        (fun p => inner.isNonNull && (conform inner p).isNone) 0 ps
    | other => [⟨path, .wrongKind site "a list" other.kind⟩]
  | .scalar s, path, p => scalarFaults site s path p
  | .enum e, path, p => enumFaults site e path p
  | .object name isTypeOf, path, p => objectFaults site name isTypeOf path p
  | .abstract d, path, p => abstractFaults site d path p

/-! ### Nulls -/

theorem isLooseNull_require (t : Option (Accepted M)) : isLooseNull (Direct.require t) = false := by
  match t with
  | none | some .null | some (.value _) | some (.list _ _) | some (.object _ _) => rfl

theorem require_of_isLooseNull {t : Option (Accepted M)} (h : isLooseNull t = true) :
    Direct.require t = none := by
  unfold isLooseNull at h
  split at h
  · rfl
  · cases h

theorem isLooseNull_map {α : Type} {f : α → Accepted M} (hf : ∀ a, isLooseNull (some (f a)) = false)
    (t : Option α) : isLooseNull (t.map f) = false := by
  cases t with
  | none => rfl
  | some a => exact hf a

/-- Only a null conforms as one. -/
theorem conform_ne_null {p : Produced M} (hp : p.isNull = false) (plan : OutputPlan M) :
    isLooseNull (conform plan p) = false := by
  cases plan with
  | nonNull inner => exact isLooseNull_require _
  | list inner =>
    cases p with
    | null => cases hp
    | list ps => exact isLooseNull_map (fun _ => rfl) _
    | _ => rfl
  | scalar s =>
    cases p with
    | null => cases hp
    | value v => by_cases hv : s.holds v = true <;> simp [conform, conformScalar, hv, isLooseNull]
    | _ => rfl
  | enum e =>
    cases p with
    | null => cases hp
    | leaf l => exact isLooseNull_map (fun _ => rfl) _
    | value v =>
      cases v with
      | enum name => exact isLooseNull_map (fun _ => rfl) _
      | _ => rfl
    | _ => rfl
  | object name isTypeOf =>
    cases p with
    | null => cases hp
    | model m =>
      by_cases hm : isTypeOf.all (· m) = true <;>
        simp [conform, conformObject, hm, isLooseNull]
    | _ => rfl
  | abstract d =>
    cases p with
    | null => cases hp
    | model m => exact isLooseNull_map (fun _ => rfl) _
    | _ => rfl

/-- A null is at fault only where none may be. -/
theorem faults_null (site : String) (plan : OutputPlan M) (path : Path) :
    faults site plan path .null =
      if plan.isNonNull then [⟨path, .nullInNonNull site⟩] else [] := by
  induction plan with
  | nonNull inner ih =>
    rw [faults, ih, conform_null]
    cases inner.isNonNull <;> rfl
  | _ => rfl

/-! ### Failures of a completion -/

theorem failures_map {α β : Type} (f : α → β) (c : Completed α) :
    (c.map f).failures = c.failures := by
  obtain ⟨result, absorbed, nulled⟩ := c
  cases result <;> rfl

theorem failures_require (site : String) (path : Path) (c : Completed (Option (Rendered M))) :
    (require site path c).failures = c.failures ++
      match c.result with
      | .ok none => [⟨path, (CompletionError.nullInNonNull site).message⟩]
      | _ => [] := by
  obtain ⟨result, absorbed, nulled⟩ := c
  match result with
  | .ok none => simp [require, Completed.failures]
  | .ok (some r) => simp [require, Completed.failures]
  | .error e => simp [require, Completed.failures]

/-- A slot keeps each failure: what it does not hand on it absorbs. -/
theorem failures_slot (plan : OutputPlan M) (path : Path) (c : Completed (Option (Rendered M))) :
    (slot plan path c).failures = c.failures := by
  cases hc : c.result with
  | ok r =>
    cases r with
    | none => simp [slot_none hc, Completed.failures, hc]
    | some r => simp [slot_some hc, Completed.failures, hc]
  | error e =>
    cases hs : plan.isNonNull with
    | true => simp [slot_strict_error hc hs, Completed.failures, hc]
    | false => simp [slot_loose_error hc hs, Completed.failures, hc]

theorem failures_items {f : Nat → Produced M → Completed (Rendered M)}
    {g : Nat → Produced M → List Fault} {stops : Produced M → Bool}
    (hf : ∀ i p, (f i p).failures = (g i p).map Fault.located)
    (hstops : ∀ i p, (f i p).result.isOk = !stops p) (i : Nat) (ps : List (Produced M)) :
    (items f i ps).failures = (itemFaults g stops i ps).map Fault.located := by
  induction ps generalizing i with
  | nil => rfl
  | cons p ps ih =>
    have hhead := hf i p
    have hok := hstops i p
    rw [itemFaults, List.map_append, ← hhead]
    cases hr : (f i p).result with
    | error e =>
      rw [hr] at hok
      have hs : stops p = true := by simpa [Except.isOk, Except.toBool] using hok
      simp [items, hr, hs, Completed.failures]
    | ok r =>
      rw [hr] at hok
      have hs : stops p = false := by simpa [Except.isOk, Except.toBool] using hok
      have htail := ih (i + 1)
      simp only [hs, Bool.false_eq_true, if_false, ← htail]
      cases ht : (items f (i + 1) ps).result <;>
        simp [items, hr, ht, Completed.failures, Except.map]

/-! ### Faults of a completion -/

theorem scalar_failures (site : String) (s : Scalar) (path anchor : Path) (p : Produced M) :
    (value site (.scalar s) path anchor p).failures =
      (scalarFaults site s path p).map Fault.located := by
  cases p with
  | value v => by_cases hv : s.holds v = true <;>
      simp [value, scalar, scalarFaults, hv, Completed.failures, Completed.ok, Completed.fail,
        Fault.located]
  | _ => rfl

theorem enum_failures (site : String) (e : EnumDef) (path anchor : Path) (p : Produced M) :
    (value site (.enum e) path anchor p).failures =
      (enumFaults site e path p).map Fault.located := by
  cases p with
  | leaf l => cases hl : e.nameOf l <;>
      simp [value, enumFaults, hl, Completed.failures, Completed.ok, Completed.fail, Fault.located]
  | value v =>
    cases v with
    | enum name => cases hn : e.values.parse name <;>
        simp [value, enumFaults, hn, Completed.failures, Completed.ok, Completed.fail,
          Fault.located]
    | _ => rfl
  | _ => rfl

theorem object_failures (site name : String) (isTypeOf : Option (M → Bool)) (path anchor : Path)
    (p : Produced M) :
    (value site (.object name isTypeOf) path anchor p).failures =
      (objectFaults site name isTypeOf path p).map Fault.located := by
  cases p with
  | model m =>
    cases isTypeOf with
    | none => rfl
    | some recognised => by_cases hm : recognised m = true <;>
        simp [value, objectFaults, hm, Completed.failures, Completed.ok, Completed.fail,
          Fault.located]
  | _ => rfl

theorem abstract_failures (site : String) (d : Dispatcher M) (path anchor : Path)
    (p : Produced M) :
    (value site (.abstract d) path anchor p).failures =
      (abstractFaults site d path p).map Fault.located := by
  cases p with
  | model m => cases hm : d.resolve m <;>
      simp [value, abstractFaults, hm, Completed.failures, Completed.ok, Completed.fail,
        Fault.located]
  | _ => rfl

theorem complete_failures_of_value {site : String} {plan : OutputPlan M} {path : Path}
    {p : Produced M}
    (h : p.isNull = false → ∀ anchor,
      (value site plan path anchor p).failures = (faults site plan path p).map Fault.located)
    (anchor : Path) :
    (complete site plan path anchor p).failures =
      (faults site plan path p).map Fault.located := by
  cases hp : p.isNull with
  | true =>
    cases p <;> simp [Produced.isNull] at hp
    rw [faults_null]
    cases hs : plan.isNonNull with
    | false => simp [complete_loose hs, Completed.failures, Completed.ok]
    | true =>
      cases plan with
      | nonNull inner =>
        simp [complete_nonNull, require, Completed.failures, Completed.ok, Fault.located]
      | _ => simp [OutputPlan.isNonNull] at hs
  | false =>
    cases hs : plan.isNonNull with
    | false =>
      rw [complete_loose hs]
      exact h hp path
    | true =>
      cases plan with
      | nonNull inner =>
        rw [complete_nonNull, value_nonNull hp, require_require, ← value_nonNull hp]
        exact h hp anchor
      | _ => simp [OutputPlan.isNonNull] at hs

/-- A value that is no null never completes to none. -/
theorem result_ne_none (site : String) (plan : OutputPlan M) (path anchor : Path) {p : Produced M}
    (hp : p.isNull = false) : (value site plan path anchor p).result ≠ .ok none := by
  intro hnone
  have hagrees : Agrees (value site plan path anchor p).result (conformAny plan p) :=
    value_agrees plan path anchor p
  have hany : conformAny plan p = conform plan p := by simp [conformAny, hp]
  rw [hnone, hany] at hagrees
  have hnull := conform_ne_null hp plan
  rw [agrees_ok_none hagrees] at hnull
  cases hnull

theorem value_failures (site : String) (plan : OutputPlan M) (path anchor : Path) {p : Produced M}
    (hp : p.isNull = false) :
    (value site plan path anchor p).failures = (faults site plan path p).map Fault.located := by
  induction plan generalizing path anchor p with
  | scalar s => exact scalar_failures site s path anchor p
  | enum e => exact enum_failures site e path anchor p
  | object name isTypeOf => exact object_failures site name isTypeOf path anchor p
  | abstract d => exact abstract_failures site d path anchor p
  | list inner ih =>
    cases p with
    | list ps =>
      rw [value_items, failures_map, faults]
      refine failures_items (fun i p => ?_) (fun i p => ?_) 0 ps
      · rw [item, failures_slot]
        exact complete_failures_of_value (fun hp anchor => ih _ anchor hp) anchor
      · rw [item, slot_isOk (complete_agrees site inner _ anchor p)]
        cases inner.isNonNull <;> cases conform inner p <;> rfl
    | _ => rfl
  | nonNull inner ih =>
    rw [value_nonNull hp, failures_require, ih path anchor hp, faults, conform_ne_null hp inner]
    have hne := result_ne_none site inner path anchor hp
    cases hr : (value site inner path anchor p).result with
    | ok r =>
      cases r with
      | none => exact absurd hr hne
      | some r => simp
    | error e => simp

/-- **Completion reports everything that is wrong with a value, each thing once.** -/
theorem complete_failures (site : String) (plan : OutputPlan M) (path anchor : Path)
    (p : Produced M) :
    (complete site plan path anchor p).failures =
      (faults site plan path p).map Fault.located :=
  complete_failures_of_value (fun hp anchor => value_failures site plan path anchor hp) anchor

end Completion

end GraphSchema
