import GraphSchema.Proofs.Direct.Completion

/-! Completion as one walk over the value.

What completing a value comes to can also be had step by step: one pass that carries
along the place it is at, the nearest place above that may be null, and what it has
come by so far. It appends an index to its path before an item and takes it off
behind it, also if the item failed, and a position that may be null is the anchor for
as long as the pass is inside. So the pass ends at the path and anchor it began with,
whether it succeeds or fails, and has only added to what it had (`visit_eq`). -/
namespace GraphSchema.Completion

variable {M : Type} {site : String}

/-- Where a pass is and what it has come by. -/
structure Progress where
  path : Path
  /-- The path of the nearest position at or above `path` that may be null. -/
  anchor : Path
  absorbed : List Located
  nulled : List Path

namespace Progress

def fail {α : Type} (s : Progress) (e : CompletionError) : Except Located α × Progress :=
  (.error ⟨s.path, e.message⟩, s)

def enter (s : Progress) (i : Nat) : Progress := { s with path := s.path ++ [.index i] }

/-- Takes the last step of the path back. -/
def leave (s : Progress) : Progress := { s with path := s.path.dropLast }

def absorb (s : Progress) (e : Located) : Progress := { s with absorbed := s.absorbed ++ [e] }

/-- What stands for a null item, whose path is kept if it is a stand-in. -/
def nullItem (s : Progress) (plan : OutputPlan M) : Rendered M × Progress :=
  (plan.nullItem.1, if plan.nullItem.2 then { s with nulled := s.nulled ++ [s.path] } else s)

/-- The progress after some more failures and stand-ins. -/
def add (s : Progress) (absorbed : List Located) (nulled : List Path) : Progress :=
  { s with absorbed := s.absorbed ++ absorbed, nulled := s.nulled ++ nulled }

end Progress

/-- A position that may not be null fails on a null. -/
def refuseNull (site : String) :
    Except Located (Option (Rendered M)) × Progress →
      Except Located (Option (Rendered M)) × Progress
  | (.ok none, s) => s.fail (.nullInNonNull site)
  | outcome => outcome

/-- The item that a pass has completed at its place, put in its slot. -/
def settleItem (plan : OutputPlan M) :
    Except Located (Option (Rendered M)) × Progress → Except Located (Rendered M) × Progress
  | (.ok (some r), s) => (.ok r, s)
  | (.ok none, s) => let (r, s) := s.nullItem plan; (.ok r, s)
  | (.error e, s) =>
    if plan.isNonNull then (.error e, s)
    else let (r, s) := (s.absorb e).nullItem plan; (.ok r, s)

/-- The pass over the items from the one at the index on; the first that fails ends it. -/
def visitItems (step : Produced M → Progress → Except Located (Rendered M) × Progress) :
    Nat → List (Produced M) → Progress → Except Located (List (Rendered M)) × Progress
  | _, [], s => (.ok [], s)
  | i, p :: ps, s =>
    match step p (s.enter i) with
    | (.error e, s) => (.error e, s.leave)
    | (.ok r, s) =>
      match visitItems step (i + 1) ps s.leave with
      | (.error e, s) => (.error e, s)
      | (.ok rs, s) => (.ok (r :: rs), s)

mutual

/-- Completes a value. Around one that may be null the anchor is swapped. -/
def visit (site : String) (plan : OutputPlan M) (p : Produced M) (s : Progress) :
    Except Located (Option (Rendered M)) × Progress :=
  match plan with
  | .nonNull inner => refuseNull site (visitValue site inner p s)
  | plan =>
    let (result, after) := visitValue site plan p { s with anchor := s.path }
    (result, { after with anchor := s.anchor })
termination_by (sizeOf plan, 1)

/-- Completes a value whose own nullability has been dealt with. -/
def visitValue (site : String) (plan : OutputPlan M) (p : Produced M) (s : Progress) :
    Except Located (Option (Rendered M)) × Progress :=
  if p.isNull then (.ok none, s)
  else
    match plan, p with
    | .nonNull inner, p => refuseNull site (visitValue site inner p s)
    | .list inner, .list ps =>
      match visitItems (fun p s => settleItem inner (visit site inner p s)) 0 ps s with
      | (.ok rs, s) => (.ok (some (.list rs)), s)
      | (.error e, s) => (.error e, s)
    | .scalar k, .value v =>
      if k.holds v then (.ok (some (.value (scalarValue k v))), s)
      else s.fail (.wrongScalar site k v)
    | .enum e, .leaf l =>
      match e.nameOf l with
      | some name => (.ok (some (.value (.enum name))), s)
      | none => s.fail (.namelessEnumValue site)
    | .enum e, .value (.enum name) =>
      if (e.values.parse name).isSome then (.ok (some (.value (.enum name))), s)
      else s.fail (.wrongKind site "an enum value" "a scalar")
    | .object name isTypeOf, .model m =>
      if isTypeOf.all (· m) then (.ok (some (.object m s.anchor none)), s)
      else s.fail (.wrongType site name)
    | .abstract d, .model m =>
      match d.resolve m with
      | .ok name => (.ok (some (.object m s.anchor (some name))), s)
      | .error e => s.fail (.dispatch e)
    | plan, p => s.fail (.wrongKind site plan.expected p.kind)
termination_by (sizeOf plan, 0)

end

/-! ### The pass and its parts -/

namespace Progress

variable {α β : Type}

/-- A pass that ends at the path and anchor it began with, with what a completion came to. -/
def outcome (s : Progress) (c : Completed α) : Except Located α × Progress :=
  (c.result, s.add c.absorbed c.nulled)

@[simp] theorem add_nil (s : Progress) : s.add [] [] = s := by
  simp [add]

theorem add_add (s : Progress) (a b : List Located) (m n : List Path) :
    (s.add a m).add b n = s.add (a ++ b) (m ++ n) := by
  simp [add]

@[simp] theorem path_add (s : Progress) (a : List Located) (n : List Path) :
    (s.add a n).path = s.path := rfl

@[simp] theorem anchor_add (s : Progress) (a : List Located) (n : List Path) :
    (s.add a n).anchor = s.anchor := rfl

/-- Whatever was added in between, leaving an item is back where it was entered. -/
theorem leave_enter_add (s : Progress) (i : Nat) (a : List Located) (n : List Path) :
    ((s.enter i).add a n).leave = s.add a n := by
  simp [leave, enter, add]

theorem absorb_eq_add (s : Progress) (e : Located) : s.absorb e = s.add [e] [] := by
  simp [absorb, add]

theorem nullItem_eq (s : Progress) (plan : OutputPlan M) :
    s.nullItem plan = (plan.nullItem.1, s.add [] (nullsOf plan s.path [])) := by
  unfold nullItem nullsOf
  cases plan.nullItem.2 <;> simp [add]

theorem outcome_ok (s : Progress) (a : α) : s.outcome (.ok a) = (.ok a, s) := by
  simp [outcome, Completed.ok]

theorem outcome_fail (s : Progress) (e : CompletionError) :
    s.outcome (α := α) (.fail s.path e) = s.fail e := by
  simp [outcome, Completed.fail, fail]

end Progress

open Progress

theorem nullsOf_append (plan : OutputPlan M) (path : Path) (nulled : List Path) :
    nullsOf plan path nulled = nulled ++ nullsOf plan path [] := by
  unfold nullsOf
  split <;> simp

theorem refuseNull_outcome (s : Progress) (c : Completed (Option (Rendered M))) :
    refuseNull site (s.outcome c) = s.outcome (require site s.path c) := by
  obtain ⟨result, absorbed, nulled⟩ := c
  match result with
  | .ok none => rfl
  | .ok (some r) => rfl
  | .error e => rfl

theorem settleItem_outcome (plan : OutputPlan M) (s : Progress)
    (c : Completed (Option (Rendered M))) :
    settleItem plan (s.outcome c) = s.outcome (slot plan s.path c) := by
  cases hc : c.result with
  | ok found =>
    cases found with
    | some r =>
      rw [slot_some hc, outcome, hc]
      rfl
    | none =>
      rw [slot_none hc, nullsOf_append, outcome, outcome, hc, settleItem, nullItem_eq, path_add,
        add_add, List.append_nil]
  | error e =>
    cases hs : plan.isNonNull with
    | true =>
      rw [slot_strict_error hc hs, outcome, outcome, hc, settleItem, if_pos hs]
    | false =>
      rw [slot_loose_error hc hs, nullsOf_append, outcome, outcome, hc, settleItem, hs,
        absorb_eq_add, nullItem_eq, path_add, path_add, add_add, add_add, List.append_nil]
      simp

theorem visitItems_outcome
    {step : Produced M → Progress → Except Located (Rendered M) × Progress}
    {f : Path → Path → Nat → Produced M → Completed (Rendered M)}
    (hstep : ∀ i p (s : Progress),
      step p (s.enter i) = (s.enter i).outcome (f s.path s.anchor i p)) (i : Nat)
    (ps : List (Produced M)) (s : Progress) :
    visitItems step i ps s = s.outcome (items (f s.path s.anchor) i ps) := by
  induction ps generalizing i s with
  | nil => exact (outcome_ok s []).symm
  | cons p ps ih =>
    rw [visitItems, hstep, outcome, items]
    cases hf : (f s.path s.anchor i p).result with
    | error e => simp [outcome, leave_enter_add]
    | ok r =>
      simp only [leave_enter_add, ih, path_add, anchor_add]
      cases hr : (items (f s.path s.anchor) (i + 1) ps).result <;>
        simp [outcome, hr, Except.map, add_add]

/-! ### The pass as a whole -/

theorem visitValue_null (plan : OutputPlan M) (s : Progress) :
    visitValue site plan .null s = (.ok none, s) := by
  unfold visitValue
  exact if_pos rfl

theorem visitValue_scalar (k : Scalar) (p : Produced M) (s : Progress) :
    visitValue site (.scalar k) p s = s.outcome (value site (.scalar k) s.path s.anchor p) := by
  cases p with
  | null => rw [visitValue_null, value_null, outcome_ok]
  | value v =>
    by_cases hv : k.holds v = true <;>
      simp [visitValue, value, scalar, hv, outcome_ok, outcome_fail, Produced.isNull]
  | _ => simp [visitValue, value, outcome_fail, Produced.isNull, OutputPlan.expected]

theorem visitValue_enum (e : EnumDef) (p : Produced M) (s : Progress) :
    visitValue site (.enum e) p s =
      s.outcome (value site (.enum e) s.path s.anchor p) := by
  cases p with
  | null => rw [visitValue_null, value_null, outcome_ok]
  | leaf l =>
    cases hl : e.nameOf l <;>
      simp [visitValue, value, hl, outcome_ok, outcome_fail, Produced.isNull]
  | value v =>
    cases v with
    | enum name =>
      by_cases hn : (e.values.parse name).isSome = true <;>
        simp [visitValue, value, hn, outcome_ok, outcome_fail, Produced.isNull]
    | _ =>
      simp [visitValue, value, outcome_fail, Produced.isNull, OutputPlan.expected, Produced.kind]
  | _ => simp [visitValue, value, outcome_fail, Produced.isNull, OutputPlan.expected]

theorem visitValue_object (name : String) (isTypeOf : Option (M → Bool)) (p : Produced M)
    (s : Progress) :
    visitValue site (.object name isTypeOf) p s =
      s.outcome (value site (.object name isTypeOf) s.path s.anchor p) := by
  cases p with
  | null => rw [visitValue_null, value_null, outcome_ok]
  | model m =>
    cases isTypeOf with
    | none => simp [visitValue, value, outcome_ok, Produced.isNull]
    | some recognised =>
      by_cases hm : recognised m = true <;>
        simp [visitValue, value, hm, outcome_ok, outcome_fail, Produced.isNull]
  | _ => simp [visitValue, value, outcome_fail, Produced.isNull, OutputPlan.expected]

theorem visitValue_abstract (d : Dispatcher M) (p : Produced M) (s : Progress) :
    visitValue site (.abstract d) p s =
      s.outcome (value site (.abstract d) s.path s.anchor p) := by
  cases p with
  | null => rw [visitValue_null, value_null, outcome_ok]
  | model m =>
    cases hm : d.resolve m <;>
      simp [visitValue, value, hm, outcome_ok, outcome_fail, Produced.isNull]
  | _ => simp [visitValue, value, outcome_fail, Produced.isNull, OutputPlan.expected]

theorem visitValue_nonNull {inner : OutputPlan M} {p : Produced M} {s : Progress}
    (hinner : visitValue site inner p s = s.outcome (value site inner s.path s.anchor p)) :
    visitValue site (.nonNull inner) p s =
      s.outcome (value site (.nonNull inner) s.path s.anchor p) := by
  cases hp : p.isNull with
  | true =>
    cases p <;> simp [Produced.isNull] at hp
    rw [visitValue_null, value_null, outcome_ok]
  | false =>
    rw [value_nonNull hp, ← refuseNull_outcome, ← hinner]
    simp [visitValue, hp]

/-- Around a value that may be null the anchor is its path, and behind it what it was. -/
theorem visit_of_visitValue {plan : OutputPlan M} {p : Produced M}
    (hvalue : ∀ s : Progress,
      visitValue site plan p s = s.outcome (value site plan s.path s.anchor p)) (s : Progress) :
    visit site plan p s = s.outcome (complete site plan s.path s.anchor p) := by
  cases hs : plan.isNonNull with
  | false =>
    have hvisit : visit site plan p s =
        ((visitValue site plan p { s with anchor := s.path }).1,
          { (visitValue site plan p { s with anchor := s.path }).2 with anchor := s.anchor }) := by
      cases plan with
      | nonNull inner => cases hs
      | _ => rw [visit]; nofun
    rw [hvisit, hvalue, complete_loose hs]
    rfl
  | true =>
    cases plan with
    | nonNull inner =>
      cases hp : p.isNull with
      | true =>
        cases p <;> simp [Produced.isNull] at hp
        rw [visit, visitValue_null, complete_nonNull, value_null, ← refuseNull_outcome, outcome_ok]
      | false =>
        have hvisit : visit site (.nonNull inner) p s = visitValue site (.nonNull inner) p s := by
          simp [visit, visitValue, hp]
        rw [hvisit, hvalue, value_nonNull hp]
        rfl
    | _ => cases hs

theorem visitValue_list {inner : OutputPlan M}
    (hinner : ∀ p (s : Progress),
      visit site inner p s = s.outcome (complete site inner s.path s.anchor p))
    (p : Produced M) (s : Progress) :
    visitValue site (.list inner) p s =
      s.outcome (value site (.list inner) s.path s.anchor p) := by
  cases p with
  | null => rw [visitValue_null, value_null, outcome_ok]
  | list ps =>
    have hitems : visitItems (fun p s => settleItem inner (visit site inner p s)) 0 ps s =
        s.outcome (items (item site inner s.path s.anchor) 0 ps) :=
      visitItems_outcome (fun i p s => by rw [hinner, settleItem_outcome]; rfl) 0 ps s
    rw [value_items]
    simp only [visitValue, Produced.isNull, Bool.false_eq_true, if_false, hitems, outcome]
    cases hr : (items (item site inner s.path s.anchor) 0 ps).result <;>
      simp [Completed.map, Except.map, hr]
  | _ => simp [visitValue, value, outcome_fail, Produced.isNull, OutputPlan.expected]

theorem visitValue_eq (plan : OutputPlan M) (p : Produced M) (s : Progress) :
    visitValue site plan p s = s.outcome (value site plan s.path s.anchor p) := by
  induction plan generalizing p s with
  | scalar k => exact visitValue_scalar k p s
  | enum e => exact visitValue_enum e p s
  | object name isTypeOf => exact visitValue_object name isTypeOf p s
  | abstract d => exact visitValue_abstract d p s
  | list inner ih => exact visitValue_list (fun p s => visit_of_visitValue (ih p) s) p s
  | nonNull inner ih => exact visitValue_nonNull (ih p s)

/-- **A pass completes the value, adds what it has come by, and ends where it began.** -/
theorem visit_eq (plan : OutputPlan M) (p : Produced M) (s : Progress) :
    visit site plan p s = s.outcome (complete site plan s.path s.anchor p) :=
  visit_of_visitValue (visitValue_eq plan p) s

end GraphSchema.Completion
