import GraphSchema.Proofs.Direct.Linked
import GraphSchema.Proofs.Run.Faults
import GraphSchema.Proofs.Run.Made

/-! Values without a fault.

If every part of a value is what its plan asks for and no list has a null in it, then
completion makes of the value what it is, with no failure and no position to be nulled
(`complete_of_flawless`), and each object is of the type that the plan takes it for. A
field that produces such a value has nothing to report (`settle_of_flawless`). -/
namespace GraphSchema

open Execution
open Direct (Fits object?_name mem_candidates_of_resolve)

variable {M C W : Type}

namespace OutputPlan

/-- The type that the plan takes a model for, if it takes it at all. -/
def typeName? : OutputPlan M → M → Option String
  | object name isTypeOf, m => if isTypeOf.all (· m) then some name else none
  | abstract d, m => (d.resolve m).toOption
  | list inner, m | nonNull inner, m => inner.typeName? m
  | scalar _, _ | enum _, _ => none

/-- The model is taken by the plan, and the concrete type that comes with it is the chosen one. -/
inductive Chooses : OutputPlan M → M → Option String → Prop where
  | object {name : String} {isTypeOf : Option (M → Bool)} {m : M}
    (h : isTypeOf.all (· m) = true) : Chooses (.object name isTypeOf) m none
  | abstract {d : Dispatcher M} {m : M} {name : String} (h : d.resolve m = .ok name) :
    Chooses (.abstract d) m (some name)
  | list {inner : OutputPlan M} {m : M} {given : Option String} (h : Chooses inner m given) :
    Chooses (.list inner) m given
  | nonNull {inner : OutputPlan M} {m : M} {given : Option String} (h : Chooses inner m given) :
    Chooses (.nonNull inner) m given

/-- Where the schema has the types of the plan, the type of an object is the one that the plan takes
it for. -/
theorem Chooses.typeName?_eq {plan : OutputPlan M} {m : M} {given : Option String}
    (h : plan.Chooses m given) {s : Schema M C W} {declared : String} (hfits : Fits s declared plan)
    {u : ObjectType M C W} (hu : concrete s declared given = .ok u) :
    plan.typeName? m = some u.name := by
  induction h with
  | object h =>
    obtain ⟨t, ht, hconcrete⟩ := hfits
    rw [hconcrete, Except.ok.injEq] at hu
    subst hu
    rw [typeName?, if_pos h, object?_name ht]
  | @abstract d m name h =>
    obtain ⟨c, hc, rfl⟩ := mem_candidates_of_resolve h
    obtain ⟨t, ht, hconcrete⟩ := hfits.2 c hc
    rw [hconcrete, Except.ok.injEq] at hu
    subst hu
    rw [typeName?, h, object?_name ht]
    rfl
  | list _ ih | nonNull _ ih => exact ih hfits hu

/-- Every part of the value is what the plan asks for, and no item of a list is null. -/
inductive Flawless : OutputPlan M → Produced M → Prop where
  | null {plan : OutputPlan M} (h : plan.isNonNull = false) : Flawless plan .null
  | scalar {s : Scalar} {v : Value} (h : s.holds v = true) : Flawless (.scalar s) (.value v)
  | enum {e : EnumDef} {l : Leaf} {name : String} (h : e.nameOf l = some name) :
    Flawless (.enum e) (.leaf l)
  | object {name : String} {isTypeOf : Option (M → Bool)} {m : M}
    (h : isTypeOf.all (· m) = true) : Flawless (.object name isTypeOf) (.model m)
  | abstract {d : Dispatcher M} {m : M} {name : String} (h : d.resolve m = .ok name) :
    Flawless (.abstract d) (.model m)
  | list {inner : OutputPlan M} {ps : List (Produced M)}
    (hps : ∀ p ∈ ps, p.isNull = false) (h : ∀ p ∈ ps, Flawless inner p) :
    Flawless (.list inner) (.list ps)
  | nonNull {inner : OutputPlan M} {p : Produced M} (hp : p.isNull = false)
    (h : Flawless inner p) : Flawless (.nonNull inner) p

end OutputPlan

namespace Completion

variable {site : String}

/-- The objects of a rendered value are models in the produced one, as the plan takes them. -/
def Keeps (plan : OutputPlan M) (p : Produced M) (r : Rendered M) : Prop :=
  ∀ m given, r.Contains m given → p.Has m ∧ plan.Chooses m given

/-- The completion has succeeded without any failure on the way, to something if the value is
something. -/
def Clean (plan : OutputPlan M) (p : Produced M) (c : Completed (Option (Rendered M))) : Prop :=
  ∃ found, c = ⟨.ok found, [], []⟩ ∧ (p.isNull = false → found ≠ none) ∧
    ∀ r, found = some r → Keeps plan p r

theorem clean_some {plan : OutputPlan M} {p : Produced M} {r : Rendered M} (h : Keeps plan p r) :
    Clean plan p (.ok (some r)) :=
  ⟨some r, rfl, nofun, fun _ hr => Option.some.inj hr ▸ h⟩

theorem keeps_value (plan : OutputPlan M) (p : Produced M) (v : Value) : Keeps plan p (.value v) :=
  nofun

theorem keeps_object {plan : OutputPlan M} {m : M} {given : Option String}
    (h : plan.Chooses m given) (anchor : Path) :
    Keeps plan (.model m) (.object m anchor given) := by
  intro m' given' hcontains
  cases hcontains
  exact ⟨.model m, h⟩

/-- The items of a list, completed one after the other. -/
theorem items_of_clean {inner : OutputPlan M} {f : Nat → Produced M → Completed (Rendered M)}
    {ps : List (Produced M)}
    (h : ∀ p ∈ ps, ∀ i, ∃ r, f i p = ⟨.ok r, [], []⟩ ∧ Keeps inner p r) (i : Nat) :
    ∃ rs, items f i ps = ⟨.ok rs, [], []⟩ ∧ ∀ r ∈ rs, ∃ p ∈ ps, Keeps inner p r := by
  induction ps generalizing i with
  | nil => exact ⟨[], rfl, nofun⟩
  | cons p ps ih =>
    obtain ⟨r, hr, hkeeps⟩ := h p (List.mem_cons_self ..) i
    obtain ⟨rs, hrs, hall⟩ := ih (fun p hp => h p (List.mem_cons_of_mem _ hp)) (i + 1)
    refine ⟨r :: rs, by simp only [items, hr, hrs]; rfl, fun x hx => ?_⟩
    rcases List.mem_cons.mp hx with rfl | hx
    · exact ⟨p, List.mem_cons_self .., hkeeps⟩
    · obtain ⟨q, hq, hkeeps⟩ := hall x hx
      exact ⟨q, List.mem_cons_of_mem _ hq, hkeeps⟩

/-- Completed for a position of its own, a value is as clean as it was. -/
theorem complete_clean {plan : OutputPlan M} {p : Produced M} {path : Path}
    (hp : p.isNull = false ∨ plan.isNonNull = false)
    (h : ∀ anchor, Clean plan p (value site plan path anchor p)) (anchor : Path) :
    Clean plan p (complete site plan path anchor p) := by
  cases hs : plan.isNonNull with
  | false =>
    rw [complete_loose hs]
    exact h path
  | true =>
    have hsome := hp.resolve_right (by simp [hs])
    cases plan with
    | nonNull inner =>
      obtain ⟨found, hvalue, hne, hkeeps⟩ := h anchor
      rw [complete_nonNull, hvalue]
      cases found with
      | none => exact absurd rfl (hne hsome)
      | some r => exact clean_some (hkeeps r rfl)
    | _ => cases hs

theorem value_of_flawless {plan : OutputPlan M} {p : Produced M} (h : plan.Flawless p)
    (path anchor : Path) : Clean plan p (value site plan path anchor p) := by
  induction h generalizing path anchor with
  | null h =>
    rw [value_null]
    exact ⟨none, rfl, nofun, nofun⟩
  | scalar h =>
    simp only [value, scalar, h, if_true]
    exact clean_some (keeps_value _ _ _)
  | enum h =>
    simp only [value, h]
    exact clean_some (keeps_value _ _ _)
  | @object name isTypeOf m h =>
    cases isTypeOf with
    | none => exact clean_some (keeps_object (.object h) anchor)
    | some recognised =>
      have hm : recognised m = true := h
      simp only [value, hm, if_true]
      exact clean_some (keeps_object (.object h) anchor)
  | abstract h =>
    simp only [value, h]
    exact clean_some (keeps_object (.abstract h) anchor)
  | @list inner ps hps _ ih =>
    have hitem : ∀ p ∈ ps, ∀ i, ∃ r, item site inner path anchor i p = ⟨.ok r, [], []⟩ ∧
        Keeps inner p r := by
      intro p hp i
      have hclean : Clean inner p (complete site inner (path ++ [.index i]) anchor p) :=
        complete_clean (.inl (hps p hp)) (fun anchor => ih p hp _ anchor) anchor
      obtain ⟨found, hdone, hne, hkeeps⟩ := hclean
      cases found with
      | none => exact absurd rfl (hne (hps p hp))
      | some r =>
        refine ⟨r, ?_, hkeeps r rfl⟩
        rw [item, hdone, slot_some rfl]
    obtain ⟨rs, hrs, hall⟩ := items_of_clean hitem 0
    rw [value_items, hrs]
    refine clean_some fun m given hcontains => ?_
    cases hcontains with
    | item hmem hcontains =>
      obtain ⟨p, hp, hkeeps⟩ := hall _ hmem
      obtain ⟨hhas, hchooses⟩ := hkeeps m given hcontains
      exact ⟨.item hp hhas, .list hchooses⟩
  | @nonNull inner p hp _ ih =>
    obtain ⟨found, hvalue, hne, hkeeps⟩ := ih path anchor
    rw [value_nonNull hp, hvalue]
    cases found with
    | none => exact absurd rfl (hne hp)
    | some r =>
      refine clean_some fun m given hcontains => ?_
      obtain ⟨hhas, hchooses⟩ := hkeeps r rfl m given hcontains
      exact ⟨hhas, .nonNull hchooses⟩

/-- **A value without a fault is completed without a failure.** -/
theorem complete_of_flawless {plan : OutputPlan M} {p : Produced M} (h : plan.Flawless p)
    (path anchor : Path) : Clean plan p (complete site plan path anchor p) := by
  refine complete_clean ?_ (fun anchor => value_of_flawless h path anchor) anchor
  cases h with
  | null h => exact .inr h
  | nonNull hp => exact .inl hp
  | _ => exact .inl rfl

end Completion

/-- A field that produces a value without a fault reports nothing and nulls nothing. -/
theorem FieldPlan.settle_of_flawless {plan : FieldPlan M C W} {p : Produced M}
    (h : plan.output.Flawless p) (path anchor : Path) :
    (plan.settle path anchor (.ok p)).failures = [] ∧
      (plan.settle path anchor (.ok p)).nulls = [] := by
  have hclean : Completion.Clean plan.output p
    (Completion.complete plan.site plan.output path anchor p) :=
    Completion.complete_of_flawless h path anchor
  obtain ⟨found, hdone, -⟩ := hclean
  have hresult : (plan.completed path anchor (.ok p)).result = .ok found := by
    rw [completed, hdone]
  rw [settle_ok hresult, completed, hdone]
  exact ⟨rfl, rfl⟩

end GraphSchema
