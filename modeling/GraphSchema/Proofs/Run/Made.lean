import GraphSchema.Proofs.Direct.Completion
import GraphSchema.Proofs.Direct.Linked
import GraphSchema.Proofs.Success

/-! What completed values are made of.

A list aside, a completed value is a scalar, an enum value, an object that was
produced, or what stands for a null (`complete_made`). So in a linked schema each
part of it has its type, and rendering it never fails (`render_isOk`). -/
namespace GraphSchema

open Execution
open Direct (Fits mem_candidates_of_resolve nullItem_cases)

variable {M C W : Type}

/-- The model is the value or in it. -/
inductive Produced.Has : Produced M → M → Prop where
  | model (m : M) : Has (.model m) m
  | item {p : Produced M} {ps : List (Produced M)} {m : M} (hp : p ∈ ps) (h : Has p m) :
    Has (.list ps) m

/-- An object with its concrete type, anywhere in a rendered value. -/
inductive Rendered.Contains : Rendered M → M → Option String → Prop where
  | object (m : M) (anchor : Path) (given : Option String) :
    Contains (.object m anchor given) m given
  | item {r : Rendered M} {rs : List (Rendered M)} {m : M} {given : Option String} (hmem : r ∈ rs)
    (h : Contains r m given) : Contains (.list rs) m given

/-- The plan at the core of lists and non-nulls. -/
def OutputPlan.core : OutputPlan M → OutputPlan M
  | list inner | nonNull inner => inner.core
  | plan => plan

/-- A rendered value whose parts a plan has made from the produced value. -/
inductive Made (core : OutputPlan M) (p : Produced M) : Rendered M → Prop where
  | null (hloose : core.isNonNull = false) {r : Rendered M} (h : core.nullItem.1 = r) :
    Made core p r
  | value (v : Value) : Made core p (.value v)
  | object {name : String} {isTypeOf : Option (M → Bool)} (hcore : core = .object name isTypeOf)
    {m : M} (hm : p.Has m) (anchor : Path) : Made core p (.object m anchor none)
  | abstract {d : Dispatcher M} (hcore : core = .abstract d) {m : M} (hm : p.Has m)
    {c : Candidate M} (hc : c ∈ d.candidates) (anchor : Path) :
    Made core p (.object m anchor (some c.name))
  | list {rs : List (Rendered M)} (h : ∀ r ∈ rs, Made core p r) : Made core p (.list rs)

theorem made_mono {core : OutputPlan M} {p q : Produced M} (hpq : ∀ m, p.Has m → q.Has m)
    {r : Rendered M} (h : Made core p r) : Made core q r := by
  induction h with
  | null hloose h => exact .null hloose h
  | value v => exact .value v
  | object hcore hm anchor => exact .object hcore (hpq _ hm) anchor
  | abstract hcore hm hc anchor => exact .abstract hcore (hpq _ hm) hc anchor
  | list _ ih => exact .list ih

namespace Completion

variable {site : String}

theorem require_ne_none (path : Path) (c : Completed (Option (Rendered M))) :
    (require site path c).result ≠ .ok none := by
  obtain ⟨result, absorbed, nulled⟩ := c
  match result with
  | .ok none => simp [require]
  | .ok (some r) => simp [require]
  | .error e => simp [require]

/-- The null item of a position is made by its core. -/
theorem made_nullItem {plan : OutputPlan M} (hloose : plan.isNonNull = false) (p : Produced M) :
    Made plan.core p plan.nullItem.1 := by
  cases plan with
  | nonNull inner => cases hloose
  | list inner => exact .list nofun
  | _ => exact .null rfl rfl

/-- What stands in a slot was completed, or is the null item. -/
theorem slot_cases {plan : OutputPlan M} {path anchor : Path} {p : Produced M} {r : Rendered M}
    (h : (slot plan path (complete site plan path anchor p)).result = .ok r) :
    (complete site plan path anchor p).result = .ok (some r) ∨
      plan.isNonNull = false ∧ plan.nullItem.1 = r := by
  cases hc : (complete site plan path anchor p).result with
  | ok found =>
    cases found with
    | some r' =>
      rw [slot_some hc] at h
      cases h
      exact .inl rfl
    | none =>
      rw [slot_none hc] at h
      cases h
      refine .inr ⟨?_, rfl⟩
      cases plan with
      | nonNull inner => exact absurd hc (require_ne_none path _)
      | _ => rfl
  | error e =>
    cases hs : plan.isNonNull with
    | true =>
      rw [slot_strict_error hc hs] at h
      cases h
    | false =>
      rw [slot_loose_error hc hs] at h
      cases h
      exact .inr ⟨rfl, rfl⟩

theorem made_items {core : OutputPlan M} {f : Nat → Produced M → Completed (Rendered M)}
    (hf : ∀ i p r, (f i p).result = .ok r → Made core p r) {i : Nat} {ps : List (Produced M)}
    {rs : List (Rendered M)} (h : (items f i ps).result = .ok rs) :
    ∀ r ∈ rs, ∃ p ∈ ps, Made core p r := by
  induction ps generalizing i rs with
  | nil =>
    cases h
    exact nofun
  | cons p ps ih =>
    obtain ⟨r, rest, hr, hrest, rfl, _⟩ := items_cons_ok h
    intro x hx
    rcases List.mem_cons.mp hx with rfl | hx
    · exact ⟨p, List.mem_cons_self .., hf i p x hr⟩
    · obtain ⟨q, hq, hmade⟩ := ih hrest x hx
      exact ⟨q, List.mem_cons_of_mem _ hq, hmade⟩

theorem complete_made_of_value {plan : OutputPlan M} {path anchor : Path} {p : Produced M}
    (hvalue : ∀ anchor r, (value site plan path anchor p).result = .ok (some r) →
      Made plan.core p r) {r : Rendered M}
    (h : (complete site plan path anchor p).result = .ok (some r)) : Made plan.core p r := by
  cases hs : plan.isNonNull with
  | false =>
    rw [complete_loose hs] at h
    exact hvalue path r h
  | true =>
    cases plan with
    | nonNull inner =>
      rw [complete_nonNull] at h
      exact hvalue anchor r (require_eq_ok h)
    | _ => cases hs

/-! ### The kinds of values -/

section

variable {path anchor : Path} {p : Produced M} {r : Rendered M}

theorem scalar_made {k : Scalar}
    (h : (value site (.scalar k) path anchor p).result = .ok (some r)) :
    Made (.scalar k) p r := by
  cases p with
  | value v =>
    by_cases hv : k.holds v = true
    · simp only [value, scalar, hv, if_true, Completed.ok, Except.ok.injEq,
        Option.some.injEq] at h
      exact h ▸ .value _
    · simp [value, scalar, hv, Completed.fail] at h
  | _ => simp [value, Completed.fail, Completed.ok] at h

theorem enum_made {e : EnumDef}
    (h : (value site (.enum e) path anchor p).result = .ok (some r)) :
    Made (.enum e) p r := by
  cases p with
  | leaf l =>
    cases hl : e.nameOf l with
    | none => simp [value, hl, Completed.fail] at h
    | some name =>
      simp only [value, hl, Completed.ok, Except.ok.injEq, Option.some.injEq] at h
      exact h ▸ .value _
  | value v =>
    cases v with
    | enum name =>
      by_cases hn : (e.values.parse name).isSome = true
      · simp only [value, hn, if_true, Completed.ok, Except.ok.injEq, Option.some.injEq] at h
        exact h ▸ .value _
      · simp [value, hn, Completed.fail] at h
    | _ => simp [value, Completed.fail] at h
  | _ => simp [value, Completed.fail, Completed.ok] at h

theorem object_made {name : String} {isTypeOf : Option (M → Bool)}
    (h : (value site (.object name isTypeOf) path anchor p).result = .ok (some r)) :
    Made (.object name isTypeOf) p r := by
  cases p with
  | model m =>
    have hr : .object m anchor none = r := by
      cases isTypeOf with
      | none => simpa [value, Completed.ok] using h
      | some recognised =>
        by_cases hm : recognised m = true
        · simpa [value, hm, Completed.ok] using h
        · simp [value, hm, Completed.fail] at h
    exact hr ▸ .object rfl (.model m) anchor
  | _ => simp [value, Completed.fail, Completed.ok] at h

theorem abstract_made {d : Dispatcher M}
    (h : (value site (.abstract d) path anchor p).result = .ok (some r)) :
    Made (.abstract d) p r := by
  cases p with
  | model m =>
    cases hm : d.resolve m with
    | error e => simp [value, hm, Completed.fail] at h
    | ok name =>
      obtain ⟨c, hc, rfl⟩ := mem_candidates_of_resolve hm
      simp only [value, hm, Completed.ok, Except.ok.injEq, Option.some.injEq] at h
      exact h ▸ .abstract rfl (.model m) hc anchor
  | _ => simp [value, Completed.fail, Completed.ok] at h

/-- The items of a list are made of the produced ones. -/
theorem list_made {inner : OutputPlan M}
    (hinner : ∀ path anchor p r, (value site inner path anchor p).result = .ok (some r) →
      Made inner.core p r) (h : (value site (.list inner) path anchor p).result = .ok (some r)) :
    Made (OutputPlan.list inner).core p r := by
  cases p with
  | list ps =>
    rw [value_items] at h
    obtain ⟨rs, hrs, heq⟩ := Except.map_eq_ok h
    cases heq
    have hslot : ∀ i p r, (item site inner path anchor i p).result = .ok r →
        Made inner.core p r := by
      intro i p r hr
      rcases slot_cases hr with hr | ⟨hloose, rfl⟩
      · exact complete_made_of_value (fun anchor r => hinner _ anchor p r) hr
      · exact made_nullItem hloose p
    refine .list fun r hr => ?_
    obtain ⟨p, hp, hmade⟩ := made_items hslot hrs r hr
    exact made_mono (fun m hm => .item hp hm) hmade
  | _ => simp [value, Completed.fail, Completed.ok] at h

end

theorem value_made (plan : OutputPlan M) (path anchor : Path) (p : Produced M) (r : Rendered M)
    (h : (value site plan path anchor p).result = .ok (some r)) : Made plan.core p r := by
  induction plan generalizing path anchor p r with
  | scalar k => exact scalar_made h
  | enum e => exact enum_made h
  | object name isTypeOf => exact object_made h
  | abstract d => exact abstract_made h
  | list inner ih => exact list_made ih h
  | nonNull inner ih =>
    cases hp : p.isNull with
    | true =>
      cases p <;> simp [Produced.isNull] at hp
      simp [Completed.ok] at h
    | false =>
      rw [value_nonNull hp] at h
      exact ih path anchor p r (require_eq_ok h)

/-- **A completed value is made of what was produced.** -/
theorem complete_made {plan : OutputPlan M} {path anchor : Path} {p : Produced M} {r : Rendered M}
    (h : (complete site plan path anchor p).result = .ok (some r)) : Made plan.core p r :=
  complete_made_of_value (fun anchor r => value_made plan path anchor p r) h

end Completion

/-! ### Objects in made values -/

/-- A null item holds no object. -/
theorem not_contains_nullItem (plan : OutputPlan M) (m : M) (given : Option String) :
    ¬ plan.nullItem.1.Contains m given := by
  unfold OutputPlan.nullItem
  intro h
  split at h
  · cases h
  · cases h
  · cases h with
    | item hmem _ => cases hmem
  · split at h <;> cases h
  · cases h
  · split at h <;> cases h

/-- Whatever renders as an object was produced. -/
theorem has_of_contains {core : OutputPlan M} {p : Produced M} {r : Rendered M}
    (hmade : Made core p r) {m : M} {given : Option String} (h : r.Contains m given) : p.Has m := by
  induction h with
  | object m anchor given =>
    cases hmade with
    | null _ hnull =>
      exact absurd (hnull ▸ .object m anchor given) (not_contains_nullItem core m given)
    | object _ hm => exact hm
    | abstract _ hm => exact hm
  | @item _ rs m given hmem hcontains ih =>
    cases hmade with
    | null _ hnull =>
      have hlist : (Rendered.list rs).Contains m given := .item hmem hcontains
      exact absurd (hnull ▸ hlist) (not_contains_nullItem core m given)
    | list hitems => exact ih (hitems _ hmem)

/-! ### Rendering of made values -/

/-- What is selected of an object is a value at any rate. -/
def Yields (select : Selecting M C W) : Prop :=
  ∀ t parent path tr, ∃ v tr', select t parent path tr = (.ok v, tr')

variable {s : Schema M C W} {select : Selecting M C W} {declared : String} {position : Position}

theorem fits_core {plan : OutputPlan M} (h : Fits s declared plan) : Fits s declared plan.core := by
  induction plan with
  | list inner ih | nonNull inner ih => exact ih h
  | _ => exact h

theorem renderObject_yields (hselect : Yields select) {given : Option String}
    {t : ObjectType M C W} (ht : concrete s declared given = .ok t) (parent : Parent M)
    (path : Path) (tr : Trace M C W) :
    ∃ v tr', renderObject s select declared position parent given path tr = (.ok v, tr') := by
  rw [renderObject, ht]
  exact hselect t parent path tr

theorem renderItems_yields {rs : List (Rendered M)}
    (h : ∀ r ∈ rs, ∀ path tr, ∃ v tr', render s select declared position r path tr = (.ok v, tr'))
    (i : Nat) (path : Path) (tr : Trace M C W) :
    ∃ vs tr', renderItems s select declared position i rs path tr = (.ok vs, tr') := by
  induction rs generalizing i tr with
  | nil => exact ⟨[], tr, rfl⟩
  | cons r rs ih =>
    obtain ⟨v, tr', hfirst⟩ := h r (List.mem_cons_self ..) (path ++ [.index i]) tr
    obtain ⟨vs, tr'', hrest⟩ := ih (fun r hr => h r (List.mem_cons_of_mem _ hr)) (i + 1) tr'
    exact ⟨v :: vs, tr'', by simp only [renderItems, hfirst, hrest]⟩

theorem nullItem_yields (hselect : Yields select) {plan : OutputPlan M}
    (hloose : plan.isNonNull = false) (hfits : Fits s declared plan) (path : Path)
    (tr : Trace M C W) :
    ∃ v tr', render s select declared position plan.nullItem.1 path tr = (.ok v, tr') := by
  rcases nullItem_cases hloose hfits with ⟨hitem, htype⟩ | ⟨v, hitem⟩ | hitem |
    ⟨given, t, hitem, hconcrete⟩ <;> rw [hitem]
  · exact ⟨.null, tr, by simp only [render, renderNull, htype]⟩
  · exact ⟨v, tr, rfl⟩
  · exact ⟨.list [], tr, rfl⟩
  · exact renderObject_yields hselect hconcrete .hole path tr

/-- **In a schema that has the types of a plan, rendering what the plan made never fails.** -/
theorem render_yields (hselect : Yields select) {core : OutputPlan M}
    (hfits : Fits s declared core) {p : Produced M} {r : Rendered M} (hmade : Made core p r)
    (path : Path) (tr : Trace M C W) :
    ∃ v tr', render s select declared position r path tr = (.ok v, tr') := by
  induction hmade generalizing path tr with
  | null hloose h => exact h ▸ nullItem_yields hselect hloose hfits path tr
  | value v => exact ⟨v, tr, rfl⟩
  | object hcore hm anchor =>
    subst hcore
    obtain ⟨t, _, ht⟩ := hfits
    exact renderObject_yields hselect (ht none) _ path tr
  | abstract hcore hm hc anchor =>
    subst hcore
    obtain ⟨t, _, ht⟩ := hfits.2 _ hc
    exact renderObject_yields hselect ht _ path tr
  | list _ ih =>
    obtain ⟨vs, tr', hitems⟩ := renderItems_yields (fun r hr => ih r hr) 0 path tr
    exact ⟨.list vs, tr', by simp only [render, hitems]⟩

end GraphSchema
