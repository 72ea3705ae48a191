import GraphSchema.Proofs.Direct.Calls
import GraphSchema.Proofs.Direct.Completion
import GraphSchema.Proofs.Direct.Linked
import GraphSchema.Proofs.Direct.Mending

/-! Rendering against direct evaluation.

A completed value is rendered piece by piece, and the nulls that its completion
recorded are joined by those of the objects in it. Once they are all written, the
value is what evaluating the accepted one gives, and the calls are those that the
evaluation asks for (`complete_renders`), as long as the selections below do the same
for each object. -/
namespace GraphSchema.Direct

open Execution Completion Mending GraphSchema.Path

variable {M C W : Type} {α : Type}

/-- A part of a run that comes to the value, adds the nulls and the calls, and leaves the world. -/
structure Comes (o : Outcome M C W α) (tr : Trace M C W) (a : α) (nulls : List Path)
    (calls : List (Call M C W)) (w : W) : Prop where
  result : o.1 = .ok a
  nulls : o.2.nulls = tr.nulls ++ nulls
  calls : o.2.calls = tr.calls ++ calls
  world : o.2.world = w

theorem comes_ok (tr : Trace M C W) (a : α) :
    Comes (.ok a, tr) tr a [] [] tr.world :=
  ⟨rfl, (List.append_nil _).symm, (List.append_nil _).symm, rfl⟩

/-- Selecting from an object comes to the direct selection, and selecting from a stand-in to
anything, with nothing done. -/
def Simulates (s : Schema M C W) (declared : String) (select : Execution.Selecting M C W)
    (direct : Selecting M W) (calls : Calling M C W) : Prop :=
  ∀ t ∈ standing s declared,
    (∀ m anchor path tr, ∃ v nulls,
      Comes (select t (.object m anchor) path tr) tr v nulls (calls t.name m path tr.world)
          (direct t.name m tr.world).2 ∧
        Settles path anchor nulls v (direct t.name m tr.world).1) ∧
    ∀ path tr, ∃ v, Comes (select t .hole path tr) tr v [] [] tr.world

section

variable {s : Schema M C W} {select : Execution.Selecting M C W} {direct : Selecting M W}
  {calls : Calling M C W} {declared : String} {path anchor : Path} {nulled : List Path}

/-! ### Stand-ins -/

theorem render_nullItem (hsim : Simulates s declared select direct calls) {plan : OutputPlan M}
    (hfits : Fits s declared plan) (hloose : plan.isNonNull = false) (position : Position)
    (path : Path) (tr : Trace M C W) :
    ∃ v, Comes (Execution.render s select declared position plan.nullItem.1 path tr) tr v [] []
        tr.world ∧ (plan.nullItem.2 = false → v = .null) := by
  rcases nullItem_cases hloose hfits with ⟨hitem, htype⟩ | ⟨v, hitem⟩ | hitem |
    ⟨given, t, hitem, hconcrete⟩ <;> rw [hitem]
  · refine ⟨.null, ?_, fun _ => rfl⟩
    simp only [Execution.render, renderNull, htype]
    exact comes_ok tr _
  · exact ⟨v, comes_ok tr v, fun h => by cases h⟩
  · refine ⟨.list [], ?_, fun h => by cases h⟩
    simp only [Execution.render, Execution.renderItems]
    exact comes_ok tr _
  · obtain ⟨v, hv⟩ := (hsim t (standing_of_concrete hconcrete)).2 path tr
    refine ⟨v, ?_, fun h => by cases h⟩
    simpa only [Execution.render, renderObject, hconcrete] using hv

/-! ### Values -/

variable (s select direct calls declared) in
/-- Rendering `r` comes to the direct evaluation of what is accepted, where `nulled` are the nulls
that were recorded before and a failure is null unless the position is strict. -/
def Renders (path anchor : Path) (nulled : List Path) (strict : Bool) (r : Rendered M)
    (accepted : Accepted M) : Prop :=
  ∀ position tr, ∃ v nulls,
    Comes (Execution.render s select declared position r path tr) tr v nulls
        (callsIn direct calls accepted path tr.world) (render direct accepted tr.world).2 ∧
      Settles path anchor (nulled ++ nulls) v
        (slot strict .null (render direct accepted tr.world).1)

theorem renders_value (v : Value) :
    Renders s select direct calls declared path anchor [] true (.value v) (.value v) :=
  fun _ tr => ⟨v, [], comes_ok tr v, settles_clean v⟩

theorem renders_object (hsim : Simulates s declared select direct calls) {t : ObjectType M C W}
    {name : String} {given : Option String} (hobject : s.object? name = some t)
    (hconcrete : concrete s declared given = .ok t) (m : M) :
    Renders s select direct calls declared path anchor [] true (.object m anchor given)
      (.object m name) := by
  intro position tr
  have hname := object?_name hobject
  obtain ⟨v, nulls, hv, hsettles⟩ :=
    (hsim t (standing_of_concrete hconcrete)).1 m anchor path tr
  rw [hname] at hv hsettles
  refine ⟨v, nulls, ?_, by simpa [render] using hsettles⟩
  simpa only [Execution.render, render, callsIn, renderObject, hconcrete] using hv

theorem renders_nullItem (hsim : Simulates s declared select direct calls) {plan : OutputPlan M}
    (hfits : Fits s declared plan) (hloose : plan.isNonNull = false)
    (hbelow : ∀ q ∈ nulled, path <+: q) :
    Renders s select direct calls declared path anchor
      (nullsOf plan path nulled) false plan.nullItem.1 .null := by
  intro position tr
  obtain ⟨v, hv, hnull⟩ :=
    render_nullItem hsim hfits hloose position path tr
  refine ⟨v, [], hv, ?_⟩
  cases hs : plan.nullItem.2 with
  | true => simpa [render, nullsOf, hs] using settles_standIn hbelow v
  | false =>
    rw [hnull hs]
    simpa [render, nullsOf, hs] using settles_null hbelow

/-- A value in a position that may be null. -/
theorem renders_loose {r : Rendered M} {accepted : Accepted M}
    (h : Renders s select direct calls declared path path nulled true r accepted) (anchor : Path) :
    Renders s select direct calls declared path anchor nulled false r accepted := by
  intro position tr
  obtain ⟨v, nulls, hv, hsettles⟩ := h position tr
  exact ⟨v, nulls, hv, settles_getD hsettles anchor⟩

/-! ### Lists -/

theorem comes_cons {position : Position} {i : Nat} {r : Rendered M} {rs : List (Rendered M)}
    {tr : Trace M C W} {v : Value} {vs : List Value} {nulls nulls' : List Path}
    {made made' : List (Call M C W)} {w w' : W}
    (hv : Comes (Execution.render s select declared position r (path ++ [.index i]) tr) tr v
      nulls made w)
    (hvs : ∀ tr', tr' = (Execution.render s select declared position r (path ++ [.index i]) tr).2 →
      Comes (Execution.renderItems s select declared position (i + 1) rs path tr') tr' vs
        nulls' made' w') :
    Comes (Execution.renderItems s select declared position i (r :: rs) path tr) tr (v :: vs)
      (nulls ++ nulls') (made ++ made') w' := by
  obtain ⟨result, added, entered, _⟩ := hv
  rw [Execution.renderItems]
  generalize Execution.render s select declared position r (path ++ [.index i]) tr = o at *
  obtain ⟨ov, tr'⟩ := o
  subst result
  obtain ⟨result', added', entered', world'⟩ := hvs tr' rfl
  dsimp only at added entered ⊢
  generalize Execution.renderItems s select declared position (i + 1) rs path tr' = o' at *
  obtain ⟨ovs, tr''⟩ := o'
  subst result'
  refine ⟨rfl, ?_, ?_, world'⟩
  · calc tr''.nulls = tr'.nulls ++ nulls' := added'
      _ = tr.nulls ++ (nulls ++ nulls') := by rw [added, List.append_assoc]
  · calc tr''.calls = tr'.calls ++ made' := entered'
      _ = tr.calls ++ (made ++ made') := by rw [entered, List.append_assoc]

theorem renderItems_settles {f : Nat → Produced M → Completed (Rendered M)} {strict : Bool}
    {g : Produced M → Option (Accepted M)}
    (h : ∀ i p r accepted, (f i p).result = .ok r → g p = some accepted →
      Renders s select direct calls declared (path ++ [.index i]) anchor (f i p).nulled strict r
        accepted)
    (position : Position) (i : Nat) (ps : List (Produced M)) {rs : List (Rendered M)}
    {trees : List (Accepted M)} (hrs : (items f i ps).result = .ok rs)
    (htrees : ps.mapM g = some trees) (tr : Trace M C W) :
    ∃ vs nulls,
      Comes (Execution.renderItems s select declared position i rs path tr) tr vs nulls
          (callsInItems direct calls i trees path tr.world)
          (renderItems direct strict trees tr.world).2 ∧
        SettlesItems path anchor i ((items f i ps).nulled ++ nulls) vs
          (renderItems direct strict trees tr.world).1 := by
  induction ps generalizing i rs trees tr with
  | nil =>
    simp only [items, Completed.ok, Except.ok.injEq] at hrs
    simp only [List.mapM_nil, Option.pure_def, Option.some.injEq] at htrees
    subst hrs htrees
    exact ⟨[], [], comes_ok tr [], settlesItems_nil i⟩
  | cons p ps ih =>
    obtain ⟨r, rest, hr, hrest, rfl, hnulled⟩ := items_cons_ok hrs
    simp only [List.mapM_cons, Option.bind_eq_bind, Option.bind_eq_some_iff, Option.pure_def,
      Option.some.injEq] at htrees
    obtain ⟨accepted, haccepted, others, hothers, rfl⟩ := htrees
    obtain ⟨v, nulls, hv, hsettles⟩ := h i p r accepted hr haccepted position tr
    obtain ⟨vs, nulls', hvs, hrestSettles⟩ := ih (i + 1) hrest hothers
      (Execution.render s select declared position r (path ++ [.index i]) tr).2
    rw [hv.world] at hvs hrestSettles
    refine ⟨v :: vs, nulls ++ nulls', comes_cons hv fun tr' htr' => htr' ▸ hvs, ?_⟩
    rw [hnulled]
    exact settlesItems_cons hsettles hrestSettles

/-! ### Positions -/

theorem complete_renders_of_value {plan : OutputPlan M} {site : String} {p : Produced M}
    (h : ∀ anchor r accepted, (value site plan path anchor p).result = .ok (some r) →
      conformAny plan p = some accepted →
      Renders s select direct calls declared path anchor (value site plan path anchor p).nulled true r
        accepted)
    {r : Rendered M} {accepted : Accepted M}
    (hr : (complete site plan path anchor p).result = .ok (some r))
    (haccepted : conform plan p = some accepted) :
    Renders s select direct calls declared path anchor (complete site plan path anchor p).nulled
      plan.isNonNull r accepted := by
  rw [conform_eq] at haccepted
  cases hs : plan.isNonNull with
  | false =>
    rw [complete_loose hs] at hr ⊢
    rw [hs] at haccepted
    exact renders_loose (h path r accepted hr haccepted) anchor
  | true =>
    cases plan with
    | nonNull inner =>
      rw [complete_nonNull] at hr ⊢
      rw [require_nulled]
      exact h anchor r accepted (require_eq_ok hr) (require_eq_some haccepted)
    | _ => simp [OutputPlan.isNonNull] at hs

/-- An item of a list that succeeds. -/
theorem item_renders (hsim : Simulates s declared select direct calls) {inner : OutputPlan M}
    (hfits : Fits s declared inner) {site : String} {i : Nat} {p : Produced M}
    (h : ∀ anchor r accepted,
      (value site inner (path ++ [.index i]) anchor p).result = .ok (some r) →
      conformAny inner p = some accepted →
      Renders s select direct calls declared (path ++ [.index i]) anchor
        (value site inner (path ++ [.index i]) anchor p).nulled true r accepted)
    {r : Rendered M} {accepted : Accepted M} (hr : (item site inner path anchor i p).result = .ok r)
    (haccepted : slot inner.isNonNull .null (conform inner p) = some accepted) :
    Renders s select direct calls declared (path ++ [.index i]) anchor
      (item site inner path anchor i p).nulled inner.isNonNull r accepted := by
  have hagrees := complete_agrees site inner (path ++ [.index i]) anchor p
  have hbelow := complete_nulled_below site inner (path ++ [.index i]) anchor p
  unfold item at hr ⊢
  cases hc : (complete site inner (path ++ [.index i]) anchor p).result with
  | ok found =>
    rw [hc] at hagrees
    cases found with
    | some r' =>
      obtain ⟨u, hu, _⟩ := agrees_ok_some hagrees
      rw [slot_some hc] at hr ⊢
      have haccepted' : conform inner p = some accepted := by
        rw [hu] at haccepted ⊢
        cases hs : inner.isNonNull <;> simpa [hs] using haccepted
      cases hr
      exact complete_renders_of_value h hc haccepted'
    | none =>
      have hnull := agrees_ok_none hagrees
      have hloose := isNonNull_of_agrees_none hagrees
      rw [slot_none hc] at hr ⊢
      rw [hnull, hloose] at haccepted
      cases hr
      cases haccepted
      rw [hloose]
      exact renders_nullItem hsim hfits hloose hbelow
  | error e =>
    rw [hc] at hagrees
    have hnone := agrees_error hagrees
    cases hs : inner.isNonNull with
    | true =>
      rw [slot_strict_error hc hs] at hr
      cases hr
    | false =>
      rw [slot_loose_error hc hs] at hr ⊢
      rw [hnone, hs] at haccepted
      cases hr
      cases haccepted
      exact renders_nullItem hsim hfits hs hbelow

/-! ### Values of each kind -/

theorem scalar_renders (site : String) {k : Scalar} {p : Produced M} {r : Rendered M}
    {accepted : Accepted M} (hr : (value site (.scalar k) path anchor p).result = .ok (some r))
    (haccepted : conformAny (.scalar k) p = some accepted) :
    Renders s select direct calls declared path anchor (value site (.scalar k) path anchor p).nulled
      true r accepted := by
  cases p with
  | value v =>
    by_cases hk : k.holds v = true
    · simp only [value, scalar, hk, if_true, Completed.ok] at hr ⊢
      simp only [conformAny, Produced.isNull, conform, conformScalar, hk, if_true] at haccepted
      cases hr
      cases haccepted
      exact renders_value (scalarValue k v)
    · simp [value, scalar, hk, Completed.fail] at hr
  | _ => simp [value, Completed.ok, Completed.fail] at hr

theorem enum_renders (site : String) {e : EnumDef} {p : Produced M} {r : Rendered M}
    {accepted : Accepted M} (hr : (value site (.enum e) path anchor p).result = .ok (some r))
    (haccepted : conformAny (.enum e) p = some accepted) :
    Renders s select direct calls declared path anchor (value site (.enum e) path anchor p).nulled
      true r accepted := by
  cases p with
  | leaf l =>
    cases hl : e.nameOf l with
    | none => simp [value, hl, Completed.fail] at hr
    | some name =>
      simp only [value, hl, Completed.ok] at hr ⊢
      simp [conformAny, Produced.isNull, conform, conformEnum, hl] at haccepted
      cases hr
      cases haccepted
      exact renders_value (.enum name)
  | value v =>
    cases v with
    | enum name =>
      cases hname : e.values.parse name with
      | none => simp [value, hname, Completed.fail] at hr
      | some l =>
        simp only [value, hname, Option.isSome_some, if_true, Completed.ok] at hr ⊢
        simp [conformAny, Produced.isNull, conform, conformEnum, hname] at haccepted
        cases hr
        cases haccepted
        exact renders_value (.enum name)
    | _ => simp [value, Completed.fail] at hr
  | _ => simp [value, Completed.ok, Completed.fail] at hr

theorem object_renders (hsim : Simulates s declared select direct calls) (site : String)
    {name : String} {isTypeOf : Option (M → Bool)} (hfits : Fits s declared (.object name isTypeOf))
    {p : Produced M} {r : Rendered M} {accepted : Accepted M}
    (hr : (value site (.object name isTypeOf) path anchor p).result = .ok (some r))
    (haccepted : conformAny (.object name isTypeOf) p = some accepted) :
    Renders s select direct calls declared path anchor
      (value site (.object name isTypeOf) path anchor p).nulled true r accepted := by
  obtain ⟨t, hobject, hconcrete⟩ := hfits
  cases p with
  | model m =>
    cases isTypeOf with
    | none =>
      simp only [value, Completed.ok] at hr ⊢
      simp [conformAny, Produced.isNull, conform, conformObject] at haccepted
      cases hr
      cases haccepted
      exact renders_object hsim hobject (hconcrete none) m
    | some recognised =>
      by_cases hm : recognised m = true
      · simp only [value, hm, if_true, Completed.ok] at hr ⊢
        simp [conformAny, Produced.isNull, conform, conformObject, hm] at haccepted
        cases hr
        cases haccepted
        exact renders_object hsim hobject (hconcrete none) m
      · simp [value, hm, Completed.fail] at hr
  | _ => simp [value, Completed.ok, Completed.fail] at hr

theorem abstract_renders (hsim : Simulates s declared select direct calls) (site : String)
    {d : Dispatcher M} (hfits : Fits s declared (.abstract d)) {p : Produced M} {r : Rendered M}
    {accepted : Accepted M} (hr : (value site (.abstract d) path anchor p).result = .ok (some r))
    (haccepted : conformAny (.abstract d) p = some accepted) :
    Renders s select direct calls declared path anchor (value site (.abstract d) path anchor p).nulled
      true r accepted := by
  cases p with
  | model m =>
    cases hm : d.resolve m with
    | error e => simp [value, hm, Completed.fail] at hr
    | ok name =>
      obtain ⟨c, hc, rfl⟩ := mem_candidates_of_resolve hm
      obtain ⟨t, hobject, hconcrete⟩ := hfits.2 c hc
      simp only [value, hm, Completed.ok] at hr ⊢
      simp [conformAny, Produced.isNull, conform, conformAbstract, hm, Except.toOption] at haccepted
      cases hr
      cases haccepted
      exact renders_object hsim hobject hconcrete m
  | _ => simp [value, Completed.ok, Completed.fail] at hr

theorem list_renders (hsim : Simulates s declared select direct calls) (site : String)
    {inner : OutputPlan M} (hfits : Fits s declared inner)
    (ih : ∀ (path anchor : Path) p r accepted,
      (value site inner path anchor p).result = .ok (some r) → conformAny inner p = some accepted →
      Renders s select direct calls declared path anchor (value site inner path anchor p).nulled true r
        accepted)
    {p : Produced M} {r : Rendered M} {accepted : Accepted M}
    (hr : (value site (.list inner) path anchor p).result = .ok (some r))
    (haccepted : conformAny (.list inner) p = some accepted) :
    Renders s select direct calls declared path anchor (value site (.list inner) path anchor p).nulled
      true r accepted := by
  cases p with
  | list ps =>
    rw [value_items] at hr ⊢
    cases hitems : (items (item site inner path anchor) 0 ps).result with
    | error e => simp [Completed.map, hitems, Except.map] at hr
    | ok rs =>
      simp only [Completed.map, hitems, Except.map, Except.ok.injEq, Option.some.injEq] at hr
      simp only [conformAny, Produced.isNull, conform, Bool.false_eq_true, if_false,
        Option.map_eq_some_iff] at haccepted
      obtain ⟨trees, htrees, rfl⟩ := haccepted
      subst hr
      intro position tr
      obtain ⟨vs, nulls, hvs, hsettles⟩ := renderItems_settles
        (fun i p r accepted =>
          item_renders hsim hfits fun anchor r accepted => ih _ anchor p r accepted)
        position 0 ps hitems htrees tr
      refine ⟨.list vs, nulls, ?_, ?_⟩
      · obtain ⟨result, hnulls, hcalls, hworld⟩ := hvs
        rw [Execution.render]
        generalize Execution.renderItems s select declared position 0 rs path tr = o at *
        obtain ⟨ovs, tr'⟩ := o
        subst result
        exact ⟨rfl, hnulls, hcalls, by rw [hworld]; rfl⟩
      · exact settles_list hsettles
  | _ => simp [value, Completed.ok, Completed.fail] at hr

/-- **A completed value, with all its nulls written, is the direct evaluation of what is
accepted.** -/
theorem value_renders (hsim : Simulates s declared select direct calls) {site : String}
    {plan : OutputPlan M} (hfits : Fits s declared plan) (path anchor : Path) (p : Produced M)
    (r : Rendered M) (accepted : Accepted M)
    (hr : (value site plan path anchor p).result = .ok (some r))
    (haccepted : conformAny plan p = some accepted) :
    Renders s select direct calls declared path anchor (value site plan path anchor p).nulled true r
      accepted := by
  induction plan generalizing path anchor p r accepted with
  | scalar k => exact scalar_renders site hr haccepted
  | enum e => exact enum_renders site hr haccepted
  | object name isTypeOf => exact object_renders hsim site hfits hr haccepted
  | abstract d => exact abstract_renders hsim site hfits hr haccepted
  | list inner ih =>
    have hinner : Fits s declared inner := hfits
    exact list_renders hsim site hinner (ih hinner) hr haccepted
  | nonNull inner ih =>
    by_cases hp : p.isNull = true
    · simp [value, hp, Completed.ok] at hr
    · rw [value_nonNull (by simpa using hp)] at hr ⊢
      rw [require_nulled]
      rw [conformAny, if_neg hp] at haccepted
      refine ih hfits path anchor p r accepted (require_eq_ok hr) ?_
      rw [conformAny, if_neg hp]
      exact require_eq_some haccepted

theorem complete_renders (hsim : Simulates s declared select direct calls) {site : String}
    {plan : OutputPlan M} (hfits : Fits s declared plan) {p : Produced M} {r : Rendered M}
    {accepted : Accepted M} (hr : (complete site plan path anchor p).result = .ok (some r))
    (haccepted : conform plan p = some accepted) :
    Renders s select direct calls declared path anchor (complete site plan path anchor p).nulled
      plan.isNonNull r accepted :=
  complete_renders_of_value
    (fun anchor r accepted => value_renders hsim hfits path anchor p r accepted) hr haccepted

end

end GraphSchema.Direct
