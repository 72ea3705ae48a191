import GraphSchema.Proofs.Completion.ValueOf
import GraphSchema.Proofs.Completion.Threaded

/-! Completion re-checks every value.

Whatever a resolver yields, what comes out of completion is of the type that the plan was
made for. What has to be known of a completion for that is one structure (`Rechecked`), with
variants for an item in its slot and for the items of a list, and is shown kind by kind,
the items one after the other and types from the inside out (`rechecked_value`). The pass
itself then ends where it began (`visit_rechecks`). -/
namespace GraphSchema.Completion

open Catalog Link GraphSchema.Path

variable {M C W : Type} {c : Catalog M C W} {site : String} {ty : TypeExpr} {plan : OutputPlan M}
  {path anchor : Path} {p : Produced M}

/-- What is known of a completion at the path: a value conforms, a null was produced, and a failure
belongs below. Each absorbed failure is below a null of the value, if there is one. -/
structure Rechecked (c : Catalog M C W) (ty : TypeExpr) (path anchor : Path) (p : Produced M)
    (done : Completed (Option (Rendered M))) : Prop where
  nulled : Within path 0 done.nulled
  absorbed : Within path 0 (done.absorbed.map (·.path))
  conforms : ∀ r, done.result = .ok (some r) →
    ValueOf c done.absorbed done.nulled ty path anchor p r
  shown : ∀ r, done.result = .ok (some r) → ∀ e ∈ done.absorbed, ∃ q ty',
    NullAt done.nulled r ty path q ty' ∧ q <+: e.path
  null : done.result = .ok none → p = .null ∧ done.absorbed = [] ∧ done.nulled = []
  failed : ∀ e, done.result = .error e → path <+: e.path

/-- The failure belongs at or below a null: that of the item at the path, or one within it. -/
def ShowsNull (nulled : List Path) (r : Rendered M) (ty : TypeExpr) (path : Path) (e : Located) :
    Prop :=
  (r = .null ∨ path ∈ nulled) ∨ ∃ q ty', NullAt nulled r ty path q ty' ∧ q <+: e.path

/-- The same of an item in its slot, which may be null itself. -/
structure ItemRechecked (c : Catalog M C W) (ty : TypeExpr) (path anchor : Path) (p : Produced M)
    (done : Completed (Rendered M)) : Prop where
  nulled : ∀ q ∈ done.nulled, path <+: q
  absorbed : ∀ e ∈ done.absorbed, path <+: e.path
  inSlot : ∀ r, done.result = .ok r → InSlot c done.absorbed done.nulled ty path anchor p r
  shown : ∀ r, done.result = .ok r → ∀ e ∈ done.absorbed, ShowsNull done.nulled r ty path e
  failed : ∀ e, done.result = .error e → path <+: e.path

/-- The same of the items of a list from the one at the index on. -/
structure ItemsRechecked (c : Catalog M C W) (ty : TypeExpr) (path anchor : Path) (i : Nat)
    (ps : List (Produced M)) (done : Completed (List (Rendered M))) : Prop where
  nulled : Within path i done.nulled
  absorbed : Within path i (done.absorbed.map (·.path))
  length : ∀ rs, done.result = .ok rs → rs.length = ps.length
  inSlot : ∀ rs, done.result = .ok rs → ∀ j p r, ps[j]? = some p → rs[j]? = some r →
    InSlot c done.absorbed done.nulled ty (path ++ [.index (i + j)]) anchor p r
  shown : ∀ rs, done.result = .ok rs → ∀ e ∈ done.absorbed, ∃ j r, rs[j]? = some r ∧
    path ++ [.index (i + j)] <+: e.path ∧ ShowsNull done.nulled r ty (path ++ [.index (i + j)]) e
  failed : ∀ e, done.result = .error e → path <+: e.path

/-! ### Plans -/

theorem isNonNull_of_outputPlan {w : Walk M C W} (hplan : outputPlan c w ty = .ok plan) :
    plan.isNonNull = ty.isNonNull := by
  cases ty with
  | scalar s =>
    cases hplan
    rfl
  | object h =>
    simp only [outputPlan] at hplan
    split at hplan <;> cases hplan
    rfl
  | enum h | interface h | union h | list inner | nonNull inner =>
    obtain ⟨_, -, rfl⟩ := Except.map_eq_ok hplan
    rfl

/-- An interface or union is planned as the dispatcher over its possible types. -/
theorem dispatcher_of_outputPlan {w : Walk M C W} {h : Handle} (htag : ty.abstract? = some h)
    (hplan : outputPlan c w ty = .ok plan) :
    ∃ t resolveType possible, c.get? h = some t ∧ c.Possible h t resolveType possible ∧
      plan = .abstract (c.dispatcherOver t.name resolveType possible) := by
  cases ty with
  | interface x | union x =>
    cases htag
    obtain ⟨D, hD, rfl⟩ := Except.map_eq_ok hplan
    cases hget : c.get? h with
    | none => simp [dispatcherOf, hget] at hD
    | some t =>
      obtain ⟨-, resolveType, possible, hpossible, hD⟩ := Linking.dispatcherOf_ok hget hD
      exact ⟨t, resolveType, possible, rfl, possible_iff.mpr hpossible,
        congrArg _ (Linking.dispatcher_ok hD)⟩
  | _ => cases htag

theorem enum_of_outputPlan {w : Walk M C W} {h : Handle}
    (hplan : outputPlan c w (.enum h) = .ok plan) :
    ∃ e, c.enum? h = some e ∧ plan = .enum e := by
  obtain ⟨e, he, rfl⟩ := Except.map_eq_ok hplan
  exact ⟨e, enumOf_eq_ok.mp he, rfl⟩

theorem object_of_outputPlan {w : Walk M C W} {h : Handle}
    (hplan : outputPlan c w (.object h) = .ok plan) :
    ∃ t, c.get? h = some t ∧ plan = .object t.name (predicate c h) := by
  cases hget : c.get? h with
  | none => simp [outputPlan, hget] at hplan
  | some t =>
    simp only [outputPlan, hget, Except.ok.injEq] at hplan
    exact ⟨t, rfl, hplan.symm⟩

/-- The null item of a plan is a stand-in, if the type has one. -/
theorem nullItem_of_outputPlan {w : Walk M C W} (hplan : outputPlan c w ty = .ok plan)
    (hloose : ty.isNonNull = false) :
    (plan.nullItem.2 = true ∧ c.StandsIn ty plan.nullItem.1) ∨
      (plan.nullItem = (.null, false) ∧ ∀ r, ¬ c.StandsIn ty r) := by
  cases ty with
  | nonNull inner => cases hloose
  | scalar s =>
    cases hplan
    refine .inr ⟨rfl, fun r hr => ?_⟩
    cases hr with
    | abstract tag => cases tag
  | list inner =>
    obtain ⟨_, -, rfl⟩ := Except.map_eq_ok hplan
    exact .inl ⟨rfl, .list inner⟩
  | object h =>
    obtain ⟨t, -, rfl⟩ := object_of_outputPlan hplan
    exact .inl ⟨rfl, .object h⟩
  | enum h =>
    obtain ⟨e, he, rfl⟩ := enum_of_outputPlan hplan
    cases hvalues : e.values with
    | cons v rest =>
      simp only [OutputPlan.nullItem, hvalues]
      exact .inl ⟨trivial, .enum he hvalues⟩
    | nil =>
      refine .inr ⟨by simp only [OutputPlan.nullItem, hvalues], fun r hr => ?_⟩
      cases hr with
      | abstract tag => cases tag
      | enum get first =>
        cases he.symm.trans get
        cases hvalues.symm.trans first
  | interface h | union h =>
    obtain ⟨t, resolveType, possible, hget, hpossible, rfl⟩ := dispatcher_of_outputPlan rfl hplan
    cases possible with
    | cons x rest => exact .inl ⟨rfl, .abstract rfl hget hpossible⟩
    | nil =>
      refine .inr ⟨rfl, fun r hr => ?_⟩
      cases hr with
      | abstract tag get possible' =>
        cases tag
        cases hget.symm.trans get
        have hsame := (possible_iff.mp hpossible).symm.trans (possible_iff.mp possible')
        simp at hsame

/-! ### Values without parts -/

theorem rechecked_ok {r : Rendered M} (h : ValueOf c [] [] ty path anchor p r) :
    Rechecked c ty path anchor p (.ok (some r)) where
  nulled := nofun
  absorbed := nofun
  conforms := by
    rintro _ ⟨⟩
    exact h
  shown := nofun
  null := nofun
  failed := nofun

theorem rechecked_null : Rechecked c ty path anchor (.null : Produced M) (.ok none) where
  nulled := nofun
  absorbed := nofun
  conforms := nofun
  shown := nofun
  null _ := ⟨rfl, rfl, rfl⟩
  failed := nofun

theorem rechecked_fail (e : CompletionError) :
    Rechecked c ty path anchor p (.fail path e) where
  nulled := nofun
  absorbed := nofun
  conforms := nofun
  shown := nofun
  null := nofun
  failed := by
    rintro _ ⟨⟩
    exact List.prefix_refl _

/-! ### Kinds of values -/

theorem scalar_shows {s : Scalar} {v : Value} (h : s.holds v = true) :
    s.Shows v (scalarValue s v) := by
  cases s <;> cases v <;> simp only [Scalar.holds, Bool.false_eq_true] at h
  case string.string t => exact .string t
  case boolean.boolean b => exact .boolean b
  case float.number n => exact .float n
  case id.string t => exact .id t
  case int.number n =>
    cases n with
    | float x => simp [Number.int32?] at h
    | int i =>
      have hi : -0x80000000 ≤ i ∧ i < 0x80000000 := by
        simp [Number.int32?, Number.isInt32] at h
        omega
      exact .int hi.1 hi.2
  case id.number n =>
    cases n with
    | float x => cases h
    | int i =>
      have hi : -0x8000000000000000 ≤ i ∧ i < 0x10000000000000000 := by
        simp [Number.isWord, Number.isInt64, Number.isUInt64] at h
        omega
      exact .digits hi.1 hi.2

theorem rechecked_scalar (s : Scalar) (p : Produced M) :
    Rechecked c (.scalar s) path anchor p (value site (.scalar s) path anchor p) := by
  cases p with
  | null => exact rechecked_null
  | value v =>
    rw [value, scalar]
    split
    · next hv => exact rechecked_ok (.scalar (scalar_shows hv))
    · exact rechecked_fail _
  | _ => exact rechecked_fail _

theorem rechecked_enum {h : Handle} {e : EnumDef} (he : c.enum? h = some e) (p : Produced M) :
    Rechecked c (.enum h) path anchor p (value site (.enum e) path anchor p) := by
  cases p with
  | null => exact rechecked_null
  | leaf l =>
    cases hl : e.nameOf l with
    | none =>
      simp only [value, hl]
      exact rechecked_fail _
    | some name =>
      obtain ⟨v, hfind, rfl⟩ := Option.map_eq_some_iff.mp hl
      have hsame : e.same v.value l = true := by simpa using List.find?_some hfind
      simp only [value, hl]
      exact rechecked_ok (.enum he (List.mem_of_find?_eq_some hfind) (.inr ⟨l, rfl, hsame⟩))
  | value v =>
    cases v with
    | enum name =>
      cases hn : e.values.parse name with
      | none =>
        simp only [value, hn]
        exact rechecked_fail _
      | some l =>
        obtain ⟨v, hfind, -⟩ := Option.map_eq_some_iff.mp hn
        have hname : v.name = name := by simpa using List.find?_some hfind
        simp only [value, hn, Option.isSome_some, if_true]
        rw [← hname]
        exact rechecked_ok (.enum he (List.mem_of_find?_eq_some hfind) (.inl rfl))
    | _ => exact rechecked_fail _
  | _ => exact rechecked_fail _

theorem rechecked_object {h : Handle} {t : TypeDef M C W} (hget : c.get? h = some t)
    (p : Produced M) :
    Rechecked c (.object h) path anchor p
      (value site (.object t.name (predicate c h)) path anchor p) := by
  cases p with
  | null => exact rechecked_null
  | model m =>
    cases hp : predicate c h with
    | none => exact rechecked_ok (.object hget fun q hq => nomatch hp.symm.trans hq)
    | some recognised =>
      by_cases hm : recognised m = true
      · simp only [value, hm, if_true]
        exact rechecked_ok (.object hget fun q hq => Option.some.inj (hp.symm.trans hq) ▸ hm)
      · simp only [value, hm]
        exact rechecked_fail _
  | _ => exact rechecked_fail _

theorem rechecked_abstract {h : Handle} (htag : ty.abstract? = some h) {t : TypeDef M C W}
    {resolveType : Option (M → Option String)} {possible : List Handle}
    (hget : c.get? h = some t) (hpossible : c.Possible h t resolveType possible)
    (p : Produced M) :
    Rechecked c ty path anchor p
      (value site (.abstract (c.dispatcherOver t.name resolveType possible)) path anchor p) := by
  cases p with
  | null => exact rechecked_null
  | model m =>
    cases hr : (c.dispatcherOver t.name resolveType possible).resolve m with
    | error e =>
      simp only [value, hr]
      exact rechecked_fail _
    | ok name =>
      have hdispatches := dispatches_iff.mpr hr
      obtain ⟨x, hx, rfl⟩ := mem_of_dispatches hdispatches
      simp only [value, hr]
      exact rechecked_ok (.abstract htag hget hpossible hx hdispatches)
  | _ => exact rechecked_fail _

/-! ### Positions that may not be null -/

theorem rechecked_require {done : Completed (Option (Rendered M))}
    (h : Rechecked c ty path anchor p done) :
    Rechecked c ty path anchor p (require site path done) := by
  cases hr : done.result with
  | error e =>
    have heq : require site path done = done := by simp [require, hr]
    rwa [heq]
  | ok found =>
    cases found with
    | some r =>
      have heq : require site path done = done := by simp [require, hr]
      rwa [heq]
    | none =>
      obtain ⟨-, habsorbed, hnulled⟩ := h.null hr
      have heq : require site path done = .fail path (.nullInNonNull site) := by
        simp [require, hr, habsorbed, hnulled, Completed.fail]
      rw [heq]
      exact rechecked_fail _

theorem rechecked_nonNull {done : Completed (Option (Rendered M))}
    (h : Rechecked c ty path anchor p done) : Rechecked c (.nonNull ty) path anchor p done where
  nulled := h.nulled
  absorbed := h.absorbed
  conforms r hr := .nonNull (h.conforms r hr)
  shown r hr e he := by
    obtain ⟨q, ty', hnull, hq⟩ := h.shown r hr e he
    exact ⟨q, ty', .nonNull hnull, hq⟩
  null := h.null
  failed := h.failed

theorem rechecked_complete {w : Walk M C W} (hplan : outputPlan c w ty = .ok plan)
    (hvalue : ∀ anchor, Rechecked c ty path anchor p (value site plan path anchor p)) :
    Rechecked c ty path (ty.anchor path anchor) p (complete site plan path anchor p) := by
  have hstrict := isNonNull_of_outputPlan hplan
  cases hs : plan.isNonNull with
  | false =>
    rw [complete_loose hs, TypeExpr.anchor, ← hstrict, hs]
    exact hvalue path
  | true =>
    cases plan with
    | nonNull inner =>
      rw [complete_nonNull, TypeExpr.anchor, ← hstrict, hs]
      exact rechecked_require (hvalue anchor)
    | _ => cases hs

theorem complete_ne_none (hs : plan.isNonNull = true) :
    (complete site plan path anchor p).result ≠ .ok none := by
  cases plan with
  | nonNull inner =>
    rw [complete_nonNull]
    exact require_ne_none path _
  | _ => cases hs

/-! ### Items -/

/-- A null item is in its slot, and is null there. -/
theorem inSlot_nullItem {w : Walk M C W} (hplan : outputPlan c w ty = .ok plan)
    (hloose : ty.isNonNull = false) {absorbed : List Located} (hlost : Lost absorbed path p)
    (nulled : List Path) :
    InSlot c absorbed (nullsOf plan path nulled) ty path anchor p plan.nullItem.1 ∧
      (plan.nullItem.1 = .null ∨ path ∈ nullsOf plan path nulled) := by
  rcases nullItem_of_outputPlan hplan hloose with ⟨hkept, hstands⟩ | ⟨hnull, hbare⟩
  · have hmem : path ∈ nullsOf plan path nulled := by
      rw [nullsOf, hkept]
      exact List.mem_append_right _ (List.mem_singleton_self path)
    exact ⟨.standIn hloose hlost hstands hmem, .inr hmem⟩
  · rw [hnull]
    exact ⟨.null hloose hlost hbare, .inl rfl⟩

theorem itemRechecked_slot {w : Walk M C W} (hplan : outputPlan c w ty = .ok plan)
    {done : Completed (Option (Rendered M))}
    (h : Rechecked c ty path (ty.anchor path anchor) p done)
    (hstrict : ty.isNonNull = true → done.result ≠ .ok none) :
    ItemRechecked c ty path anchor p (slot plan path done) := by
  have hnulled := below_of_within h.nulled
  have habsorbed : ∀ e ∈ done.absorbed, path <+: e.path :=
    fun e he => below_of_within h.absorbed _ (List.mem_map_of_mem he)
  cases hr : done.result with
  | ok found =>
    cases found with
    | some r =>
      rw [slot_some hr]
      have hkept : path ∉ done.nulled := by
        intro hmem
        obtain ⟨_, -, hbelow⟩ := h.nulled path hmem
        exact not_snoc_prefix hbelow
      refine ⟨hnulled, habsorbed, ?_, ?_, nofun⟩
      · rintro _ ⟨⟩
        exact .value (h.conforms r hr) hkept
      · rintro _ ⟨⟩ e he
        exact .inr (h.shown r hr e he)
    | none =>
      obtain ⟨rfl, hquiet, -⟩ := h.null hr
      have hloose : ty.isNonNull = false := by
        rw [← Bool.not_eq_true]
        exact fun hs => hstrict hs hr
      rw [slot_none hr]
      refine ⟨nullsOf_below hnulled, habsorbed, ?_, ?_, nofun⟩
      · rintro _ ⟨⟩
        exact (inSlot_nullItem hplan hloose (.inl rfl) _).1
      · simp [hquiet]
  | error e =>
    have hfailed := h.failed e hr
    cases hs : plan.isNonNull with
    | true =>
      rw [slot_strict_error hr hs]
      refine ⟨hnulled, habsorbed, nofun, nofun, ?_⟩
      rintro _ ⟨⟩
      exact hfailed
    | false =>
      have hloose : ty.isNonNull = false := isNonNull_of_outputPlan hplan ▸ hs
      have hlost : Lost (done.absorbed ++ [e]) path p :=
        .inr ⟨e, List.mem_append_right _ (List.mem_singleton_self e), hfailed⟩
      have hnull : InSlot c (done.absorbed ++ [e]) (nullsOf plan path done.nulled) ty path anchor p
          plan.nullItem.1 ∧ _ := inSlot_nullItem hplan hloose hlost done.nulled
      rw [slot_loose_error hr hs]
      refine ⟨nullsOf_below hnulled, fun f hf => ?_, ?_, ?_, nofun⟩
      · rcases List.mem_append.mp hf with hf | hf
        · exact habsorbed f hf
        · exact List.mem_singleton.mp hf ▸ hfailed
      · rintro _ ⟨⟩
        exact hnull.1
      · rintro _ ⟨⟩ _ _
        exact .inl hnull.2

/-! ### Lists -/

theorem ShowsNull.mono {nulled nulled' : List Path} {r : Rendered M} {e : Located}
    (h : ShowsNull nulled r ty path e) (hnulled : ∀ q ∈ nulled, q ∈ nulled') :
    ShowsNull nulled' r ty path e := by
  rcases h with hnull | ⟨q, ty', hnull, hq⟩
  · exact .inl (hnull.imp_right (hnulled path))
  · exact .inr ⟨q, ty', hnull.mono hnulled, hq⟩

theorem mem_append_of_within {i : Nat} {head tail : List Path} (htail : Within path (i + 1) tail)
    {q : Path} (hq : path ++ [.index i] <+: q) : q ∈ head ++ tail ↔ q ∈ head := by
  refine ⟨fun hmem => ?_, List.mem_append_left _⟩
  refine (List.mem_append.mp hmem).resolve_right fun hmem => ?_
  obtain ⟨j, hj, hbelow⟩ := htail q hmem
  have hsame := Segment.index.inj <| eq_of_snoc_prefix hq hbelow
  omega

theorem mem_append_of_below {i j : Nat} {head tail : List Path}
    (hhead : ∀ q ∈ head, path ++ [.index i] <+: q) {q : Path}
    (hq : path ++ [.index (i + 1 + j)] <+: q) : q ∈ head ++ tail ↔ q ∈ tail := by
  refine ⟨fun hmem => ?_, List.mem_append_right _⟩
  refine (List.mem_append.mp hmem).resolve_left fun hmem => ?_
  have hsame := Segment.index.inj <| eq_of_snoc_prefix hq (hhead q hmem)
  omega

theorem within_absorbed {i : Nat} {absorbed : List Located}
    (h : ∀ e ∈ absorbed, path ++ [.index i] <+: e.path) :
    Within path i (absorbed.map (·.path)) :=
  within_of_below (List.forall_mem_map.mpr h)

theorem rechecked_cons {i : Nat} {ps : List (Produced M)} {head : Completed (Rendered M)}
    {tail : Completed (List (Rendered M))}
    (hhead : ItemRechecked c ty (path ++ [.index i]) anchor p head)
    (htail : ItemsRechecked c ty path anchor (i + 1) ps tail) {r : Rendered M}
    (hr : head.result = .ok r) :
    ItemsRechecked c ty path anchor i (p :: ps)
      ⟨tail.result.map (r :: ·), head.absorbed ++ tail.absorbed, head.nulled ++ tail.nulled⟩ where
  nulled := within_append (within_of_below hhead.nulled) (within_of_succ htail.nulled)
  absorbed := by
    rw [List.map_append]
    exact within_append (within_absorbed hhead.absorbed) (within_of_succ htail.absorbed)
  length rs hrs := by
    obtain ⟨rest, hrest, rfl⟩ := Except.map_eq_ok hrs
    rw [List.length_cons, List.length_cons, htail.length rest hrest]
  inSlot rs hrs j q s hq hs := by
    obtain ⟨rest, hrest, rfl⟩ := Except.map_eq_ok hrs
    cases j with
    | zero =>
      cases hq
      cases hs
      exact (hhead.inSlot r hr).mono (fun e => List.mem_append_left _)
        fun q hq => mem_append_of_within htail.nulled hq
    | succ j =>
      rw [← Nat.add_assoc, Nat.add_right_comm]
      exact (htail.inSlot rest hrest j q s hq hs).mono (fun e => List.mem_append_right _)
        fun q hq => mem_append_of_below hhead.nulled hq
  shown rs hrs e he := by
    obtain ⟨rest, hrest, rfl⟩ := Except.map_eq_ok hrs
    rcases List.mem_append.mp he with he | he
    · exact ⟨0, r, rfl, hhead.absorbed e he,
        (hhead.shown r hr e he).mono fun q => List.mem_append_left _⟩
    · obtain ⟨j, s, hs, hbelow, hshown⟩ := htail.shown rest hrest e he
      refine ⟨j + 1, s, hs, ?_⟩
      rw [← Nat.add_assoc, Nat.add_right_comm]
      exact ⟨hbelow, hshown.mono fun q => List.mem_append_right _⟩
  failed e he := by
    cases hrest : tail.result with
    | ok rest => simp [hrest, Except.map] at he
    | error e' =>
      rw [hrest] at he
      cases he
      exact htail.failed e hrest

theorem rechecked_items {f : Nat → Produced M → Completed (Rendered M)}
    (hf : ∀ i p, ItemRechecked c ty (path ++ [.index i]) anchor p (f i p)) (i : Nat)
    (ps : List (Produced M)) : ItemsRechecked c ty path anchor i ps (items f i ps) := by
  induction ps generalizing i with
  | nil =>
    constructor
    case length =>
      rintro _ ⟨⟩
      rfl
    case inSlot =>
      rintro _ ⟨⟩ i p r hp
      cases hp
    case shown =>
      rintro _ ⟨⟩ e he
      cases he
    all_goals
      rintro e he
      cases he
  | cons p ps ih =>
    have hhead := hf i p
    rw [items]
    cases hr : (f i p).result with
    | ok r => exact rechecked_cons hhead (ih (i + 1)) hr
    | error e =>
      have hfailed := prefix_of_snoc (hhead.failed e hr)
      refine ⟨within_of_below hhead.nulled, within_absorbed hhead.absorbed, ?_, ?_, ?_, ?_⟩
      all_goals rintro _ ⟨⟩
      exact hfailed

theorem rechecked_list {ps : List (Produced M)} {done : Completed (List (Rendered M))}
    (h : ItemsRechecked c ty path anchor 0 ps done) :
    Rechecked c (.list ty) path anchor (.list ps) (done.map fun rs => some (.list rs)) where
  nulled := h.nulled
  absorbed := h.absorbed
  conforms r hr := by
    obtain ⟨rs, hrs, heq⟩ := Except.map_eq_ok hr
    cases heq
    refine .list (h.length rs hrs) fun i p r hp hr => ?_
    have hslot := h.inSlot rs hrs i p r hp hr
    rwa [Nat.zero_add] at hslot
  shown r hr e he := by
    obtain ⟨rs, hrs, heq⟩ := Except.map_eq_ok hr
    cases heq
    obtain ⟨i, r, hr, hbelow, hnull | ⟨q, ty', hnull, hq⟩⟩ := h.shown rs hrs e he
    · rw [Nat.zero_add] at hbelow hnull
      exact ⟨_, ty, .item hr hnull, hbelow⟩
    · rw [Nat.zero_add] at hnull
      exact ⟨q, ty', .within hr hnull, hq⟩
  null hnone := by
    obtain ⟨rs, -, heq⟩ := Except.map_eq_ok hnone
    cases heq
  failed e he := by
    cases hr : done.result with
    | ok rs => simp [Completed.map, hr, Except.map] at he
    | error e' =>
      simp only [Completed.map, hr, Except.map, Except.error.injEq] at he
      exact he ▸ h.failed e' hr

/-! ### Every value -/

theorem rechecked_value {w : Walk M C W} (hplan : outputPlan c w ty = .ok plan)
    (path anchor : Path) (p : Produced M) :
    Rechecked c ty path anchor p (value site plan path anchor p) := by
  induction ty generalizing plan path anchor p with
  | scalar s =>
    cases hplan
    exact rechecked_scalar s p
  | enum h =>
    obtain ⟨e, he, rfl⟩ := enum_of_outputPlan hplan
    exact rechecked_enum he p
  | object h =>
    obtain ⟨t, hget, rfl⟩ := object_of_outputPlan hplan
    exact rechecked_object hget p
  | interface h | union h =>
    obtain ⟨t, resolveType, possible, hget, hpossible, rfl⟩ := dispatcher_of_outputPlan rfl hplan
    exact rechecked_abstract rfl hget hpossible p
  | list inner ih =>
    obtain ⟨plan, hinner, rfl⟩ := Except.map_eq_ok hplan
    cases p with
    | null => exact rechecked_null
    | list ps =>
      rw [value_items]
      refine rechecked_list (rechecked_items (fun i p => ?_) 0 ps)
      exact itemRechecked_slot hinner
        (rechecked_complete hinner fun anchor => ih hinner _ anchor p)
        fun hs => complete_ne_none ((isNonNull_of_outputPlan hinner).trans hs)
    | _ => exact rechecked_fail _
  | nonNull inner ih =>
    obtain ⟨plan, hinner, rfl⟩ := Except.map_eq_ok hplan
    cases hp : p.isNull with
    | true =>
      cases p <;> simp [Produced.isNull] at hp
      exact rechecked_null
    | false =>
      rw [value_nonNull hp]
      exact rechecked_require (rechecked_nonNull (ih hinner path anchor p))

/-- The pass over a whole value, the wrapper of its type included. -/
theorem rechecked_of_plan {w : Walk M C W} (hplan : outputPlan c w ty = .ok plan) (site : String)
    (path anchor : Path) (p : Produced M) :
    Rechecked c ty path (ty.anchor path anchor) p (complete site plan path anchor p) :=
  rechecked_complete hplan fun anchor => rechecked_value hplan path anchor p

/-! ### Failures that are absorbed -/

/-- The failure is that of an item whose slot may be null, in a list somewhere within the value. So
the slot holds the null item, and the failure belongs at or below it. -/
inductive Absorbed (c : Catalog M C W) (w : Walk M C W) (site : String) (ty : TypeExpr)
    (path : Path) (p : Produced M) (e : Located) : Prop where
  | intro {p' : Produced M} {q : Path} {ty' : TypeExpr} {plan : OutputPlan M}
    (item : ItemAt p ty path p' q ty') (loose : ty'.isNonNull = false)
    (planned : outputPlan c w ty' = .ok plan)
    (failed : (complete site plan q q p').result = .error e)
    (null : (slot plan q (complete site plan q q p')).result = .ok plan.nullItem.1)
    (below : q <+: e.path) : Absorbed c w site ty path p e

theorem absorbed_of_items {f : Nat → Produced M → Completed (Rendered M)} {i : Nat}
    {ps : List (Produced M)} {e : Located} (he : e ∈ (items f i ps).absorbed) :
    ∃ j p, ps[j]? = some p ∧ e ∈ (f (i + j) p).absorbed := by
  induction ps generalizing i with
  | nil => cases he
  | cons p ps ih =>
    have hhead : e ∈ (f i p).absorbed → ∃ j p', (p :: ps)[j]? = some p' ∧
        e ∈ (f (i + j) p').absorbed := fun he => ⟨0, p, rfl, he⟩
    rw [items] at he
    cases hr : (f i p).result with
    | error e' =>
      simp only [hr] at he
      exact hhead he
    | ok r =>
      simp only [hr] at he
      rcases List.mem_append.mp he with he | he
      · exact hhead he
      · obtain ⟨j, p', hp', he⟩ := ih he
        refine ⟨j + 1, p', hp', ?_⟩
        rwa [Nat.add_right_comm, Nat.add_assoc] at he

/-- What an item leaves was absorbed within it, or it is the failure of the item itself. -/
theorem absorbed_of_slot {done : Completed (Option (Rendered M))} {e : Located}
    (he : e ∈ (slot plan path done).absorbed) :
    e ∈ done.absorbed ∨ (plan.isNonNull = false ∧ done.result = .error e) := by
  cases hr : done.result with
  | ok found =>
    cases found with
    | some r =>
      rw [slot_some hr] at he
      exact .inl he
    | none =>
      rw [slot_none hr] at he
      exact .inl he
  | error e' =>
    cases hs : plan.isNonNull with
    | true =>
      rw [slot_strict_error hr hs] at he
      exact .inl he
    | false =>
      rw [slot_loose_error hr hs] at he
      refine (List.mem_append.mp he).imp_right fun he => ⟨rfl, ?_⟩
      rw [List.mem_singleton.mp he]

/-- Every failure that is absorbed on the way is that of an item. -/
theorem absorbed_of_value {w : Walk M C W} (hplan : outputPlan c w ty = .ok plan)
    {path anchor : Path} {p : Produced M} {e : Located}
    (he : e ∈ (value site plan path anchor p).absorbed) : Absorbed c w site ty path p e := by
  induction ty generalizing plan path anchor p with
  | scalar s =>
    cases hplan
    rw [(scalar_quiet s path anchor p).1] at he
    cases he
  | enum h =>
    obtain ⟨found, -, rfl⟩ := enum_of_outputPlan hplan
    rw [(enum_quiet found path anchor p).1] at he
    cases he
  | object h =>
    obtain ⟨t, -, rfl⟩ := object_of_outputPlan hplan
    rw [(object_quiet _ _ path anchor p).1] at he
    cases he
  | interface h | union h =>
    obtain ⟨t, resolveType, possible, -, -, rfl⟩ := dispatcher_of_outputPlan rfl hplan
    rw [(abstract_quiet _ path anchor p).1] at he
    cases he
  | nonNull inner ih =>
    obtain ⟨plan, hinner, rfl⟩ := Except.map_eq_ok hplan
    cases hp : p.isNull with
    | true =>
      cases p <;> simp [Produced.isNull] at hp
      cases he
    | false =>
      rw [value_nonNull hp, require_absorbed] at he
      obtain ⟨item, loose, planned, failed, null, below⟩ := ih hinner he
      exact .intro (.nonNull item) loose planned failed null below
  | list inner ih =>
    obtain ⟨plan, hinner, rfl⟩ := Except.map_eq_ok hplan
    cases p with
    | list ps =>
      rw [value_items] at he
      obtain ⟨j, p, hp, he⟩ := absorbed_of_items he
      rw [Nat.zero_add] at he
      rcases absorbed_of_slot he with he | ⟨hs, hfailed⟩
      · obtain ⟨anchor', habsorbed, -⟩ :=
          complete_leaves site plan (path ++ [.index j]) anchor p
        rw [habsorbed] at he
        obtain ⟨item, loose, planned, failed, null, below⟩ := ih hinner he
        exact .intro (.within hp item) loose planned failed null below
      · rw [complete_loose hs, ← complete_loose hs _ (path ++ [.index j])] at hfailed
        have hloose : inner.isNonNull = false := isNonNull_of_outputPlan hinner ▸ hs
        exact .intro (.item hp) hloose hinner hfailed (by rw [slot_loose_error hfailed hs])
          ((rechecked_of_plan hinner site (path ++ [.index j]) _ p).failed e hfailed)
    | _ => cases he

/-- **Completion re-checks every value.** Whatever was produced for a type that has a plan, the pass
over it ends at the path and anchor that it began with, on every exit, and has only added failures
and stand-ins to those it had. Each failure that it absorbed is that of an item whose slot may be
null, and belongs at or below that slot. If it comes to a value then that conforms to the type at
every depth: no position is null that may not be, and each failure that it absorbed belongs at or
below a position that is null in it. It comes to none only for a null where there may be one. If it
fails, its failure is at or below the value, all of which is lost, the slots with nulls in them
too. -/
theorem visit_rechecks {w : Walk M C W} (hplan : outputPlan c w ty = .ok plan) (site : String)
    (p : Produced M) (s : Progress) :
    ∃ absorbed nulled,
      (visit site plan p s).2 =
        ⟨s.path, s.anchor, s.absorbed ++ absorbed, s.nulled ++ nulled⟩ ∧
      complete site plan s.path s.anchor p = ⟨(visit site plan p s).1, absorbed, nulled⟩ ∧
      (∀ e ∈ absorbed, Absorbed c w site ty s.path p e) ∧
      match (visit site plan p s).1 with
      | .ok (some r) =>
        ValueOf c absorbed nulled ty s.path (ty.anchor s.path s.anchor) p r ∧
        (∀ q ty', NullAt nulled r ty s.path q ty' → ty'.isNonNull = false) ∧
        ∀ e ∈ absorbed, ∃ q ty', NullAt nulled r ty s.path q ty' ∧ q <+: e.path
      | .ok none => ty.isNonNull = false ∧ p = .null ∧ absorbed = [] ∧ nulled = []
      | .error e => s.path <+: e.path ∧ ∀ e' ∈ absorbed, s.path <+: e'.path := by
  have hvisit : visit site plan p s = s.outcome (complete site plan s.path s.anchor p) :=
    visit_eq plan p s
  have hdone := rechecked_of_plan hplan site s.path s.anchor p
  refine ⟨_, _, congrArg Prod.snd hvisit, by rw [hvisit]; rfl, fun e he => ?_, ?_⟩
  · obtain ⟨anchor, habsorbed, -⟩ := complete_leaves site plan s.path s.anchor p
    exact absorbed_of_value hplan (habsorbed ▸ he)
  rw [hvisit, Progress.outcome]
  cases hr : (complete site plan s.path s.anchor p).result with
  | error e =>
    exact ⟨hdone.failed e hr, fun e' he' =>
      below_of_within hdone.absorbed _ (List.mem_map_of_mem he')⟩
  | ok found =>
    cases found with
    | some r =>
      have hconforms := hdone.conforms r hr
      exact ⟨hconforms, fun q ty' hnull => hconforms.loose_of_nullAt hnull, hdone.shown r hr⟩
    | none =>
      refine ⟨?_, hdone.null hr⟩
      rw [← isNonNull_of_outputPlan hplan, ← Bool.not_eq_true]
      exact fun hs => complete_ne_none hs hr

/-- Of three lists of whole numbers the first has a null in it and the second is one: both are null
in the end, and what is wrong with the first is reported. -/
theorem visit_rechecks_nested :
    let f : Path := [.key "f"]
    let two : Value := .number (.int 2)
    let p : Produced StarWars.Source := .list [.list [.value two, .null], .null, .list [.value two]]
    let r : Rendered StarWars.Source := .list [.list [], .list [], .list [.value two]]
    let fault : Located :=
      ⟨f ++ [.index 0, .index 1], "Cannot return null for non-nullable field Query.f."⟩
    let nulled : List Path := [f ++ [.index 0], f ++ [.index 1]]
    visit "Query.f" (.list (.list (.nonNull (.scalar .int)))) p ⟨f, [], [], []⟩ =
        (.ok (some r), ⟨f, [], [fault], nulled⟩) ∧
      ValueOf StarWars.catalog.1 [fault] nulled (.list (.list (.nonNull (.scalar .int)))) f f p
        r := by
  intro f two p r fault nulled
  have hdone : complete "Query.f" (.list (.list (.nonNull (.scalar .int)))) f [] p =
      ⟨.ok (some r), [fault], nulled⟩ := rfl
  have hplan : outputPlan StarWars.catalog.1 .empty (.list (.list (.nonNull (.scalar .int)))) =
    .ok (.list (.list (.nonNull (.scalar .int)))) := rfl
  obtain ⟨absorbed, nulled', hs, hvisit, -, h⟩ := visit_rechecks hplan "Query.f" p ⟨f, [], [], []⟩
  obtain ⟨hr, rfl, rfl⟩ := Completed.mk.inj (hdone.symm.trans hvisit)
  rw [← hr] at h
  exact ⟨Prod.ext hr.symm hs, h.1⟩

end GraphSchema.Completion
