import GraphSchema.Proofs.Direct.Correctness
import GraphSchema.Proofs.Run.Reports

/-! Errors that are seen as nulls.

What is wrong with a value is at the place of a null or below one in what the value
is accepted as. Evaluating the objects in it leaves that null, or makes a position
further up null, or fails as a whole: so the error of a call is at or below a null of
the object that the call is made on (`callsOf_shown`), and every error of an answer
that is of a call is at or below a null of the data (`execute_shows`). -/
namespace GraphSchema

open GraphSchema.Path

/-! ### Nulls above a path -/

namespace Value

/-- A null stands at the path or above it. -/
def NullAbove (q : Path) (v : Value) : Prop := ∃ r, r <+: q ∧ v.atPath? r = some .null

theorem nullAbove_null (q : Path) : NullAbove q .null := ⟨[], List.nil_prefix, atPath?_nil _⟩

theorem nullAbove_member {k : String} {ms : List (String × Value)} {v : Value}
    (hv : member? k ms = some v) {q : Path} (h : NullAbove q v) :
    NullAbove (.key k :: q) (object ms) := by
  obtain ⟨r, hr, hnull⟩ := h
  refine ⟨.key k :: r, (List.prefix_cons_inj _).mpr hr, ?_⟩
  rw [atPath?, hv, Option.bind_some, hnull]

theorem nullAbove_item {i : Nat} {vs : List Value} {v : Value} (hv : vs[i]? = some v) {q : Path}
    (h : NullAbove q v) : NullAbove (.index i :: q) (list vs) := by
  obtain ⟨r, hr, hnull⟩ := h
  refine ⟨.index i :: r, (List.prefix_cons_inj _).mpr hr, ?_⟩
  rw [atPath?, hv, Option.bind_some, hnull]

theorem member?_append_left {k : String} {ms : List (String × Value)} {v : Value}
    (h : member? k ms = some v) (others : List (String × Value)) :
    member? k (ms ++ others) = some v := by
  induction ms with
  | nil => cases h
  | cons m ms ih =>
    obtain ⟨k', v'⟩ := m
    rw [List.cons_append, member?]
    rw [member?] at h
    by_cases hk : k' = k
    · rwa [if_pos hk] at h ⊢
    · rw [if_neg hk] at h ⊢
      exact ih h

theorem member?_append_right {k : String} {others : List (String × Value)}
    (h : k ∉ others.map (·.1)) (ms : List (String × Value)) :
    member? k (others ++ ms) = member? k ms := by
  induction others with
  | nil => rfl
  | cons m others ih =>
    have hk : m.1 ≠ k := fun e => h (by simp [e])
    rw [List.cons_append, member?, if_neg hk]
    exact ih fun hm => h (List.mem_cons_of_mem _ hm)

end Value

/-! ### Faults of values that are accepted -/

namespace Direct

/-- A null stands in the accepted value at the path or above it. -/
inductive Accepted.NullAbove {M : Type} : Path → Accepted M → Prop where
  | null (q : Path) : NullAbove q .null
  | item {i : Nat} {ts : List (Accepted M)} {t : Accepted M} (ht : ts[i]? = some t) {q : Path}
    (h : NullAbove q t) (strict : Bool) : NullAbove (.index i :: q) (.list strict ts)

end Direct

namespace Completion

open Direct

variable {M : Type} {site : String}

/-- A fault is at the path of the value or below it, and where the value is accepted all the same
the fault is at a null or below one. -/
def FaultShown (path : Path) (accepted : Option (Accepted M)) (f : Fault) : Prop :=
  ∃ r, f.path = path ++ r ∧ ∀ t, accepted = some t → t.NullAbove r

theorem faultShown_of_none {path : Path} {accepted : Option (Accepted M)} (h : accepted = none)
    (cause : CompletionError) : FaultShown path accepted ⟨path, cause⟩ :=
  ⟨[], (List.append_nil path).symm, fun t ht => by rw [h] at ht; cases ht⟩

section

variable {path : Path} {p : Produced M} {f : Fault}

theorem scalarFaults_shown {k : Scalar} (hf : f ∈ scalarFaults site k path p) :
    FaultShown path (conformScalar k p) f := by
  cases p with
  | null => cases hf
  | value v =>
    by_cases hv : k.holds v = true
    · simp [scalarFaults, hv] at hf
    · simp only [scalarFaults, hv, Bool.false_eq_true, if_false, List.mem_singleton] at hf
      subst hf
      exact faultShown_of_none (by simp [conformScalar, hv]) _
  | _ =>
    cases List.mem_singleton.mp hf
    exact faultShown_of_none rfl _

theorem enumFaults_shown {e : EnumDef} (hf : f ∈ enumFaults site e path p) :
    FaultShown path (conformEnum e p) f := by
  cases p with
  | null => cases hf
  | leaf l =>
    cases hl : e.nameOf l with
    | some name => simp [enumFaults, hl] at hf
    | none =>
      simp only [enumFaults, hl, Option.isSome_none, Bool.false_eq_true, if_false,
        List.mem_singleton] at hf
      subst hf
      exact faultShown_of_none (by simp [conformEnum, hl]) _
  | value v =>
    cases v with
    | enum name =>
      cases hn : e.values.parse name with
      | some l => simp [enumFaults, hn] at hf
      | none =>
        simp only [enumFaults, hn, Option.isSome_none, Bool.false_eq_true, if_false,
          List.mem_singleton] at hf
        subst hf
        exact faultShown_of_none (by simp [conformEnum, hn]) _
    | _ =>
      cases List.mem_singleton.mp hf
      exact faultShown_of_none rfl _
  | _ =>
    cases List.mem_singleton.mp hf
    exact faultShown_of_none rfl _

theorem objectFaults_shown {name : String} {isTypeOf : Option (M → Bool)}
    (hf : f ∈ objectFaults site name isTypeOf path p) :
    FaultShown path (conformObject name isTypeOf p) f := by
  cases p with
  | null => cases hf
  | model m =>
    by_cases hm : isTypeOf.all (· m) = true
    · simp [objectFaults, hm] at hf
    · simp only [objectFaults, hm, Bool.false_eq_true, if_false, List.mem_singleton] at hf
      subst hf
      exact faultShown_of_none (by simp [conformObject, hm]) _
  | _ =>
    cases List.mem_singleton.mp hf
    exact faultShown_of_none rfl _

theorem abstractFaults_shown {d : Dispatcher M} (hf : f ∈ abstractFaults site d path p) :
    FaultShown path (conformAbstract d p) f := by
  cases p with
  | null => cases hf
  | model m =>
    cases hm : d.resolve m with
    | ok name => simp [abstractFaults, hm] at hf
    | error e =>
      simp only [abstractFaults, hm, List.mem_singleton] at hf
      subst hf
      exact faultShown_of_none (by simp [conformAbstract, hm, Except.toOption]) _
  | _ =>
    cases List.mem_singleton.mp hf
    exact faultShown_of_none rfl _

end

/-- **What is wrong with a value is seen as a null in what the value is accepted as.** -/
theorem faults_shown (plan : OutputPlan M) (path : Path) (p : Produced M) :
    ∀ f ∈ faults site plan path p, FaultShown path (conform plan p) f := by
  induction plan generalizing path p with
  | scalar k => exact fun f hf => scalarFaults_shown hf
  | enum e => exact fun f hf => enumFaults_shown hf
  | object name isTypeOf => exact fun f hf => objectFaults_shown hf
  | abstract d => exact fun f hf => abstractFaults_shown hf
  | nonNull inner ih =>
    intro f hf
    rcases List.mem_append.mp hf with hf | hf
    · obtain ⟨r, hr, hnull⟩ := ih path p f hf
      exact ⟨r, hr, fun t ht => hnull t (require_eq_some_iff.mp ht).1⟩
    · split at hf
      · next hnull =>
        cases List.mem_singleton.mp hf
        exact faultShown_of_none (require_of_isLooseNull hnull) _
      · cases hf
  | list inner ih =>
    intro f hf
    cases p with
    | null => cases hf
    | list ps =>
      obtain ⟨i, p, hp, hf⟩ := mem_itemFaults hf
      rw [Nat.zero_add] at hf
      obtain ⟨r, hr, hnull⟩ := ih _ p f hf
      refine ⟨.index i :: r, by rw [hr, List.append_assoc, List.singleton_append], fun t ht => ?_⟩
      obtain ⟨ts, hts, rfl⟩ := Option.map_eq_some_iff.mp ht
      have hitem : some (Direct.slot inner.isNonNull .null (conform inner p)) =
          ts[i]?.map some := by
        have heq := congrArg (·[i]?) (List.map_eq_of_mapM hts)
        simpa [hp] using heq
      obtain ⟨t, ht, hslot⟩ := Option.map_eq_some_iff.mp hitem.symm
      refine .item ht ?_ _
      rcases slot_conform hslot.symm with ⟨_, _, rfl⟩ | hc
      · exact .null r
      · exact hnull t hc
    | _ =>
      cases List.mem_singleton.mp hf
      exact faultShown_of_none rfl _

end Completion

namespace Direct

open Execution Query Completion
open Value hiding object

variable {M C W : Type}

/-! ### Failures of a field -/

/-- The place is at the path or below it, and what stands at the path, if anything does, has a null
at the place or above it. -/
def Shown (path q : Path) (u : Option Value) : Prop :=
  ∃ r, q = path ++ r ∧ ∀ v, u = some v → v.NullAbove r

/-- A position that takes a null shows all the failures in it. -/
theorem shown_slot {path q : Path} {u : Option Value} (strict : Bool) (h : Shown path q u) :
    Shown path q (slot strict .null u) := by
  obtain ⟨r, hr, hnull⟩ := h
  refine ⟨r, hr, fun v hv => ?_⟩
  cases strict with
  | true => exact hnull v hv
  | false =>
    obtain rfl := Option.some.inj hv
    cases u with
    | none => exact nullAbove_null r
    | some v => exact hnull v rfl

/-- What stands at a key of the members, if there are any, has a null at the place or above it. -/
def ShownMember (path : Path) (keys : List String) (q : Path)
    (us : Option (List (String × Value))) : Prop :=
  ∃ k ∈ keys, ∃ r, q = path ++ .key k :: r ∧
    ∀ ms, us = some ms → ∃ v, member? k ms = some v ∧ v.NullAbove r

/-- What stands at an index of the items from the one at `i` on, if there are any, has a null at the
place or above it. -/
def ShownItem (path : Path) (i : Nat) (q : Path) (us : Option (List Value)) : Prop :=
  ∃ j r, q = path ++ .index (i + j) :: r ∧
    ∀ vs, us = some vs → ∃ v, vs[j]? = some v ∧ v.NullAbove r

section

variable {path q : Path}

theorem shownItem_head {i : Nat} {u : Option Value} (h : Shown (path ++ [.index i]) q u)
    (us : Option (List Value)) : ShownItem path i q (both (· :: ·) u us) := by
  obtain ⟨r, hr, hnull⟩ := h
  refine ⟨0, r, by rw [hr, List.append_assoc]; rfl, fun vs hvs => ?_⟩
  match u, us, hvs with
  | some v, some vs, hvs =>
    obtain rfl := Option.some.inj hvs
    exact ⟨v, rfl, hnull v rfl⟩

theorem shownItem_tail {i : Nat} {us : Option (List Value)} (h : ShownItem path (i + 1) q us)
    (u : Option Value) : ShownItem path i q (both (· :: ·) u us) := by
  obtain ⟨j, r, hr, hnull⟩ := h
  refine ⟨j + 1, r, by rw [hr, Nat.add_assoc, Nat.add_comm 1 j], fun vs hvs => ?_⟩
  match u, us, hvs with
  | some v, some vs, hvs =>
    obtain rfl := Option.some.inj hvs
    exact hnull vs rfl

theorem shown_list {us : Option (List Value)} (h : ShownItem path 0 q us) :
    Shown path q (us.map .list) := by
  obtain ⟨j, r, hr, hnull⟩ := h
  refine ⟨.index j :: r, by rw [hr, Nat.zero_add], fun v hv => ?_⟩
  obtain ⟨vs, hvs, rfl⟩ := Option.map_eq_some_iff.mp hv
  obtain ⟨v, hv, hnull⟩ := hnull vs hvs
  exact nullAbove_item hv hnull

theorem shownMember_one {key : String} {u : Option Value} (h : Shown (path ++ [.key key]) q u) :
    ShownMember path [key] q (u.map fun v => [(key, v)]) := by
  obtain ⟨r, hr, hnull⟩ := h
  refine ⟨key, List.mem_singleton_self key, r, by rw [hr, List.append_assoc]; rfl,
    fun ms hms => ?_⟩
  obtain ⟨v, hv, rfl⟩ := Option.map_eq_some_iff.mp hms
  exact ⟨v, by rw [member?, if_pos rfl], hnull v hv⟩

theorem shownMember_left {keys : List String} {us : Option (List (String × Value))}
    (h : ShownMember path keys q us) (keys' : List String)
    (us' : Option (List (String × Value))) :
    ShownMember path (keys ++ keys') q (both (· ++ ·) us us') := by
  obtain ⟨k, hk, r, hr, hnull⟩ := h
  refine ⟨k, List.mem_append_left _ hk, r, hr, fun ms hms => ?_⟩
  match us, us', hms with
  | some ms, some ms', hms =>
    obtain rfl := Option.some.inj hms
    obtain ⟨v, hv, hnull⟩ := hnull ms rfl
    exact ⟨v, member?_append_left hv ms', hnull⟩

/-- Members of other keys before it do not hide a member. -/
theorem shownMember_right {keys keys' : List String} (hnodup : (keys ++ keys').Nodup)
    {us' : Option (List (String × Value))} (h : ShownMember path keys' q us')
    {us : Option (List (String × Value))}
    (hus : ∀ ms, us = some ms → ∀ k ∈ ms.map (·.1), k ∈ keys) :
    ShownMember path (keys ++ keys') q (both (· ++ ·) us us') := by
  obtain ⟨k, hk, r, hr, hnull⟩ := h
  refine ⟨k, List.mem_append_right _ hk, r, hr, fun ms hms => ?_⟩
  match us, us', hms with
  | some ms, some ms', hms =>
    obtain rfl := Option.some.inj hms
    obtain ⟨v, hv, hnull⟩ := hnull ms' rfl
    have hnew : k ∉ ms.map (·.1) := fun hm =>
      (List.nodup_append.mp hnodup).2.2 k (hus ms rfl k hm) k hk rfl
    exact ⟨v, by rwa [member?_append_right hnew], hnull⟩

theorem shown_object {keys : List String} {us : Option (List (String × Value))}
    (h : ShownMember path keys q us) : Shown path q (us.map object) := by
  obtain ⟨k, _, r, hr, hnull⟩ := h
  refine ⟨.key k :: r, hr, fun v hv => ?_⟩
  obtain ⟨ms, hms, rfl⟩ := Option.map_eq_some_iff.mp hv
  obtain ⟨v, hv, hnull⟩ := hnull ms hms
  cases ms with
  | nil => cases hv
  | cons m ms => exact nullAbove_member hv hnull

end

section

variable {select : Selecting M W}

/-- An item that shows a place makes the list show it. -/
theorem shownItem_of_getElem? {path q : Path} {ts : List (Accepted M)} {i : Nat} {t : Accepted M}
    (ht : ts[i]? = some t) {start : Nat}
    (h : ∀ w, Shown (path ++ [.index (start + i)]) q (render select t w).1) (strict : Bool)
    (w : W) :
    ShownItem path start q (renderItems select strict ts w).1 := by
  induction ts generalizing i start w with
  | nil => cases ht
  | cons t' ts ih =>
    cases i with
    | zero =>
      obtain rfl := Option.some.inj ht
      exact shownItem_head (shown_slot strict (h w)) _
    | succ i =>
      refine shownItem_tail (ih ht (fun w => ?_) _) _
      rw [Nat.add_assoc, Nat.add_comm 1 i]
      exact h w

/-- The nulls of an accepted value are still seen when it is evaluated. -/
theorem render_shows {t : Accepted M} {r : Path} (h : t.NullAbove r) (path : Path) (w : W) :
    Shown path (path ++ r) (render select t w).1 := by
  induction h generalizing path w with
  | null r =>
    refine ⟨r, rfl, fun v hv => ?_⟩
    obtain rfl := Option.some.inj hv
    exact nullAbove_null r
  | @item i ts t ht r _ strict ih =>
    refine shown_list (shownItem_of_getElem? ht (fun w => ?_) strict w)
    have hshown := ih (path ++ [.index i]) w
    rw [List.append_assoc, List.singleton_append] at hshown
    rwa [Nat.zero_add]

theorem failures_shown (plan : FieldPlan M C W) (path : Path)
    (produced : Except String (Produced M)) :
    ∀ l ∈ plan.failures path produced, ∃ r, l.path = path ++ r ∧
      ∀ t, produced.toOption.bind (conform plan.output) = some t → t.NullAbove r := by
  intro l hl
  cases produced with
  | error message =>
    obtain rfl := List.mem_singleton.mp hl
    exact ⟨[], (List.append_nil path).symm, nofun⟩
  | ok p =>
    obtain ⟨f, hf, rfl⟩ := List.mem_map.mp hl
    exact faults_shown plan.output path p f hf

/-- **A field shows its failures**: as nulls in its value, as a null itself, or by having none. -/
theorem settle_shows (plan : FieldPlan M C W) (path : Path)
    (produced : Except String (Produced M)) (w : W) :
    ∀ l ∈ plan.failures path produced,
      Shown path l.path (settle select plan.output produced w).1 := by
  intro l hl
  obtain ⟨r, hr, hnull⟩ := failures_shown plan path produced l hl
  rw [hr]
  cases haccepted : produced.toOption.bind (conform plan.output) with
  | none =>
    rw [settle_none haccepted]
    exact shown_slot _ ⟨r, rfl, nofun⟩
  | some t =>
    rw [settle_some haccepted]
    exact shown_slot _ (render_shows (hnull t haccepted) path w)

end

/-! ### Failures of the calls below -/

/-- The failures of the calls are shown. -/
def Shows (context : Option C) (path : Path) (calls : List (Call M C W)) (u : Option Value) :
    Prop :=
  ∀ c ∈ calls, ∀ e ∈ c.failures context, Shown path e.path u

section

variable {context : Option C} {select : Selecting M W} {calls : Calling M C W}

mutual

theorem callsIn_shown : ∀ (t : Accepted M)
    (_ : ∀ m name, t.Has m name → ∀ path w,
      Shows context path (calls name m path w) (select name m w).1) (path : Path) (w : W),
    Shows context path (callsIn select calls t path w) (render select t w).1
  | .null, _, _, _ | .value _, _, _, _ => nofun
  | .object m name, h, path, w => h m name (.object m name) path w
  | .list strict ts, h, path, w => fun c hc e he =>
    shown_list (callsInItems_shown strict ts
      (fun _ ht m name hhas => h m name (.item ht hhas strict))
      0 path w c hc e he)

theorem callsInItems_shown (strict : Bool) : ∀ (ts : List (Accepted M))
    (_ : ∀ t ∈ ts, ∀ m name, t.Has m name → ∀ path w,
      Shows context path (calls name m path w) (select name m w).1) (i : Nat) (path : Path) (w : W),
    ∀ c ∈ callsInItems select calls i ts path w, ∀ e ∈ c.failures context,
      ShownItem path i e.path (renderItems select strict ts w).1
  | [], _, _, _, _ => nofun
  | t :: ts, h, i, path, w => fun c hc e he => by
    rcases List.mem_append.mp hc with hc | hc
    · exact shownItem_head (shown_slot strict
        (callsIn_shown t (h t (List.mem_cons_self ..)) (path ++ [.index i]) w c hc e he)) _
    · exact shownItem_tail (callsInItems_shown strict ts
        (fun t ht => h t (List.mem_cons_of_mem _ ht)) (i + 1) path _ c hc e he) _

end

/-- A field shows the failures of its call and those of the calls for its value. -/
theorem fieldCalls_shown (t : ObjectType M C W) (f : PlannedField M C W) (parent : M) (path : Path)
    (position : Position) (sent : List BoundArgument) (w : W)
    (h : ∀ p accepted, conform f.plan.output p = some accepted → ∀ m name, accepted.Has m name →
      ∀ path w, Shows context path (calls name m path w) (select name m w).1) :
    Shows context path (fieldCalls context select calls t f parent path position sent w)
      (field context select f parent sent w).1 := by
  rcases hproduced : f.plan.produce parent (sent.map fun a => (a.name, a.value)) context w with
    ⟨produced, w'⟩
  simp only [fieldCalls, field, hproduced]
  intro c hc e he
  rcases List.mem_cons.mp hc with rfl | hc
  · simp only [Call.failures, Call.produced, hproduced] at he
    obtain ⟨l, hl, rfl⟩ := List.mem_map.mp he
    exact settle_shows f.plan path produced w' l hl
  · unfold callsBelow at hc
    split at hc
    · cases hc
    · next accepted haccepted =>
      obtain ⟨p, _, hp⟩ := Option.bind_eq_some_iff.mp haccepted
      rw [settle_some haccepted]
      exact shown_slot _ (callsIn_shown accepted (h p accepted hp) path w' c hc e he)

end

/-! ### Steps -/

variable {s : Schema M C W} {context : Option C}

mutual

/-- The direct members have keys that were asked for. -/
theorem members_keys (t : ObjectType M C W) (m : M) : ∀ (steps : List Step) (w : W)
    (ms : List (String × Value)), (members s context t m steps w).1 = some ms →
      ∀ k ∈ ms.map (·.1), k ∈ keys t steps
  | [], _, _, h, k, hk => by
    obtain rfl := Option.some.inj h
    cases hk
  | step :: steps, w, ms, h, k, hk => by
    rw [members] at h
    match hfirst : (member s context t m step w).1,
      hrest : (members s context t m steps (member s context t m step w).2).1 with
    | some first, some rest =>
      simp only [hfirst, hrest, both, Option.some.injEq] at h
      subst h
      rw [List.map_append] at hk
      rcases List.mem_append.mp hk with hk | hk
      · exact List.mem_append_left _ (member_keys t m step w first hfirst k hk)
      · exact List.mem_append_right _ (members_keys t m steps _ rest hrest k hk)
    | none, _ => simp [hfirst, both] at h
    | some _, none => simp [hfirst, hrest, both] at h

theorem member_keys (t : ObjectType M C W) (m : M) : ∀ (step : Step) (w : W)
    (ms : List (String × Value)), (member s context t m step w).1 = some ms →
      ∀ k ∈ ms.map (·.1), k ∈ keysOf t step
  | .typename key, _, _, h, k, hk => by
    obtain rfl := Option.some.inj h
    exact hk
  | .field key name position (.error u) below, _, _, h, k, hk => by
    obtain rfl := Option.some.inj h
    cases hk
  | .field key name position (.ok sent) below, w, ms, h, k, hk => by
    cases hi : introspect s t name sent below with
    | some reply =>
      cases reply with
      | ok r =>
        simp only [member, hi, Option.some.injEq] at h
        subst h
        exact hk
      | error e =>
        simp only [member, hi, Option.some.injEq] at h
        subst h
        cases hk
    | none =>
      cases hf : t.field? name with
      | none =>
        simp only [member, hi, hf, Option.some.injEq] at h
        subst h
        cases hk
      | some f =>
        rw [member_field hi hf] at h
        obtain ⟨v, _, rfl⟩ := Option.map_eq_some_iff.mp h
        exact hk
  | .narrow condition below, w, ms, h, k, hk => by
    by_cases hm : meets t condition = true
    · rw [member, if_pos hm] at h
      rw [keysOf, if_pos hm]
      exact members_keys t m below w ms h k hk
    · rw [member, if_neg hm] at h
      obtain rfl := Option.some.inj h
      cases hk

end

/-- What the steps make of an object shows the failures of the calls for it. -/
def StepsShow (s : Schema M C W) (context : Option C) (t : ObjectType M C W) (steps : List Step) :
    Prop :=
  ∀ (m : M) (path : Path) (w : W), ∀ c ∈ callsOf s context t m path steps w,
    ∀ e ∈ c.failures context,
      ShownMember path (keys t steps) e.path (members s context t m steps w).1

def StepShows (s : Schema M C W) (context : Option C) (t : ObjectType M C W) (step : Step) : Prop :=
  ∀ (m : M) (path : Path) (w : W), ∀ c ∈ callsOfStep s context t m path step w,
    ∀ e ∈ c.failures context,
      ShownMember path (keysOf t step) e.path (member s context t m step w).1

variable {t : ObjectType M C W}

theorem steps_show_cons {step : Step} {steps : List Step}
    (hnodup : (keysOf t step ++ keys t steps).Nodup) (h : StepShows s context t step)
    (hs : StepsShow s context t steps) : StepsShow s context t (step :: steps) := by
  intro m path w c hc e he
  rcases List.mem_append.mp hc with hc | hc
  · exact shownMember_left (h m path w c hc e he) _ _
  · exact shownMember_right hnodup (hs m path _ c hc e he) (member_keys t m step w)

theorem step_shows_field {name : String} {sent : List BoundArgument} {below : List Step}
    (hi : introspect s t name sent below = none) {f : PlannedField M C W}
    (hf : t.field? name = some f) (hfits : Fits s f.info.type.core f.plan.output)
    (h : ∀ u ∈ standing s f.info.type.core, StepsShow s context u below) (key : String)
    (position : Position) : StepShows s context t (.field key name position (.ok sent) below) := by
  intro m path w c hc e he
  rw [callsOfStep_field hi hf] at hc
  rw [member_field hi hf]
  refine shownMember_one (fieldCalls_shown t f m _ position sent w
    (fun p accepted hp m' name' hhas path w c hc e he => ?_) c hc e he)
  obtain ⟨u, hu, hname⟩ := standing_of_has hfits hp hhas
  rw [callsFor_of_object? hname] at hc
  simp only [select, hname]
  exact shown_object (h u hu m' path w c hc e he)

theorem stepwise_shows : Stepwise s (StepsShow s context) (StepShows s context) where
  nil _ _ _ _ _ hc := by cases hc
  cons := steps_show_cons
  typename _ _ _ _ _ _ hc := by cases hc
  unbound _ _ _ _ _ _ _ _ _ _ hc := by cases hc
  asked hi _ _ _ _ _ _ hc := by
    rw [callsOfStep, hi] at hc
    cases hc
  missing hi hf _ _ _ _ _ _ hc := by
    rw [callsOfStep, hi, hf] at hc
    cases hc
  field _ hi hf hfits h := step_shows_field hi hf hfits h
  narrow hm h m path w c hc e he := by
    simp only [keysOf, callsOfStep, member, if_pos hm] at hc ⊢
    exact h m path w c hc e he
  skip hm _ _ _ _ _ hc := by
    simp only [callsOfStep, hm] at hc
    cases hc

/-- **What a request makes of an object shows the failures of every call for it.** -/
theorem callsOf_shown (hlinked : Linked s) (ht : s.object? t.name = some t) {steps : List Step}
    (hdistinct : distinct s t steps = true) (m : M) (path : Path) (w : W) :
    Shows context path (callsOf s context t m path steps w)
      ((members s context t m steps w).1.map object) :=
  fun c hc e he => shown_object (stepwise_shows.steps hlinked ht hdistinct m path w c hc e he)

end Direct

/-! ### Answers -/

namespace Execution

open Query Direct

variable {M C W : Type} {s : Schema M C W}

/-- A call fails at its own place or below it. -/
theorem prefix_of_mem_failures {context : Option C} {c : Call M C W} {e : ResponseError}
    (he : e ∈ c.failures context) : c.path <+: e.path := by
  obtain ⟨l, hl, rfl⟩ := List.mem_map.mp he
  obtain ⟨r, hr, _⟩ := failures_shown c.field.plan c.path (c.produced context) l hl
  exact ⟨r, hr.symm⟩

variable [Backed M]

/-- The error is a failure of a call, at its place in the response, and the data is null there or
further up. -/
structure Visible (context : Option C) (data : Value) (c : Call M C W) (e : ResponseError) :
    Prop where
  failure : e ∈ c.failures context
  keyed : c.path ≠ []
  below : c.path <+: e.path
  null : data.NullAbove e.path

theorem visible_of_mem_failures (hlinked : Linked s) {root : String} {steps : List Step}
    (hdistinct : ∀ t, s.object? root = some t → distinct s t steps = true) {context : Option C}
    {w : W} {c : Call M C W} (hc : c ∈ callsFor s context steps root Backed.unit [] w)
    {e : ResponseError} (he : e ∈ c.failures context) :
    Visible context (evaluate s context root steps w).1 c e := by
  unfold callsFor at hc
  split at hc
  · cases hc
  · next t ht =>
    have ht' : s.object? t.name = some t := (object?_name ht).symm ▸ ht
    obtain ⟨key, _, hkey⟩ :=
      (callsOf_spread hlinked ht' (hdistinct t ht) Backed.unit [] w).within c hc
    obtain ⟨r, hr, hnull⟩ := callsOf_shown hlinked ht' (hdistinct t ht) Backed.unit [] w c hc e he
    refine ⟨he, fun hnil => ?_, prefix_of_mem_failures he, ?_⟩
    · rw [hnil] at hkey
      exact not_snoc_prefix hkey
    · have hselect : (Direct.select s context steps root Backed.unit w).1 =
          (members s context t Backed.unit steps w).1.map object := by
        simp only [Direct.select, ht]
      obtain ⟨x, hx, hshown⟩ := shown_slot false ⟨r, hr, hselect ▸ hnull⟩
      rw [show e.path = x from hx]
      exact hshown _ rfl

/-- **Every error of an answer can be seen, if a call has failed with it.** An admitted request is
answered. No error stands in for another one. It is a failure of one of the calls, with a place of
its own, and the data is null at that place or further up; or the run has raised it for what the
request selects, in place of a call. -/
theorem execute_shows {c : Catalog M C W} {d : Description} {st st' : Store M C W}
    (hcompile : c.compile d st = (.ok s, st'))
    (hwf : Link.WellFormed c st'.memo (c.Reaches st'.memo d))
    {r : Request} {doc : Document} {op : Operation} {root : String}
    (hscreen : s.screen r = .ok (doc, op, root))
    (hdistinct : ∀ t, s.object? root = some t → distinct s t (doc.plan op r.sent) = true)
    (context : C) (w : W) :
    ∃ response w', s.execute r context w = (.answered response, w') ∧
      ∀ e ∈ response.errors, e.message ≠ propagated ∧
        ((∃ call ∈ (s.perform (some context) r (doc, op, root) w).2.calls,
          Visible (some context) response.data call e) ∨ Raised s (doc.plan op r.sent) e) := by
  obtain ⟨-, -, hlinked⟩ := Catalog.linked_of_compile hcompile hwf
  obtain ⟨hdata, _, hcalls⟩ := run_evaluates hlinked hdistinct (some context) w
  refine ⟨_, _, Schema.execute_of_screen hscreen context w, fun e he => ?_⟩
  obtain ⟨he, hmessage⟩ := List.mem_filter.mp he
  have hmessage : e.message ≠ propagated := by simpa using hmessage
  refine ⟨hmessage, ?_⟩
  rcases error_of_mem_errors he with ⟨call, hcall, hfailure⟩ | hown
  · refine .inl ⟨call, hcall, ?_⟩
    have hvisible := visible_of_mem_failures hlinked hdistinct (hcalls ▸ hcall) hfailure
    simpa only [Schema.propagate, Schema.perform, hdata] using hvisible
  · exact .inr (raised_of_own hlinked hown hmessage)

/-- The answer to a request for the secrets of a hero's friends has an error for each of them. -/
theorem execute_shows_hero :
    ∃ doc op response w', Link.starWarsSchema.screen heroRequest = .ok (doc, op, "Query") ∧
      Link.starWarsSchema.execute heroRequest {} () = (.answered response, w') ∧
      response.errors.length = 2 ∧
      ∀ e ∈ response.errors, e.message ≠ propagated ∧
        ((∃ call ∈ (Link.starWarsSchema.perform (some {}) heroRequest (doc, op, "Query") ()).2.calls,
          Visible (some {}) response.data call e) ∨
        Raised Link.starWarsSchema (doc.plan op heroRequest.sent) e) := by
  have hadmits : admitsDistinct Link.starWarsSchema "Query" heroRequest = true := by
    decide +kernel
  obtain ⟨doc, op, hscreen, hdistinct⟩ := screen_of_admitsDistinct hadmits
  obtain ⟨response, w', hexecute, herrors⟩ :=
    execute_shows Link.starWars_compiles (Link.starWars_wellFormed _) hscreen hdistinct {} ()
  have htwo : (match (Link.starWarsSchema.execute heroRequest {} ()).1 with
      | .answered response => response.errors.length == 2
      | .refused _ => false) = true := by decide +kernel
  rw [hexecute] at htwo
  exact ⟨doc, op, response, w', hscreen, hexecute, beq_iff_eq.mp htwo, herrors⟩

/-- A request that needs a variable which it does not send. -/
def unboundRequest : Request :=
  ⟨"query($id: ID!) { human(id: $id) { name } hero { name } }", [], none⟩

/-- The error for a variable without a value has no place in the response, and no null shows it. -/
theorem execute_shows_unbound :
    ∃ doc op response w', Link.starWarsSchema.screen unboundRequest = .ok (doc, op, "Query") ∧
      (∀ t, Link.starWarsSchema.object? "Query" = some t →
        distinct Link.starWarsSchema t (doc.plan op unboundRequest.sent) = true) ∧
      Link.starWarsSchema.execute unboundRequest {} () = (.answered response, w') ∧
      ∃ e ∈ response.errors, e.path = [] ∧ ¬ response.data.NullAbove e.path := by
  have hadmits : admitsDistinct Link.starWarsSchema "Query" unboundRequest = true := by
    decide +kernel
  obtain ⟨doc, op, hscreen, hdistinct⟩ := screen_of_admitsDistinct hadmits
  have hexecute := Schema.execute_of_screen hscreen {} ()
  have hanswer : (match (Link.starWarsSchema.execute unboundRequest {} ()).1 with
      | .answered response => response.errors.any (·.path.isEmpty) && !response.data.isNull
      | .refused _ => false) = true := by decide +kernel
  rw [hexecute] at hanswer
  obtain ⟨herrors, hdata⟩ := Bool.and_eq_true_iff.mp hanswer
  obtain ⟨e, he, hpath⟩ := List.any_eq_true.mp herrors
  have hroot : e.path = [] := List.isEmpty_iff.mp hpath
  refine ⟨doc, op, _, _, hscreen, hdistinct, hexecute, e, he, hroot, ?_⟩
  rintro ⟨r, hr, hnull⟩
  rw [hroot, List.prefix_nil] at hr
  subst hr
  rw [Value.atPath?_nil, Option.some.injEq] at hnull
  simp [hnull, Value.isNull] at hdata

end Execution

end GraphSchema
