import GraphSchema.Proofs.Direct.Correctness
import Mathlib.Data.List.Induction
import Mathlib.Data.List.Nodup

/-! Two evaluations that differ at one field.

The calls of two evaluations of a request are compared position by position. If they
come to the same everywhere but for the field at one position and what is below it,
the results are the same once any nullable position at or above that field is cut out
(`evaluate_alike`): a difference is handed up no further than to the next position
that takes a null, and items and members beside it are not touched. -/
namespace GraphSchema

open GraphSchema.Path

/-! ### Nullable positions -/

/-- Whether null may stand in an item that is so many lists deep. -/
def TypeRef.nullableAt : TypeRef → Nat → Bool
  | nonNull _, 0 => false
  | named _, 0 | list _, 0 => true
  | nonNull inner, n + 1 => inner.nullableAt (n + 1)
  | list inner, n + 1 => inner.nullableAt n
  | named _, _ + 1 => false

/-- Whether the plan takes a null in an item that is so many lists deep. -/
def OutputPlan.nullableAt {M : Type} : OutputPlan M → Nat → Bool
  | nonNull inner, n + 1 => inner.nullableAt (n + 1)
  | list inner, n + 1 => inner.nullableAt n
  | plan, 0 => !plan.isNonNull
  | _, _ + 1 => false

/-- Null may stand at the position: it is the root, a field or a list item of nullable type. -/
def MayBeNull {M C W : Type} (calls : List (Execution.Call M C W)) (q : Path) : Prop :=
  q = [] ∨ ∃ c ∈ calls, ∃ is : List Nat, q = c.path ++ is.map .index ∧
    c.field.info.type.nullableAt is.length = true

/-- The plans of the schema take nulls just where the types allow them. -/
def Parallel {M C W : Type} (s : Schema M C W) : Prop :=
  ∀ name t, s.object? name = some t → ∀ f ∈ t.fields, ∀ n,
    f.plan.output.nullableAt n = f.info.type.nullableAt n

namespace Link

open Except

variable {M C W : Type} {c : Catalog M C W} {d : Description} {w : Walk M C W}
  {st : Store M C W} {s : Schema M C W}

theorem nullableAt_outputPlan {ty : TypeExpr} {plan : OutputPlan M}
    (h : outputPlan c w ty = .ok plan) (n : Nat) :
    plan.nullableAt n = (typeRef c ty).nullableAt n := by
  induction ty generalizing plan n with
  | scalar k =>
    cases h
    cases n <;> rfl
  | enum handle =>
    obtain ⟨values, _, rfl⟩ := map_eq_ok h
    cases n <;> rfl
  | object handle =>
    cases hget : c.get? handle with
    | none => simp [outputPlan, hget] at h
    | some t =>
      simp only [outputPlan, hget, Except.ok.injEq] at h
      subst h
      cases n <;> rfl
  | interface handle | union handle =>
    obtain ⟨dispatcher, _, rfl⟩ := map_eq_ok h
    cases n <;> rfl
  | list inner ih =>
    obtain ⟨plan, hinner, rfl⟩ := map_eq_ok h
    cases n with
    | zero => rfl
    | succ n => exact ih hinner n
  | nonNull inner ih =>
    obtain ⟨plan, hinner, rfl⟩ := map_eq_ok h
    cases n with
    | zero => rfl
    | succ n => exact ih hinner (n + 1)

theorem Linking.parallel (hs : Linking c d w st s) : Parallel s := by
  intro name t ht f hf n
  obtain ⟨h, def_, o, fields, hfrom⟩ := hs.object_of_object? ht
  obtain ⟨declared, _, hplanned⟩ := (mem_of_mapM hfrom.planned f).mp hf
  have hfield := plannedField_ok hplanned
  rw [hfield.type]
  exact nullableAt_outputPlan hfield.output n

end Link

namespace Path

/-- The last key of a path and the indices after it are told apart. -/
theorem eq_of_append_indices {p p' : Path} (hkey : ∃ q k, p = q ++ [.key k])
    (hkey' : ∃ q k, p' = q ++ [.key k]) {is is' : List Nat}
    (h : p ++ is.map .index = p' ++ is'.map .index) : p = p' ∧ is = is' := by
  induction is using List.reverseRecOn generalizing is' with
  | nil =>
    cases is' using List.reverseRecOn with
    | nil => exact ⟨by simpa using h, rfl⟩
    | append_singleton is' i' =>
      rw [List.map_append, ← List.append_assoc, List.map_nil, List.append_nil] at h
      exact absurd h (ne_snoc_index hkey)
  | append_singleton is i ih =>
    cases is' using List.reverseRecOn with
    | nil =>
      rw [List.map_append, ← List.append_assoc, List.map_nil, List.append_nil] at h
      exact absurd h.symm (ne_snoc_index hkey')
    | append_singleton is' i' =>
      rw [List.map_append, List.map_append, ← List.append_assoc, ← List.append_assoc] at h
      obtain ⟨hfront, hlast⟩ := List.append_inj' h rfl
      obtain ⟨hp, rfl⟩ := ih hfront
      cases hlast
      exact ⟨hp, rfl⟩

end Path

/-! ### Cutting out a subtree -/

namespace Value

/-- The value with what stands at the path, if anything does, replaced by null. -/
def cut : Path → Value → Value
  | [], _ => .null
  | .key k :: q, .object ms =>
    .object (ms.map fun m => (m.1, if m.1 = k then cut q m.2 else m.2))
  | .index i :: q, .list vs => .list (vs.mapIdx fun j v => if j = i then cut q v else v)
  | _, v => v

/-- What stands at a path, with the subtree at `a` cut out if that is below. -/
def cutAt (a path : Path) (v : Value) : Value :=
  match after? path a with
  | some r => cut r v
  | none => v

def cutItems (a path : Path) (i : Nat) (vs : List Value) : List Value :=
  vs.mapIdx fun j v => cutAt a (path ++ [.index (i + j)]) v

def cutMembers (a path : Path) (ms : List (String × Value)) : List (String × Value) :=
  ms.map fun m => (m.1, cutAt a (path ++ [.key m.1]) m.2)

theorem cutAt_snoc {a path : Path} (s : Segment) (v : Value) :
    cutAt a (path ++ [s]) v = match after? path a with
      | some (t :: r) => if s = t then cut r v else v
      | _ => v := by
  unfold cutAt
  rw [after?_snoc]
  match after? path a with
  | none => rfl
  | some [] => rfl
  | some (t :: r) => by_cases h : s = t <;> simp [after?, h]

theorem cutAt_null (a path : Path) : cutAt a path .null = .null := by
  unfold cutAt
  split
  · next r hr =>
    cases r with
    | nil => rfl
    | cons s r => cases s <;> rfl
  · rfl

theorem cutAt_list {a path : Path} (h : ¬ a <+: path) (vs : List Value) :
    cutAt a path (.list vs) = .list (cutItems a path 0 vs) := by
  have hitems : cutItems a path 0 vs = vs.mapIdx fun j v => match after? path a with
      | some (t :: r) => if Segment.index j = t then cut r v else v
      | _ => v := by
    simp only [cutItems, Nat.zero_add, cutAt_snoc]
  rw [hitems, cutAt]
  have hself : vs = vs.mapIdx fun _ v => v := (List.mapIdx_eq_iff.mpr fun i => by simp).symm
  match hr : after? path a with
  | none => exact congrArg Value.list hself
  | some [] =>
    have heq := after?_eq_some_iff.mp hr
    rw [List.append_nil] at heq
    exact absurd (heq ▸ List.prefix_refl a) h
  | some (.index i :: r) => simp [cut]
  | some (.key k :: r) => simpa [cut] using hself

theorem cutAt_object {a path : Path} (h : ¬ a <+: path) (ms : List (String × Value)) :
    cutAt a path (.object ms) = .object (cutMembers a path ms) := by
  have hmembers : cutMembers a path ms = ms.map fun m => (m.1, match after? path a with
      | some (t :: r) => if Segment.key m.1 = t then cut r m.2 else m.2
      | _ => m.2) := by
    simp only [cutMembers, cutAt_snoc]
  rw [hmembers, cutAt]
  match hr : after? path a with
  | none => simp
  | some [] =>
    have heq := after?_eq_some_iff.mp hr
    rw [List.append_nil] at heq
    exact absurd (heq ▸ List.prefix_refl a) h
  | some (.index i :: r) => simp [cut]
  | some (.key k :: r) => simp [cut]

theorem cutItems_cons (a path : Path) (i : Nat) (v : Value) (vs : List Value) :
    cutItems a path i (v :: vs) =
      cutAt a (path ++ [.index i]) v :: cutItems a path (i + 1) vs := by
  simp only [cutItems, List.mapIdx_cons, Nat.add_zero, Nat.add_right_comm, Nat.add_assoc]

end Value

namespace Direct

open Query Execution
open Value hiding object

/-! ### Items in their slots -/

/-- An item at the relative path would stand in a slot that is strict or not. -/
inductive Accepted.ItemAt {M : Type} : Accepted M → Path → Bool → Prop where
  | here (ts : List (Accepted M)) (i : Nat) (strict : Bool) :
    ItemAt (.list strict ts) [.index i] strict
  | deeper {ts : List (Accepted M)} {t : Accepted M} (hmem : t ∈ ts) {q : Path} {strict : Bool}
    (h : ItemAt t q strict) (i : Nat) (outer : Bool) :
    ItemAt (.list outer ts) (.index i :: q) strict

variable {M C W : Type}

theorem nullableAt_zero (plan : OutputPlan M) : plan.nullableAt 0 = !plan.isNonNull := by
  cases plan <;> rfl

/-- The slots of a value's items are as strict as its plan has them. -/
theorem nullableAt_of_itemAt {plan : OutputPlan M} {p : Produced M} {t : Accepted M}
    (h : conform plan p = some t) {q : Path} {strict : Bool} (hitem : t.ItemAt q strict) :
    ∃ is : List Nat, q = is.map .index ∧ plan.nullableAt is.length = !strict := by
  induction plan generalizing p t q with
  | nonNull inner ih =>
    obtain ⟨is, rfl, hnullable⟩ := ih (require_eq_some_iff.mp h).1 hitem
    refine ⟨is, rfl, ?_⟩
    cases is with
    | nil => cases hitem
    | cons i is => exact hnullable
  | scalar k => rcases conformScalar_cases h with rfl | ⟨v, rfl⟩ <;> cases hitem
  | enum e => rcases conformEnum_cases h with rfl | ⟨v, rfl⟩ <;> cases hitem
  | object name isTypeOf => rcases conformObject_cases h with rfl | ⟨m, rfl⟩ <;> cases hitem
  | abstract d =>
    rcases conformAbstract_cases h with rfl | ⟨m, name, _, rfl⟩ <;> cases hitem
  | list inner ih =>
    cases p with
    | list ps =>
      obtain ⟨ts, hts, rfl⟩ := Option.map_eq_some_iff.mp h
      cases hitem with
      | here ts i strict => exact ⟨[i], rfl, nullableAt_zero inner⟩
      | deeper hmem hitem i outer =>
        have hsome := List.mem_map_of_mem (f := some) hmem
        rw [← List.map_eq_of_mapM hts] at hsome
        obtain ⟨p, _, hp⟩ := List.mem_map.mp hsome
        rcases slot_conform hp with ⟨_, _, rfl⟩ | hc
        · cases hitem
        · obtain ⟨is, rfl, hnullable⟩ := ih hc hitem
          exact ⟨i :: is, rfl, hnullable⟩
    | null =>
      cases h
      cases hitem
    | _ => cases h

/-! ### Results that differ only in a subtree -/

/-- The results at the path are the same up to the subtree at `a`, or that is at or above the path
and they may be anything. -/
def Alike (a path : Path) (u u' : Option Value) : Prop :=
  a <+: path ∨ u.map (cutAt a path) = u'.map (cutAt a path)

/-- The same for one position of a list or an object, once it has taken its nulls. -/
def AlikeIn (a path : Path) (s : Segment) (u u' : Option Value) : Prop :=
  a <+: path ∨ u.map (cutAt a (path ++ [s])) = u'.map (cutAt a (path ++ [s]))

def AlikeItems (a path : Path) (i : Nat) (us us' : Option (List Value)) : Prop :=
  a <+: path ∨ us.map (cutItems a path i) = us'.map (cutItems a path i)

def AlikeMembers (a path : Path) (us us' : Option (List (String × Value))) : Prop :=
  a <+: path ∨ us.map (cutMembers a path) = us'.map (cutMembers a path)

section

variable {a path : Path}

/-- A slot that takes nulls keeps all differences below it. -/
theorem alikeIn_slot {s : Segment} {strict : Bool} {u u' : Option Value}
    (h : Alike a (path ++ [s]) u u') (hloose : a = path ++ [s] → strict = false) :
    AlikeIn a path s (slot strict .null u) (slot strict .null u') := by
  rcases h with h | h
  · rcases List.prefix_concat_iff.mp h with rfl | h
    · refine .inr ?_
      rw [hloose rfl]
      have hnull : ∀ v, cutAt (path ++ [s]) (path ++ [s]) v = .null := fun v => by
        have hself := after?_append (path ++ [s]) []
        rw [List.append_nil] at hself
        rw [cutAt, hself]
        rfl
      simp [hnull]
    · exact .inl h
  · refine .inr ?_
    match u, u' with
    | none, none => rfl
    | some v, some v' =>
      cases strict with
      | true => exact h
      | false => exact h
    | none, some v => cases h
    | some v, none => cases h

theorem alikeItems_cons {i : Nat} {u u' : Option Value} {us us' : Option (List Value)}
    (h : AlikeIn a path (.index i) u u') (hs : AlikeItems a path (i + 1) us us') :
    AlikeItems a path i (both (· :: ·) u us) (both (· :: ·) u' us') := by
  have hboth : ∀ (u : Option Value) (us : Option (List Value)),
      (both (· :: ·) u us).map (cutItems a path i) =
        both (· :: ·) (u.map (cutAt a (path ++ [.index i])))
          (us.map (cutItems a path (i + 1))) := by
    intro u us
    cases u <;> cases us <;> simp [both, cutItems_cons]
  rcases h with h | h
  · exact .inl h
  · rcases hs with hs | hs
    · exact .inl hs
    · exact .inr (by rw [hboth, hboth, h, hs])

theorem alike_list {us us' : Option (List Value)} (h : AlikeItems a path 0 us us') :
    Alike a path (us.map .list) (us'.map .list) := by
  by_cases hpath : a <+: path
  · exact .inl hpath
  · have hlist : cutAt a path ∘ Value.list = Value.list ∘ cutItems a path 0 :=
      funext fun vs => cutAt_list hpath vs
    refine .inr ?_
    rw [Option.map_map, Option.map_map, hlist, ← Option.map_map, ← Option.map_map,
      h.resolve_left hpath]

theorem alikeMembers_append {us us' vs vs' : Option (List (String × Value))}
    (h : AlikeMembers a path us us') (hs : AlikeMembers a path vs vs') :
    AlikeMembers a path (both (· ++ ·) us vs) (both (· ++ ·) us' vs') := by
  have hboth : ∀ us vs : Option (List (String × Value)),
      (both (· ++ ·) us vs).map (cutMembers a path) =
        both (· ++ ·) (us.map (cutMembers a path)) (vs.map (cutMembers a path)) := by
    intro us vs
    cases us <;> cases vs <;> simp [both, cutMembers]
  rcases h with h | h
  · exact .inl h
  · rcases hs with hs | hs
    · exact .inl hs
    · exact .inr (by rw [hboth, hboth, h, hs])

theorem alikeMembers_one {key : String} {u u' : Option Value}
    (h : AlikeIn a path (.key key) u u') :
    AlikeMembers a path (u.map fun v => [(key, v)]) (u'.map fun v => [(key, v)]) := by
  have hone : ∀ u : Option Value, (u.map fun v => [(key, v)]).map (cutMembers a path) =
      (u.map (cutAt a (path ++ [.key key]))).map fun v => [(key, v)] := by
    intro u
    cases u <;> simp [cutMembers]
  exact h.imp_right fun h => by rw [hone, hone, h]

theorem alike_object {us us' : Option (List (String × Value))} (h : AlikeMembers a path us us') :
    Alike a path (us.map object) (us'.map object) := by
  by_cases hpath : a <+: path
  · exact .inl hpath
  · have hobject : cutAt a path ∘ object = object ∘ cutMembers a path := by
      funext ms
      cases ms with
      | nil => exact cutAt_null a path
      | cons m ms => exact cutAt_object hpath (m :: ms)
    refine .inr ?_
    rw [Option.map_map, Option.map_map, hobject, ← Option.map_map, ← Option.map_map,
      h.resolve_left hpath]

theorem alikeMembers_refl (us : Option (List (String × Value))) : AlikeMembers a path us us :=
  .inr rfl

end

/-! ### Calls that come to the same -/

/-- What is known of the calls of two evaluations: only the field at `p` and what is below it may
have produced different values, and `a` is a nullable position at or above it. -/
structure Compared (context context' : Option C) (p a : Path) (calls calls' : List (Call M C W)) :
    Prop where
  agree : ∀ c ∈ calls, ∀ c' ∈ calls', c.path = c'.path → ¬ p <+: c.path →
    (c.field.plan.produce c.parent c.sent context c.world).1 =
      (c'.field.plan.produce c'.parent c'.sent context' c'.world).1
  spread : Spread (fun _ => True) calls
  above : a <+: p
  nullable : MayBeNull calls a

/-- An item of a field's value that stands at `a` may be null, and so may the value itself. -/
theorem Compared.nullableAt {context context' : Option C} {p a : Path}
    {calls calls' : List (Call M C W)} (h : Compared context context' p a calls calls')
    {c : Call M C W} (hc : c ∈ calls) (is : List Nat) (ha : a = c.path ++ is.map .index) :
    c.field.info.type.nullableAt is.length = true := by
  obtain ⟨q, k, hkey⟩ := h.spread.keyed c hc
  rcases h.nullable with hroot | ⟨c', hc', is', ha', hnullable⟩
  · rw [ha, hkey] at hroot
    simp at hroot
  · obtain ⟨hpath, rfl⟩ :=
      eq_of_append_indices ⟨q, k, hkey⟩ (h.spread.keyed c' hc') (ha.symm.trans ha')
    rw [List.inj_on_of_nodup_map h.spread.nodup hc hc' hpath]
    exact hnullable

/-! ### Values -/

section

variable {a : Path} {all all' : List (Call M C W)} {select select' : Selecting M W}
  {calls calls' : Calling M C W}

/-- What is selected of an object that both evaluations come to is alike. -/
def SelectsAlike (a : Path) (all all' : List (Call M C W)) (select select' : Selecting M W)
    (calls calls' : Calling M C W) (m : M) (name : String) : Prop :=
  ∀ path w w', calls name m path w ⊆ all → calls' name m path w' ⊆ all' →
    Alike a path (select name m w).1 (select' name m w').1

mutual

/-- Values that are accepted as the same are evaluated alike. -/
theorem render_alike : ∀ (t : Accepted M) (path : Path) (w w' : W),
    (∀ q strict, t.ItemAt q strict → a = path ++ q → strict = false) →
    (∀ m name, t.Has m name → SelectsAlike a all all' select select' calls calls' m name) →
    callsIn select calls t path w ⊆ all → callsIn select' calls' t path w' ⊆ all' →
    Alike a path (render select t w).1 (render select' t w').1
  | .null, _, _, _, _, _, _, _ | .value _, _, _, _, _, _, _, _ => .inr rfl
  | .object m name, path, w, w', _, h, hc, hc' => h m name (.object m name) path w w' hc hc'
  | .list strict ts, path, w, w', hloose, h, hc, hc' =>
    alike_list (renderItems_alike strict ts 0 path w w'
      (fun i => hloose _ _ (.here ts i strict))
      (fun _ ht i _ inner hitem => hloose _ inner (.deeper ht hitem i strict))
      (fun _ ht m name hhas => h m name (.item ht hhas strict)) hc hc')

theorem renderItems_alike (strict : Bool) :
    ∀ (ts : List (Accepted M)) (i : Nat) (path : Path) (w w' : W),
    (∀ i, a = path ++ [.index i] → strict = false) →
    (∀ t ∈ ts, ∀ i q inner, t.ItemAt q inner → a = path ++ .index i :: q → inner = false) →
    (∀ t ∈ ts, ∀ m name, t.Has m name →
      SelectsAlike a all all' select select' calls calls' m name) →
    callsInItems select calls i ts path w ⊆ all → callsInItems select' calls' i ts path w' ⊆ all' →
    AlikeItems a path i (renderItems select strict ts w).1 (renderItems select' strict ts w').1
  | [], _, _, _, _, _, _, _, _, _ => .inr rfl
  | t :: ts, i, path, w, w', hslot, hloose, h, hc, hc' => by
    obtain ⟨hfirst, hrest⟩ := List.append_subset.mp hc
    obtain ⟨hfirst', hrest'⟩ := List.append_subset.mp hc'
    have hhead := render_alike t (path ++ [.index i]) w w'
      (fun q inner hitem ha => hloose t (List.mem_cons_self ..) i q inner hitem (by simpa using ha))
      (h t (List.mem_cons_self ..)) hfirst hfirst'
    have htail := renderItems_alike strict ts (i + 1) path (render select t w).2
      (render select' t w').2 hslot (fun t ht => hloose t (List.mem_cons_of_mem _ ht))
      (fun t ht => h t (List.mem_cons_of_mem _ ht)) hrest hrest'
    exact alikeItems_cons (alikeIn_slot hhead (hslot i)) htail

end

end

/-! ### Fields -/

section

variable {context context' : Option C} {p a : Path} {all all' : List (Call M C W)}
  {select select' : Selecting M W} {calls calls' : Calling M C W}

/-- A field comes to what its plan accepts, in its slot. -/
theorem settle_eq_slot (select : Selecting M W) (plan : OutputPlan M)
    (produced : Except String (Produced M)) (w : W) :
    (settle select plan produced w).1 = slot plan.isNonNull .null
      ((produced.toOption.bind (conform plan)).bind fun t => (render select t w).1) := by
  unfold settle
  cases produced.toOption.bind (conform plan) <;> rfl

/-- A field at another position than `p` has produced the same value in both evaluations. The field
at `p` is at `a` or below it. -/
theorem field_alike (h : Compared context context' p a all all') (t : ObjectType M C W)
    (f : PlannedField M C W) (hparallel : ∀ n, f.plan.output.nullableAt n =
      f.info.type.nullableAt n) (m m' : M) {path : Path} {key : String}
    (position : Position) (sent : List BoundArgument) (w w' : W)
    (hselect : ∀ x accepted, conform f.plan.output x = some accepted → ∀ m name,
      accepted.Has m name → SelectsAlike a all all' select select' calls calls' m name)
    (hc : fieldCalls context select calls t f m (path ++ [.key key]) position sent w ⊆ all)
    (hc' : fieldCalls context' select' calls' t f m' (path ++ [.key key]) position sent w' ⊆ all') :
    AlikeIn a path (.key key) (field context select f m sent w).1
      (field context' select' f m' sent w').1 := by
  rcases hproduced : f.plan.produce m (sent.map fun a => (a.name, a.value)) context w with
    ⟨produced, w₁⟩
  rcases hproduced' : f.plan.produce m' (sent.map fun a => (a.name, a.value)) context' w' with
    ⟨produced', w₁'⟩
  simp only [fieldCalls, hproduced, hproduced'] at hc hc'
  simp only [field, hproduced, hproduced', settle_eq_slot]
  obtain ⟨hcall, hbelow⟩ := List.cons_subset.mp hc
  obtain ⟨hcall', hbelow'⟩ := List.cons_subset.mp hc'
  refine alikeIn_slot ?_ fun ha => ?_
  · by_cases hhere : p <+: path ++ [.key key]
    · exact .inl (h.above.trans hhere)
    · have hsame : produced = produced' := by
        have hagree := h.agree _ hcall _ hcall' rfl hhere
        simpa only [hproduced, hproduced'] using hagree
      subst hsame
      unfold callsBelow at hbelow hbelow'
      cases haccepted : produced.toOption.bind (conform f.plan.output) with
      | none => exact .inr rfl
      | some accepted =>
        simp only [haccepted] at hbelow hbelow'
        obtain ⟨x, _, hx⟩ := Option.bind_eq_some_iff.mp haccepted
        refine render_alike accepted _ w₁ w₁' (fun q strict hitem ha => ?_)
          (hselect x accepted hx) hbelow hbelow'
        obtain ⟨is, rfl, hnullable⟩ := nullableAt_of_itemAt hx hitem
        rw [hparallel, h.nullableAt hcall is ha] at hnullable
        simpa using hnullable.symm
  · have hnullable := h.nullableAt hcall [] (by simpa using ha)
    rw [List.length_nil, ← hparallel, nullableAt_zero] at hnullable
    simpa using hnullable

end

/-! ### Steps -/

/-- The steps make of an object of the type what is alike in both evaluations. -/
def StepsAlike (s : Schema M C W) (context context' : Option C) (a : Path)
    (all all' : List (Call M C W)) (t : ObjectType M C W) (steps : List Step) : Prop :=
  ∀ (m m' : M) (path : Path) (w w' : W),
    callsOf s context t m path steps w ⊆ all → callsOf s context' t m' path steps w' ⊆ all' →
    AlikeMembers a path (members s context t m steps w).1 (members s context' t m' steps w').1

def StepAlike (s : Schema M C W) (context context' : Option C) (a : Path)
    (all all' : List (Call M C W)) (t : ObjectType M C W) (step : Step) : Prop :=
  ∀ (m m' : M) (path : Path) (w w' : W),
    callsOfStep s context t m path step w ⊆ all → callsOfStep s context' t m' path step w' ⊆ all' →
    AlikeMembers a path (member s context t m step w).1 (member s context' t m' step w').1

section

variable {s : Schema M C W} {context context' : Option C} {p a : Path}
  {all all' : List (Call M C W)} {t : ObjectType M C W}

theorem steps_alike_cons {step : Step} {steps : List Step}
    (h : StepAlike s context context' a all all' t step)
    (hs : StepsAlike s context context' a all all' t steps) :
    StepsAlike s context context' a all all' t (step :: steps) := by
  intro m m' path w w' hc hc'
  obtain ⟨hfirst, hrest⟩ := List.append_subset.mp hc
  obtain ⟨hfirst', hrest'⟩ := List.append_subset.mp hc'
  exact alikeMembers_append (h m m' path w w' hfirst hfirst')
    (hs m m' path _ _ hrest hrest')

theorem step_alike_field (hparallel : Parallel s) (h : Compared context context' p a all all')
    {name : String} {sent : List BoundArgument} {below : List Step}
    (ht : s.object? t.name = some t) (hi : introspect s t name sent below = none)
    {f : PlannedField M C W} (hf : t.field? name = some f)
    (hfits : Fits s f.info.type.core f.plan.output)
    (hbelow : ∀ u ∈ standing s f.info.type.core, StepsAlike s context context' a all all' u below)
    (key : String) (position : Position) :
    StepAlike s context context' a all all' t (.field key name position (.ok sent) below) := by
  intro m m' path w w' hc hc'
  rw [callsOfStep_field hi hf] at hc hc'
  rw [member_field hi hf, member_field hi hf]
  refine alikeMembers_one (field_alike h t f (hparallel _ t ht f (List.mem_of_find?_eq_some hf))
    m m' position sent w w' (fun x accepted hx m name hhas path w w' hc hc' => ?_) hc hc')
  obtain ⟨u, hu, hname⟩ := standing_of_has hfits hx hhas
  rw [callsFor_of_object? hname] at hc hc'
  simp only [select, hname]
  exact alike_object (hbelow u hu m m path w w' hc hc')

/-- A question about the schema is answered without a call. -/
theorem step_alike_asked {name : String} {sent : List BoundArgument} {below : List Step}
    {reply : Except ResponseError (Introspection.Reply Value)}
    (hi : introspect s t name sent below = some reply) (key : String) (position : Position) :
    StepAlike s context context' a all all' t (.field key name position (.ok sent) below) := by
  intro m m' path w w' _ _
  cases reply <;> simp only [member, hi] <;> exact alikeMembers_refl _

theorem stepwise_alike (hparallel : Parallel s) (h : Compared context context' p a all all') :
    Stepwise s (StepsAlike s context context' a all all')
      (StepAlike s context context' a all all') where
  nil _ _ _ _ _ _ _ _ := alikeMembers_refl _
  cons _ := steps_alike_cons
  typename _ _ _ _ _ _ _ _ _ := alikeMembers_refl _
  unbound _ _ _ _ _ _ _ _ _ _ _ _ _ := alikeMembers_refl _
  asked hi := step_alike_asked hi
  missing hi hf _ _ _ _ _ _ _ _ _ := by
    simp only [member, hi, hf]
    exact alikeMembers_refl _
  field ht hi hf hfits hbelow := step_alike_field hparallel h ht hi hf hfits hbelow
  narrow hm hsteps m m' path w w' hc hc' := by
    simp only [callsOfStep, member, if_pos hm] at hc hc' ⊢
    exact hsteps m m' path w w' hc hc'
  skip hm _ _ _ _ _ _ _ _ := by
    simp only [member, hm]
    exact alikeMembers_refl _

end

/-- **Two evaluations that differ only in what one field produces are the same once any nullable
position at or above the field is cut out.** -/
theorem evaluate_alike [Backed M] {s : Schema M C W} (hlinked : Linked s) (hparallel : Parallel s)
    {context context' : Option C} {root : String} {steps : List Step}
    (hdistinct : ∀ t, s.object? root = some t → distinct s t steps = true) {p a : Path} {w w' : W}
    (h : Compared context context' p a (callsFor s context steps root Backed.unit [] w)
      (callsFor s context' steps root Backed.unit [] w')) :
    (evaluate s context root steps w).1.cut a = (evaluate s context' root steps w').1.cut a := by
  have hcut : ∀ v, cutAt a [] v = v.cut a := fun v => rfl
  have halike : Alike a [] (select s context steps root Backed.unit w).1
      (select s context' steps root Backed.unit w').1 := by
    cases ht : s.object? root with
    | none =>
      simp only [select, ht]
      exact .inr rfl
    | some t =>
      have ht' : s.object? t.name = some t := (object?_name ht).symm ▸ ht
      have hcalls : ∀ context w, callsFor s context steps root Backed.unit [] w =
          callsOf s context t Backed.unit [] steps w := fun context w =>
        callsFor_of_object? ht context steps Backed.unit [] w
      simp only [select, ht]
      refine alike_object ((stepwise_alike hparallel h).steps hlinked ht' (hdistinct t ht)
        Backed.unit Backed.unit [] w w' ?_ ?_)
      · exact fun c hc => hcalls context w ▸ hc
      · exact fun c hc => hcalls context' w' ▸ hc
  rcases halike with hroot | hsame
  · rw [List.prefix_nil.mp hroot]
    rfl
  · change ((select s context steps root Backed.unit w).1.getD .null).cut a =
      ((select s context' steps root Backed.unit w').1.getD .null).cut a
    simp only [← hcut]
    cases hu : (select s context steps root Backed.unit w).1 <;>
      cases hu' : (select s context' steps root Backed.unit w').1 <;>
      simp_all

end Direct

end GraphSchema
