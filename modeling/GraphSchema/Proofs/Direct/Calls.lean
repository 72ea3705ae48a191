import GraphSchema.Proofs.Direct.Linked
import GraphSchema.Proofs.Nulling
import GraphSchema.Proofs.Success

/-! The calls of a direct evaluation.

What a request selects and what its fields produce say which fields are called, with
what and for which position of the response: the calls are listed here by the
recursion that evaluates the request, in the order in which a run makes them. A call
is for a key of the object that it is made on or leads through it, so no two calls are
for one position (`callsOf_spread`). -/
namespace GraphSchema.Direct

open Query Execution GraphSchema.Path

variable {M C W : Type}

/-- The calls for what is selected of an object whose type has the name. -/
abbrev Calling (M C W : Type) := String → M → Path → W → List (Call M C W)

mutual

/-- The calls for the objects in a value at the path. -/
def callsIn (select : Selecting M W) (calls : Calling M C W) :
    Accepted M → Path → W → List (Call M C W)
  | .null, _, _ => []
  | .value _, _, _ => []
  | .list _ items, path, w => callsInItems select calls 0 items path w
  | .object m name, path, w => calls name m path w

/-- The calls for the items of a list from the one at `index` on. -/
def callsInItems (select : Selecting M W) (calls : Calling M C W) (index : Nat) :
    List (Accepted M) → Path → W → List (Call M C W)
  | [], _, _ => []
  | t :: ts, path, w =>
    callsIn select calls t (path ++ [.index index]) w ++
      callsInItems select calls (index + 1) ts path (render select t w).2

end

/-- The calls for a field whose value was produced or could not be. -/
def callsBelow (select : Selecting M W) (calls : Calling M C W) (plan : FieldPlan M C W)
    (produced : Except String (Produced M)) (path : Path) (w : W) : List (Call M C W) :=
  match produced.toOption.bind (conform plan.output) with
  | none => []
  | some accepted => callsIn select calls accepted path w

/-- The call of a field, and those for its value. -/
def fieldCalls (context : Option C) (select : Selecting M W) (calls : Calling M C W)
    (t : ObjectType M C W) (f : PlannedField M C W) (parent : M) (path : Path)
    (position : Position) (sent : List BoundArgument) (w : W) : List (Call M C W) :=
  let sent := sent.map fun a => (a.name, a.value)
  let (produced, w') := f.plan.produce parent sent context w
  ⟨t, f, parent, path, position, sent, w⟩ :: callsBelow select calls f.plan produced path w'

mutual

/-- The calls that the steps ask for on an object of the type. -/
def callsOf (s : Schema M C W) (context : Option C) (t : ObjectType M C W) (parent : M)
    (path : Path) : List Step → W → List (Call M C W)
  | [], _ => []
  | step :: steps, w =>
    callsOfStep s context t parent path step w ++
      callsOf s context t parent path steps (member s context t parent step w).2

def callsOfStep (s : Schema M C W) (context : Option C) (t : ObjectType M C W) (parent : M)
    (path : Path) : Step → W → List (Call M C W)
  | .typename _, _ => []
  | .field _ _ _ (.error _) _, _ => []
  | .field key name position (.ok sent) below, w =>
    match introspect s t name sent below with
    | some _ => []
    | none =>
      match t.field? name with
      | none => []
      | some f =>
        let select : Selecting M W := fun name m w =>
          match s.object? name with
          | none => (none, w)
          | some t =>
            let (ms, w) := members s context t m below w
            (ms.map object, w)
        let calls : Calling M C W := fun name m path w =>
          match s.object? name with
          | none => []
          | some t => callsOf s context t m path below w
        fieldCalls context select calls t f parent (path ++ [.key key]) position sent w
  | .narrow condition below, w =>
    if meets t condition then callsOf s context t parent path below w else []

end

/-- The calls for what the steps select of an object whose type has the name. -/
def callsFor (s : Schema M C W) (context : Option C) (steps : List Step) : Calling M C W :=
  fun name m path w =>
    match s.object? name with
    | none => []
    | some t => callsOf s context t m path steps w

theorem callsFor_of_object? {s : Schema M C W} {name : String} {t : ObjectType M C W}
    (h : s.object? name = some t) (context : Option C) (steps : List Step) (m : M) (path : Path)
    (w : W) : callsFor s context steps name m path w = callsOf s context t m path steps w := by
  simp only [callsFor, h]

theorem callsOfStep_field {s : Schema M C W} {context : Option C} {t : ObjectType M C W}
    {name : String} {sent : List BoundArgument} {below : List Step}
    (h : introspect s t name sent below = none) {f : PlannedField M C W}
    (hf : t.field? name = some f) (parent : M) (path : Path) (key : String) (position : Position)
    (w : W) :
    callsOfStep s context t parent path (.field key name position (.ok sent) below) w =
      fieldCalls context (select s context below) (callsFor s context below) t f parent
        (path ++ [.key key]) position sent w := by
  rw [callsOfStep, h, hf]
  rfl

/-! ### Objects in accepted values -/

/-- An object of the type stands somewhere in the value. -/
inductive Accepted.Has : Accepted M → M → String → Prop where
  | object (m : M) (name : String) : Has (.object m name) m name
  | item {t : Accepted M} {ts : List (Accepted M)} {m : M} {name : String} (hmem : t ∈ ts)
    (h : Has t m name) (strict : Bool) : Has (.list strict ts) m name

/-- In a value of the plan's type stand only objects that may stand there. -/
theorem standing_of_has {s : Schema M C W} {declared : String} {plan : OutputPlan M}
    (hfits : Fits s declared plan) {p : Produced M} {accepted : Accepted M}
    (h : conform plan p = some accepted) {m : M} {name : String} (hhas : accepted.Has m name) :
    ∃ u ∈ standing s declared, s.object? name = some u := by
  induction plan generalizing p accepted with
  | nonNull inner ih => exact ih hfits (require_eq_some_iff.mp h).1 hhas
  | scalar k =>
    rcases conformScalar_cases h with rfl | ⟨v, rfl⟩ <;> cases hhas
  | enum e =>
    rcases conformEnum_cases h with rfl | ⟨v, rfl⟩ <;> cases hhas
  | object objectName isTypeOf =>
    obtain ⟨t, ht, hconcrete⟩ := hfits
    rcases conformObject_cases h with rfl | ⟨m', rfl⟩ <;> cases hhas
    exact ⟨t, standing_of_concrete (hconcrete none), ht⟩
  | abstract d =>
    rcases conformAbstract_cases h with rfl | ⟨m', chosen, hchosen, rfl⟩ <;> cases hhas
    obtain ⟨c, hc, rfl⟩ := mem_candidates_of_resolve hchosen
    obtain ⟨t, ht, hconcrete⟩ := hfits.2 c hc
    exact ⟨t, standing_of_concrete hconcrete, ht⟩
  | list inner ih =>
    cases p with
    | list ps =>
      obtain ⟨ts, hts, rfl⟩ := Option.map_eq_some_iff.mp h
      cases hhas with
      | item hmem hhas =>
        have hsome := List.mem_map_of_mem (f := some) hmem
        rw [← List.map_eq_of_mapM hts] at hsome
        obtain ⟨p, _, hp⟩ := List.mem_map.mp hsome
        rcases slot_conform hp with ⟨_, _, rfl⟩ | hc
        · cases hhas
        · exact ih hfits hc hhas
    | null =>
      cases h
      cases hhas
    | _ => cases h

/-! ### Positions of calls -/

/-- The calls are for keys of objects, at different positions that all have the property. -/
structure Spread (P : Path → Prop) (calls : List (Call M C W)) : Prop where
  within : ∀ c ∈ calls, P c.path
  keyed : ∀ c ∈ calls, ∃ q k, c.path = q ++ [.key k]
  nodup : (calls.map (·.path)).Nodup

section

variable {P Q R : Path → Prop} {calls calls' : List (Call M C W)}

theorem spread_nil : Spread (M := M) (C := C) (W := W) P [] := ⟨nofun, nofun, List.nodup_nil⟩

theorem spread_mono (h : ∀ q, P q → Q q) (hc : Spread P calls) : Spread Q calls :=
  ⟨fun c hmem => h _ (hc.within c hmem), hc.keyed, hc.nodup⟩

theorem spread_append (hP : ∀ q, P q → R q) (hQ : ∀ q, Q q → R q) (hne : ∀ q, P q → ¬ Q q)
    (h : Spread P calls) (h' : Spread Q calls') : Spread R (calls ++ calls') := by
  refine ⟨fun c hc => ?_, fun c hc => ?_, ?_⟩
  · rcases List.mem_append.mp hc with hc | hc
    · exact hP _ (h.within c hc)
    · exact hQ _ (h'.within c hc)
  · rcases List.mem_append.mp hc with hc | hc
    · exact h.keyed c hc
    · exact h'.keyed c hc
  · rw [List.map_append]
    refine List.nodup_append.mpr ⟨h.nodup, h'.nodup, fun q hq q' hq' heq => ?_⟩
    obtain ⟨c, hc, rfl⟩ := List.mem_map.mp hq
    obtain ⟨c', hc', rfl⟩ := List.mem_map.mp hq'
    exact hne _ (h.within c hc) (heq ▸ h'.within c' hc')

/-- The call of a field comes before those for positions below the field. -/
theorem spread_cons {c : Call M C W} {path : Path} {key : String}
    (hc : c.path = path ++ [.key key])
    (h : Spread (fun q => ∃ step, c.path ++ [step] <+: q) calls) :
    Spread (fun q => path ++ [.key key] <+: q) (c :: calls) := by
  refine ⟨fun c' hc' => ?_, fun c' hc' => ?_, ?_⟩
  · rcases List.mem_cons.mp hc' with rfl | hc'
    · exact hc ▸ List.prefix_refl _
    · obtain ⟨step, hstep⟩ := h.within c' hc'
      exact hc ▸ prefix_of_snoc hstep
  · rcases List.mem_cons.mp hc' with rfl | hc'
    · exact ⟨path, key, hc⟩
    · exact h.keyed c' hc'
  · refine List.nodup_cons.mpr ⟨fun hmem => ?_, h.nodup⟩
    obtain ⟨c', hc', heq⟩ := List.mem_map.mp hmem
    obtain ⟨step, hstep⟩ := h.within c' hc'
    exact not_snoc_prefix (heq ▸ hstep)

end

section

variable {select : Selecting M W} {calls : Calling M C W}

mutual

/-- Calls for objects at different positions of a value are for different positions. -/
theorem callsIn_spread : ∀ (accepted : Accepted M)
    (_ : ∀ m name, accepted.Has m name → ∀ path w,
      Spread (fun q => ∃ step, path ++ [step] <+: q) (calls name m path w)) (path : Path) (w : W),
    Spread (fun q => ∃ step, path ++ [step] <+: q) (callsIn select calls accepted path w)
  | .null, _, _, _ | .value _, _, _, _ => spread_nil
  | .object m name, h, path, w => h m name (.object m name) path w
  | .list strict items, h, path, w =>
    spread_mono (fun _ ⟨j, _, hj⟩ => ⟨.index j, hj⟩)
      (callsInItems_spread items (fun _ ht m name hhas => h m name (.item ht hhas strict)) 0 path w)

theorem callsInItems_spread : ∀ (items : List (Accepted M))
    (_ : ∀ t ∈ items, ∀ m name, t.Has m name → ∀ path w,
      Spread (fun q => ∃ step, path ++ [step] <+: q) (calls name m path w)) (i : Nat)
    (path : Path) (w : W),
    Spread (fun q => ∃ j, i ≤ j ∧ path ++ [.index j] <+: q)
      (callsInItems select calls i items path w)
  | [], _, _, _, _ => spread_nil
  | t :: ts, h, i, path, w => by
    have hhead := callsIn_spread t (h t (List.mem_cons_self ..)) (path ++ [.index i]) w
    have htail := callsInItems_spread ts (fun t ht => h t (List.mem_cons_of_mem _ ht)) (i + 1) path
      (render select t w).2
    refine spread_append (fun q ⟨step, hstep⟩ => ⟨i, Nat.le_refl i, prefix_of_snoc hstep⟩)
      (fun q ⟨j, hj, hq⟩ => ⟨j, by omega, hq⟩) (fun q ⟨step, hstep⟩ ⟨j, hj, hq⟩ => ?_) hhead htail
    have hij := eq_of_snoc_prefix (prefix_of_snoc hstep) hq
    simp only [Segment.index.injEq] at hij
    omega

end

end

/-! ### Requests that repeat no key -/

section

variable {s : Schema M C W} {P : ObjectType M C W → List Step → Prop}
  {Q : ObjectType M C W → Step → Prop}

/-- What holds of one step after the other holds of the steps of a request that repeats no key. The
steps below a field may be evaluated on any object that may stand in the field's value. -/
structure Stepwise (s : Schema M C W) (P : ObjectType M C W → List Step → Prop)
    (Q : ObjectType M C W → Step → Prop) : Prop where
  nil : ∀ t, P t []
  cons : ∀ {t step steps}, (keysOf t step ++ keys t steps).Nodup → Q t step → P t steps →
    P t (step :: steps)
  typename : ∀ t key, Q t (.typename key)
  unbound : ∀ t key name position u below, Q t (.field key name position (.error u) below)
  asked : ∀ {t name sent below reply}, introspect s t name sent below = some reply →
    ∀ key position, Q t (.field key name position (.ok sent) below)
  missing : ∀ {t name sent below}, introspect s t name sent below = none →
    t.field? name = none → ∀ key position, Q t (.field key name position (.ok sent) below)
  field : ∀ {t name sent below f}, s.object? t.name = some t →
    introspect s t name sent below = none → t.field? name = some f →
    Fits s f.info.type.core f.plan.output →
    (∀ u ∈ standing s f.info.type.core, P u below) →
    ∀ key position, Q t (.field key name position (.ok sent) below)
  narrow : ∀ {t condition below}, meets t condition = true → P t below →
    Q t (.narrow condition below)
  skip : ∀ {t condition}, meets t condition = false → ∀ below, Q t (.narrow condition below)

namespace Stepwise

mutual

theorem steps_aux (h : Stepwise s P Q) (hlinked : Linked s) : ∀ (steps : List Step)
    (t : ObjectType M C W), s.object? t.name = some t → (keys t steps).Nodup →
    distinctBelow s t steps = true → P t steps
  | [], t, _, _, _ => h.nil t
  | step :: steps, t, ht, hnodup, hbelow => by
    rw [distinctBelow, Bool.and_eq_true] at hbelow
    rw [keys] at hnodup
    obtain ⟨hfirst, hrest, _⟩ := List.nodup_append.mp hnodup
    exact h.cons hnodup (step_aux h hlinked step t ht hfirst hbelow.1)
      (steps_aux h hlinked steps t ht hrest hbelow.2)

theorem step_aux (h : Stepwise s P Q) (hlinked : Linked s) : ∀ (step : Step)
    (t : ObjectType M C W), s.object? t.name = some t → (keysOf t step).Nodup →
    distinctBelowStep s t step = true → Q t step
  | .typename key, t, _, _, _ => h.typename t key
  | .field key name position (.error u) below, t, _, _, _ => h.unbound t key name position u below
  | .field key name position (.ok sent) below, t, ht, _, hbelow => by
    cases hi : introspect s t name sent below with
    | some reply => exact h.asked hi key position
    | none =>
      cases hf : t.field? name with
      | none => exact h.missing hi hf key position
      | some f =>
        have hfits := hlinked t.name t ht f (List.mem_of_find?_eq_some hf)
        refine h.field ht hi hf hfits (fun u hu => ?_) key position
        obtain ⟨hnodup, hbelow'⟩ := distinct_iff.mp (distinct_of_field hbelow hf hu)
        exact steps_aux h hlinked below u (object?_of_standing hu) hnodup hbelow'
  | .narrow condition below, t, ht, hnodup, hbelow => by
    cases hm : meets t condition with
    | true =>
      rw [keysOf, if_pos hm] at hnodup
      exact h.narrow hm (steps_aux h hlinked below t ht hnodup (distinct_of_narrow hbelow hm))
    | false => exact h.skip hm below

end

theorem steps (h : Stepwise s P Q) (hlinked : Linked s) {t : ObjectType M C W}
    (ht : s.object? t.name = some t) {steps : List Step} (hdistinct : distinct s t steps = true) :
    P t steps :=
  steps_aux h hlinked steps t ht (distinct_iff.mp hdistinct).1 (distinct_iff.mp hdistinct).2

end Stepwise

end

/-! ### Positions of the calls of a request -/

/-- The calls for the steps are for different positions below the keys that they ask for. -/
def StepsCall (s : Schema M C W) (context : Option C) (t : ObjectType M C W) (steps : List Step) :
    Prop :=
  ∀ (m : M) (path : Path) (w : W), Spread (fun q => ∃ k ∈ keys t steps, path ++ [.key k] <+: q)
    (callsOf s context t m path steps w)

def StepCalls (s : Schema M C W) (context : Option C) (t : ObjectType M C W) (step : Step) : Prop :=
  ∀ (m : M) (path : Path) (w : W), Spread (fun q => ∃ k ∈ keysOf t step, path ++ [.key k] <+: q)
    (callsOfStep s context t m path step w)

variable {s : Schema M C W} {context : Option C} {t : ObjectType M C W}

theorem steps_call_cons {step : Step} {steps : List Step}
    (hnodup : (keysOf t step ++ keys t steps).Nodup) (h : StepCalls s context t step)
    (hs : StepsCall s context t steps) : StepsCall s context t (step :: steps) := by
  intro m path w
  refine spread_append (fun q ⟨k, hk, hq⟩ => ⟨k, List.mem_append_left _ hk, hq⟩)
    (fun q ⟨k, hk, hq⟩ => ⟨k, List.mem_append_right _ hk, hq⟩)
    (fun q ⟨k, hk, hq⟩ ⟨k', hk', hq'⟩ => ?_) (h m path w)
    (hs m path (member s context t m step w).2)
  have hkk := eq_of_snoc_prefix hq hq'
  simp only [Segment.key.injEq] at hkk
  exact (List.nodup_append.mp hnodup).2.2 k hk k' hk' hkk

theorem step_calls_field {name : String} {sent : List BoundArgument} {below : List Step}
    (hi : introspect s t name sent below = none) {f : PlannedField M C W}
    (hf : t.field? name = some f) (hfits : Fits s f.info.type.core f.plan.output)
    (h : ∀ u ∈ standing s f.info.type.core, StepsCall s context u below) (key : String)
    (position : Position) : StepCalls s context t (.field key name position (.ok sent) below) := by
  intro m path w
  rw [callsOfStep_field hi hf]
  refine spread_mono (fun q hq => ⟨key, List.mem_singleton_self key, hq⟩) (spread_cons rfl ?_)
  unfold callsBelow
  split
  · exact spread_nil
  · next accepted haccepted =>
    refine callsIn_spread accepted (fun m' name' hhas path w => ?_) _ _
    obtain ⟨p, _, hp⟩ := Option.bind_eq_some_iff.mp haccepted
    obtain ⟨u, hu, hname⟩ := standing_of_has hfits hp hhas
    simp only [callsFor, hname]
    exact spread_mono (fun q ⟨k, _, hq⟩ => ⟨.key k, hq⟩) (h u hu m' path w)

theorem stepwise_calls : Stepwise s (StepsCall s context) (StepCalls s context) where
  nil _ _ _ _ := spread_nil
  cons := steps_call_cons
  typename _ _ _ _ _ := spread_nil
  unbound _ _ _ _ _ _ _ _ _ := spread_nil
  asked hi _ _ _ _ _ := by
    rw [callsOfStep, hi]
    exact spread_nil
  missing hi hf _ _ _ _ _ := by
    rw [callsOfStep, hi, hf]
    exact spread_nil
  field _ hi hf hfits h := step_calls_field hi hf hfits h
  narrow hm h m path w := by
    simp only [keysOf, callsOfStep, if_pos hm]
    exact h m path w
  skip hm _ m path w := by
    simp only [callsOfStep, hm]
    exact spread_nil

/-- **No two calls of a request that repeats no key are for one position of the response.** -/
theorem callsOf_spread (hlinked : Linked s) (ht : s.object? t.name = some t) {steps : List Step}
    (hdistinct : distinct s t steps = true) (m : M) (path : Path) (w : W) :
    Spread (fun q => ∃ k ∈ keys t steps, path ++ [.key k] <+: q)
      (callsOf s context t m path steps w) :=
  stepwise_calls.steps hlinked ht hdistinct m path w

end GraphSchema.Direct
