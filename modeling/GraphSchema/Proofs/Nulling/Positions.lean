import GraphSchema.Execution.Answer
import GraphSchema.Proofs.Nulling

/-! Finished data, position by position.

Fields that run side by side record the positions to be null in no certain order, and one
may be below another. What becomes of data is read off one step at a time: a part is nulled
by the paths that lead through it, and a missing key is added if a path ends there
(`part?_nullAll`). From this it follows by induction on a path what stands at any position,
and that neither the order nor the number of times that a path was recorded matters
(`propagate_exact`). -/
namespace GraphSchema

namespace Value

open GraphSchema.Path

/-- The part of an object under a key, or of a list at an index. -/
def part? : Segment → Value → Option Value
  | .key name, .object members => member? name members
  | .index i, .list items => items[i]?
  | _, _ => none

/-- Whether null may be written to a part: an object takes any key, a list only indices that it
has. -/
def holds : Segment → Value → Bool
  | .key _, .object _ => true
  | .index i, .list items => i < items.length
  | _, _ => false

/-- Whether the value has no parts by its kind. -/
def isLeaf : Value → Bool
  | .list _ | .object _ => false
  | _ => true

/-- Equal data: the members of an object may stand in another order. -/
inductive Same : Value → Value → Prop where
  | leaf {v : Value} (h : v.isLeaf = true) : Same v v
  | list {vs ws : List Value} (length : vs.length = ws.length)
    (items : ∀ (i : Nat) v w, vs[i]? = some v → ws[i]? = some w → Same v w) : Same (.list vs) (.list ws)
  | object {ms ns : List (String × Value)} (keys : ∀ k, k ∈ ms.map (·.1) ↔ k ∈ ns.map (·.1))
    (members : ∀ k v w, member? k ms = some v → member? k ns = some w → Same v w) :
    Same (.object ms) (.object ns)

/-- What is left of a value if only parts of it are nulled: its kind, the length of a list, and the
keys of an object in their order, followed by the keys that paths end at. -/
inductive Remains (paths : List Path) : Value → Value → Prop where
  | leaf {v : Value} (h : v.isLeaf = true) : Remains paths v v
  | list {items items' : List Value} (length : items'.length = items.length) :
    Remains paths (.list items) (.list items')
  | object {ms ms' : List (String × Value)} {added : List String}
    (keys : ms'.map (·.1) = ms.map (·.1) ++ added) (nodup : added.Nodup)
    (mem_added : ∀ k, k ∈ added ↔ k ∉ ms.map (·.1) ∧ [.key k] ∈ paths) :
    Remains paths (.object ms) (.object ms')

/-- What nulling the recorded positions `paths` makes of the data `v`. -/
structure NulledExactly (paths : List Path) (v r : Value) : Prop where
  root : [] ∈ paths → r = .null
  /-- A recorded position is null wherever there is still something that it is a part of. -/
  recorded : ∀ p s u, p ++ [s] ∈ paths → r.atPath? p = some u → u.holds s = true →
    r.atPath? (p ++ [s]) = some .null
  /-- Below a recorded position nothing is left. -/
  below : ∀ p ∈ paths, ∀ q ≠ [], r.atPath? (p ++ q) = none
  /-- A path to a part of what is not there, or has no such part, might as well not be recorded. -/
  idle : ∀ p s, (∀ u, v.atPath? p = some u → u.holds s = false) →
    nullAll (paths.filter (· ≠ p ++ [s])) v = r
  /-- A position that is not at, below or above a recorded one keeps its value. -/
  kept : ∀ q, (∀ p ∈ paths, ¬ p <+: q ∧ ¬ q <+: p) → r.atPath? q = v.atPath? q
  /-- Above recorded positions, parts are neither removed nor reordered. -/
  above : ∀ q u, v.atPath? q = some u → (∀ p ∈ paths, ¬ p <+: q) →
    ∃ u', r.atPath? q = some u' ∧ Remains (under q paths) u u'
  /-- Nothing is new but the nulls of recorded positions. -/
  origin : ∀ q u', r.atPath? q = some u' → q ∈ paths ∧ u' = .null ∨ ∃ u, v.atPath? q = some u

/-! ### One step -/

theorem atPath?_cons (s : Segment) (q : Path) (v : Value) :
    atPath? (s :: q) v = (part? s v).bind (atPath? q) := by
  cases s <;> cases v <;> rfl

theorem under_cons (s : Segment) (q : Path) (paths : List Path) :
    under (s :: q) paths = under q (under [s] paths) := by
  have h : after? (s :: q) = fun p => (after? [s] p).bind (after? q) := by
    funext p
    cases p with
    | nil => rfl
    | cons t p => by_cases hst : s = t <;> simp [after?, hst]
  rw [under, under, under, h, List.filterMap_filterMap]

theorem atPath?_append (p q : Path) (v : Value) :
    atPath? (p ++ q) v = (atPath? p v).bind (atPath? q) := by
  induction p generalizing v with
  | nil => simp
  | cons s p ih =>
    rw [List.cons_append, atPath?_cons, atPath?_cons, Option.bind_assoc]
    exact congrArg _ (funext ih)

theorem atPath?_snoc {p : Path} {s : Segment} {v u : Value} (h : atPath? p v = some u) :
    atPath? (p ++ [s]) v = part? s u := by
  rw [atPath?_append, h, Option.bind_some, atPath?_cons]
  cases part? s u <;> simp

@[simp] theorem part?_null (s : Segment) : part? s .null = none := by
  cases s <;> rfl

theorem atPath?_null {q : Path} {u : Value} (h : atPath? q .null = some u) : q = [] ∧ u = .null := by
  cases q with
  | nil => exact ⟨rfl, by simpa using h.symm⟩
  | cons s q => simp [atPath?_cons] at h

theorem member?_nullMember_self (name : String) (rest : Path) (ms : List (String × Value)) :
    member? name (nullMember name rest ms) =
      ((member? name ms).map (nullAt rest)).or (if rest = [] then some .null else none) := by
  induction ms with
  | nil => cases rest <;> simp [nullMember, member?]
  | cons m ms ih =>
    obtain ⟨k, v⟩ := m
    by_cases hk : k = name <;> simp [nullMember, member?, hk, ih]

theorem member?_nullMember_of_ne {name k : String} (h : k ≠ name) (rest : Path)
    (ms : List (String × Value)) : member? k (nullMember name rest ms) = member? k ms := by
  induction ms with
  | nil => cases rest <;> simp [nullMember, member?, h.symm]
  | cons m ms ih =>
    obtain ⟨k', v⟩ := m
    by_cases hk : k' = name
    · subst hk
      simp [nullMember, member?, h.symm]
    · simp [nullMember, member?, hk, ih]

theorem getElem?_nullItem_self (i : Nat) (rest : Path) (vs : List Value) :
    (nullItem i rest vs)[i]? = (vs[i]?).map (nullAt rest) := by
  induction vs generalizing i with
  | nil => simp [nullItem]
  | cons v vs ih => cases i <;> simp [nullItem, ih]

theorem getElem?_nullItem_of_ne {i j : Nat} (h : j ≠ i) (rest : Path) (vs : List Value) :
    (nullItem i rest vs)[j]? = vs[j]? := by
  induction vs generalizing i j with
  | nil => simp [nullItem]
  | cons v vs ih =>
    cases i with
    | zero =>
      obtain ⟨j, rfl⟩ := Nat.exists_eq_succ_of_ne_zero h
      simp [nullItem]
    | succ i =>
      cases j with
      | zero => simp [nullItem]
      | succ j => simpa [nullItem] using ih (i := i) (j := j) (by omega)

theorem length_nullItem (i : Nat) (rest : Path) (vs : List Value) :
    (nullItem i rest vs).length = vs.length := by
  induction vs generalizing i with
  | nil => rfl
  | cons v vs ih => cases i <;> simp [nullItem, ih]

/-- A path that begins with another step leaves a part alone. -/
theorem part?_nullAt_of_ne {s t : Segment} (h : t ≠ s) (rest : Path) (v : Value) :
    part? t (nullAt (s :: rest) v) = part? t v := by
  cases s with
  | key name =>
    cases v with
    | object ms =>
      cases t with
      | key k => exact member?_nullMember_of_ne (fun e => h (congrArg _ e)) rest ms
      | index i => rfl
    | _ => rfl
  | index i =>
    cases v with
    | list vs =>
      cases t with
      | key k => rfl
      | index j => exact getElem?_nullItem_of_ne (fun e => h (congrArg _ e)) rest vs
    | _ => rfl

theorem part?_nullAt_self (s : Segment) (rest : Path) (v : Value) :
    part? s (nullAt (s :: rest) v) =
      ((part? s v).map (nullAt rest)).or
        (if rest = [] ∧ v.holds s = true then some .null else none) := by
  cases s with
  | key name =>
    cases v with
    | object ms => simpa [part?, nullAt, holds] using member?_nullMember_self name rest ms
    | _ => simp [part?, nullAt, holds]
  | index i =>
    cases v with
    | list vs =>
      rw [nullAt, part?, getElem?_nullItem_self, part?]
      by_cases hi : i < vs.length <;> simp [holds, hi]
    | _ => simp [part?, nullAt, holds]

@[simp] theorem holds_nullAt (s t : Segment) (rest : Path) (v : Value) :
    (nullAt (s :: rest) v).holds t = v.holds t := by
  cases s <;> cases v <;> try rfl
  case key.object => cases t <;> rfl
  case index.list => cases t <;> simp [nullAt, holds, length_nullItem]

/-- **What becomes of a part.** It is nulled by the paths that lead through it; where there is none,
a null is added if a path ends there and the value takes it. -/
theorem part?_nullAll {paths : List Path} (h : [] ∉ paths) (t : Segment) (v : Value) :
    part? t (nullAll paths v) =
      ((part? t v).map (nullAll (under [t] paths))).or
        (if [t] ∈ paths ∧ v.holds t = true then some .null else none) := by
  induction paths generalizing v with
  | nil => cases hpart : part? t v <;> simp [hpart]
  | cons q paths ih =>
    have hrest : [] ∉ paths := fun hm => h (List.mem_cons_of_mem _ hm)
    cases q with
    | nil => exact absurd (List.mem_cons_self ..) h
    | cons s rest =>
      rw [nullAll_cons, ih hrest, holds_nullAt]
      by_cases hst : t = s
      · subst hst
        rw [part?_nullAt_self]
        cases part? t v with
        | some u => simp [under, after?]
        | none =>
          by_cases hnew : rest = [] ∧ v.holds t = true
          · simp [hnew]
          · by_cases hlast : rest = []
            · simp [hlast] at hnew
              simp [hnew]
            · simp [hlast]
      · have hmem : [t] ∈ (s :: rest) :: paths ↔ [t] ∈ paths := by simp [hst]
        have hunder : under [t] ((s :: rest) :: paths) = under [t] paths := by
          simp [under, after?, hst]
        rw [part?_nullAt_of_ne hst, hunder]
        simp only [hmem]

@[simp] theorem holds_nullAll {paths : List Path} (h : [] ∉ paths) (t : Segment) (v : Value) :
    (nullAll paths v).holds t = v.holds t := by
  induction paths generalizing v with
  | nil => rfl
  | cons q paths ih =>
    cases q with
    | nil => exact absurd (List.mem_cons_self ..) h
    | cons s rest =>
      rw [nullAll_cons, ih fun hm => h (List.mem_cons_of_mem _ hm), holds_nullAt]

/-! ### What is left around the parts -/

theorem nullAll_leaf {paths : List Path} (h : [] ∉ paths) {v : Value} (hv : v.isLeaf = true) :
    nullAll paths v = v := by
  induction paths with
  | nil => rfl
  | cons q paths ih =>
    cases q with
    | nil => exact absurd (List.mem_cons_self ..) h
    | cons s rest =>
      have hsame : nullAt (s :: rest) v = v := by
        cases s <;> cases v <;> first | rfl | cases hv
      rw [nullAll_cons, hsame, ih fun hm => h (List.mem_cons_of_mem _ hm)]

theorem length_nullItems (paths : List Path) (i : Nat) (vs : List Value) :
    (nullItems paths i vs).length = vs.length := by
  induction vs generalizing i with
  | nil => rfl
  | cons v vs ih => simp [nullItems, ih]

/-- A key that is missing is added by a path that ends at it. -/
theorem keys_nullMember {name : String} {ms : List (String × Value)}
    (h : name ∉ ms.map (·.1)) (rest : Path) :
    (nullMember name rest ms).map (·.1) =
      ms.map (·.1) ++ if rest = [] then [name] else [] := by
  induction ms with
  | nil => cases rest <;> simp [nullMember]
  | cons m ms ih =>
    obtain ⟨k, v⟩ := m
    have hk : name ≠ k := fun e => h (by simp [e])
    have hrest := ih fun hm => h (List.mem_cons_of_mem _ hm)
    rw [nullMember, if_neg hk.symm, List.map_cons, hrest]
    rfl

/-- The keys of an object stay in their order. Those that are added follow, each once. -/
theorem nullAll_members {paths : List Path} (h : [] ∉ paths) (ms : List (String × Value)) :
    ∃ ms' added, nullAll paths (.object ms) = .object ms' ∧
      ms'.map (·.1) = ms.map (·.1) ++ added ∧ added.Nodup ∧
      ∀ k, k ∈ added ↔ k ∉ ms.map (·.1) ∧ [.key k] ∈ paths := by
  induction paths generalizing ms with
  | nil => exact ⟨ms, [], rfl, by simp, List.nodup_nil, by simp⟩
  | cons q paths ih =>
    have hrest : [] ∉ paths := fun hm => h (List.mem_cons_of_mem _ hm)
    cases q with
    | nil => exact absurd (List.mem_cons_self ..) h
    | cons s rest =>
      cases s with
      | index i =>
        obtain ⟨ms', added, heq, hkeys, hnodup, hadded⟩ := ih hrest ms
        exact ⟨ms', added, heq, hkeys, hnodup, by simpa using hadded⟩
      | key name =>
        obtain ⟨ms', added, heq, hkeys, hnodup, hadded⟩ := ih hrest (nullMember name rest ms)
        by_cases hname : name ∈ ms.map (·.1)
        · rw [nullMember_keys hname] at hkeys hadded
          refine ⟨ms', added, heq, hkeys, hnodup, fun k => (hadded k).trans ?_⟩
          refine and_congr_right fun hk => ?_
          have hne : k ≠ name := fun e => hk (e ▸ hname)
          simp [hne]
        · rw [keys_nullMember hname] at hkeys hadded
          by_cases hlast : rest = []
          · subst hlast
            simp only [if_true, List.append_assoc, List.mem_append, List.mem_singleton] at hkeys hadded
            refine ⟨ms', name :: added, heq, hkeys, ?_, fun k => ?_⟩
            · exact List.nodup_cons.mpr ⟨fun hm => ((hadded name).mp hm).1 (.inr rfl), hnodup⟩
            · rw [List.mem_cons, hadded]
              by_cases hk : k = name
              · simp [hk, hname]
              · simp [hk]
          · rw [if_neg hlast, List.append_nil] at hkeys hadded
            refine ⟨ms', added, heq, hkeys, hnodup, fun k => (hadded k).trans ?_⟩
            simp [Ne.symm hlast]

theorem remains_nullAll {paths : List Path} (h : [] ∉ paths) (v : Value) :
    Remains paths v (nullAll paths v) := by
  cases v with
  | list vs =>
    rw [nullAll_list h]
    exact .list (length_nullItems paths 0 vs)
  | object ms =>
    obtain ⟨ms', added, heq, hkeys, hnodup, hadded⟩ := nullAll_members h ms
    rw [heq]
    exact .object hkeys hnodup hadded
  | _ =>
    rw [nullAll_leaf h rfl]
    exact .leaf rfl

/-! ### Any position -/

variable {paths : List Path} {q : Path} {v : Value}

theorem nil_not_mem_of_clear (h : ∀ p ∈ paths, ¬ p <+: q) : [] ∉ paths :=
  fun hm => h [] hm List.nil_prefix

theorem nil_not_mem_under (h : ∀ p ∈ paths, ¬ p <+: q) : [] ∉ under q paths := by
  intro hm
  rw [mem_under, List.append_nil] at hm
  exact h q hm (List.prefix_refl q)

theorem not_prefix_under {s : Segment} (h : ∀ p ∈ paths, ¬ p <+: s :: q) :
    ∀ p ∈ under [s] paths, ¬ p <+: q := by
  intro p hp hpre
  exact h _ (mem_under.mp hp) ((List.prefix_cons_inj s).mpr hpre)

/-- With nothing nulled at or above it, a position is nulled by the paths that lead through it. -/
theorem atPath?_nullAll (h : ∀ p ∈ paths, ¬ p <+: q) {u : Value} (hu : v.atPath? q = some u) :
    (nullAll paths v).atPath? q = some (nullAll (under q paths) u) := by
  induction q generalizing paths v with
  | nil =>
    rw [atPath?_nil] at hu ⊢
    rw [under_root, Option.some.inj hu]
  | cons s q ih =>
    rw [atPath?_cons] at hu ⊢
    obtain ⟨w, hw, hu⟩ := Option.bind_eq_some_iff.mp hu
    rw [part?_nullAll (nil_not_mem_of_clear h), hw, under_cons s q]
    exact ih (not_prefix_under h) hu

/-- What stands at a position is a null that was recorded there, or comes of what stood there. In
neither case has a position above it been recorded. -/
theorem origin_nullAll {u' : Value} (h : (nullAll paths v).atPath? q = some u') :
    (∀ p ∈ paths, p <+: q → p = q) ∧
      (q ∈ paths ∧ u' = .null ∨ q ∉ paths ∧ ∃ u, v.atPath? q = some u) := by
  induction q generalizing paths v with
  | nil =>
    rw [atPath?_nil, Option.some.injEq] at h
    refine ⟨fun p _ hp => List.prefix_nil.mp hp, ?_⟩
    by_cases hm : [] ∈ paths
    · exact .inl ⟨hm, by rw [← h, nullAll_of_mem_nil hm]⟩
    · exact .inr ⟨hm, v, atPath?_nil v⟩
  | cons s q ih =>
    have hroot : [] ∉ paths := by
      intro hm
      rw [nullAll_of_mem_nil hm] at h
      cases (atPath?_null h).1
    rw [atPath?_cons, part?_nullAll hroot] at h
    have habove : ∀ p ∈ paths, p <+: s :: q → ∃ p', p = s :: p' ∧ p' ∈ under [s] paths ∧ p' <+: q := by
      intro p hp hpre
      cases p with
      | nil => exact absurd hp hroot
      | cons t p =>
        obtain ⟨rfl, hbelow⟩ := List.cons_prefix_cons.mp hpre
        exact ⟨p, rfl, mem_under.mpr hp, hbelow⟩
    cases hw : part? s v with
    | some w =>
      rw [hw] at h
      obtain ⟨hnearest, hfrom⟩ := ih h
      refine ⟨fun p hp hpre => ?_, ?_⟩
      · obtain ⟨p', rfl, hmem, hpre'⟩ := habove p hp hpre
        rw [hnearest p' hmem hpre']
      · simpa [mem_under, atPath?_cons, hw] using hfrom
    | none =>
      rw [hw, Option.map_none, Option.none_or] at h
      split at h
      · next hadded =>
        obtain ⟨rfl, rfl⟩ := atPath?_null h
        refine ⟨fun p hp hpre => ?_, .inl ⟨hadded.1, rfl⟩⟩
        obtain ⟨p', rfl, -, hpre'⟩ := habove p hp hpre
        rw [List.prefix_nil.mp hpre']
      · cases h

/-- What can take a null at the end could take it before, and nothing above it was recorded. -/
theorem holds_of_nullAll {p : Path} {s : Segment} {u' : Value}
    (h : (nullAll paths v).atPath? p = some u') (hs : u'.holds s = true) :
    (∀ p' ∈ paths, ¬ p' <+: p) ∧
      ∃ u, v.atPath? p = some u ∧ u' = nullAll (under p paths) u ∧ u.holds s = true := by
  obtain ⟨hnearest, ⟨-, rfl⟩ | ⟨hp, u, hu⟩⟩ := origin_nullAll h
  · cases s <;> cases hs
  · have hclear : ∀ p' ∈ paths, ¬ p' <+: p := fun p' hp' hpre => hp (hnearest p' hp' hpre ▸ hp')
    rw [atPath?_nullAll hclear hu, Option.some.injEq] at h
    subst h
    exact ⟨hclear, u, hu, rfl, by simpa [nil_not_mem_under hclear] using hs⟩

theorem recorded_nullAll {p : Path} {s : Segment} (hmem : p ++ [s] ∈ paths) {u' : Value}
    (h : (nullAll paths v).atPath? p = some u') (hs : u'.holds s = true) :
    (nullAll paths v).atPath? (p ++ [s]) = some .null := by
  obtain ⟨hclear, u, -, rfl, hu⟩ := holds_of_nullAll h hs
  have hends : [s] ∈ under p paths := mem_under.mpr hmem
  have hnull : [] ∈ under [s] (under p paths) := mem_under.mpr hends
  rw [atPath?_snoc h, part?_nullAll (nil_not_mem_under hclear)]
  cases part? s u with
  | some w => simp [nullAll_of_mem_nil hnull]
  | none => simp [hends, hu]

/-! ### Paths that lead nowhere -/

theorem nullMember_eq_self {name : String} {rest : Path} {ms : List (String × Value)}
    (hrest : rest ≠ []) (h : ∀ u, member? name ms = some u → nullAt rest u = u) :
    nullMember name rest ms = ms := by
  induction ms with
  | nil => simp [nullMember, hrest]
  | cons m ms ih =>
    obtain ⟨k, v⟩ := m
    by_cases hk : k = name
    · simp [nullMember, hk, h v (by simp [member?, hk])]
    · simp [nullMember, hk, ih fun u hu => h u (by simpa [member?, hk] using hu)]

theorem nullItem_eq_self {i : Nat} {rest : Path} {vs : List Value}
    (h : ∀ u, vs[i]? = some u → nullAt rest u = u) : nullItem i rest vs = vs := by
  induction vs generalizing i with
  | nil => rfl
  | cons v vs ih =>
    cases i with
    | zero => simp [nullItem, h v rfl]
    | succ i => simp [nullItem, ih fun u hu => h u (by simpa using hu)]

/-- Nothing is written by a path to a part of what is not there or has no such part. -/
theorem nullAt_eq_self {p : Path} {s : Segment}
    (h : ∀ u, v.atPath? p = some u → u.holds s = false) : nullAt (p ++ [s]) v = v := by
  induction p generalizing v with
  | nil =>
    have hv := h v (atPath?_nil v)
    cases s with
    | key name => cases v <;> first | rfl | cases hv
    | index i =>
      cases v with
      | list vs =>
        have hlength : vs.length ≤ i := by simpa [holds] using hv
        rw [List.nil_append, nullAt, nullItem_eq_self (by simp [hlength])]
      | _ => rfl
  | cons t p ih =>
    have hpart : ∀ u, part? t v = some u → nullAt (p ++ [s]) u = u :=
      fun u hu => ih fun w hw => h w (by rw [atPath?_cons, hu, Option.bind_some, hw])
    cases t with
    | key name =>
      cases v with
      | object ms => rw [List.cons_append, nullAt, nullMember_eq_self (by simp) hpart]
      | _ => rfl
    | index i =>
      cases v with
      | list vs => rw [List.cons_append, nullAt, nullItem_eq_self hpart]
      | _ => rfl

/-- Such a path may be left out. Nulling other positions does not give it a place to lead to. -/
theorem nullAll_filter_ne {p : Path} {s : Segment}
    (h : ∀ u, v.atPath? p = some u → u.holds s = false) :
    nullAll (paths.filter (· ≠ p ++ [s])) v = nullAll paths v := by
  induction paths generalizing v with
  | nil => rfl
  | cons q paths ih =>
    by_cases hq : q = p ++ [s]
    · subst hq
      rw [List.filter_cons_of_neg (by simp), nullAll_cons, nullAt_eq_self h, ih h]
    · rw [List.filter_cons_of_pos (by simpa using hq), nullAll_cons, nullAll_cons]
      refine ih fun u' hu' => Bool.eq_false_iff.mpr fun hs => ?_
      have hone : (nullAll [q] v).atPath? p = some u' := hu'
      obtain ⟨-, u, hu, -, hhold⟩ := holds_of_nullAll hone hs
      rw [h u hu] at hhold
      cases hhold

theorem nulledExactly_nullAll (paths : List Path) (v : Value) :
    NulledExactly paths v (nullAll paths v) where
  root h := nullAll_of_mem_nil h v
  recorded _ _ _ hmem h hs := recorded_nullAll hmem h hs
  below p hp q hq := by
    refine Option.eq_none_iff_forall_ne_some.mpr fun u hu => hq ?_
    have heq := (origin_nullAll hu).1 p hp (List.prefix_append p q)
    exact List.self_eq_append_right.mp heq
  idle _ _ h := nullAll_filter_ne h
  kept q h := by
    have hclear : ∀ p ∈ paths, ¬ p <+: q := fun p hp => (h p hp).1
    cases hu : v.atPath? q with
    | some u =>
      rw [atPath?_nullAll hclear hu, under_eq_nil fun p hp => (h p hp).2, nullAll_nil]
    | none =>
      refine Option.eq_none_iff_forall_ne_some.mpr fun u' hu' => ?_
      obtain ⟨-, ⟨hq, -⟩ | ⟨-, u, hsome⟩⟩ := origin_nullAll hu'
      · exact hclear q hq (List.prefix_refl q)
      · rw [hu] at hsome
        cases hsome
  above q u hu h :=
    ⟨_, atPath?_nullAll h hu, remains_nullAll (nil_not_mem_under h) u⟩
  origin _ _ h := (origin_nullAll h).2.imp_right And.right

/-! ### Orders of recording -/

theorem sizeOf_member? {key : String} {ms : List (String × Value)} {u : Value}
    (h : member? key ms = some u) : sizeOf u < sizeOf ms := by
  induction ms with
  | nil => cases h
  | cons m ms ih =>
    obtain ⟨k, v⟩ := m
    rw [member?] at h
    split at h
    · rw [← Option.some.inj h, List.cons.sizeOf_spec, Prod.mk.sizeOf_spec]
      omega
    · rw [List.cons.sizeOf_spec]
      have := ih h
      omega

theorem sizeOf_part? {t : Segment} {v u : Value} (h : part? t v = some u) :
    sizeOf u < sizeOf v := by
  cases t <;> cases v <;> try cases h
  case key.object name ms =>
    rw [Value.object.sizeOf_spec]
    have := sizeOf_member? h
    omega
  case index.list i vs =>
    rw [Value.list.sizeOf_spec]
    have := List.sizeOf_lt_of_mem (List.mem_of_getElem? h)
    omega

theorem mem_under_congr {ps qs : List Path} (h : ∀ q, q ∈ ps ↔ q ∈ qs) (t : Segment) :
    ∀ q, q ∈ under [t] ps ↔ q ∈ under [t] qs :=
  fun _ => mem_under.trans ((h _).trans mem_under.symm)

theorem same_part {ps qs : List Path} (h : ∀ q, q ∈ ps ↔ q ∈ qs) (hroot : [] ∉ ps)
    {t : Segment} {v w w' : Value}
    (ih : ∀ u, part? t v = some u →
      Same (nullAll (under [t] ps) u) (nullAll (under [t] qs) u))
    (hw : part? t (nullAll ps v) = some w) (hw' : part? t (nullAll qs v) = some w') :
    Same w w' := by
  rw [part?_nullAll hroot] at hw
  rw [part?_nullAll fun hm => hroot ((h []).mpr hm)] at hw'
  cases hu : part? t v with
  | some u =>
    rw [hu, Option.map_some, Option.some_or, Option.some.injEq] at hw hw'
    rw [← hw, ← hw']
    exact ih u hu
  | none =>
    rw [hu, Option.map_none, Option.none_or] at hw hw'
    obtain ⟨-, hw⟩ := Option.ite_none_right_eq_some.mp hw
    obtain ⟨-, hw'⟩ := Option.ite_none_right_eq_some.mp hw'
    rw [← Option.some.inj hw, ← Option.some.inj hw']
    exact .leaf rfl

/-- Which positions are recorded decides. The order only decides where keys are added. -/
theorem same_nullAll {ps qs : List Path} (h : ∀ q, q ∈ ps ↔ q ∈ qs) (v : Value) :
    Same (nullAll ps v) (nullAll qs v) := by
  by_cases hroot : [] ∈ ps
  · rw [nullAll_of_mem_nil hroot, nullAll_of_mem_nil ((h []).mp hroot)]
    exact .leaf rfl
  have hroot' : [] ∉ qs := fun hm => hroot ((h []).mpr hm)
  have ih : ∀ t u, part? t v = some u →
      Same (nullAll (under [t] ps) u) (nullAll (under [t] qs) u) :=
    fun t u hu => same_nullAll (mem_under_congr h t) u
  cases v with
  | list vs =>
    rw [nullAll_list hroot, nullAll_list hroot']
    refine .list (by rw [length_nullItems, length_nullItems]) fun i w w' hw hw' => ?_
    refine same_part h hroot (ih (.index i)) (?_ : _ = some w) (?_ : _ = some w')
    · rwa [nullAll_list hroot]
    · rwa [nullAll_list hroot']
  | object ms =>
    obtain ⟨ns, added, hns, hkeys, -, hadded⟩ := nullAll_members hroot ms
    obtain ⟨ns', added', hns', hkeys', -, hadded'⟩ := nullAll_members hroot' ms
    rw [hns, hns']
    refine .object (fun k => ?_) fun k w w' hw hw' => ?_
    · simp only [hkeys, hkeys', List.mem_append, hadded, hadded', h]
    · refine same_part h hroot (ih (.key k)) (?_ : _ = some w) (?_ : _ = some w')
      · rwa [hns]
      · rwa [hns']
  | _ =>
    rw [nullAll_leaf hroot rfl, nullAll_leaf hroot' rfl]
    exact .leaf rfl
termination_by sizeOf v
decreasing_by exact sizeOf_part? hu

end Value

namespace Schema

open Value

variable {M C W : Type}

/-- **Nulling is exact, in any order.** Of the data of a run, a recorded position is null where
there is still something to hold it and nothing is left below; a path that leads nowhere changes
nothing; all else stands as it was. Runs that record the same positions, in any order and any
number of times, end with equal data. -/
theorem propagate_exact (data : Value) (tr : Execution.Trace M C W) :
    NulledExactly tr.nulls data (propagate data tr).data ∧
      ∀ tr' : Execution.Trace M C W, (∀ q, q ∈ tr'.nulls ↔ q ∈ tr.nulls) →
        (propagate data tr').data.Same (propagate data tr).data :=
  ⟨nulledExactly_nullAll tr.nulls data, fun _ h => same_nullAll h data⟩

/-- A missing key is added to an object. A null holds nothing, so what is below it is skipped. -/
example :
    nullAll [[.key "report", .key "numbers"], [.key "other", .key "inner"]]
        (.object [("report", .object [("title", .string "Census")]), ("other", .null)]) =
      .object [("report", .object [("title", .string "Census"), ("numbers", .null)]),
        ("other", .null)] :=
  rfl

end Schema

end GraphSchema
