import GraphSchema.Execution.Nulling

/-! Nulling many paths, position by position.

A list of recorded paths acts on a list or an object by acting on each item or member
with the paths that lead through it (`nullAll_list`, `nullAll_object`), so what
becomes of a position depends only on the paths at or below it (`under`) and on
whether something above it is nulled. -/
namespace GraphSchema

namespace Path

/-- What is left of a path that leads through `p`. -/
def after? : (p q : Path) → Option Path
  | [], q => some q
  | _ :: _, [] => none
  | s :: p, t :: q => if s = t then after? p q else none

/-- The paths that lead through `p`, from there on. -/
def under (p : Path) (paths : List Path) : List Path := paths.filterMap (after? p)

theorem after?_eq_some_iff {p q r : Path} : after? p q = some r ↔ q = p ++ r := by
  induction p generalizing q with
  | nil => simp [after?]
  | cons s p ih =>
    cases q with
    | nil => simp [after?]
    | cons t q =>
      by_cases h : s = t
      · subst h
        simp [after?, ih]
      · have h' : ¬ t = s := fun e => h e.symm
        simp [after?, h, h']

@[simp] theorem after?_append (p q : Path) : after? p (p ++ q) = some q :=
  after?_eq_some_iff.mpr rfl

theorem mem_under {p q : Path} {paths : List Path} : q ∈ under p paths ↔ p ++ q ∈ paths := by
  simp only [under, List.mem_filterMap, after?_eq_some_iff]
  constructor
  · rintro ⟨r, hr, rfl⟩
    exact hr
  · intro h
    exact ⟨_, h, rfl⟩

@[simp] theorem under_nil (p : Path) : under p [] = [] := rfl

@[simp] theorem under_root (paths : List Path) : under [] paths = paths := by
  simp [under, after?]

@[simp] theorem under_append (p : Path) (as bs : List Path) :
    under p (as ++ bs) = under p as ++ under p bs :=
  List.filterMap_append

theorem after?_snoc (p q : Path) (s : Segment) :
    after? (p ++ [s]) q = (after? p q).bind (after? [s]) := by
  induction p generalizing q with
  | nil => simp [after?]
  | cons t p ih =>
    cases q with
    | nil => rfl
    | cons u q =>
      by_cases h : t = u
      · simpa [after?, h] using ih q
      · simp [after?, h]

theorem under_snoc (p : Path) (s : Segment) (paths : List Path) :
    under (p ++ [s]) paths = under [s] (under p paths) := by
  have h : after? (p ++ [s]) = fun q => (after? p q).bind (after? [s]) := by
    funext q
    exact after?_snoc p q s
  rw [under, under, under, h, List.filterMap_filterMap]

/-- Paths that lead elsewhere do not count. -/
theorem under_eq_nil {p : Path} {paths : List Path} (h : ∀ q ∈ paths, ¬ p <+: q) :
    under p paths = [] := by
  rw [under, List.filterMap_eq_nil_iff]
  intro q hq
  cases hr : after? p q with
  | none => rfl
  | some r =>
    have hpq := after?_eq_some_iff.mp hr
    exact absurd ⟨r, hpq.symm⟩ (h q hq)

/-- Two positions of one object or list that lie on a path are one position. -/
theorem eq_of_snoc_prefix {p q : Path} {s t : Segment} (hs : p ++ [s] <+: q)
    (ht : p ++ [t] <+: q) : s = t := by
  obtain ⟨x, rfl⟩ := hs
  obtain ⟨y, hy⟩ := ht
  have h : p ++ t :: y = p ++ s :: x := by simpa using hy
  exact (List.cons.inj (List.append_cancel_left h)).1.symm

theorem prefix_of_snoc {p q : Path} {s : Segment} (h : p ++ [s] <+: q) : p <+: q :=
  (List.prefix_append p [s]).trans h

theorem not_snoc_prefix {p : Path} {s : Segment} : ¬ p ++ [s] <+: p := by
  intro h
  have hlen := h.length_le
  simp only [List.length_append, List.length_cons, List.length_nil] at hlen
  omega

theorem ne_snoc_index {p path : Path} {i : Nat} (hkey : ∃ q k, p = q ++ [.key k]) :
    p ≠ path ++ [.index i] := by
  rintro rfl
  obtain ⟨q, k, heq⟩ := hkey
  cases (List.append_inj' heq rfl).2

/-- A path that ends at a key and leads to an item leads no further than its list. -/
theorem prefix_of_prefix_index {p path : Path} {i : Nat} (hkey : ∃ q k, p = q ++ [.key k])
    (h : p <+: path ++ [.index i]) : p <+: path :=
  (List.prefix_concat_iff.mp h).resolve_left (ne_snoc_index hkey)

/-! ### Paths into a list -/

/-- Every path leads through the item at `i` of the list at the path or through a later one. -/
def Within (path : Path) (i : Nat) (paths : List Path) : Prop :=
  ∀ q ∈ paths, ∃ j, i ≤ j ∧ path ++ [.index j] <+: q

section

variable {path : Path} {paths : List Path} {i : Nat}

theorem within_append {as bs : List Path} (ha : Within path i as) (hb : Within path i bs) :
    Within path i (as ++ bs) := by
  intro q hq
  rcases List.mem_append.mp hq with h | h
  · exact ha q h
  · exact hb q h

theorem within_of_succ (h : Within path (i + 1) paths) : Within path i paths := by
  intro q hq
  obtain ⟨j, hj, hq⟩ := h q hq
  exact ⟨j, by omega, hq⟩

theorem within_of_below (h : ∀ q ∈ paths, path ++ [.index i] <+: q) : Within path i paths :=
  fun q hq => ⟨i, Nat.le_refl i, h q hq⟩

theorem below_of_within (h : Within path i paths) : ∀ q ∈ paths, path <+: q := by
  intro q hq
  obtain ⟨j, _, hq⟩ := h q hq
  exact prefix_of_snoc hq

theorem under_of_within {j : Nat} (h : Within path i paths) (hj : j < i) :
    under (path ++ [.index j]) paths = [] := by
  refine under_eq_nil fun q hq hpre => ?_
  obtain ⟨k, hk, hq⟩ := h q hq
  have hjk := eq_of_snoc_prefix hpre hq
  simp only [Segment.index.injEq] at hjk
  omega

end

/-! ### Paths into an object -/

/-- Every path leads through one of the keys of the object at the path. -/
def Among (path : Path) (keys : List String) (paths : List Path) : Prop :=
  ∀ q ∈ paths, ∃ k ∈ keys, path ++ [.key k] <+: q

section

variable {path : Path} {paths : List Path} {keys : List String}

theorem below_of_among (h : Among path keys paths) : ∀ q ∈ paths, path <+: q := by
  intro q hq
  obtain ⟨k, _, hq⟩ := h q hq
  exact prefix_of_snoc hq

theorem under_of_among (h : Among path keys paths) {k : String} (hk : k ∉ keys) :
    under (path ++ [.key k]) paths = [] := by
  refine under_eq_nil fun q hq hpre => ?_
  obtain ⟨k', hk', hq⟩ := h q hq
  have hkk := eq_of_snoc_prefix hpre hq
  simp only [Segment.key.injEq] at hkk
  exact hk (hkk ▸ hk')

end

end Path

namespace Value

open GraphSchema.Path

@[simp] theorem atPath?_nil (v : Value) : v.atPath? [] = some v := by
  cases v <;> rfl

@[simp] theorem nullAll_nil (v : Value) : nullAll [] v = v := rfl

@[simp] theorem nullAll_cons (q : Path) (paths : List Path) (v : Value) :
    nullAll (q :: paths) v = nullAll paths (nullAt q v) := rfl

@[simp] theorem nullAt_null (q : Path) : nullAt q .null = .null := by
  cases q with
  | nil => rfl
  | cons s q => cases s <;> rfl

@[simp] theorem nullAll_null (paths : List Path) : nullAll paths .null = .null := by
  induction paths with
  | nil => rfl
  | cons q paths ih => simpa using ih

/-- Where the position itself is among the paths, null is all that is left. -/
theorem nullAll_of_mem_nil {paths : List Path} (h : [] ∈ paths) (v : Value) :
    nullAll paths v = .null := by
  induction paths generalizing v with
  | nil => cases h
  | cons q paths ih =>
    rw [nullAll_cons]
    rcases List.mem_cons.mp h with rfl | h
    · rw [nullAt_nil, nullAll_null]
    · exact ih h _

/-! ### Lists -/

/-- Nulls each of the items from the one at `i` on, with the paths that lead through it. -/
def nullItems (paths : List Path) : Nat → List Value → List Value
  | _, [] => []
  | i, v :: vs => nullAll (under [.index i] paths) v :: nullItems paths (i + 1) vs

@[simp] theorem nullItems_nil_paths (i : Nat) (vs : List Value) : nullItems [] i vs = vs := by
  induction vs generalizing i with
  | nil => rfl
  | cons v vs ih => simp [nullItems, ih]

theorem under_index_of_ne {i j : Nat} (h : j ≠ i) (rest : Path) (paths : List Path) :
    under [.index j] ((.index i :: rest) :: paths) = under [.index j] paths := by
  simp [under, after?, h]

/-- A path through an item before those at hand does not count. -/
theorem nullItems_of_lt {i j : Nat} (h : i < j) (rest : Path) (paths : List Path)
    (vs : List Value) :
    nullItems ((.index i :: rest) :: paths) j vs = nullItems paths j vs := by
  induction vs generalizing j with
  | nil => rfl
  | cons v vs ih =>
    rw [nullItems, nullItems, under_index_of_ne (by omega), ih (by omega)]

theorem nullItems_nullItem (paths : List Path) (i j : Nat) (rest : Path) (vs : List Value) :
    nullItems paths j (nullItem i rest vs) =
      nullItems ((.index (j + i) :: rest) :: paths) j vs := by
  induction vs generalizing i j with
  | nil => simp [nullItem, nullItems]
  | cons v vs ih =>
    cases i with
    | zero =>
      rw [Nat.add_zero, nullItem, nullItems, nullItems, nullItems_of_lt (by omega)]
      simp [under, after?]
    | succ i =>
      have hj : j + (i + 1) = j + 1 + i := by omega
      rw [nullItem, nullItems, nullItems, ih, hj, under_index_of_ne (by omega)]

theorem nullItems_key (name : String) (rest : Path) (paths : List Path) (j : Nat)
    (vs : List Value) :
    nullItems ((.key name :: rest) :: paths) j vs = nullItems paths j vs := by
  induction vs generalizing j with
  | nil => rfl
  | cons v vs ih => simp [nullItems, ih, under, after?]

/-- Paths into a list act on each item by itself. -/
theorem nullAll_list {paths : List Path} (h : [] ∉ paths) (vs : List Value) :
    nullAll paths (.list vs) = .list (nullItems paths 0 vs) := by
  induction paths generalizing vs with
  | nil => simp
  | cons q paths ih =>
    have hrest : [] ∉ paths := fun hm => h (List.mem_cons_of_mem _ hm)
    cases q with
    | nil => exact absurd (List.mem_cons_self ..) h
    | cons s rest =>
      cases s with
      | key name => simp [nullAt, ih hrest, nullItems_key]
      | index i => simp [nullAt, ih hrest, nullItems_nullItem]

/-! ### Objects -/

/-- Nulls each of the members, with the paths that lead through it. -/
def nullMembers (paths : List Path) (ms : List (String × Value)) : List (String × Value) :=
  ms.map fun m => (m.1, nullAll (under [.key m.1] paths) m.2)

theorem under_key_of_ne {name k : String} (h : k ≠ name) (rest : Path) (paths : List Path) :
    under [.key k] ((.key name :: rest) :: paths) = under [.key k] paths := by
  simp [under, after?, h]

theorem nullMembers_of_not_mem {name : String} {ms : List (String × Value)}
    (h : name ∉ ms.map (·.1)) (rest : Path) (paths : List Path) :
    nullMembers ((.key name :: rest) :: paths) ms = nullMembers paths ms := by
  refine List.map_congr_left fun m hm => ?_
  have hne : m.1 ≠ name := fun e => h (List.mem_map.mpr ⟨m, hm, e⟩)
  rw [under_key_of_ne hne]

theorem nullMember_keys {name : String} {ms : List (String × Value)}
    (h : name ∈ ms.map (·.1)) (rest : Path) :
    (nullMember name rest ms).map (·.1) = ms.map (·.1) := by
  induction ms with
  | nil => cases h
  | cons m ms ih =>
    obtain ⟨k, v⟩ := m
    by_cases hk : k = name
    · simp [nullMember, hk]
    · have hm : name ∈ ms.map (·.1) := by
        rcases List.mem_cons.mp h with e | hm
        · exact absurd e.symm hk
        · exact hm
      simp [nullMember, hk, ih hm]

theorem nullMembers_nullMember {name : String} {ms : List (String × Value)}
    (hmem : name ∈ ms.map (·.1)) (hnodup : (ms.map (·.1)).Nodup) (rest : Path)
    (paths : List Path) :
    nullMembers paths (nullMember name rest ms) =
      nullMembers ((.key name :: rest) :: paths) ms := by
  induction ms with
  | nil => cases hmem
  | cons m ms ih =>
    obtain ⟨k, v⟩ := m
    obtain ⟨hk', hnodup'⟩ := List.nodup_cons.mp hnodup
    by_cases hk : k = name
    · subst hk
      have hrest := nullMembers_of_not_mem hk' rest paths
      simp only [nullMembers, nullMember, if_pos, List.map_cons] at hrest ⊢
      rw [hrest]
      simp [under, after?]
    · have hm : name ∈ ms.map (·.1) := by
        rcases List.mem_cons.mp hmem with e | hm
        · exact absurd e.symm hk
        · exact hm
      have hrest := ih hm hnodup'
      simp only [nullMembers, nullMember, if_neg hk, List.map_cons] at hrest ⊢
      rw [hrest, under_key_of_ne hk]

/-- Paths into an object act on each member by itself, if the object has a member for each. -/
theorem nullAll_object {paths : List Path} {ms : List (String × Value)} (h : [] ∉ paths)
    (hkeys : ∀ name rest, Segment.key name :: rest ∈ paths → name ∈ ms.map (·.1))
    (hnodup : (ms.map (·.1)).Nodup) :
    nullAll paths (.object ms) = .object (nullMembers paths ms) := by
  induction paths generalizing ms with
  | nil => simp [nullMembers]
  | cons q paths ih =>
    have hrest : [] ∉ paths := fun hm => h (List.mem_cons_of_mem _ hm)
    have hkeys' : ∀ name rest, Segment.key name :: rest ∈ paths → name ∈ ms.map (·.1) :=
      fun name rest hm => hkeys name rest (List.mem_cons_of_mem _ hm)
    cases q with
    | nil => exact absurd (List.mem_cons_self ..) h
    | cons s rest =>
      cases s with
      | index i => simp [nullAt, ih hrest hkeys' hnodup, nullMembers, under, after?]
      | key name =>
        have hmem := hkeys name rest (List.mem_cons_self ..)
        have hsame := nullMember_keys hmem rest
        rw [nullAll_cons, nullAt,
          ih hrest (by rw [hsame]; exact hkeys') (by rw [hsame]; exact hnodup),
          nullMembers_nullMember hmem hnodup]

end Value

end GraphSchema
