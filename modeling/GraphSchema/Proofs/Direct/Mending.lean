import GraphSchema.Proofs.Direct.Evaluate
import GraphSchema.Proofs.Nulling

/-! What a position comes to once the recorded nulls are written.

A run leaves a value and the paths that are to be null. `Settles` compares the two
with the result of a direct evaluation: a value is what the nulls below the position
make of it, and a failure is a null recorded at the nearest position that may take
it. A list or an object settles as its items or members do (`settles_list`,
`settles_object`), whatever the order in which the nulls were recorded. -/
namespace GraphSchema.Mending

open GraphSchema.Path Direct
open Value hiding object

variable {path anchor : Path} {nulls : List Path}

/-- The nulls of a position that failed: the anchor takes one, the others are below. -/
def Failed (path anchor : Path) (nulls : List Path) : Prop :=
  anchor ∈ nulls ∧ ∀ q ∈ nulls, q = anchor ∨ path <+: q

/-- The value with the nulls written comes to the result. -/
def Settles (path anchor : Path) (nulls : List Path) (v : Value) : Option Value → Prop
  | some u => (∀ q ∈ nulls, path <+: q) ∧ nullAll (under path nulls) v = u
  | none => Failed path anchor nulls

/-- A position that may be null takes the nulls of its failures itself. -/
theorem settles_getD {v : Value} {r : Option Value} (h : Settles path path nulls v r)
    (anchor : Path) : Settles path anchor nulls v (some (r.getD .null)) := by
  match r, h with
  | some u, h => exact h
  | none, ⟨hmem, hall⟩ =>
    refine ⟨fun q hq => ?_, ?_⟩
    · rcases hall q hq with rfl | hq
      · exact List.prefix_refl q
      · exact hq
    · exact nullAll_of_mem_nil (mem_under.mpr (by simpa using hmem)) v

theorem settles_clean (v : Value) : Settles path anchor [] v (some v) := by
  refine ⟨fun q hq => ?_, ?_⟩
  · cases hq
  · simp

theorem settles_null (h : ∀ q ∈ nulls, path <+: q) :
    Settles path anchor nulls .null (some .null) :=
  ⟨h, nullAll_null _⟩

/-- A stand-in that is nulled itself is null whatever it stands in with. -/
theorem settles_standIn (h : ∀ q ∈ nulls, path <+: q) (v : Value) :
    Settles path anchor (nulls ++ [path]) v (some .null) := by
  refine ⟨fun q hq => ?_, ?_⟩
  · rcases List.mem_append.mp hq with hq | hq
    · exact h q hq
    · exact List.mem_singleton.mp hq ▸ List.prefix_refl path
  · exact nullAll_of_mem_nil (mem_under.mpr (by simp)) v

/-- A failure within a position is one of the position. -/
theorem failed_of_within {inner : Path} (hpath : path <+: inner) (h : Failed inner anchor nulls)
    (others : List Path) (hothers : ∀ q ∈ others, q = anchor ∨ path <+: q) {all : List Path}
    (hall : ∀ q, q ∈ all ↔ q ∈ nulls ∨ q ∈ others) : Failed path anchor all := by
  refine ⟨(hall anchor).mpr (.inl h.1), fun q hq => ?_⟩
  rcases (hall q).mp hq with hq | hq
  · exact (h.2 q hq).imp id hpath.trans
  · exact hothers q hq

/-! ### Lists -/

/-- The items from the one at `i` on, with the nulls written, come to the results. -/
def SettlesItems (path anchor : Path) (i : Nat) (nulls : List Path) (vs : List Value) :
    Option (List Value) → Prop
  | some us => Within path i nulls ∧ nullItems (under path nulls) i vs = us
  | none => Failed path anchor nulls

theorem below_of_settlesItems {i : Nat} {vs : List Value} {r : Option (List Value)}
    (h : SettlesItems path anchor i nulls vs r) : ∀ q ∈ nulls, q = anchor ∨ path <+: q := by
  match r, h with
  | some us, h => exact fun q hq => .inr (below_of_within h.1 q hq)
  | none, h => exact h.2

theorem nullItems_congr {i : Nat} {as bs : List Path}
    (h : ∀ j, i ≤ j → under [.index j] as = under [.index j] bs) (vs : List Value) :
    nullItems as i vs = nullItems bs i vs := by
  induction vs generalizing i with
  | nil => rfl
  | cons v vs ih =>
    rw [nullItems, nullItems, h i (Nat.le_refl i), ih fun j hj => h j (by omega)]

/-- Nulls recorded for one item and for the items after it, as the run records them: those of the
completions first, then those of what is rendered. -/
def interleave (head head' tail tail' : List Path) : List Path :=
  (head ++ tail) ++ (head' ++ tail')

theorem mem_interleave {head head' tail tail' : List Path} (q : Path) :
    q ∈ interleave head head' tail tail' ↔ q ∈ head ++ head' ∨ q ∈ tail ++ tail' := by
  simp only [interleave, List.mem_append]
  constructor
  · rintro ((h | h) | (h | h)) <;> simp [h]
  · rintro ((h | h) | (h | h)) <;> simp [h]

theorem under_interleave_head {p : Path} {head head' tail tail' : List Path}
    (h : under p (tail ++ tail') = []) :
    under p (interleave head head' tail tail') = under p (head ++ head') := by
  obtain ⟨ht, ht'⟩ := List.append_eq_nil_iff.mp (under_append p tail tail' ▸ h)
  simp [interleave, ht, ht']

theorem under_interleave_tail {p : Path} {head head' tail tail' : List Path}
    (h : under p (head ++ head') = []) :
    under p (interleave head head' tail tail') = under p (tail ++ tail') := by
  obtain ⟨hh, hh'⟩ := List.append_eq_nil_iff.mp (under_append p head head' ▸ h)
  simp [interleave, hh, hh']

theorem settlesItems_nil (i : Nat) : SettlesItems path anchor i [] [] (some []) := by
  refine ⟨fun q hq => ?_, rfl⟩
  cases hq

theorem settlesItems_cons {i : Nat} {head head' tail tail' : List Path} {v : Value}
    {vs : List Value} {r : Option Value} {rs : Option (List Value)}
    (hv : Settles (path ++ [.index i]) anchor (head ++ head') v r)
    (hvs : SettlesItems path anchor (i + 1) (tail ++ tail') vs rs) :
    SettlesItems path anchor i (interleave head head' tail tail') (v :: vs)
      (both (· :: ·) r rs) := by
  have hpre : path <+: path ++ [Segment.index i] := List.prefix_append ..
  match r, rs, hv, hvs with
  | some u, some us, hv, hvs =>
    refine ⟨fun q hq => ?_, ?_⟩
    · rcases (mem_interleave q).mp hq with hq | hq
      · exact within_of_below hv.1 q hq
      · exact within_of_succ hvs.1 q hq
    · rw [nullItems, ← under_snoc,
        under_interleave_head (under_of_within hvs.1 (by omega)), hv.2, ← hvs.2]
      -- the nulls of this item do not lead through a later one
      refine congrArg (u :: ·) (nullItems_congr (fun j hj => ?_) vs)
      rw [← under_snoc, ← under_snoc]
      refine under_interleave_tail (under_eq_nil fun q hq hpre => ?_)
      have hij := eq_of_snoc_prefix hpre (hv.1 q hq)
      simp only [Segment.index.injEq] at hij
      omega
  | none, rs, hv, hvs =>
    exact failed_of_within hpre hv _ (below_of_settlesItems hvs) mem_interleave
  | some u, none, hv, hvs =>
    refine failed_of_within (List.prefix_refl path) hvs (head ++ head') (fun q hq => ?_) fun q => ?_
    · exact .inr (hpre.trans (hv.1 q hq))
    · exact (mem_interleave q).trans Or.comm

theorem settles_list {vs : List Value} {r : Option (List Value)}
    (h : SettlesItems path anchor 0 nulls vs r) :
    Settles path anchor nulls (.list vs) (r.map .list) := by
  match r, h with
  | none, h => exact h
  | some us, h =>
    refine ⟨below_of_within h.1, ?_⟩
    rw [nullAll_list fun hm => ?_, h.2]
    obtain ⟨j, _, hj⟩ := h.1 path (by simpa using mem_under.mp hm)
    exact not_snoc_prefix hj

/-! ### Objects -/

/-- The members, with the nulls written, come to the results. -/
def SettlesMembers (path anchor : Path) (nulls : List Path) (ms : List (String × Value)) :
    Option (List (String × Value)) → Prop
  | some us => Among path (ms.map (·.1)) nulls ∧ nullMembers (under path nulls) ms = us
  | none => Failed path anchor nulls

theorem below_of_settlesMembers {ms : List (String × Value)}
    {r : Option (List (String × Value))} (h : SettlesMembers path anchor nulls ms r) :
    ∀ q ∈ nulls, q = anchor ∨ path <+: q := by
  match r, h with
  | some us, h => exact fun q hq => .inr (below_of_among h.1 q hq)
  | none, h => exact h.2

theorem settlesMembers_nil : SettlesMembers path anchor [] [] (some []) := by
  refine ⟨fun q hq => ?_, rfl⟩
  cases hq

/-- A member that the nulls leave as it is. -/
theorem settlesMembers_clean (key : String) (v : Value) :
    SettlesMembers path anchor [] [(key, v)] (some [(key, v)]) := by
  refine ⟨fun q hq => ?_, ?_⟩
  · cases hq
  · simp [nullMembers]

theorem settlesMembers_one {key : String} {v : Value} {r : Option Value}
    (h : Settles (path ++ [.key key]) anchor nulls v r) :
    SettlesMembers path anchor nulls [(key, v)] (r.map fun u => [(key, u)]) := by
  match r, h with
  | some u, h =>
    refine ⟨fun q hq => ⟨key, by simp, h.1 q hq⟩, ?_⟩
    simp only [nullMembers, List.map_cons, List.map_nil, ← under_snoc, h.2]
  | none, h =>
    refine failed_of_within (List.prefix_append ..) h [] (fun q hq => ?_) fun q => ?_
    · cases hq
    · simp

theorem nullMembers_congr {as bs : List Path} {ms : List (String × Value)}
    (h : ∀ k ∈ ms.map (·.1), under [.key k] as = under [.key k] bs) :
    nullMembers as ms = nullMembers bs ms := by
  refine List.map_congr_left fun m hm => ?_
  rw [h m.1 (List.mem_map_of_mem hm)]

theorem settlesMembers_append {nulls' : List Path} {ms ms' : List (String × Value)}
    {r r' : Option (List (String × Value))} (hnodup : ((ms ++ ms').map (·.1)).Nodup)
    (h : SettlesMembers path anchor nulls ms r) (h' : SettlesMembers path anchor nulls' ms' r') :
    SettlesMembers path anchor (nulls ++ nulls') (ms ++ ms') (both (· ++ ·) r r') := by
  have hdisjoint : ∀ k ∈ ms.map (·.1), k ∉ ms'.map (·.1) := by
    intro k hk hk'
    rw [List.map_append] at hnodup
    exact (List.nodup_append.mp hnodup).2.2 k hk k hk' rfl
  match r, r', h, h' with
  | some us, some us', h, h' =>
    refine ⟨fun q hq => ?_, ?_⟩
    · rcases List.mem_append.mp hq with hq | hq
      · obtain ⟨k, hk, hq⟩ := h.1 q hq
        exact ⟨k, by rw [List.map_append]; exact List.mem_append_left _ hk, hq⟩
      · obtain ⟨k, hk, hq⟩ := h'.1 q hq
        exact ⟨k, by rw [List.map_append]; exact List.mem_append_right _ hk, hq⟩
    · have hms : nullMembers (under path (nulls ++ nulls')) ms = us := by
        rw [← h.2]
        refine nullMembers_congr fun k hk => ?_
        rw [← under_snoc, ← under_snoc, under_append,
          under_of_among h'.1 (hdisjoint k hk), List.append_nil]
      have hms' : nullMembers (under path (nulls ++ nulls')) ms' = us' := by
        rw [← h'.2]
        refine nullMembers_congr fun k hk => ?_
        rw [← under_snoc, ← under_snoc, under_append,
          under_of_among h.1 fun hk' => hdisjoint k hk' hk, List.nil_append]
      rw [← hms, ← hms', nullMembers, nullMembers, nullMembers, List.map_append]
  | none, r', h, h' =>
    exact failed_of_within (List.prefix_refl path) h nulls' (below_of_settlesMembers h')
      fun q => List.mem_append
  | some us, none, h, h' =>
    refine failed_of_within (List.prefix_refl path) h' nulls (fun q hq => ?_) fun q => ?_
    · exact .inr (below_of_among h.1 q hq)
    · exact List.mem_append.trans Or.comm

theorem settles_object {ms : List (String × Value)} {r : Option (List (String × Value))}
    (hnodup : (ms.map (·.1)).Nodup) (h : SettlesMembers path anchor nulls ms r) :
    Settles path anchor nulls (object ms) (r.map object) := by
  match r, h with
  | none, h => exact h
  | some us, h =>
    refine ⟨below_of_among h.1, ?_⟩
    rw [← h.2]
    cases ms with
    | nil => exact nullAll_null _
    | cons m ms =>
      refine nullAll_object (fun hm => ?_) (fun name rest hm => ?_) hnodup
      · obtain ⟨k, _, hk⟩ := h.1 path (by simpa using mem_under.mp hm)
        exact not_snoc_prefix hk
      · obtain ⟨k, hk, hpre⟩ := h.1 _ (mem_under.mp hm)
        have hname : path ++ [Segment.key name] <+: path ++ Segment.key name :: rest :=
          ⟨rest, by simp⟩
        have hkn := eq_of_snoc_prefix hname hpre
        simp only [Segment.key.injEq] at hkn
        exact hkn ▸ hk

end GraphSchema.Mending
