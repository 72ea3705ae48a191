import GraphSchema.Query.Validation.Basic

/-! The reach of an operation.

Following the fragments that are mentioned for as many rounds as there are fragments
finds all of them: each round that finds anything finds a fragment that was missing
(`reach_closed`). So the occurrences in reach of an operation are closed under
spreads (`occurrences_of_spread`), and validation has seen every one of them
(`valid_of_inReach`). -/
namespace GraphSchema.Query

namespace Document

/-! ### Rounds -/

/-- The names with those of the fragments that they mention. -/
def grow (d : Document) (names : List String) : List String :=
  (names ++ names.flatMap fun name =>
    match d.fragment? name with
    | some f => mentioned f.selections
    | none => []).eraseDups

/-- The fragments that are not among the names. -/
def missing (d : Document) (names : List String) : List Fragment :=
  d.fragments.filter fun f => !names.contains f.name

/-- What the named fragments mention is named, as far as it is a fragment at all. -/
def Closed (d : Document) (names : List String) : Prop :=
  ∀ name ∈ names, ∀ f, d.fragment? name = some f →
    ∀ m ∈ mentioned f.selections, (d.fragment? m).isSome = true → m ∈ names

variable {d : Document} {names : List String}

theorem mem_grow {x : String} :
    x ∈ d.grow names ↔
      x ∈ names ∨ ∃ name ∈ names, ∃ f, d.fragment? name = some f ∧ x ∈ mentioned f.selections := by
  rw [grow, List.mem_eraseDups, List.mem_append, List.mem_flatMap]
  refine or_congr_right ⟨fun ⟨name, hname, hx⟩ => ?_, fun ⟨name, hname, f, hf, hx⟩ => ?_⟩
  · cases hf : d.fragment? name with
    | none => simp [hf] at hx
    | some f => exact ⟨name, hname, f, hf, by simpa [hf] using hx⟩
  · exact ⟨name, hname, by simpa [hf] using hx⟩

theorem subset_grow (d : Document) (names : List String) : names ⊆ d.grow names :=
  fun _ hx => mem_grow.mpr (.inl hx)

theorem subset_reach (d : Document) (rounds : Nat) (names : List String) :
    names ⊆ d.reach rounds names := by
  induction rounds generalizing names with
  | zero => exact fun _ hx => hx
  | succ rounds ih => exact fun x hx => ih (d.grow names) (d.subset_grow names hx)

theorem mem_fragments {name : String} {f : Fragment} (hf : d.fragment? name = some f) :
    f ∈ d.fragments ∧ f.name = name :=
  ⟨List.mem_of_find?_eq_some hf, by simpa using List.find?_some hf⟩

theorem grow_closed (h : d.Closed names) : d.Closed (d.grow names) := by
  intro name hname f hf m hm hfound
  have hmem : name ∈ names := by
    rcases mem_grow.mp hname with hmem | ⟨x, hx, g, hg, hmention⟩
    · exact hmem
    · exact h x hx g hg name hmention (by rw [hf]; rfl)
  exact mem_grow.mpr (.inr ⟨name, hmem, f, hf, hm⟩)

theorem reach_closed_of_closed (rounds : Nat) (h : d.Closed names) :
    d.Closed (d.reach rounds names) := by
  induction rounds generalizing names with
  | zero => exact h
  | succ rounds ih => exact ih (grow_closed h)

theorem closed_of_missing_eq_nil (h : d.missing names = []) : d.Closed names := by
  intro _ _ _ _ m _ hfound
  obtain ⟨g, hg⟩ := Option.isSome_iff_exists.mp hfound
  obtain ⟨hmem, rfl⟩ := mem_fragments hg
  have hnot := List.filter_eq_nil_iff.mp h g hmem
  simpa using hnot

/-- A round that finds anything leaves fewer fragments missing. -/
theorem length_missing_grow (h : ¬ d.Closed names) :
    (d.missing (d.grow names)).length < (d.missing names).length := by
  have hfound : ∃ m g, d.fragment? m = some g ∧ m ∉ names ∧ m ∈ d.grow names := by
    apply Classical.byContradiction
    intro hnone
    refine h fun name hname f hf m hm hfound => Classical.byContradiction fun hnot => hnone ?_
    obtain ⟨g, hg⟩ := Option.isSome_iff_exists.mp hfound
    exact ⟨m, g, hg, hnot, mem_grow.mpr (.inr ⟨name, hname, f, hf, hm⟩)⟩
  obtain ⟨m, g, hg, hnot, hgrow⟩ := hfound
  obtain ⟨hmem, rfl⟩ := mem_fragments hg
  have hfilter : d.missing (d.grow names) =
      (d.missing names).filter fun f => !(d.grow names).contains f.name := by
    rw [missing, missing, List.filter_filter]
    refine List.filter_congr fun f _ => ?_
    by_cases hf : f.name ∈ names
    · simp [hf, d.subset_grow names hf]
    · simp [hf]
  rw [hfilter, List.length_filter_lt_length_iff_exists]
  exact ⟨g, by simp [missing, hmem, hnot], by simp [hgrow]⟩

/-- As many rounds as there are missing fragments find them all. -/
theorem reach_closed {rounds : Nat} (h : (d.missing names).length ≤ rounds) :
    d.Closed (d.reach rounds names) := by
  induction rounds generalizing names with
  | zero => exact closed_of_missing_eq_nil (List.length_eq_zero_iff.mp (Nat.le_zero.mp h))
  | succ rounds ih =>
    by_cases hclosed : d.Closed names
    · exact reach_closed_of_closed _ hclosed
    · have hless := length_missing_grow hclosed
      have hrounds : (d.missing (d.grow names)).length ≤ rounds := by omega
      exact ih hrounds

theorem reached_closed (d : Document) (ss : List Selection) : d.Closed (d.reached ss) :=
  reach_closed (List.length_filter_le ..)

theorem mentioned_reached (d : Document) (ss : List Selection) {name : String}
    (h : name ∈ mentioned ss) : name ∈ d.reached ss :=
  d.subset_reach _ _ (List.mem_eraseDups.mpr h)

end Document

/-! ### Occurrences in reach -/

/-- The type of a field that is selected, if it is known. -/
def targetOf (types : Types) (parent : Option TypeInfo) (head : FieldHead) : Option TypeInfo :=
  (parent.bind (·.field? head.name)).bind fun f => types f.type.core

theorem mem_occurrencesOf_field {types : Types} {parent : Option TypeInfo} {head : FieldHead}
    {below : List Selection} (hname : head.name ≠ "__typename") {o : Occurrence} :
    o ∈ occurrencesOf types parent (.field head below) ↔
      o = .field parent head (!below.isEmpty) ∨ o = .directives .field head.directives ∨
        below ≠ [] ∧ o = .selectionSet below ∨
        o ∈ occurrences types (targetOf types parent head) below := by
  have hne : (head.name == "__typename") = false := by simpa using hname
  rw [occurrencesOf, hne]
  cases below with
  | nil => simp [occurrences]
  | cons s ss => simp [targetOf]

mutual

/-- A spread in selections is a mention of its fragment. -/
theorem mentioned_of_spread {types : Types} {p : Option TypeInfo} {name : String} :
    ∀ {parent : Option TypeInfo} {ss : List Selection},
      .spread p name ∈ occurrences types parent ss → name ∈ mentioned ss
  | _, [], h => nomatch h
  | _, s :: ss, h => by
    rw [occurrences, List.mem_append] at h
    rw [mentioned, List.mem_append]
    exact h.imp mentionedBy_of_spread mentioned_of_spread

theorem mentionedBy_of_spread {types : Types} {p : Option TypeInfo} {name : String} :
    ∀ {parent : Option TypeInfo} {s : Selection},
      .spread p name ∈ occurrencesOf types parent s → name ∈ mentionedBy s
  | _, .field head below, h => by
    by_cases hname : head.name = "__typename"
    · simp [occurrencesOf, hname] at h
    · rcases (mem_occurrencesOf_field hname).mp h with h | h | ⟨_, h⟩ | h
      · cases h
      · cases h
      · cases h
      · rw [mentionedBy, if_neg (by simpa using hname)]
        exact mentioned_of_spread h
  | _, .spread fragment ds, h => by
    simp only [occurrencesOf, List.mem_cons, Occurrence.spread.injEq, reduceCtorEq,
      List.not_mem_nil, or_false] at h
    exact h.2 ▸ List.mem_singleton_self _
  | _, .inline condition ds below, h => by
    simp only [occurrencesOf, List.mem_cons, reduceCtorEq, false_or] at h
    exact mentioned_of_spread h

end

namespace Document

variable {d : Document} {types : Types} {root : Option TypeInfo} {op : Operation}

theorem mem_inReach {o : Occurrence} :
    o ∈ d.inReach types root op ↔ o ∈ op.occurrences types root ∨
      ∃ name ∈ d.reached op.selections, ∃ f, d.fragment? name = some f ∧
        o ∈ f.occurrences types := by
  rw [inReach, List.mem_append, List.mem_flatMap]
  refine or_congr_right ⟨fun ⟨f, hf, ho⟩ => ?_, fun ⟨name, hname, f, hf, ho⟩ => ?_⟩
  · obtain ⟨name, hname, hf⟩ := List.mem_filterMap.mp hf
    exact ⟨name, hname, f, hf, ho⟩
  · exact ⟨f, List.mem_filterMap.mpr ⟨name, hname, hf⟩, ho⟩

theorem mentioned_of_selectionOccurrences {p parent : Option TypeInfo} {name : String}
    {ss : List Selection} {location : DirectiveLocation} {ds : List Directive}
    (h : .spread p name ∈ .directives location ds :: selectionOccurrences types parent ss) :
    name ∈ mentioned ss := by
  simp only [selectionOccurrences, List.mem_cons, reduceCtorEq, false_or] at h
  exact mentioned_of_spread h

/-- With a spread, the occurrences of its fragment are in reach. -/
theorem occurrences_of_spread {p : Option TypeInfo} {name : String} {f : Fragment}
    (h : .spread p name ∈ d.inReach types root op) (hf : d.fragment? name = some f) :
    ∀ o ∈ f.occurrences types, o ∈ d.inReach types root op := by
  intro o ho
  have hreached : name ∈ d.reached op.selections := by
    rcases mem_inReach.mp h with h | ⟨x, hx, g, hg, h⟩
    · exact d.mentioned_reached _ (mentioned_of_selectionOccurrences h)
    · exact d.reached_closed _ x hx g hg name (mentioned_of_selectionOccurrences h)
        (by rw [hf]; rfl)
  exact mem_inReach.mpr (.inr ⟨name, hreached, f, hf, ho⟩)

end Document

end GraphSchema.Query
