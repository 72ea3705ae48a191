import GraphSchema.Execution.Step
import GraphSchema.Proofs.Query.Reach

/-! Where the steps of an operation come from.

Each step that is planned for selections belongs to a selection, in place or in a
fragment, and what is below the step comes from what is below that selection. As
long as spreads stay in reach, so do the occurrences that go with the steps
(`selects_field`, `selects_narrow`). -/
namespace GraphSchema.Query

/-- The occurrences have those of each fragment that is spread among them. -/
def Spreads (d : Document) (types : Types) (os : List Occurrence) : Prop :=
  ∀ p name f, .spread p name ∈ os → d.fragment? name = some f → ∀ o ∈ f.occurrences types, o ∈ os

/-- The steps are planned for selections on the type, which are among the occurrences. -/
def Selects (d : Document) (b : Bindings) (types : Types) (os : List Occurrence)
    (parent : Option TypeInfo) (steps : List Step) : Prop :=
  ∃ levels ss, (∀ x ∈ steps, x ∈ d.steps b levels ss) ∧ ∀ o ∈ occurrences types parent ss, o ∈ os

variable {d : Document} {b : Bindings} {types : Types} {os : List Occurrence}
  {parent : Option TypeInfo}

theorem occurrences_of_mem {s : Selection} {ss : List Selection} (h : s ∈ ss) :
    ∀ o ∈ occurrencesOf types parent s, o ∈ occurrences types parent ss := by
  intro o ho
  induction ss with
  | nil => cases h
  | cons x xs ih =>
    rw [occurrences, List.mem_append]
    rcases List.mem_cons.mp h with rfl | h
    · exact .inl ho
    · exact .inr (ih h)

/-- A step stems from a selection: the cases in which one is planned. -/
inductive Stems (d : Document) (b : Bindings) (levels : Nat) : Selection → Step → Prop where
  | typename (head : FieldHead) (below : List Selection) :
    Stems d b levels (.field head below) (.typename head.key)
  | field {head : FieldHead} (below : List Selection) (hname : head.name ≠ "__typename") :
    Stems d b levels (.field head below) (.field head.key head.name head.position
      (b.arguments head.arguments) (d.steps b levels below))
  | narrow (condition : String) (ds : List Directive) (below : List Selection) :
    Stems d b levels (.inline (some condition) ds below)
      (.narrow condition (d.steps b levels below))
  /-- Without a condition the selections count with those around them. -/
  | inline (ds : List Directive) {below : List Selection} {step : Step}
    (h : step ∈ d.steps b levels below) : Stems d b levels (.inline none ds below) step
  | spread (ds : List Directive) {name : String} {f : Fragment}
    (hf : d.fragment? name = some f) :
    Stems d b levels (.spread name ds) (.narrow f.condition (d.steps b levels f.selections))

theorem stems_of_mem {levels : Nat} {ss : List Selection} {step : Step}
    (h : step ∈ d.steps b (levels + 1) ss) : ∃ s ∈ ss, Stems d b levels s step := by
  obtain ⟨s, hs, h⟩ := List.mem_flatMap.mp h
  refine ⟨s, hs, ?_⟩
  cases s with
  | field head below =>
    dsimp only at h
    split at h
    · cases h
    · split at h
      · rw [List.mem_singleton.mp h]
        exact .typename head below
      · next hname =>
        rw [List.mem_singleton.mp h]
        exact .field below (by simpa using hname)
  | spread name ds =>
    dsimp only at h
    split at h
    · cases h
    · split at h
      · next f hf =>
        rw [List.mem_singleton.mp h]
        exact .spread ds hf
      · cases h
  | inline condition ds below =>
    dsimp only at h
    split at h
    · cases h
    · cases condition with
      | some condition =>
        rw [List.mem_singleton.mp h]
        exact .narrow condition ds below
      | none => exact .inline ds h

theorem occurrences_of_inline {condition : Option String} {ds : List Directive}
    {below : List Selection}
    (h : ∀ o ∈ occurrencesOf types parent (.inline condition ds below), o ∈ os) :
    ∀ o ∈ occurrences types (match condition with | some name => types name | none => parent) below,
      o ∈ os := by
  intro o ho
  refine h o ?_
  simp only [occurrencesOf, List.mem_cons]
  exact .inr (.inr (.inr ho))

/-- The selection of a field that a step is for. -/
structure FieldOf (d : Document) (b : Bindings) (types : Types) (os : List Occurrence)
    (parent : Option TypeInfo) (head : FieldHead) (name : String)
    (arguments : Except Unbound (List BoundArgument)) (below : List Step) : Prop where
  name : head.name = name
  arguments : b.arguments head.arguments = arguments
  occurs : ∃ hasSelections, .field parent head hasSelections ∈ os
  below : Selects d b types os (targetOf types parent head) below

theorem field_of_steps {key name : String} {position : Position}
    {arguments : Except Unbound (List BoundArgument)} {below : List Step} {levels : Nat}
    {ss : List Selection} (h : .field key name position arguments below ∈ d.steps b levels ss)
    (hos : ∀ o ∈ occurrences types parent ss, o ∈ os) :
    ∃ head, FieldOf d b types os parent head name arguments below := by
  induction levels generalizing ss with
  | zero => cases h
  | succ levels ih =>
    obtain ⟨s, hs, hstems⟩ := stems_of_mem h
    have hos' : ∀ o ∈ occurrencesOf types parent s, o ∈ os :=
      fun o ho => hos o (occurrences_of_mem hs o ho)
    cases hstems with
    | @field head below' hname =>
      have hmem : ∀ o, _ → o ∈ os := fun o ho => hos' o ((mem_occurrencesOf_field hname).mpr ho)
      exact ⟨head, rfl, rfl, ⟨_, hmem _ (.inl rfl)⟩, levels, below', fun _ hx => hx,
        fun o ho => hmem o (.inr (.inr (.inr ho)))⟩
    | inline ds h => exact ih h (occurrences_of_inline hos')

theorem narrow_of_steps (hspreads : Spreads d types os) {condition : String} {below : List Step}
    {levels : Nat} {ss : List Selection} (h : .narrow condition below ∈ d.steps b levels ss)
    (hos : ∀ o ∈ occurrences types parent ss, o ∈ os) :
    Selects d b types os (types condition) below := by
  induction levels generalizing ss with
  | zero => cases h
  | succ levels ih =>
    obtain ⟨s, hs, hstems⟩ := stems_of_mem h
    have hos' : ∀ o ∈ occurrencesOf types parent s, o ∈ os :=
      fun o ho => hos o (occurrences_of_mem hs o ho)
    cases hstems with
    | narrow _ ds below' => exact ⟨levels, below', fun _ hx => hx, occurrences_of_inline hos'⟩
    | inline ds h => exact ih h (occurrences_of_inline hos')
    | @spread ds name f hf =>
      have hspread : .spread parent name ∈ os := by
        refine hos' _ ?_
        rw [occurrencesOf]
        exact List.mem_cons_self ..
      refine ⟨levels, f.selections, fun _ hx => hx, fun o ho => ?_⟩
      refine hspreads parent name f hspread hf o ?_
      simp only [Fragment.occurrences, selectionOccurrences, List.mem_cons]
      exact .inr (.inr ho)

theorem selects_field {steps : List Step} (h : Selects d b types os parent steps)
    {key name : String} {position : Position} {arguments : Except Unbound (List BoundArgument)}
    {below : List Step} (hmem : .field key name position arguments below ∈ steps) :
    ∃ head, FieldOf d b types os parent head name arguments below := by
  obtain ⟨levels, ss, hsteps, hos⟩ := h
  exact field_of_steps (hsteps _ hmem) hos

theorem selects_narrow (hspreads : Spreads d types os) {steps : List Step}
    (h : Selects d b types os parent steps) {condition : String} {below : List Step}
    (hmem : .narrow condition below ∈ steps) : Selects d b types os (types condition) below := by
  obtain ⟨levels, ss, hsteps, hos⟩ := h
  exact narrow_of_steps hspreads (hsteps _ hmem) hos

/-- The steps of an operation are selected on its root. -/
theorem selects_plan (d : Document) (types : Types) (root : Option TypeInfo) (op : Operation)
    (sent : List (String × Value)) :
    Selects d ⟨sent, op.variableDefinitions⟩ types (d.inReach types root op) root
      (d.plan op sent) := by
  refine ⟨maxNesting + 1, op.selections, fun _ hx => hx, fun o ho => ?_⟩
  refine Document.mem_inReach.mpr (.inl ?_)
  simp only [Operation.occurrences, selectionOccurrences, List.mem_cons]
  exact .inr (.inr ho)

theorem spreads_inReach (d : Document) (types : Types) (root : Option TypeInfo)
    (op : Operation) : Spreads d types (d.inReach types root op) :=
  fun _ _ _ h hf => Document.occurrences_of_spread h hf

end GraphSchema.Query
