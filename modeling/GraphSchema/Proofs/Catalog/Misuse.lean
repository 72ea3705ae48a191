import GraphSchema.Proofs.Catalog.Uses
import GraphSchema.Proofs.Compile.Store
import GraphSchema.Proofs.History.Machine

/-! Definitions that a catalog refuses.

A type of another catalog cannot be defined, nor one that has its fields. Such a definition
is let pass with all its steps and does nothing to the types; the catalog only keeps that
it was tried. From then on nothing compiles: whatever else is done, each compilation ends
with the first misuse there was, before a thunk is started (`misuse_atomic`). -/
namespace GraphSchema

variable {M C W : Type}

/-! ### Edits -/

namespace Draft

variable {d : Draft M C W}

theorem edit_of_no_place (hplace : d.place = none) (f : TypeDef M C W → TypeDef M C W) :
    d.edit f = d := by
  rw [edit, hplace]

@[simp] theorem edit_misuses (d : Draft M C W) (f : TypeDef M C W → TypeDef M C W) :
    (d.edit f).catalog.misuses = d.catalog.misuses := by
  unfold edit
  split <;> rfl

end Draft

namespace Catalog.Start

variable [Backed M] {start : Start M W} {c : Catalog M C W}

/-- A definition without a place does nothing at all. -/
theorem definition_of_no_place (hplace : (start.draft c).place = none)
    (steps : List (Draft.Step M)) (fields : Option (Thunk M C W)) :
    start.definition c steps fields = start.draft c := by
  refine definition_induction (P := fun d => d = start.draft c) ?_ rfl steps fields
  rintro _ f rfl
  exact Draft.edit_of_no_place hplace f

theorem misuses_definition (start : Start M W) (c : Catalog M C W) (steps : List (Draft.Step M))
    (fields : Option (Thunk M C W)) :
    (start.definition c steps fields).catalog.misuses = (start.draft c).catalog.misuses :=
  definition_induction (fun d f hd => (d.edit_misuses f).trans hd) rfl steps fields

end Catalog.Start

/-! ### Compiling after a misuse -/

namespace Catalog

/-- To compile ends with the error, whatever has been compiled before: nothing is visited, the
world and the cells are left alone, and no thunk is started. -/
structure Rejects (c : Catalog M C W) (d : Description) (e : DefinitionError) : Prop where
  compile : ∀ st, c.compile d st = (.error e, st)
  history : ∀ (s : History.State M C W) (w : W), (History.step c)^[2] (s.request w d) =
    ⟨.idle, [], ⟨s.store.memo, w⟩, .answered d (.error e) :: .called d :: s.log⟩

theorem rejects_of_misuses {c : Catalog M C W} {d : Description} {e : DefinitionError}
    {rest : List DefinitionError} (hmisuses : c.misuses = e :: rest)
    (hlimits : d.limits.validate = .ok ()) : c.Rejects d e where
  compile st := by
    rw [Catalog.compile, compileAt_eq, compileWith, hlimits, hmisuses]
  history s w := by
    have hopening : History.opening c d = .answer d (.error e) := by
      rw [History.opening, hlimits, hmisuses]
    change History.step c (History.step c (s.request w d)) = _
    simp only [History.State.request, History.step, History.State.turnTo, hopening,
      History.State.deliver]

/-! ### Misuses of a catalog -/

/-- The use defines a type that the catalog does not let be defined. -/
def Misused (c : Catalog M C W) : Use M C W → DefinitionError → Prop
  | .define start _ _, e => ∃ h what, start.target? = some (h, what) ∧ c.Refused h what e
  | .declareObject _ _, _ | .declareInterface _ _, _ => False

variable [Backed M] {c : Catalog M C W} {u : Use M C W} {uses : List (Use M C W)}
  {e : DefinitionError}

/-- Of a misuse nothing is left but the note of it. -/
theorem perform_of_misused (h : c.Misused u e) : (c.perform u).1 = c.recordMisuse e := by
  cases u with
  | declareObject name model | declareInterface name backing => cases h
  | define start steps fields =>
    obtain ⟨h, what, htarget, hrefused⟩ := h
    have hdraft : start.draft c = ⟨c.recordMisuse e, h, none⟩ := by
      rw [Start.draft_of_target htarget, claim_of_refused hrefused]
    have hdefinition := Start.definition_of_no_place (congrArg (·.place) hdraft) steps fields
    rw [hdraft] at hdefinition
    exact congrArg (·.catalog) hdefinition

theorem misuses_perform (h : ∀ e, ¬ c.Misused u e) : (c.perform u).1.misuses = c.misuses := by
  cases u with
  | declareObject name model | declareInterface name backing => rfl
  | define start steps fields =>
    refine (start.misuses_definition c steps fields).trans ?_
    obtain ⟨t, hcreated⟩ | ⟨x, what, htarget⟩ := start.created_or_target C
    · rw [Start.draft_of_created hcreated]
      rfl
    · rw [Start.draft_of_target htarget]
      obtain ⟨e, hrefused⟩ | ⟨t, -, -, hclaim⟩ | hclaim := c.claim_cases x what
      · exact absurd ⟨x, what, htarget, hrefused⟩ (h e)
      · rw [hclaim]
      · rw [hclaim]

/-- The first of the uses that is a misuse. -/
inductive FirstMisuse : Catalog M C W → List (Use M C W) → DefinitionError → Prop where
  | here {c : Catalog M C W} {u : Use M C W} {uses : List (Use M C W)}
    {e : DefinitionError} (h : c.Misused u e) : FirstMisuse c (u :: uses) e
  | later {c : Catalog M C W} {u : Use M C W} {uses : List (Use M C W)}
    {e : DefinitionError} (hnone : ∀ e, ¬ c.Misused u e)
    (h : FirstMisuse (c.perform u).1 uses e) : FirstMisuse c (u :: uses) e

theorem FirstMisuse.append (h : FirstMisuse c uses e) (rest : List (Use M C W)) :
    FirstMisuse c (uses ++ rest) e := by
  induction h with
  | here h => exact .here h
  | later hnone _ ih => exact .later hnone ih

theorem exists_firstMisuse {before : List (Use M C W)} (h : (c.after before).Misused u e) :
    ∃ first, FirstMisuse c (before ++ [u]) first := by
  induction before generalizing c with
  | nil => exact ⟨e, .here h⟩
  | cons u' rest ih =>
    by_cases hmisused : ∃ e', c.Misused u' e'
    · obtain ⟨e', h'⟩ := hmisused
      exact ⟨e', .here h'⟩
    · obtain ⟨first, hfirst⟩ := ih h
      exact ⟨first, .later (not_exists.mp hmisused) hfirst⟩

/-- What is noted stays noted, in its order. -/
theorem misuses_after (c : Catalog M C W) (uses : List (Use M C W)) :
    c.misuses <+: (c.after uses).misuses := by
  induction uses generalizing c with
  | nil => exact List.prefix_rfl
  | cons u rest ih =>
    refine List.IsPrefix.trans ?_ (ih (c.perform u).1)
    by_cases hmisused : ∃ e, c.Misused u e
    · obtain ⟨e, h⟩ := hmisused
      rw [perform_of_misused h]
      exact List.prefix_append ..
    · exact (misuses_perform (not_exists.mp hmisused)).symm ▸ List.prefix_rfl

theorem misuses_of_firstMisuse (h : FirstMisuse c uses e) (hclean : c.misuses = []) :
    ∃ rest, (c.after uses).misuses = e :: rest := by
  induction h with
  | @here c u uses e h =>
    obtain ⟨rest, hrest⟩ := (c.recordMisuse e).misuses_after uses
    refine ⟨rest, ?_⟩
    rw [after_cons, perform_of_misused h, ← hrest, recordMisuse, hclean]
    rfl
  | later hnone _ ih => exact ih ((misuses_perform hnone).trans hclean)

/-- **A misuse changes nothing and is reported by every compilation from then on.** Whatever has
been done to a catalog, a type that is added gets a handle of its own, and each handle goes on to
name the type that it named, with the declaration and the fields it had. A misuse
leaves all types as they are, with all its steps, and whatever follows it, no valid description
compiles: the error is the first misuse there was. -/
theorem misuse_atomic (id : Nat) (before : List (Use M C W)) :
    let c : Catalog M C W := Catalog.after { id } before
    (∀ u t, u.created? = some t → c.get? (c.perform u).2 = none ∧
      ∃ t', (c.perform u).1.get? (c.perform u).2 = some t' ∧ t.Continues t') ∧
    (∀ uses h t, c.get? h = some t → ∃ t', (c.after uses).get? h = some t' ∧ t.Continues t') ∧
    ∀ u e, c.Misused u e → (c.perform u).1 = { c with misuses := c.misuses ++ [e] } ∧
      ∃ first, FirstMisuse { id } (before ++ [u]) first ∧
        ∀ uses d, d.limits.validate = .ok () → ((c.perform u).1.after uses).Rejects d first := by
  intro c
  refine ⟨fun u t hcreated => get?_of_created hcreated,
    fun uses h t hget => (c.continues_after uses).get? hget, fun u e hmisused => ?_⟩
  obtain ⟨first, hfirst⟩ := exists_firstMisuse hmisused
  refine ⟨perform_of_misused hmisused, first, hfirst, fun uses d hlimits => ?_⟩
  obtain ⟨rest, hmisuses⟩ := misuses_of_firstMisuse (hfirst.append uses) rfl
  rw [after_append, after_append] at hmisuses
  exact rejects_of_misuses hmisuses hlimits

/-- A ship is defined, and defined once more with a description. -/
def shipTwice : List (Use Blueprint.Instance String Blueprint.World) :=
  [.define (.object "Ship" (Model.unit _ _)) [] (some (.done [])),
    .define (.defineObject ⟨1, 0⟩) [.description "again"] (some .panic)]

/-- A type of another catalog is defined after that: it is the ship that is reported, be the roots
of that other catalog too. -/
theorem misuse_atomic_shipTwice :
    let c := Catalog.after { id := 1 } shipTwice
    let foreign : Use Blueprint.Instance String Blueprint.World :=
      .define (.defineInterface ⟨2, 0⟩) [.implement ⟨1, 0⟩] (some (.done []))
    c.Misused foreign (.foreignHandle "interface definition") ∧
      (∃ t, (c.perform foreign).1.get? ⟨1, 0⟩ = some t ∧ t.description = none ∧
        t.kind.fields?.isSome) ∧
      ∀ st, (c.perform foreign).1.compile ⟨⟨2, 0⟩, none, {}⟩ st =
        (.error (.duplicateTypeName "Ship"), st) := by
  intro c foreign
  obtain ⟨-, -, report⟩ := misuse_atomic 1 shipTwice
  have hmisused : c.Misused foreign (.foreignHandle "interface definition") :=
    ⟨⟨2, 0⟩, "interface", rfl, .foreign (by decide)⟩
  obtain ⟨hsame, first, hfirst, hrejects⟩ := report foreign _ hmisused
  refine ⟨hmisused, ?_, fun st => ?_⟩
  · rw [hsame]
    exact ⟨_, rfl, rfl, rfl⟩
  · have hreject := (hrejects [] ⟨⟨2, 0⟩, none, {}⟩ rfl).compile st
    cases hfirst with
    | here h =>
      obtain ⟨h, what, htarget, -⟩ := h
      cases htarget
    | later _ hfirst =>
      cases hfirst with
      | here h =>
        obtain ⟨h, what, htarget, hrefused⟩ := h
        cases htarget
        cases hrefused with
        | foreign hforeign => exact absurd rfl hforeign
        | defined hget _ =>
          cases hget
          exact hreject
      | later hnone _ => exact absurd ⟨_, _, rfl, .defined rfl rfl⟩ (hnone _)

end Catalog

end GraphSchema
