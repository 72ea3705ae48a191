import GraphSchema.Compile.Basic

/-! Cells over a compilation.

A field list that is there stays there, through thunks that compile the catalog
again and through those compilations' own thunks, and a new one is a list that the
thunk of its type ends with (`keeps_compile`). So what a walk read from a cell can
still be read from it when the walk is over, and it is what the type declares. -/
namespace GraphSchema

variable {M C W : Type}

/-- The thunk may end with the fields, whatever the world is and however compilations go. -/
inductive Thunk.Ends : Thunk M C W → List (Field M C W) → Prop where
  | done (fields : List (Field M C W)) : Ends (.done fields) fields
  | outside {change : W → W} {next : W → Thunk M C W} {fields : List (Field M C W)} (w : W)
    (h : Ends (next w) fields) : Ends (.outside change next) fields
  | compile {d : Description} {next : Except DefinitionError (Schema M C W) → Thunk M C W}
    {fields : List (Field M C W)} (answer : Except DefinitionError (Schema M C W))
    (h : Ends (next answer) fields) : Ends (.compile d next) fields

/-- The fields are such as the type at the place declares. -/
def Catalog.Declares (c : Catalog M C W) (i : Nat) (fields : List (Field M C W)) : Prop :=
  ∃ t thunk, c.types[i]? = some t ∧ t.kind.fields? = some thunk ∧ thunk.Ends fields

namespace Store

/-- The cells of the store only hold what the types declare. -/
def Declared (c : Catalog M C W) (s : Store M C W) : Prop :=
  ∀ i fields, s.memo i = .ready fields → c.Declares i fields

theorem declared_fresh (c : Catalog M C W) (w : W) : Declared c ⟨Memo.fresh, w⟩ := nofun

/-- Every field list of the first store is in the second one, and what else is in there is what the
types declare. -/
structure Keeps (c : Catalog M C W) (s s' : Store M C W) : Prop where
  ready : ∀ i fields, s.memo i = .ready fields → s'.memo i = .ready fields
  declared : ∀ i fields, s'.memo i = .ready fields → s.memo i = .ready fields ∨ c.Declares i fields

variable {c : Catalog M C W}

theorem keeps_refl (s : Store M C W) : Keeps c s s := ⟨fun _ _ h => h, fun _ _ h => .inl h⟩

theorem keeps_trans {a b d : Store M C W} (hab : Keeps c a b) (hbd : Keeps c b d) :
    Keeps c a d where
  ready i fields h := hbd.ready i fields (hab.ready i fields h)
  declared i fields h := (hbd.declared i fields h).elim (hab.declared i fields) .inr

theorem declared_of_keeps {s s' : Store M C W} (hs : Declared c s) (h : Keeps c s s') :
    Declared c s' :=
  fun i fields hready => (h.declared i fields hready).elim (hs i fields) id

theorem setCell_of_ne (s : Store M C W) {i j : Nat} (cell : Cell (List (Field M C W)))
    (h : j ≠ i) : (s.setCell i cell).memo j = s.memo j :=
  Memo.set_of_ne _ _ h

@[simp] theorem setCell_self (s : Store M C W) (i : Nat) (cell : Cell (List (Field M C W))) :
    (s.setCell i cell).memo i = cell :=
  Memo.set_self ..

/-- A cell without a field list may be set to what its type declares, or to none. -/
theorem keeps_setCell {s : Store M C W} {i : Nat} (h : ∀ fields, s.memo i ≠ .ready fields)
    {cell : Cell (List (Field M C W))}
    (hcell : ∀ fields, cell = .ready fields → c.Declares i fields) :
    Keeps c s (s.setCell i cell) := by
  constructor
  · intro j fields hj
    have hne : j ≠ i := fun e => h fields (e ▸ hj)
    rw [setCell_of_ne s cell hne]
    exact hj
  · intro j fields hj
    by_cases hne : j = i
    · subst hne
      rw [setCell_self] at hj
      exact .inr (hcell fields hj)
    · rw [setCell_of_ne s cell hne] at hj
      exact .inl hj

end Store

open Store

/-- Compiling keeps the field lists that are there. -/
def Nested.Keeps (c : Catalog M C W) (nested : Nested M C W) : Prop :=
  ∀ d s, Store.Keeps c s (nested d s).2

variable {c : Catalog M C W} {nested : Nested M C W}

namespace Thunk

theorem keeps_run (hnested : nested.Keeps c) (thunk : Thunk M C W) (s : Store M C W) :
    Keeps c s (thunk.run nested s).2 := by
  induction thunk generalizing s with
  | done fields => exact keeps_refl s
  | panic => exact keeps_refl s
  | outside change next ih =>
    rw [run]
    have hnext := ih s.world { s with world := change s.world }
    exact ⟨hnext.ready, hnext.declared⟩
  | compile d next ih =>
    rw [run]
    exact keeps_trans (hnested d s) (ih _ _)

theorem ends_of_run (thunk : Thunk M C W) {s s' : Store M C W} {fields : List (Field M C W)}
    (h : thunk.run nested s = (some fields, s')) : thunk.Ends fields := by
  induction thunk generalizing s with
  | done found =>
    cases h
    exact .done fields
  | panic => cases h
  | outside change next ih =>
    rw [run] at h
    exact .outside s.world (ih _ h)
  | compile d next ih =>
    rw [run] at h
    exact .compile (nested d s).1 (ih _ h)

end Thunk

namespace Store

/-- While a thunk runs its own cell holds no field list, so the outcome replaces none. -/
theorem force_spec (hnested : nested.Keeps c) (typeName : String) {i : Nat} {t : TypeDef M C W}
    (ht : c.types[i]? = some t) {thunk : Thunk M C W} (hthunk : t.kind.fields? = some thunk)
    (s : Store M C W) :
    Keeps c s (s.force nested typeName i thunk).2 ∧
      ∀ fields, (s.force nested typeName i thunk).1 = .ok fields →
        (s.force nested typeName i thunk).2.memo i = .ready fields := by
  unfold force
  cases hcell : s.memo i with
  | ready fields =>
    refine ⟨keeps_refl s, fun fields' h => ?_⟩
    cases h
    exact hcell
  | poisoned => exact ⟨keeps_refl s, nofun⟩
  | resolving owner => exact ⟨keeps_refl s, nofun⟩
  | pending =>
    dsimp only
    rcases hrun : thunk.run nested (s.setCell i (.resolving 0)) with ⟨outcome, s'⟩
    have hpending : ∀ fields, s.memo i ≠ .ready fields := by
      intro fields h
      rw [hcell] at h
      cases h
    have htaken : Keeps c s s' := by
      have htake : Keeps c s (s.setCell i (.resolving 0)) := keeps_setCell hpending nofun
      have hs' := Thunk.keeps_run hnested thunk (s.setCell i (.resolving 0))
      rw [hrun] at hs'
      exact keeps_trans htake hs'
    have hkeeps : ∀ cell, (∀ fields, cell = .ready fields → c.Declares i fields) →
        Keeps c s (s'.setCell i cell) := by
      intro cell hcell'
      constructor
      · intro j fields hj
        have hne : j ≠ i := fun e => hpending fields (e ▸ hj)
        rw [setCell_of_ne s' cell hne]
        exact htaken.ready j fields hj
      · intro j fields hj
        by_cases hne : j = i
        · subst hne
          rw [setCell_self] at hj
          exact .inr (hcell' fields hj)
        · rw [setCell_of_ne s' cell hne] at hj
          exact htaken.declared j fields hj
    cases outcome with
    | none => exact ⟨hkeeps _ nofun, nofun⟩
    | some fields =>
      refine ⟨hkeeps _ fun fields' h => ?_, fun fields' h => ?_⟩
      · cases h
        exact ⟨t, thunk, ht, hthunk, Thunk.ends_of_run thunk hrun⟩
      · cases h
        exact setCell_self ..

end Store

/-- Whether the definition is one with a field list. -/
def Kind.hasFields : Kind M C W → Bool
  | object _ | interface _ => true
  | union _ | enum _ => false

namespace Catalog

theorem types_of_get? {h : Handle} {t : TypeDef M C W} (ht : c.get? h = some t) :
    c.types[h.index]? = some t := by
  unfold get? at ht
  split at ht
  · exact ht
  · cases ht

end Catalog

namespace Walk

theorem fieldsOf_spec (hnested : nested.Keeps c) {h : Handle} {t : TypeDef M C W}
    (ht : c.get? h = some t) (s : Store M C W) :
    Keeps c s (fieldsOf nested h t s).2 ∧
      ∀ fields, (fieldsOf nested h t s).1 = .ok fields → t.kind.hasFields = true →
        (fieldsOf nested h t s).2.memo h.index = .ready fields := by
  have htype := Catalog.types_of_get? ht
  unfold fieldsOf
  cases hkind : t.kind with
  | object o | interface i =>
    dsimp only
    cases hthunk : t.kind.fields? with
    | none =>
      rw [hkind] at hthunk
      rw [hthunk]
      exact ⟨keeps_refl s, nofun⟩
    | some thunk =>
      have hspec := force_spec hnested t.name htype hthunk s
      rw [hkind] at hthunk
      rw [hthunk]
      exact ⟨hspec.1, fun fields hfields _ => hspec.2 fields hfields⟩
  | union u => exact ⟨keeps_refl s, fun _ _ hsome => nomatch hsome⟩
  | enum e => exact ⟨keeps_refl s, fun _ _ hsome => nomatch hsome⟩

theorem keeps_visit (hnested : nested.Keeps c) (w : Walk M C W) (h : Handle) (s : Store M C W) :
    Keeps c s (visit nested c w h s).2 := by
  unfold visit
  cases ht : c.get? h with
  | none => exact keeps_refl s
  | some t =>
    dsimp only
    cases { w with visited := w.visited ++ [h] }.claimName h t.name with
    | error e => exact keeps_refl s
    | ok w =>
      have hkeeps := (fieldsOf_spec hnested ht s).1
      dsimp only
      rcases hfields : fieldsOf nested h t s with ⟨result, s'⟩
      rw [hfields] at hkeeps
      cases result <;> exact hkeeps

theorem keeps_run (hnested : nested.Keeps c) (fuel : Nat) (w : Walk M C W) (s : Store M C W) :
    Keeps c s (w.run nested c fuel s).2 := by
  induction fuel generalizing w s with
  | zero => exact keeps_refl s
  | succ fuel ih =>
    rw [run]
    cases w.pending with
    | nil => exact keeps_refl s
    | cons h rest =>
      have hvisit := keeps_visit hnested { w with pending := rest } h s
      dsimp only
      rcases hv : visit nested c { w with pending := rest } h s with ⟨result, s'⟩
      rw [hv] at hvisit
      cases result with
      | error e => exact hvisit
      | ok w => exact keeps_trans hvisit (ih w s')

end Walk

namespace Catalog

theorem keeps_compileWith (hnested : nested.Keeps c) : Nested.Keeps c (c.compileWith nested) := by
  intro d s
  unfold compileWith
  cases d.limits.validate with
  | error reason => exact keeps_refl s
  | ok _ =>
    cases c.misuses with
    | cons e rest => exact keeps_refl s
    | nil =>
      cases Walk.start c d with
      | error e => exact keeps_refl s
      | ok w =>
        have hrun := Walk.keeps_run hnested c.size w s
        dsimp only
        rcases hw : w.run nested c c.size s with ⟨result, s'⟩
        rw [hw] at hrun
        cases result <;> exact hrun

/-- Compilations inside one another keep the field lists, however deep they nest. -/
theorem keeps_compileAt (c : Catalog M C W) (depth : Nat) : Nested.Keeps c (c.compileAt depth) := by
  induction depth with
  | zero => exact keeps_compileWith fun _ s => keeps_refl s
  | succ depth ih => exact keeps_compileWith ih

theorem keeps_compile (c : Catalog M C W) : Nested.Keeps c c.compile := c.keeps_compileAt c.size

/-- How the thunks compile when compilations may nest to that depth. -/
def nestedAt (c : Catalog M C W) : Nat → Nested M C W
  | 0 => fun _ s => (.error (.undefinedType ""), s)
  | depth + 1 => c.compileAt depth

theorem compileAt_eq (depth : Nat) : c.compileAt depth = c.compileWith (c.nestedAt depth) := by
  cases depth <;> rfl

theorem keeps_nestedAt (c : Catalog M C W) (depth : Nat) : (c.nestedAt depth).Keeps c := by
  cases depth with
  | zero => exact fun _ s => keeps_refl s
  | succ depth => exact c.keeps_compileAt depth

end Catalog

end GraphSchema
