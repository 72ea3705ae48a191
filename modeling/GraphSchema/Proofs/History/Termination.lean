import Mathlib.Data.Finset.Card
import Mathlib.Data.Finset.Range
import GraphSchema.Proofs.History.Machine

/-! Every compilation comes to its answer.

A thunk may compile again and again, but while it runs its own cell is taken, so a
compilation inside it has one thunk less that it could start: the number of thunks
that have not been started bounds how deep compilations nest. Within that bound each
function of the compiler does what the machine does, so the machine comes to rest
with the compiler's answer after finitely many steps (`compile_terminates`), and
the compiler's own bounds cut nothing off. -/
namespace GraphSchema.History

variable {M C W : Type} {c : Catalog M C W} {d : Description}

/-! ### Thunks that have not been started -/

/-- The places of the catalog whose thunks have not been started. -/
def untouched (c : Catalog M C W) (st : Store M C W) : Finset Nat :=
  (Finset.range c.size).filter fun i => (st.memo i).isPending = true

theorem mem_untouched {st : Store M C W} {i : Nat} :
    i ∈ untouched c st ↔ i < c.size ∧ (st.memo i).isPending = true := by
  simp [untouched]

theorem card_untouched_le (c : Catalog M C W) (st : Store M C W) :
    (untouched c st).card ≤ c.size := by
  have hle := Finset.card_filter_le (Finset.range c.size) fun i => (st.memo i).isPending = true
  rwa [Finset.card_range] at hle

/-- Setting a cell to anything but pending leaves no more thunks to start. -/
theorem untouched_setCell {st : Store M C W} {i : Nat} {cell : Cell (List (Field M C W))}
    (hcell : cell.isPending = false) : untouched c (st.setCell i cell) ⊆ untouched c st := by
  intro j hj
  obtain ⟨hlt, hpending⟩ := mem_untouched.mp hj
  have hne : j ≠ i := by
    rintro rfl
    rw [Store.setCell_self, hcell] at hpending
    cases hpending
  rw [Store.setCell_of_ne st cell hne] at hpending
  exact mem_untouched.mpr ⟨hlt, hpending⟩

/-- Taking the cell of a thunk leaves one thunk less to start. -/
theorem card_untouched_take {st : Store M C W} {i owner : Nat} (hi : i ∈ untouched c st) :
    (untouched c (st.setCell i (.resolving owner))).card < (untouched c st).card := by
  refine Finset.card_lt_card ((Finset.ssubset_iff_of_subset (untouched_setCell rfl)).mpr
    ⟨i, hi, fun hmem => ?_⟩)
  have hpending := (mem_untouched.mp hmem).2
  rw [Store.setCell_self] at hpending
  cases hpending

/-- No step makes a thunk startable again. -/
theorem untouched_step (c : Catalog M C W) (s : State M C W) :
    untouched c (step c s).store ⊆ untouched c s.store := by
  rcases step_cases c s with hquiet | ⟨v, thunk, -, -, heq⟩ | ⟨v, thunk, outcome, -, heq⟩
  · simp only [untouched, hquiet.memo]
    exact Finset.Subset.refl _
  · rw [heq]
    exact untouched_setCell rfl
  · rw [heq]
    exact untouched_setCell (Cell.isPending_ofOutcome outcome)

theorem untouched_leads {s s' : State M C W} (h : Leads c s s') :
    untouched c s'.store ⊆ untouched c s.store := by
  obtain ⟨n, rfl⟩ := h
  induction n with
  | zero => exact Finset.Subset.refl _
  | succ n ih =>
    rw [Function.iterate_succ_apply']
    exact (untouched_step c _).trans ih

/-! ### The compiler does what the machine does -/

/-- From a compilation that is called the machine comes to that answer and store, whatever waits
and whatever has happened. -/
def Answers (c : Catalog M C W) (d : Description) (st : Store M C W)
    (result : Except DefinitionError (Schema M C W) × Store M C W) : Prop :=
  ∀ stack log, ∃ log',
    Leads c ⟨.call d, stack, st, log⟩ ⟨.answer d result.1, stack, result.2, log'⟩

/-- Compilations are answered as the machine answers them while few enough thunks are left. -/
def Serves (c : Catalog M C W) (nested : Nested M C W) (depth : Nat) : Prop :=
  ∀ st, (untouched c st).card < depth → ∀ d, Answers c d st (nested d st)

theorem untouched_of_answers {st : Store M C W}
    {result : Except DefinitionError (Schema M C W) × Store M C W} (h : Answers c d st result) :
    untouched c result.2 ⊆ untouched c st := by
  obtain ⟨log', hleads⟩ := h [] []
  exact untouched_leads hleads

variable {nested : Nested M C W} {depth : Nat}

/-- A thunk that runs comes to its outcome. -/
theorem leads_of_run (hnested : Serves c nested depth) (v : Visit M C W) (thunk : Thunk M C W)
    {st : Store M C W} (hst : (untouched c st).card < depth) (stack : List (Pause M C W))
    (log : List (Event M C W)) :
    ∃ log', Leads c ⟨.run v thunk, stack, st, log⟩
      ⟨v.conclude c (thunk.run nested st).1, stack,
        (thunk.run nested st).2.setCell v.place (.ofOutcome (thunk.run nested st).1), log'⟩ := by
  induction thunk generalizing st log with
  | done fields => exact ⟨_, 1, rfl⟩
  | panic => exact ⟨_, 1, rfl⟩
  | outside change next ih =>
    have hchanged : (untouched c { st with world := change st.world }).card < depth := hst
    obtain ⟨log', hleads⟩ := ih st.world hchanged log
    exact ⟨log', leads_step hleads⟩
  | compile d next ih =>
    have hanswers := hnested st hst d
    have hfewer : (untouched c (nested d st).2).card < depth :=
      Nat.lt_of_le_of_lt (Finset.card_le_card (untouched_of_answers hanswers)) hst
    obtain ⟨log₁, hcalled⟩ := hanswers (⟨v, next⟩ :: stack) (.called d :: log)
    obtain ⟨log₂, hgoes⟩ :=
      ih (nested d st).1 hfewer (.answered d (nested d st).1 :: log₁)
    exact ⟨log₂, leads_step (leads_trans hcalled (leads_step hgoes))⟩

/-- How a visit goes on from its type's fields, or from why there are none. -/
def Visit.receive (c : Catalog M C W) (v : Visit M C W) :
    Except DefinitionError (List (Field M C W)) → Focus M C W
  | .ok fields => v.leave c fields
  | .error e => v.fail e

/-- A visit that asks a cell goes on with what forcing the cell comes to. -/
theorem leads_of_force (hnested : Serves c nested depth) (v : Visit M C W) (thunk : Thunk M C W)
    (hplace : v.place < c.size) {st : Store M C W} (hst : (untouched c st).card ≤ depth)
    (stack : List (Pause M C W)) (log : List (Event M C W)) :
    ∃ log', Leads c ⟨.ask v thunk, stack, st, log⟩
      ⟨v.receive c (st.force nested v.type.name v.place thunk).1, stack,
        (st.force nested v.type.name v.place thunk).2, log'⟩ := by
  have hfocus : (⟨.ask v thunk, stack, st, log⟩ : State M C W).focus = .ask v thunk := rfl
  unfold Store.force
  cases hcell : st.memo v.place with
  | ready fields =>
    have houtcome : st.memo v.place = .ofOutcome (some fields) := hcell
    exact ⟨log, 1, step_settled hfocus houtcome⟩
  | poisoned =>
    have houtcome : st.memo v.place = .ofOutcome none := hcell
    exact ⟨log, 1, step_settled hfocus houtcome⟩
  | resolving owner => exact ⟨log, 1, step_resolving hfocus hcell⟩
  | pending =>
    have hmem : v.place ∈ untouched c st := mem_untouched.mpr ⟨hplace, by rw [hcell]; rfl⟩
    have hfewer : (untouched c (st.setCell v.place (.resolving 0))).card < depth :=
      Nat.lt_of_lt_of_le (card_untouched_take hmem) hst
    obtain ⟨log', hruns⟩ := leads_of_run hnested v thunk hfewer stack (.started v.place :: log)
    refine ⟨log', leads_step ?_⟩
    rw [step_pending hfocus hcell]
    dsimp only
    rcases hrun : thunk.run nested (st.setCell v.place (.resolving 0)) with ⟨outcome, st'⟩
    rw [hrun] at hruns
    cases outcome <;> exact hruns

/-- A visit whose type has its name gets the fields that the compiler's visit gets. -/
theorem leads_of_fieldsOf (hnested : Serves c nested depth) (v : Visit M C W)
    (hplace : v.place < c.size) {st : Store M C W} (hst : (untouched c st).card ≤ depth)
    (stack : List (Pause M C W)) (log : List (Event M C W)) :
    ∃ log', Leads c ⟨v.attend c, stack, st, log⟩
      ⟨v.receive c (Walk.fieldsOf nested v.handle v.type st).1, stack,
        (Walk.fieldsOf nested v.handle v.type st).2, log'⟩ := by
  unfold Visit.attend Walk.fieldsOf
  generalize v.type.kind.fields? = thunk?
  cases v.type.kind with
  | object o | interface i =>
    cases thunk? with
    | some thunk => exact leads_of_force hnested v thunk hplace hst stack log
    | none => exact ⟨log, leads_refl _⟩
  | union u | enum e => exact ⟨log, leads_refl _⟩

theorem lt_size_of_get? {h : Handle} {t : TypeDef M C W} (hget : c.get? h = some t) :
    h.index < c.size :=
  (List.getElem?_eq_some_iff.mp (Catalog.types_of_get? hget)).1

/-- A visit that the machine begins comes to what the compiler's visit comes to. -/
theorem leads_of_visit (hnested : Serves c nested depth) (d : Description) (w : Walk M C W)
    (h : Handle) {st : Store M C W} (hst : (untouched c st).card ≤ depth)
    (stack : List (Pause M C W)) (log : List (Event M C W)) :
    ∃ log', Leads c ⟨enter c d w h, stack, st, log⟩
      ⟨onward d (w.visit nested c h st).1, stack, (w.visit nested c h st).2, log'⟩ := by
  unfold enter Walk.visit
  cases hget : c.get? h with
  | none => exact ⟨log, leads_refl _⟩
  | some t =>
    dsimp only
    cases { w with visited := w.visited ++ [h] }.claimName h t.name with
    | error e => exact ⟨log, leads_refl _⟩
    | ok w' =>
      obtain ⟨log', hleads⟩ := leads_of_fieldsOf hnested ⟨d, w', h, t⟩ (lt_size_of_get? hget) hst
        stack log
      refine ⟨log', ?_⟩
      dsimp only at hleads ⊢
      rcases hfields : Walk.fieldsOf nested h t st with ⟨result, st'⟩
      rw [hfields] at hleads
      cases result <;> exact hleads

/-- A walk that the machine is at comes to what the compiler's walk comes to. -/
theorem leads_of_walk (hnested : Serves c nested depth) (d : Description) (visits : Nat)
    (w : Walk M C W) {st : Store M C W} (hst : (untouched c st).card ≤ depth)
    (stack : List (Pause M C W)) (log : List (Event M C W)) :
    ∃ log', Leads c ⟨.walk d w, stack, st, log⟩
      ⟨onward d (w.run nested c visits st).1, stack, (w.run nested c visits st).2, log'⟩ := by
  induction visits generalizing w st log with
  | zero => exact ⟨log, leads_refl _⟩
  | succ visits ih =>
    rw [Walk.run]
    cases hpending : w.pending with
    | nil => exact ⟨log, leads_refl _⟩
    | cons h rest =>
      obtain ⟨log₁, hvisit⟩ := leads_of_visit hnested d { w with pending := rest } h hst stack log
      have hproceed : step c ⟨.walk d w, stack, st, log⟩ =
          ⟨enter c d { w with pending := rest } h, stack, st, log⟩ := by
        simp only [step, State.turnTo, proceed, hpending]
      rw [← hproceed] at hvisit
      dsimp only
      rcases hv : Walk.visit nested c { w with pending := rest } h st with ⟨result, st'⟩
      rw [hv] at hvisit
      have hfewer : (untouched c st').card ≤ depth :=
        Nat.le_trans (Finset.card_le_card (untouched_leads (leads_step hvisit))) hst
      cases result with
      | error e => exact ⟨log₁, leads_step hvisit⟩
      | ok w' =>
        obtain ⟨log₂, hwalk⟩ := ih w' hfewer log₁
        exact ⟨log₂, leads_trans (leads_step hvisit) hwalk⟩

/-- The machine answers a compilation as the compiler does, if the compiler answers as the machine
does what its thunks compile. -/
theorem answers_compileWith (hnested : Serves c (c.nestedAt depth) depth) (d : Description)
    {st : Store M C W} (hst : (untouched c st).card ≤ depth) :
    Answers c d st (c.compileWith (c.nestedAt depth) d st) := by
  intro stack log
  have hopening : step c ⟨.call d, stack, st, log⟩ = ⟨opening c d, stack, st, log⟩ := rfl
  unfold opening at hopening
  unfold Catalog.compileWith
  cases hlimits : d.limits.validate with
  | error reason =>
    simp only [hlimits] at hopening
    exact ⟨log, 1, hopening⟩
  | ok _ =>
    cases hmisuses : c.misuses with
    | cons e rest =>
      simp only [hlimits, hmisuses] at hopening
      exact ⟨log, 1, hopening⟩
    | nil =>
      simp only [hlimits, hmisuses] at hopening
      cases hstart : Walk.start c d with
      | error e =>
        rw [hstart] at hopening
        exact ⟨log, 1, hopening⟩
      | ok w =>
        rw [hstart] at hopening
        obtain ⟨log', hwalk⟩ := leads_of_walk hnested d c.size w hst stack log
        have hbegin : Leads c ⟨.call d, stack, st, log⟩ ⟨.walk d w, stack, st, log⟩ := ⟨1, hopening⟩
        refine ⟨log', leads_trans hbegin (leads_trans hwalk ?_)⟩
        dsimp only
        rcases hrun : w.run (c.nestedAt depth) c c.size st with ⟨result, st'⟩
        cases result with
        | error e => exact leads_refl _
        | ok w' =>
          have hpending := (Walk.finished_of_run (c.keeps_nestedAt depth) hstart hrun).pending
          refine ⟨1, ?_⟩
          simp only [Function.iterate_one, step, onward, State.turnTo, proceed, hpending]

/-- Compilations that may nest to a depth are answered as the machine answers them, while fewer
thunks than that are left to start. -/
theorem serves_nestedAt (c : Catalog M C W) (depth : Nat) : Serves c (c.nestedAt depth) depth := by
  induction depth with
  | zero => exact fun _ hlt => absurd hlt (Nat.not_lt_zero _)
  | succ depth ih =>
    intro st hlt d
    show Answers c d st (c.compileAt depth d st)
    rw [Catalog.compileAt_eq]
    exact answers_compileWith ih d (Nat.le_of_lt_succ hlt)

theorem answers_compile (c : Catalog M C W) (d : Description) (st : Store M C W) :
    Answers c d st (c.compile d st) := by
  rw [Catalog.compile, Catalog.compileAt_eq]
  exact answers_compileWith (serves_nestedAt c c.size) d (card_untouched_le c st)

/-- A client's request comes to rest with the compiler's answer. -/
theorem leads_of_request (c : Catalog M C W) (s : State M C W) (w : W) (d : Description) :
    ∃ log, Leads c (s.request w d)
      ⟨.idle, [], (c.compile d ⟨s.store.memo, w⟩).2,
        .answered d (c.compile d ⟨s.store.memo, w⟩).1 :: log⟩ := by
  obtain ⟨log, hanswers⟩ := answers_compile c d ⟨s.store.memo, w⟩ [] (.called d :: s.log)
  exact ⟨log, leads_trans hanswers ⟨1, rfl⟩⟩

/-! ### How deep compilations nest -/

/-- A type whose fields are asked for has its place in the catalog. -/
def Focus.Placed (c : Catalog M C W) : Focus M C W → Prop
  | .ask v _ => v.place < c.size
  | _ => True

theorem placed_of_clear {f : Focus M C W} (h : f.isClear = true) : f.Placed c := by
  cases f with
  | walk d w | answer d a => trivial
  | idle | call d | ask v thunk | run v thunk => cases h

theorem placed_proceed (w : Walk M C W) : (proceed c d w).Placed c := by
  rcases proceed_clear_or_ask c d w with hclear | ⟨v, thunk, hbegins, -, h⟩
  · exact placed_of_clear hclear
  · rw [h]
    exact lt_size_of_get? hbegins.get

theorem placed_step {s : State M C W} (h : s.focus.Placed c) : (step c s).focus.Placed c := by
  have hmove := move_step c s
  generalize step c s = s' at hmove ⊢
  cases hmove with
  | rests _ => exact h
  | opens _ => exact placed_of_clear (isClear_opening ..)
  | proceeds _ => exact placed_proceed _
  | reads _ _ | ends _ _ => exact placed_of_clear (isClear_conclude ..)
  | starts _ _ | refuses _ _ | observes _ | compiles _ | answers _ _ | resumes _ _ => trivial

/-- The thunks under way and those still to start are no more than the bound. -/
structure Nests (c : Catalog M C W) (bound : Nat) (s : State M C W) : Prop where
  placed : s.focus.Placed c
  bounded : s.busy.length + (untouched c s.store).card ≤ bound

/-- A thunk that starts was one to start, so a step adds no thunk to the two. -/
theorem nests_step {bound : Nat} {s : State M C W} (hs : Nests c bound s) :
    Nests c bound (step c s) := by
  refine ⟨placed_step hs.placed, ?_⟩
  have hbound := hs.bounded
  rcases step_cases c s with hquiet | ⟨v, thunk, hfocus, hcell, heq⟩ | ⟨v, thunk, o, hfocus, heq⟩
  · have hsame : untouched c (step c s).store = untouched c s.store := by
      simp only [untouched, hquiet.memo]
    rw [hquiet.busy, hsame]
    exact hbound
  · have hplace : v.place < c.size := by
      have hplaced := hs.placed
      rwa [hfocus] at hplaced
    have hmem : v.place ∈ untouched c s.store := mem_untouched.mpr ⟨hplace, by rw [hcell]; rfl⟩
    have hless : (untouched c (step c s).store).card < (untouched c s.store).card := by
      rw [heq]
      exact card_untouched_take hmem
    have hmore : (step c s).busy.length = s.busy.length + 1 := by
      simp [heq, State.busy, State.start, hfocus]
    omega
  · have hle : (untouched c (step c s).store).card ≤ (untouched c s.store).card :=
      Finset.card_le_card (untouched_step c s)
    have hfewer : (step c s).busy.length + 1 = s.busy.length := by
      simp [heq, State.busy, State.settle, hfocus]
    omega

theorem nests_iterate {bound : Nat} {s : State M C W} (hs : Nests c bound s) (n : Nat) :
    Nests c bound ((step c)^[n] s) := by
  induction n with
  | zero => exact hs
  | succ n ih =>
    rw [Function.iterate_succ_apply']
    exact nests_step ih

/-- **Every compilation comes to its answer**, whatever the types mention and whatever the thunks
compile before they end or break off: after finitely many steps the machine rests with the
answer and the store that the compiler computes. All the while no more thunks are under way than
could be started at the beginning, so compilations nest no deeper, and no deeper than there are
types. -/
theorem compile_terminates (c : Catalog M C W) (s : State M C W) (w : W) (d : Description) :
    (∃ n log, (step c)^[n] (s.request w d) =
      ⟨.idle, [], (c.compile d ⟨s.store.memo, w⟩).2,
        .answered d (c.compile d ⟨s.store.memo, w⟩).1 :: log⟩) ∧
    ∀ n, ((step c)^[n] (s.request w d)).busy.length ≤ (untouched c s.store).card ∧
      (untouched c s.store).card ≤ c.size := by
  refine ⟨?_, fun n => ⟨?_, card_untouched_le c s.store⟩⟩
  · obtain ⟨log, n, hrests⟩ := leads_of_request c s w d
    exact ⟨n, log, hrests⟩
  · have hbegin : Nests c (untouched c s.store).card (s.request w d) :=
      ⟨trivial, Nat.le_of_eq (Nat.zero_add _)⟩
    have hbound := (nests_iterate hbegin n).bounded
    omega

end GraphSchema.History
