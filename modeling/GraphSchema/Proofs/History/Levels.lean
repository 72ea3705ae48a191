import GraphSchema.Proofs.Compile.Reach
import GraphSchema.Proofs.History.Cells

/-! What each compilation under way has come to.

Each compilation of a history, the innermost and those that wait below it, has been
called with a valid configuration, has seen its roots, and has seen only what they
reach (`Level`). What compilations inside it do takes nothing of that away, for
field lists and what has happened only become more (`Grows`). So a thunk is started
for a type that an earlier call reaches, and the types of a schema that has been
answered have their fields for good (`levelled_step`). -/
namespace GraphSchema

variable {M C W : Type}

/-! ### More field lists -/

/-- Every field list of the first cells is in the second ones. -/
def Memo.Extends {α : Type} (memo memo' : Memo α) : Prop :=
  ∀ i a, memo i = .ready a → memo' i = .ready a

namespace Catalog

variable {c : Catalog M C W} {memo memo' : Memo (List (Field M C W))} {d : Description}

theorem cellFields_extends (h : memo.Extends memo') {x : Handle} {f : Field M C W}
    (hf : f ∈ cellFields memo x) : f ∈ cellFields memo' x := by
  unfold cellFields at hf ⊢
  cases hcell : memo x.index with
  | ready fields =>
    rw [h _ _ hcell]
    rwa [hcell] at hf
  | pending | resolving owner | poisoned =>
    rw [hcell] at hf
    cases hf

theorem hasField_extends (h : memo.Extends memo') {x : Handle} {f : Field M C W}
    (hf : c.HasField memo x f) : c.HasField memo' x f :=
  ⟨hf.1, cellFields_extends h hf.2⟩

/-- What is reached stays reached. -/
theorem reaches_extends (h : memo.Extends memo') {x : Handle} (hx : c.Reaches memo d x) :
    c.Reaches memo' d x := by
  induction hx with
  | root hroot => exact .root hroot
  | field _ hf hx ih => exact .field ih (hasField_extends h hf) hx
  | argument _ hf ha hx ih => exact .argument ih (hasField_extends h hf) ha hx
  | interface _ ho hx ih => exact .interface ih ho hx
  | implementer _ hi ho hx ih => exact .implementer ih hi ho hx
  | member _ hu hx ih => exact .member ih hu hx

/-- The types of a schema are those that the roots reach, and all of them have their fields. -/
structure Compiled (c : Catalog M C W) (memo : Memo (List (Field M C W))) (d : Description)
    (schema : Schema M C W) (visited : List Handle) : Prop where
  names : schema.typeNames = visited.map c.nameOf
  reached : ∀ h, h ∈ visited ↔ c.Reaches memo d h
  ready : ∀ h ∈ visited, ∃ t, c.get? h = some t ∧
    (t.kind.hasFields = true → ∃ fields, memo h.index = .ready fields)

/-- A visited type mentions the same types when more cells have their fields. -/
theorem Compiled.references_eq {schema : Schema M C W} {visited : List Handle}
    (hs : c.Compiled memo d schema visited) (h : memo.Extends memo') {x : Handle}
    (hx : x ∈ visited) : c.references memo' x = c.references memo x := by
  unfold references cellFields
  obtain ⟨t, hget, hready⟩ := hs.ready x hx
  rw [hget, Option.map_some]
  cases hkind : t.kind with
  | object o | interface i =>
    rw [hkind] at hready
    obtain ⟨fields, hcell⟩ := hready rfl
    simp only [hcell, h _ _ hcell]
  | union u | enum e => rfl

/-- More field lists take no type from a schema and give it none. -/
theorem Compiled.extends {schema : Schema M C W} {visited : List Handle}
    (hs : c.Compiled memo d schema visited) (h : memo.Extends memo') :
    c.Compiled memo' d schema visited := by
  refine ⟨hs.names, fun x => ⟨fun hx => reaches_extends h ((hs.reached x).mp hx), fun hx => ?_⟩,
    fun x hx => ?_⟩
  · refine hx.mem_of_closed (P := (· ∈ visited)) (fun y hy => (hs.reached y).mpr (.root hy)) ?_
    intro y hy z hz
    rw [hs.references_eq h hy] at hz
    exact (hs.reached z).mpr (reaches_of_mem_references ((hs.reached y).mp hy) hz)
  · obtain ⟨t, hget, hready⟩ := hs.ready x hx
    refine ⟨t, hget, fun hkind => ?_⟩
    obtain ⟨fields, hcell⟩ := hready hkind
    exact ⟨fields, h _ _ hcell⟩

end Catalog

theorem Catalog.handle_of_get? {c : Catalog M C W} {h : Handle} {t : TypeDef M C W}
    (hget : c.get? h = some t) : c.handle h.index = h := by
  obtain ⟨id, index⟩ := h
  by_cases hid : id = c.id
  · rw [hid]
    rfl
  · simp [Catalog.get?, hid] at hget

theorem Walk.Sound.extends {c : Catalog M C W} {w : Walk M C W} {st st' : Store M C W}
    (hw : w.Sound c st) (h : st.memo.Extends st'.memo) : w.Sound c st' :=
  { hw with ready := fun x fields t hmem ht hkind => h _ _ (hw.ready x fields t hmem ht hkind) }

namespace History

variable {c : Catalog M C W} {d : Description} {s s' : State M C W}

/-- The second state has all field lists of the first, and the log goes on. -/
structure Grows (s s' : State M C W) : Prop where
  memo : s.store.memo.Extends s'.store.memo
  log : ∀ e ∈ s.log, e ∈ s'.log

theorem extends_setCell {st : Store M C W} {i : Nat} {cell : Cell (List (Field M C W))}
    (h : ∀ fields, st.memo i ≠ .ready fields) : st.memo.Extends (st.setCell i cell).memo := by
  intro j fields hj
  have hne : j ≠ i := by
    rintro rfl
    exact h fields hj
  rw [Store.setCell_of_ne st cell hne]
  exact hj

/-- A thunk is started from a cell without fields and ends in one. -/
theorem grows_step (c : Catalog M C W) (hs : Accounted s) : Grows s (step c s) := by
  rcases step_cases c s with hquiet | ⟨v, thunk, hfocus, hcell, heq⟩ | ⟨v, thunk, o, hfocus, heq⟩
  · refine ⟨fun i fields hi => by rw [hquiet.memo]; exact hi, fun e he => ?_⟩
    rcases hquiet.log with hlog | ⟨d, hlog⟩ | ⟨d, a, hlog⟩ <;> simp [hlog, he]
  · rw [heq]
    refine ⟨extends_setCell fun fields hready => ?_, fun e he => List.mem_cons_of_mem _ he⟩
    rw [hcell] at hready
    cases hready
  · have hbusy : v.place ∈ s.busy := by simp [State.busy, hfocus]
    obtain ⟨owner, howner⟩ := (hs.recorded v.place).busy.mp hbusy
    rw [heq]
    refine ⟨extends_setCell fun fields hready => ?_, fun e he => List.mem_cons_of_mem _ he⟩
    rw [howner] at hready
    cases hready

/-! ### A compilation under way -/

/-- The compilation has been called, and nothing forbids it to run thunks. -/
structure Admitted (c : Catalog M C W) (log : List (Event M C W)) (d : Description) : Prop where
  called : .called d ∈ log
  limits : d.limits.validate = .ok ()
  misuses : c.misuses = []

/-- How far the walk of a compilation has come. -/
structure Level (c : Catalog M C W) (s : State M C W) (d : Description) (w : Walk M C W) :
    Prop where
  admitted : Admitted c s.log d
  sound : w.Sound c s.store
  roots : ∀ h ∈ d.roots, h ∈ w.visited ++ w.pending
  reached : ∀ h ∈ w.visited ++ w.pending, c.Reaches s.store.memo d h

theorem Level.grows {w : Walk M C W} (hw : Level c s d w) (h : Grows s s') : Level c s' d w where
  admitted := ⟨h.log _ hw.admitted.called, hw.admitted.limits, hw.admitted.misuses⟩
  sound := hw.sound.extends h.memo
  roots := hw.roots
  reached x hx := Catalog.reaches_extends h.memo (hw.reached x hx)

/-- The visit is of a type that has fields, and its compilation has come so far. -/
structure Attends (c : Catalog M C W) (s : State M C W) (v : Visit M C W) : Prop where
  level : ∃ w, Level c s v.description w ∧ Begins c v.description w v
  thunk : ∃ thunk, v.type.kind.fields? = some thunk

theorem Attends.grows {v : Visit M C W} (hv : Attends c s v) (h : Grows s s') : Attends c s' v := by
  obtain ⟨w, hw, hbegins⟩ := hv.level
  exact ⟨⟨w, hw.grows h, hbegins⟩, hv.thunk⟩

theorem Attends.reached {v : Visit M C W} (hv : Attends c s v) :
    Admitted c s.log v.description ∧ c.Reaches s.store.memo v.description (c.handle v.place) := by
  obtain ⟨w, hw, hbegins⟩ := hv.level
  have hmem : v.handle ∈ w.visited ++ w.pending := by simp [hbegins.pending]
  refine ⟨hw.admitted, ?_⟩
  rw [Visit.place, Catalog.handle_of_get? hbegins.get]
  exact hw.reached _ hmem

/-- What holds of a compilation at the point where it is. -/
def Focus.Levelled (c : Catalog M C W) (s : State M C W) : Focus M C W → Prop
  | .idle => True
  | .call d => .called d ∈ s.log
  | .walk d w => Level c s d w
  | .ask v _ | .run v _ => Attends c s v
  | .answer d a => ∀ schema, a = .ok schema → ∃ visited, c.Compiled s.store.memo d schema visited

theorem Focus.Levelled.grows {f : Focus M C W} (hf : f.Levelled c s) (h : Grows s s') :
    f.Levelled c s' := by
  cases f with
  | idle => trivial
  | call d => exact h.log _ hf
  | walk d w => exact Level.grows hf h
  | ask v thunk | run v thunk => exact Attends.grows hf h
  | answer d a =>
    intro schema ha
    obtain ⟨visited, hcompiled⟩ := hf schema ha
    exact ⟨visited, hcompiled.extends h.memo⟩

theorem levelled_fail (v : Visit M C W) (e : DefinitionError) : (v.fail e).Levelled c s := nofun

theorem levelled_onward {r : Except DefinitionError (Walk M C W)}
    (h : ∀ w, r = .ok w → Level c s d w) : (onward d r).Levelled c s := by
  cases r with
  | error e => exact nofun
  | ok w => exact h w rfl

/-- A compilation begins with its roots in the queue. -/
theorem levelled_opening (hcalled : .called d ∈ s.log) : (opening c d).Levelled c s := by
  unfold opening
  cases hlimits : d.limits.validate with
  | error reason => exact nofun
  | ok _ =>
    dsimp only
    cases hmisuses : c.misuses with
    | cons e rest => exact nofun
    | nil =>
      refine levelled_onward fun w hstart => ?_
      have hseen : ∀ h, h ∈ w.visited ++ w.pending ↔ h ∈ d.roots := by
        intro h
        rw [(Walk.enqueueAll_spec hstart).seen h]
        simp [Walk.empty, Description.roots]
      exact ⟨⟨hcalled, hlimits, hmisuses⟩, (Walk.start_sound hstart s.store).1,
        fun h hroot => (hseen h).mpr hroot, fun h hmem => .root ((hseen h).mp hmem)⟩

/-- The visit is the compiler's visit of that type, from the claim of the name on. -/
theorem Begins.visit_eq {w : Walk M C W} {v : Visit M C W} (hv : Begins c d w v)
    (nested : Nested M C W) {st : Store M C W} {fields : List (Field M C W)}
    (hfields : Walk.fieldsOf nested v.handle v.type st = (.ok fields, st)) :
    Walk.visit nested c { w with pending := v.walk.pending } v.handle st =
      ({ v.walk with fields := v.walk.fields ++ [(v.handle, fields)] }.enqueueAll c
        (Walk.mentions c v.handle v.type fields), st) := by
  rw [Walk.visit, hv.get]
  dsimp only
  rw [hv.claim]
  dsimp only
  rw [hfields]

/-- At the end of a visit the compilation has come one type further. -/
theorem levelled_leave {w : Walk M C W} {v : Visit M C W} (hw : Level c s d w)
    (hv : Begins c d w v) {fields : List (Field M C W)}
    (hready : v.type.kind.hasFields = true → s.store.memo v.place = .ready fields)
    (hfields : Walk.fieldsOf (c.nestedAt 0) v.handle v.type s.store = (.ok fields, s.store)) :
    (v.leave c fields).Levelled c s := by
  unfold Visit.leave
  rw [hv.description]
  refine levelled_onward fun w' hqueue => ?_
  -- the cell has the fields by now, so the compiler's own visit would read them and do the same
  have hvisit := hv.visit_eq (c.nestedAt 0) hfields
  rw [hqueue] at hvisit
  obtain ⟨hsound, -, hkept⟩ :=
    Walk.visit_sound (c.keeps_nestedAt 0) hv.pending hw.sound hvisit
  have hown : c.Reaches s.store.memo d v.handle := hw.reached _ (by simp [hv.pending])
  refine ⟨hw.admitted, hsound, fun h hroot => hkept h (hw.roots h hroot), fun h hmem => ?_⟩
  rcases ((Walk.enqueueAll_spec hqueue).seen h).mp hmem with hold | hmention
  · refine hw.reached h ?_
    obtain ⟨-, -, -, hwalk⟩ := Walk.claimName_spec hv.claim
    have hold' : h ∈ v.walk.visited ++ v.walk.pending := hold
    rw [hwalk] at hold'
    simpa [hv.pending, or_assoc] using hold'
  · rw [Walk.map_mentions hv.get hready] at hmention
    exact Catalog.reaches_of_mem_references hown hmention

/-- A visit of a type without fields ends at once. -/
theorem levelled_leave_nil {w : Walk M C W} {v : Visit M C W} (hw : Level c s d w)
    (hv : Begins c d w v) (hkind : v.type.kind.hasFields = false) :
    (v.leave c []).Levelled c s := by
  refine levelled_leave hw hv (fun h => by rw [hkind] at h; cases h) ?_
  unfold Walk.fieldsOf
  cases hk : v.type.kind with
  | object o | interface i =>
    rw [hk] at hkind
    cases hkind
  | union u | enum e => rfl

/-- A visit goes on from the outcome that its type's cell has. -/
theorem levelled_conclude {v : Visit M C W} (hv : Attends c s v)
    {outcome : Option (List (Field M C W))}
    (hcell : s.store.memo v.place = .ofOutcome outcome) : (v.conclude c outcome).Levelled c s := by
  obtain ⟨w, hw, hbegins⟩ := hv.level
  cases outcome with
  | none => exact levelled_fail v _
  | some fields =>
    refine levelled_leave hw hbegins (fun _ => hcell) ?_
    obtain ⟨thunk, hthunk⟩ := hv.thunk
    have hforce : s.store.force (c.nestedAt 0) v.type.name v.handle.index thunk =
        (.ok fields, s.store) := by
      unfold Store.force
      rw [show s.store.memo v.handle.index = .ready fields from hcell]
    unfold Walk.fieldsOf
    rw [hthunk]
    cases hk : v.type.kind with
    | object o | interface i => exact hforce
    | union u | enum e =>
      rw [hk] at hthunk
      cases hthunk

/-- A walk whose queue is empty has visited what the roots reach. -/
theorem compiled_of_link {w : Walk M C W} (hw : Level c s d w) (hpending : w.pending = [])
    {schema : Schema M C W} (hlink : Link.schema c d w = .ok schema) :
    c.Compiled s.store.memo d schema w.visited := by
  have hroots := hw.roots
  have hreached := hw.reached
  rw [hpending, List.append_nil] at hroots hreached
  have hfinished : Walk.Finished c d w s.store :=
    ⟨hw.sound, hpending, hroots _ (by simp [Description.roots]),
      fun m hm => hroots m (by simpa [Description.roots] using .inr hm)⟩
  have hlinking : Link.Linking c d w s.store schema := ⟨hfinished, hlink⟩
  refine ⟨hlinking.typeNames_eq,
    fun h => ⟨hreached h, Catalog.visited_of_reaches hfinished⟩, fun h hh => ?_⟩
  obtain ⟨t, ht⟩ := hfinished.get? hh
  obtain ⟨fields, hfields⟩ := Walk.fields?_of_mem (h := h) (hw.sound.listed.symm ▸ hh)
  exact ⟨t, ht, fun hkind => ⟨fields, hfinished.ready ht hfields hkind⟩⟩

theorem levelled_proceed {w : Walk M C W} (hw : Level c s d w) :
    (proceed c d w).Levelled c s := by
  rcases proceed_cases c d w with
    ⟨hpending, h⟩ | ⟨e, h⟩ | ⟨v, hbegins, ⟨thunk, hthunk, h⟩ | ⟨hkind, h⟩⟩
  · rw [h]
    exact fun schema hlink => ⟨_, compiled_of_link hw hpending hlink⟩
  · rw [h]
    exact nofun
  · rw [h]
    have hd := hbegins.description
    subst hd
    exact ⟨⟨w, hw, hbegins⟩, thunk, hthunk⟩
  · rw [h]
    exact levelled_leave_nil hw hbegins hkind

/-! ### All compilations -/

/-- Thunks that have been started are of types that an earlier call reaches. -/
def Warranted (c : Catalog M C W) (memo : Memo (List (Field M C W))) (log : List (Event M C W)) :
    Prop :=
  ∀ i before, .started i :: before <:+ log →
    ∃ d, Admitted c before d ∧ c.Reaches memo d (c.handle i)

structure Levelled (c : Catalog M C W) (s : State M C W) : Prop where
  focus : s.focus.Levelled c s
  stack : ∀ p ∈ s.stack, Attends c s p.visit
  started : Warranted c s.store.memo s.log
  answered : ∀ d schema, .answered d (.ok schema) ∈ s.log →
    ∃ visited, c.Compiled s.store.memo d schema visited

theorem levelled_fresh (c : Catalog M C W) (w : W) : Levelled c (State.fresh w) where
  focus := trivial
  stack _ h := by simp [State.fresh] at h
  started _ _ h := by simp [State.fresh] at h
  answered _ _ h := by simp [State.fresh] at h

/-- An event that is no start leaves the starts warranted. -/
theorem warranted_cons {memo memo' : Memo (List (Field M C W))} {log : List (Event M C W)}
    (hlog : Warranted c memo log) (h : memo.Extends memo') {e : Event M C W}
    (he : ∀ i, e ≠ .started i) : Warranted c memo' (e :: log) := by
  intro i before hsuffix
  rcases List.suffix_cons_iff.mp hsuffix with heq | hsuffix
  · cases heq
    exact absurd rfl (he i)
  · obtain ⟨d, hadmitted, hreach⟩ := hlog i before hsuffix
    exact ⟨d, hadmitted, Catalog.reaches_extends h hreach⟩

/-- What has been answered keeps its schema's types and their fields. -/
theorem Levelled.answered_extends (hs : Levelled c s) {memo : Memo (List (Field M C W))}
    (h : s.store.memo.Extends memo) {schema : Schema M C W}
    (hmem : .answered d (.ok schema) ∈ s.log) :
    ∃ visited, c.Compiled memo d schema visited := by
  obtain ⟨visited, hcompiled⟩ := hs.answered d schema hmem
  exact ⟨visited, hcompiled.extends h⟩

theorem levelled_request (hs : Levelled c s) (w : W) (d : Description) :
    Levelled c (s.request w d) where
  focus := List.mem_cons_self
  stack _ h := by simp [State.request] at h
  started := warranted_cons hs.started (fun _ _ h => h) nofun
  answered d' schema hmem := by
    have hold : .answered d' (.ok schema) ∈ s.log := by simpa [State.request] using hmem
    exact hs.answered d' schema hold

theorem levelled_turnTo (hs : Levelled c s) {f : Focus M C W} (hf : f.Levelled c s) :
    Levelled c (s.turnTo f) := by
  have hsame : Grows s (s.turnTo f) := ⟨fun _ _ h => h, fun _ h => h⟩
  exact ⟨hf.grows hsame, fun p hp => (hs.stack p hp).grows hsame, hs.started, hs.answered⟩

/-- The thunk that starts is the one of a type that its compilation reaches. -/
theorem levelled_start (hs : Levelled c s) {v : Visit M C W} {thunk : Thunk M C W}
    (hv : Attends c s v) (h : Grows s (s.start v thunk)) : Levelled c (s.start v thunk) := by
  refine ⟨hv.grows h, fun p hp => (hs.stack p hp).grows h, ?_, fun d schema hmem => ?_⟩
  · intro i before hsuffix
    rcases List.suffix_cons_iff.mp hsuffix with heq | hsuffix
    · cases heq
      obtain ⟨hadmitted, hreach⟩ := hv.reached
      exact ⟨v.description, hadmitted, Catalog.reaches_extends h.memo hreach⟩
    · obtain ⟨d, hadmitted, hreach⟩ := hs.started i before hsuffix
      exact ⟨d, hadmitted, Catalog.reaches_extends h.memo hreach⟩
  · have hold : .answered d (.ok schema) ∈ s.log := by simpa [State.start] using hmem
    exact hs.answered_extends h.memo hold

theorem levelled_settle (hs : Levelled c s) {v : Visit M C W} (hv : Attends c s v)
    {outcome : Option (List (Field M C W))} (h : Grows s (s.settle c v outcome)) :
    Levelled c (s.settle c v outcome) := by
  refine ⟨levelled_conclude (hv.grows h) (Store.setCell_self ..),
    fun p hp => (hs.stack p hp).grows h, warranted_cons hs.started h.memo nofun,
    fun d schema hmem => ?_⟩
  have hold : .answered d (.ok schema) ∈ s.log := by simpa [State.settle] using hmem
  exact hs.answered_extends h.memo hold

theorem levelled_compile (hs : Levelled c s) {v : Visit M C W} (hv : Attends c s v)
    {next : Except DefinitionError (Schema M C W) → Thunk M C W}
    (h : Grows s (s.work c v (.compile d next))) : Levelled c (s.work c v (.compile d next)) := by
  refine ⟨List.mem_cons_self, fun p hp => ?_, warranted_cons hs.started h.memo nofun,
    fun d' schema hmem => ?_⟩
  · rcases List.mem_cons.mp hp with rfl | hp
    · exact hv.grows h
    · exact (hs.stack p hp).grows h
  · have hold : .answered d' (.ok schema) ∈ s.log := by simpa [State.work] using hmem
    exact hs.answered d' schema hold

/-- An answer is noted with what is known of it, whatever goes on after it. -/
theorem levelled_answered (hs : Levelled c s) {a : Except DefinitionError (Schema M C W)}
    (ha : (Focus.answer d a).Levelled c s) {f : Focus M C W}
    {stack : List (Pause M C W)}
    (hf : f.Levelled c ⟨f, stack, s.store, .answered d a :: s.log⟩)
    (hstack : ∀ p ∈ stack, p ∈ s.stack)
    (h : Grows s ⟨f, stack, s.store, .answered d a :: s.log⟩) :
    Levelled c ⟨f, stack, s.store, .answered d a :: s.log⟩ := by
  refine ⟨hf, fun p hp => (hs.stack p (hstack p hp)).grows h,
    warranted_cons hs.started h.memo nofun, fun d' schema hmem => ?_⟩
  rcases List.mem_cons.mp hmem with heq | hmem
  · cases heq
    exact ha schema rfl
  · exact hs.answered d' schema hmem

theorem levelled_step (ha : Accounted s) (hs : Levelled c s) : Levelled c (step c s) := by
  have hgrows := grows_step c ha
  have hlevel := hs.focus
  have hmove := move_step c s
  generalize step c s = s' at hgrows hmove ⊢
  cases hmove with
  | rests h => exact hs
  | opens h =>
    rw [h] at hlevel
    exact levelled_turnTo hs (levelled_opening hlevel)
  | proceeds h =>
    rw [h] at hlevel
    exact levelled_turnTo hs (levelled_proceed hlevel)
  | starts h hcell =>
    rw [h] at hlevel
    exact levelled_start hs hlevel hgrows
  | refuses h hcell => exact levelled_turnTo hs (levelled_fail _ _)
  | reads h hcell =>
    rw [h] at hlevel
    exact levelled_turnTo hs (levelled_conclude hlevel hcell)
  | ends h hthunk =>
    rw [h] at hlevel
    exact levelled_settle hs hlevel hgrows
  | observes h =>
    rw [h] at hlevel
    exact ⟨Attends.grows hlevel hgrows, fun p hp => (hs.stack p hp).grows hgrows, hs.started,
      hs.answered⟩
  | compiles h =>
    rw [h] at hlevel
    exact levelled_compile hs hlevel hgrows
  | answers h hstack =>
    rw [h] at hlevel
    exact levelled_answered hs hlevel trivial (fun p hp => hp) hgrows
  | @resumes d a p stack h hstack =>
    rw [h] at hlevel
    have hwaits : ∀ q ∈ p :: stack, q ∈ s.stack := fun q hq => hstack ▸ hq
    exact levelled_answered hs hlevel ((hs.stack p (hwaits p List.mem_cons_self)).grows hgrows)
      (fun q hq => hwaits q (List.mem_cons_of_mem p hq)) hgrows

end History

end GraphSchema
