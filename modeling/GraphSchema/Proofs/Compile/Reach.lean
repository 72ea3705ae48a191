import GraphSchema.Proofs.Compile.BreadthFirst
import GraphSchema.Proofs.Compile.Plans

/-! The walk visits what the roots reach.

`Reaches` says what it is to be reached: it is the least set with the roots in it
that is closed under the mentions of types. A walk that ends without an error has
visited exactly this set, each type once, in breadth-first order, and it has needed
no more visits than there are types (`walk_reaches`). The fields that a mention
stands in are those of the type's cell, as the compilation leaves it. -/
namespace GraphSchema

open BreadthFirst Walk

variable {M C W : Type}

def Description.roots (d : Description) : List Handle := d.query :: d.mutation.toList

/-- The types that a field mentions: its own, then those of its arguments. -/
def Field.references (f : Field M C W) : List Handle :=
  f.type.named.toList ++ f.arguments.filterMap (·.type.named)

namespace Catalog

/-! ### What a type mentions -/

/-- The fields in the cell of a type, if they have been computed. -/
def cellFields (memo : Memo (List (Field M C W))) (h : Handle) : List (Field M C W) :=
  match memo h.index with
  | .ready fields => fields
  | _ => []

/-- The types that a type mentions: those of the fields before the interfaces, the implementers of
an interface in the order of their places, the members of a union in their order. -/
def references (c : Catalog M C W) (memo : Memo (List (Field M C W))) (h : Handle) :
    List Handle :=
  match (c.get? h).map TypeDef.kind with
  | some (.object o) => (cellFields memo h).flatMap Field.references ++ o.interfaces
  | some (.interface _) => (cellFields memo h).flatMap Field.references ++ c.implementers h
  | some (.union u) => u.members
  | some (.enum _) | none => []

/-- The type is an object or interface of the catalog, and the field is in its cell. -/
def HasField (c : Catalog M C W) (memo : Memo (List (Field M C W))) (h : Handle)
    (f : Field M C W) : Prop :=
  (∃ t, c.get? h = some t ∧ t.kind.hasFields = true) ∧ f ∈ cellFields memo h

def IsInterface (c : Catalog M C W) (h : Handle) : Prop :=
  ∃ t i, c.get? h = some t ∧ t.kind = .interface i

/-- The types that the roots reach. -/
inductive Reaches (c : Catalog M C W) (memo : Memo (List (Field M C W))) (d : Description) :
    Handle → Prop where
  | root {h : Handle} (hroot : h ∈ d.roots) : Reaches c memo d h
  | field {h x : Handle} {f : Field M C W} (h' : Reaches c memo d h) (hf : c.HasField memo h f)
    (hx : f.type.named = some x) : Reaches c memo d x
  | argument {h x : Handle} {f : Field M C W} {a : Argument} (h' : Reaches c memo d h)
    (hf : c.HasField memo h f) (ha : a ∈ f.arguments) (hx : a.type.named = some x) :
    Reaches c memo d x
  | interface {h x : Handle} {o : ObjectDef M C W} (h' : Reaches c memo d h)
    (ho : c.object? h = some o) (hx : x ∈ o.interfaces) : Reaches c memo d x
  | implementer {h x : Handle} {o : ObjectDef M C W} (h' : Reaches c memo d h)
    (hi : c.IsInterface h) (ho : c.object? x = some o) (hx : h ∈ o.interfaces) :
    Reaches c memo d x
  | member {h x : Handle} {u : UnionDef M} (h' : Reaches c memo d h) (hu : c.union? h = some u)
    (hx : x ∈ u.members) : Reaches c memo d x

variable {c : Catalog M C W} {memo : Memo (List (Field M C W))} {d : Description}

theorem mem_field_references {f : Field M C W} {x : Handle} :
    x ∈ f.references ↔ f.type.named = some x ∨ ∃ a ∈ f.arguments, a.type.named = some x := by
  simp [Field.references]

theorem reaches_of_mem_references {h x : Handle} (hreach : c.Reaches memo d h)
    (hx : x ∈ c.references memo h) : c.Reaches memo d x := by
  have hfield : ∀ t, c.get? h = some t → t.kind.hasFields = true →
      x ∈ (cellFields memo h).flatMap Field.references → c.Reaches memo d x := by
    intro t hget hkind hmem
    obtain ⟨f, hf, hfx⟩ := List.mem_flatMap.mp hmem
    rcases mem_field_references.mp hfx with hown | ⟨a, ha, harg⟩
    · exact .field hreach ⟨⟨t, hget, hkind⟩, hf⟩ hown
    · exact .argument hreach ⟨⟨t, hget, hkind⟩, hf⟩ ha harg
  unfold references at hx
  cases hget : c.get? h with
  | none =>
    rw [hget] at hx
    cases hx
  | some t =>
    rw [hget, Option.map_some] at hx
    cases hkind : t.kind with
    | object o =>
      rw [hkind] at hx
      rcases List.mem_append.mp hx with hx | hx
      · exact hfield t hget (by rw [hkind]; rfl) hx
      · exact .interface hreach (object?_eq_some.mpr ⟨t, hget, hkind⟩) hx
    | interface i =>
      rw [hkind] at hx
      rcases List.mem_append.mp hx with hx | hx
      · exact hfield t hget (by rw [hkind]; rfl) hx
      · obtain ⟨o, ho, hmem⟩ := mem_implementers.mp hx
        exact .implementer hreach ⟨t, i, hget, hkind⟩ ho hmem
    | union u =>
      rw [hkind] at hx
      exact .member hreach (union?_eq_some.mpr ⟨t, hget, hkind⟩) hx
    | enum e =>
      rw [hkind] at hx
      cases hx

theorem references_object {h : Handle} {o : ObjectDef M C W} (ho : c.object? h = some o) :
    c.references memo h = (cellFields memo h).flatMap Field.references ++ o.interfaces := by
  obtain ⟨t, hget, hkind⟩ := object?_eq_some.mp ho
  rw [references, hget, Option.map_some, hkind]

theorem references_interface {h : Handle} (hi : c.IsInterface h) :
    c.references memo h = (cellFields memo h).flatMap Field.references ++ c.implementers h := by
  obtain ⟨t, i, hget, hkind⟩ := hi
  rw [references, hget, Option.map_some, hkind]

theorem references_union {h : Handle} {u : UnionDef M} (hu : c.union? h = some u) :
    c.references memo h = u.members := by
  obtain ⟨t, hget, hkind⟩ := union?_eq_some.mp hu
  rw [references, hget, Option.map_some, hkind]

theorem mem_references_of_field {h x : Handle} {f : Field M C W} (hf : c.HasField memo h f)
    (hx : x ∈ f.references) : x ∈ c.references memo h := by
  obtain ⟨⟨t, hget, hkind⟩, hmem⟩ := hf
  have hall : x ∈ (cellFields memo h).flatMap Field.references :=
    List.mem_flatMap.mpr ⟨f, hmem, hx⟩
  cases hk : t.kind with
  | object o =>
    rw [references_object (object?_eq_some.mpr ⟨t, hget, hk⟩)]
    exact List.mem_append_left _ hall
  | interface i =>
    rw [references_interface ⟨t, i, hget, hk⟩]
    exact List.mem_append_left _ hall
  | union u | enum e =>
    rw [hk] at hkind
    cases hkind

/-- A set with the roots in it that is closed under mentions has all that is reached in it. -/
theorem Reaches.mem_of_closed {P : Handle → Prop} (hroots : ∀ h ∈ d.roots, P h)
    (hclosed : ∀ h, P h → ∀ x ∈ c.references memo h, P x) {h : Handle}
    (hreach : c.Reaches memo d h) : P h := by
  induction hreach with
  | root hroot => exact hroots _ hroot
  | field _ hf hx ih =>
    exact hclosed _ ih _ (mem_references_of_field hf (mem_field_references.mpr (.inl hx)))
  | argument _ hf ha hx ih =>
    exact hclosed _ ih _
      (mem_references_of_field hf (mem_field_references.mpr (.inr ⟨_, ha, hx⟩)))
  | interface _ ho hx ih =>
    refine hclosed _ ih _ ?_
    rw [references_object ho]
    exact List.mem_append_right _ hx
  | implementer _ hi ho hx ih =>
    refine hclosed _ ih _ ?_
    rw [references_interface hi]
    exact List.mem_append_right _ (mem_implementers.mpr ⟨_, ho, hx⟩)
  | member _ hu hx ih =>
    refine hclosed _ ih _ ?_
    rw [references_union hu]
    exact hx

end Catalog

namespace Walk

variable {c : Catalog M C W} {d : Description} {nested : Nested M C W}

/-! ### The queue of a walk -/

def queue (w : Walk M C W) : Queue Handle := (w.visited, w.pending)

theorem enqueue_pending {w w' : Walk M C W} {m : Mention} (h : w.enqueue c m = .ok w') :
    w'.visited = w.visited ∧
      w'.pending = w.pending ++ firsts (w.visited ++ w.pending) [m.1] := by
  unfold enqueue at h
  obtain ⟨-, h⟩ := Except.of_ite_eq_ok h
  cases h
  by_cases hseen : w.isSeen m.1 = true
  · rw [if_pos hseen, firsts_cons_of_mem ((w.isSeen_iff m.1).mp hseen)]
    exact ⟨rfl, (List.append_nil _).symm⟩
  · rw [if_neg hseen, firsts_cons_of_not_mem fun hmem => hseen ((w.isSeen_iff m.1).mpr hmem)]
    exact ⟨rfl, rfl⟩

/-- What is queued is what has not been seen of the mentions. -/
theorem enqueueAll_pending {w w' : Walk M C W} {ms : List Mention}
    (h : w.enqueueAll c ms = .ok w') :
    w'.visited = w.visited ∧
      w'.pending = w.pending ++ firsts (w.visited ++ w.pending) (ms.map (·.1)) := by
  induction ms generalizing w with
  | nil =>
    cases h
    exact ⟨rfl, (List.append_nil _).symm⟩
  | cons m ms ih =>
    rw [enqueueAll] at h
    cases hm : w.enqueue c m with
    | error e => simp [hm] at h
    | ok v =>
      rw [hm] at h
      obtain ⟨hvisited, hpending⟩ := enqueue_pending hm
      obtain ⟨hvisited', hpending'⟩ := ih h
      refine ⟨hvisited'.trans hvisited, ?_⟩
      rw [hpending', hpending, hvisited, List.map_cons, ← List.singleton_append (l := ms.map _),
        firsts_append, List.append_assoc, List.append_assoc]

theorem map_fieldMentions (typeName : String) (fields : List (Field M C W)) :
    (fields.flatMap (fieldMentions typeName)).map (·.1) = fields.flatMap Field.references := by
  rw [List.map_flatMap]
  congr 1
  funext f
  simp [fieldMentions, Field.references, Function.comp_def]

/-- A visit queues what the type mentions, by the fields that its cell is left with. -/
theorem map_mentions {h : Handle} {t : TypeDef M C W} (hget : c.get? h = some t)
    {memo : Memo (List (Field M C W))} {fields : List (Field M C W)}
    (hready : t.kind.hasFields = true → memo h.index = .ready fields) :
    (mentions c h t fields).map (·.1) = c.references memo h := by
  unfold mentions Catalog.references Catalog.cellFields
  rw [hget, Option.map_some]
  cases hkind : t.kind with
  | object o =>
    rw [hready (by rw [hkind]; rfl)]
    simp [map_fieldMentions, Function.comp_def]
  | interface i =>
    rw [hready (by rw [hkind]; rfl)]
    simp [map_fieldMentions, Function.comp_def]
  | union u => simp [Function.comp_def]
  | enum e => rfl

/-- A visit is a turn of the queue, whatever is computed after it. -/
theorem visit_turn (hnested : nested.Keeps c) {w w' : Walk M C W} {h : Handle}
    {rest : List Handle} {s s' final : Store M C W} (hpending : w.pending = h :: rest)
    (hvisit : visit nested c { w with pending := rest } h s = (.ok w', s'))
    (hfinal : Store.Keeps c s' final) :
    w'.queue = turn (c.references final.memo) w.queue := by
  obtain ⟨t, fields, hget, -, -, -, hfields, henqueue⟩ := visit_cases hvisit
  obtain ⟨hvisited, hqueued⟩ := enqueueAll_pending henqueue
  have hspec := (fieldsOf_spec hnested hget s).2 fields
  rw [hfields] at hspec
  rw [map_mentions hget fun hkind => hfinal.ready _ _ (hspec rfl hkind)] at hqueued
  simp only [queue, hpending, turn, hvisited, hqueued, entered, List.append_assoc,
    List.singleton_append]

/-- A run that may make a visit is at its end, or makes it and runs on. -/
theorem run_succ_cases {fuel : Nat} {w w' : Walk M C W} {s s' : Store M C W}
    (hrun : run nested c (fuel + 1) w s = (.ok w', s')) :
    (w.pending = [] ∧ w' = w ∧ s' = s) ∨ ∃ h rest v s'', w.pending = h :: rest ∧
      visit nested c { w with pending := rest } h s = (.ok v, s'') ∧
      v.visited = w.visited ++ [h] ∧ run nested c fuel v s'' = (.ok w', s') := by
  rw [run] at hrun
  cases hpending : w.pending with
  | nil =>
    rw [hpending] at hrun
    cases hrun
    exact .inl ⟨rfl, rfl, rfl⟩
  | cons h rest =>
    rw [hpending] at hrun
    dsimp only at hrun
    rcases hv : visit nested c { w with pending := rest } h s with ⟨result, s''⟩
    rw [hv] at hrun
    cases result with
    | error e => simp at hrun
    | ok v =>
      obtain ⟨t, fields, -, -, -, -, -, henqueue⟩ := visit_cases hv
      exact .inr ⟨h, rest, v, s'', rfl, hv, (enqueueAll_pending henqueue).1, hrun⟩

theorem run_succ_of_visit {fuel : Nat} {w v : Walk M C W} {h : Handle} {rest : List Handle}
    {s s' : Store M C W} (hpending : w.pending = h :: rest)
    (hvisit : visit nested c { w with pending := rest } h s = (.ok v, s')) :
    run nested c (fuel + 1) w s = run nested c fuel v s' := by
  rw [run, hpending]
  dsimp only
  rw [hvisit]

/-- A run is as many turns as it may make visits. -/
theorem run_turns (hnested : nested.Keeps c) {fuel : Nat} {w w' : Walk M C W}
    {s s' : Store M C W} (hrun : run nested c fuel w s = (.ok w', s')) :
    w'.queue = (turn (c.references s'.memo))^[fuel] w.queue := by
  induction fuel generalizing w s with
  | zero =>
    cases hrun
    rfl
  | succ fuel ih =>
    rcases run_succ_cases hrun with ⟨hpending, rfl, rfl⟩ | ⟨h, rest, v, s'', hpending, hv, -, hrun⟩
    · rw [queue, hpending, turn_iterate_nil]
    · have hkeeps := keeps_run hnested fuel v s''
      rw [hrun] at hkeeps
      rw [Function.iterate_succ_apply, ← visit_turn hnested hpending hv hkeeps, ih hrun]

theorem start_queue {w : Walk M C W} (hstart : start c d = .ok w) :
    w.queue = ([], firsts [] d.roots) := by
  obtain ⟨hvisited, hpending⟩ := enqueueAll_pending hstart
  rw [queue, hvisited, hpending]
  simp [empty, Description.roots, Function.comp_def]

/-! ### How many visits there are -/

theorem run_visited {fuel : Nat} {w w' : Walk M C W} {s s' : Store M C W}
    (hrun : run nested c fuel w s = (.ok w', s')) : w.visited.length ≤ w'.visited.length := by
  induction fuel generalizing w s with
  | zero =>
    cases hrun
    exact Nat.le_refl _
  | succ fuel ih =>
    rcases run_succ_cases hrun with ⟨-, rfl, -⟩ | ⟨h, rest, v, s'', -, -, hvisited, hrun⟩
    · exact Nat.le_refl _
    · have hle := ih hrun
      rw [hvisited, List.length_append] at hle
      exact Nat.le_trans (Nat.le_add_right ..) hle

/-- A run that has come to its end comes to it whenever it may make as many visits as it did. -/
theorem run_of_finished {fuel : Nat} {w w' : Walk M C W} {s s' : Store M C W}
    (hrun : run nested c fuel w s = (.ok w', s')) (hend : w'.pending = []) {bound : Nat}
    (hbound : w'.visited.length ≤ w.visited.length + bound) :
    run nested c bound w s = (.ok w', s') := by
  induction bound generalizing fuel w s with
  | zero =>
    cases fuel with
    | zero => exact hrun
    | succ fuel =>
      rcases run_succ_cases hrun with ⟨-, rfl, rfl⟩ | ⟨h, rest, v, s'', -, -, hvisited, hrun⟩
      · rfl
      · have hle := run_visited hrun
        rw [hvisited, List.length_append, List.length_singleton] at hle
        omega
  | succ bound ih =>
    cases fuel with
    | zero =>
      cases hrun
      rw [run, hend]
    | succ fuel =>
      rcases run_succ_cases hrun with
        ⟨hpending, rfl, rfl⟩ | ⟨h, rest, v, s'', hpending, hv, hvisited, hrun⟩
      · rw [run, hpending]
      · rw [run_succ_of_visit hpending hv]
        refine ih hrun ?_
        rw [hvisited, List.length_append, List.length_singleton]
        omega

theorem run_of_error {fuel : Nat} {w : Walk M C W} {s s' : Store M C W} {e : DefinitionError}
    (hrun : run nested c fuel w s = (.error e, s')) {bound : Nat} (hbound : fuel ≤ bound) :
    run nested c bound w s = (.error e, s') := by
  induction bound generalizing fuel w s with
  | zero =>
    cases Nat.le_zero.mp hbound
    exact hrun
  | succ bound ih =>
    cases fuel with
    | zero => cases hrun
    | succ fuel =>
      rw [run] at hrun ⊢
      split at hrun
      · cases hrun
      · split at hrun
        · exact ih hrun (Nat.le_of_succ_le_succ hbound)
        · exact hrun

end Walk

namespace Catalog

variable {c : Catalog M C W} {d : Description} {depth : Nat} {st st' : Store M C W}
  {w : Walk M C W}

/-! ### The finished walk -/

/-- The types are those that the roots reach, each once and in breadth-first order. -/
structure Traverses (c : Catalog M C W) (memo : Memo (List (Field M C W))) (d : Description)
    (visited : List Handle) : Prop where
  nodup : visited.Nodup
  reached : ∀ h, h ∈ visited ↔ c.Reaches memo d h
  /-- There are no more levels than types. -/
  levels : ∀ depth ≥ c.size, visited = order (c.references memo) depth d.roots
  known : ∀ h ∈ visited, (c.get? h).isSome
  length_le : visited.length ≤ c.size

theorem walk_turns (h : c.walk depth c.size d st = (.ok w, st')) :
    (turn (c.references st'.memo))^[c.size] ([], firsts [] d.roots) = (w.visited, []) := by
  obtain ⟨w₀, hstart, hrun⟩ := walk_ok h
  have hturns := run_turns (c.keeps_nestedAt depth) hrun
  rw [start_queue hstart, queue, (finished_of_walk h).pending] at hturns
  exact hturns.symm

theorem closed_of_finished (hw : Walk.Finished c d w st) {h x : Handle} (hh : h ∈ w.visited)
    (hx : x ∈ c.references st.memo h) : x ∈ w.visited := by
  obtain ⟨t, hget⟩ := hw.get? hh
  obtain ⟨fields, hfields⟩ := fields?_of_mem (h := h) (hw.sound.listed.symm ▸ hh)
  rw [← map_mentions hget fun hkind => hw.ready hget hfields hkind] at hx
  obtain ⟨m, hm, rfl⟩ := List.mem_map.mp hx
  exact hw.mentions_visited hget hfields hm

theorem visited_of_reaches (hw : Walk.Finished c d w st) {h : Handle}
    (hreach : c.Reaches st.memo d h) : h ∈ w.visited := by
  refine hreach.mem_of_closed (P := (· ∈ w.visited)) (fun x hx => ?_)
    fun x hx y hy => closed_of_finished hw hx hy
  rcases List.mem_cons.mp hx with rfl | hx
  · exact hw.query
  · exact hw.mutation x (Option.mem_toList.mp hx)

theorem reaches_of_visited (h : c.walk depth c.size d st = (.ok w, st')) {x : Handle}
    (hx : x ∈ w.visited) : c.Reaches st'.memo d x := by
  have hroots : ∀ y ∈ [] ++ firsts [] d.roots, c.Reaches st'.memo d y := fun y hy =>
    .root (mem_of_mem_firsts (by simpa using hy))
  have hall := forall_mem_turn_iterate (c.references st'.memo)
    (fun y hy z hz => reaches_of_mem_references hy hz) c.size (q := ([], firsts [] d.roots)) hroots
  rw [walk_turns h] at hall
  exact hall x (List.mem_append_left _ hx)

theorem traverses_of_walk (h : c.walk depth c.size d st = (.ok w, st')) :
    c.Traverses st'.memo d w.visited := by
  have hw := finished_of_walk h
  have hnodup : w.visited.Nodup := (List.nodup_append.mp hw.sound.nodup).1
  have hknown : ∀ x ∈ w.visited, (c.get? x).isSome := fun x hx =>
    hw.sound.known x (List.mem_append_left _ hx)
  refine ⟨hnodup, fun x => ⟨reaches_of_visited h, visited_of_reaches hw⟩, fun n hn => ?_,
    hknown, ?_⟩
  · rw [done_eq_levels (walk_turns h) hn, order, List.nil_append]
  · rw [← length_handles]
    exact hnodup.length_le_of_subset fun x hx => mem_handles.mpr (hknown x hx)

/-- A walk that may make more visits than there are types does not make them. -/
theorem walk_of_size_le {visits : Nat} (hvisits : c.size ≤ visits) :
    c.walk depth visits d st = c.walk depth c.size d st := by
  rcases hwalk : c.walk depth c.size d st with ⟨result, st'⟩
  unfold walk at hwalk ⊢
  cases hstart : start c d with
  | error e =>
    rw [hstart] at hwalk
    exact hwalk
  | ok w₀ =>
    rw [hstart] at hwalk
    cases result with
    | error e => exact run_of_error hwalk hvisits
    | ok w =>
      have hwhole : c.walk depth c.size d st = (.ok w, st') := by
        rw [walk, hstart]
        exact hwalk
      have hlength := (traverses_of_walk hwhole).length_le
      exact run_of_finished hwalk (finished_of_walk hwhole).pending (by omega)

/-- A compiled schema is linked from a walk that has visited what the roots reach. -/
theorem visited_of_compile {s : Schema M C W} (hcompile : c.compile d st = (.ok s, st')) :
    ∃ w, Link.Linking c d w st' s ∧ ∀ h, h ∈ w.visited ↔ c.Reaches st'.memo d h := by
  obtain ⟨w, hwalk, hlink⟩ := walk_of_compileAt hcompile
  exact ⟨w, ⟨finished_of_walk hwalk, hlink⟩, (traverses_of_walk hwalk).reached⟩

/-- The plans of a compiled schema only come to types that it has, if what the roots reach is well
formed. -/
theorem linked_of_compile {s : Schema M C W} (hcompile : c.compile d st = (.ok s, st'))
    (hwf : Link.WellFormed c st'.memo (c.Reaches st'.memo d)) :
    ∃ w, Link.Linking c d w st' s ∧ Direct.Linked s := by
  obtain ⟨w, hs, hreached⟩ := visited_of_compile hcompile
  exact ⟨w, hs, hs.linked fun h def_ hh => hwf h def_ ((hreached h).mp hh)⟩

/-- **The walk computes what the roots reach, each type once.** For compilations at any depth of
nesting (`compile` is the one at depth `size`): a walk that ends without an error has visited the
reachable types in breadth-first order and has nothing pending, after one visit for each; a larger
bound on the visits than the number of types changes no outcome, so the bound cuts nothing off; a
schema names its types in that order; and if a handle of no type is reached the compilation
fails. -/
theorem walk_reaches (c : Catalog M C W) (d : Description) (depth : Nat) (st : Store M C W) :
    (∀ w st', c.walk depth c.size d st = (.ok w, st') →
      c.Traverses st'.memo d w.visited ∧ w.pending = [] ∧
        c.walk depth w.visited.length d st = (.ok w, st')) ∧
    (∀ visits ≥ c.size, c.walk depth visits d st = c.walk depth c.size d st) ∧
    (∀ s st', c.compileAt depth d st = (.ok s, st') →
      s.typeNames = (order (c.references st'.memo) c.size d.roots).map c.nameOf) ∧
    ∀ h, c.Reaches (c.compileAt depth d st).2.memo d h → c.get? h = none →
      ∃ e, (c.compileAt depth d st).1 = .error e := by
  refine ⟨fun w st' hwalk => ?_, fun visits hvisits => walk_of_size_le hvisits,
    fun s st' hcompile => ?_, fun h hreach hnone => ?_⟩
  · have hpending := (finished_of_walk hwalk).pending
    refine ⟨traverses_of_walk hwalk, hpending, ?_⟩
    obtain ⟨w₀, hstart, hrun⟩ := walk_ok hwalk
    rw [walk, hstart]
    exact run_of_finished hrun hpending (Nat.le_add_left ..)
  · obtain ⟨w, hwalk, hlink⟩ := walk_of_compileAt hcompile
    have hnames := Link.Linking.typeNames_eq ⟨finished_of_walk hwalk, hlink⟩
    rw [hnames, ← (traverses_of_walk hwalk).levels c.size (Nat.le_refl _)]
  · rcases hcompile : c.compileAt depth d st with ⟨_ | s, st'⟩
    · exact ⟨_, rfl⟩
    · rw [hcompile] at hreach
      obtain ⟨w, hwalk, -⟩ := walk_of_compileAt hcompile
      have htraverses := traverses_of_walk hwalk
      have hknown := htraverses.known h ((htraverses.reached h).mpr hreach)
      rw [hnone] at hknown
      cases hknown

/-- The roots of Star Wars reach its five types; the first place of another catalog is a type of
none, so it is no root to compile from. -/
theorem walk_reaches_starWars :
    (∃ w, StarWars.catalog.1.walk 5 5 { query := StarWars.catalog.2 } ⟨Memo.fresh, ()⟩ =
        (.ok w, Link.starWars.2) ∧
      StarWars.catalog.1.Traverses Link.starWars.2.memo { query := StarWars.catalog.2 } w.visited ∧
      w.pending = []) ∧
    StarWars.catalog.1.walk 5 100 { query := StarWars.catalog.2 } ⟨Memo.fresh, ()⟩ =
      StarWars.catalog.1.walk 5 5 { query := StarWars.catalog.2 } ⟨Memo.fresh, ()⟩ ∧
    Link.starWarsSchema.typeNames = ["Query", "Character", "Episode", "Human", "Droid"] ∧
    ∃ e, (StarWars.catalog.1.compileAt 5 { query := ⟨1, 0⟩ } ⟨Memo.fresh, ()⟩).1 = .error e := by
  obtain ⟨hfinished, hbound, hnames, -⟩ :=
    walk_reaches StarWars.catalog.1 { query := StarWars.catalog.2 } 5 ⟨Memo.fresh, ()⟩
  obtain ⟨-, -, -, hforeign⟩ :=
    walk_reaches StarWars.catalog.1 { query := ⟨1, 0⟩ } 5 ⟨Memo.fresh, ()⟩
  obtain ⟨w, hwalk, -⟩ := walk_of_compileAt Link.starWars_compiles
  refine ⟨⟨w, hwalk, (hfinished w _ hwalk).1, (hfinished w _ hwalk).2.1⟩,
    hbound 100 (by decide +kernel), ?_, hforeign ⟨1, 0⟩ (.root (by decide)) (by decide +kernel)⟩
  rw [hnames Link.starWarsSchema Link.starWars.2 Link.starWars_compiles]
  decide +kernel

end Catalog

end GraphSchema
