import GraphSchema.Proofs.Compile.Store

/-! The walk over a catalog and what it leaves.

`Sound` is kept by each visit. It says of a walk that has come so far what the
linker needs of a finished one: the visited types are known, have names of their
own, and mention only types that were or will be visited. There are no more visits
than types, so at the end nothing is left to visit (`run_sound`). -/
namespace GraphSchema

open Store

variable {M C W : Type}

namespace Catalog

theorem nameOf_eq {c : Catalog M C W} {h : Handle} {t : TypeDef M C W} (ht : c.get? h = some t) :
    c.nameOf h = t.name := by
  simp [nameOf, typeName?, ht]

theorem backing?_eq {c : Catalog M C W} {h : Handle} {t : TypeDef M C W} (ht : c.get? h = some t) :
    c.backing? h = some t.kind.backing := by
  simp [backing?, ht]

theorem mem_handles {c : Catalog M C W} {h : Handle} : h ∈ c.handles ↔ (c.get? h).isSome := by
  obtain ⟨id, index⟩ := h
  simp only [handles, handle, List.mem_map, List.mem_range, size, get?]
  constructor
  · rintro ⟨i, hi, heq⟩
    cases heq
    simp [hi]
  · intro h
    by_cases hid : id = c.id
    · refine ⟨index, ?_, by rw [hid]⟩
      simpa [hid] using h
    · simp [hid] at h

theorem length_handles (c : Catalog M C W) : c.handles.length = c.size := by
  simp [handles]

theorem object?_eq_some {c : Catalog M C W} {h : Handle} {o : ObjectDef M C W} :
    c.object? h = some o ↔ ∃ t, c.get? h = some t ∧ t.kind = .object o := by
  unfold object?
  constructor
  · intro ho
    split at ho
    · next hget =>
      cases ho
      exact ⟨_, hget, rfl⟩
    · cases ho
  · rintro ⟨⟨name, description, kind⟩, hget, rfl⟩
    rw [hget]

theorem union?_eq_some {c : Catalog M C W} {h : Handle} {u : UnionDef M} :
    c.union? h = some u ↔ ∃ t, c.get? h = some t ∧ t.kind = .union u := by
  unfold union?
  constructor
  · intro hu
    split at hu
    · next hget =>
      cases hu
      exact ⟨_, hget, rfl⟩
    · cases hu
  · rintro ⟨⟨name, description, kind⟩, hget, rfl⟩
    rw [hget]

theorem enum?_eq_some {c : Catalog M C W} {h : Handle} {e : EnumDef} :
    c.enum? h = some e ↔ ∃ t, c.get? h = some t ∧ t.kind = .enum e := by
  unfold enum?
  constructor
  · intro he
    split at he
    · next hget =>
      cases he
      exact ⟨_, hget, rfl⟩
    · cases he
  · rintro ⟨⟨name, description, kind⟩, hget, rfl⟩
    rw [hget]

theorem mem_implementers {c : Catalog M C W} {h x : Handle} :
    x ∈ c.implementers h ↔ ∃ o, c.object? x = some o ∧ h ∈ o.interfaces := by
  rw [implementers, List.mem_filter, implements]
  constructor
  · rintro ⟨-, himplements⟩
    split at himplements
    · next o ho => exact ⟨o, ho, by simpa using himplements⟩
    · cases himplements
  · rintro ⟨o, ho, hmem⟩
    obtain ⟨t, hget, -⟩ := object?_eq_some.mp ho
    exact ⟨mem_handles.mpr (by rw [hget]; rfl), by rw [ho]; simpa using hmem⟩

end Catalog

namespace Walk

/-! ### The queue -/

/-- What queueing mentions does to a walk. -/
structure Queued (c : Catalog M C W) (w : Walk M C W) (ms : List Mention) (w' : Walk M C W) :
    Prop where
  visited : w'.visited = w.visited
  names : w'.names = w.names
  fields : w'.fields = w.fields
  seen : ∀ h, h ∈ w'.visited ++ w'.pending ↔ h ∈ w.visited ++ w.pending ∨ h ∈ ms.map (·.1)
  nodup : (w.visited ++ w.pending).Nodup → (w'.visited ++ w'.pending).Nodup
  known : ∀ m ∈ ms, (c.get? m.1).isSome

theorem isSeen_iff (w : Walk M C W) (h : Handle) :
    w.isSeen h = true ↔ h ∈ w.visited ++ w.pending := by
  simp [isSeen]

theorem enqueue_spec {c : Catalog M C W} {w w' : Walk M C W} {m : Mention}
    (h : w.enqueue c m = .ok w') : Queued c w [m] w' := by
  unfold enqueue at h
  cases hget : c.get? m.1 with
  | none => simp [hget] at h
  | some t =>
    simp only [hget, Option.isNone_some, Bool.false_eq_true, if_false, Except.ok.injEq] at h
    have hknown : ∀ m' ∈ [m], (c.get? m'.1).isSome := by
      intro m' hm'
      rw [List.mem_singleton.mp hm', hget]
      rfl
    by_cases hseen : w.isSeen m.1 = true
    · rw [if_pos hseen] at h
      subst h
      refine ⟨rfl, rfl, rfl, fun h => ?_, id, hknown⟩
      have hmem := (w.isSeen_iff m.1).mp hseen
      constructor
      · exact .inl
      · rintro (hw | hm)
        · exact hw
        · exact List.mem_singleton.mp hm ▸ hmem
    · rw [if_neg hseen] at h
      subst h
      have hnew : m.1 ∉ w.visited ++ w.pending := fun hmem => hseen ((w.isSeen_iff m.1).mpr hmem)
      refine ⟨rfl, rfl, rfl, fun h => ?_, fun hnodup => ?_, hknown⟩
      · simp only [List.map_cons, List.map_nil, ← List.append_assoc, List.mem_append]
      · rw [← List.append_assoc]
        refine List.nodup_append.mpr ⟨hnodup, by simp, fun a ha b hb => ?_⟩
        rw [List.mem_singleton.mp hb]
        exact fun e => hnew (e ▸ ha)

theorem enqueueAll_spec {c : Catalog M C W} {w w' : Walk M C W} {ms : List Mention}
    (h : w.enqueueAll c ms = .ok w') : Queued c w ms w' := by
  induction ms generalizing w with
  | nil =>
    cases h
    exact ⟨rfl, rfl, rfl, by simp, id, nofun⟩
  | cons m ms ih =>
    rw [enqueueAll] at h
    cases hm : w.enqueue c m with
    | error e => simp [hm] at h
    | ok v =>
      rw [hm] at h
      have hfirst := enqueue_spec hm
      have hrest := ih h
      refine ⟨hrest.visited.trans hfirst.visited, hrest.names.trans hfirst.names,
        hrest.fields.trans hfirst.fields, fun x => ?_, hrest.nodup ∘ hfirst.nodup, ?_⟩
      · rw [hrest.seen, hfirst.seen, List.map_cons, List.map_cons, List.map_nil,
          List.mem_singleton, List.mem_cons, or_assoc]
      · intro m' hm'
        rcases List.mem_cons.mp hm' with rfl | hm'
        · exact hfirst.known m' (List.mem_singleton_self m')
        · exact hrest.known m' hm'

/-! ### A visit -/

/-- The walk while `h`, of that definition, is being visited and its fields are known. -/
def entered (w : Walk M C W) (h : Handle) (t : TypeDef M C W) (fields : List (Field M C W)) :
    Walk M C W :=
  ⟨w.visited ++ [h], w.pending, w.names ++ [(t.name, h)], w.fields ++ [(h, fields)]⟩

theorem claimName_spec {w w' : Walk M C W} {h : Handle} {name : String}
    (hclaim : w.claimName h name = .ok w') :
    Text.isDeclarable name = true ∧ Scalar.isBuiltin name = false ∧
      (∀ owner, (name, owner) ∈ w.names → owner = h) ∧
      w' = { w with names := w.names ++ [(name, h)] } := by
  unfold claimName at hclaim
  split at hclaim
  · cases hclaim
  · next hdeclarable =>
    split at hclaim
    · cases hclaim
    · next hfree =>
      obtain ⟨hbuiltin, hfree⟩ := Bool.or_eq_false_iff.mp ((Bool.not_eq_true _).mp hfree)
      refine ⟨by simpa using hdeclarable, hbuiltin, fun owner hmem => ?_,
        (Except.ok.inj hclaim).symm⟩
      have hnone := List.any_eq_false.mp hfree (name, owner) hmem
      simpa using hnone

theorem visit_cases {nested : Nested M C W} {c : Catalog M C W} {w w' : Walk M C W} {h : Handle}
    {s s' : Store M C W} (hvisit : visit nested c w h s = (.ok w', s')) :
    ∃ t fields, c.get? h = some t ∧ Text.isDeclarable t.name = true ∧
      Scalar.isBuiltin t.name = false ∧ (∀ owner, (t.name, owner) ∈ w.names → owner = h) ∧
      fieldsOf nested h t s = (.ok fields, s') ∧
      (w.entered h t fields).enqueueAll c (mentions c h t fields) = .ok w' := by
  unfold visit at hvisit
  cases hget : c.get? h with
  | none => simp [hget] at hvisit
  | some t =>
    rw [hget] at hvisit
    dsimp only at hvisit
    cases hclaim : { w with visited := w.visited ++ [h] }.claimName h t.name with
    | error e => simp [hclaim] at hvisit
    | ok v =>
      rw [hclaim] at hvisit
      obtain ⟨hdeclarable, hbuiltin, howner, rfl⟩ := claimName_spec hclaim
      rcases hfields : fieldsOf nested h t s with ⟨result, s''⟩
      rw [hfields] at hvisit
      cases result with
      | error e => simp at hvisit
      | ok fields =>
        simp only [Prod.mk.injEq] at hvisit
        obtain ⟨hqueue, rfl⟩ := hvisit
        exact ⟨t, fields, rfl, hdeclarable, hbuiltin, howner, hfields, hqueue⟩

/-! ### The invariant -/

structure Sound (c : Catalog M C W) (w : Walk M C W) (s : Store M C W) : Prop where
  nodup : (w.visited ++ w.pending).Nodup
  known : ∀ h ∈ w.visited ++ w.pending, (c.get? h).isSome
  names : w.names = w.visited.map fun h => (c.nameOf h, h)
  proper : ∀ h ∈ w.visited,
    Text.isDeclarable (c.nameOf h) = true ∧ Scalar.isBuiltin (c.nameOf h) = false
  /-- No two visited types share a name. -/
  distinct : ∀ h ∈ w.visited, ∀ h' ∈ w.visited, c.nameOf h = c.nameOf h' → h = h'
  listed : w.fields.map (·.1) = w.visited
  /-- What visited types mention has been seen. -/
  closed : ∀ h fields t, (h, fields) ∈ w.fields → c.get? h = some t →
    ∀ m ∈ mentions c h t fields, m.1 ∈ w.visited ++ w.pending
  /-- The fields of visited types are still in their cells. -/
  ready : ∀ h fields t, (h, fields) ∈ w.fields → c.get? h = some t → t.kind.hasFields = true →
    s.memo h.index = .ready fields

theorem start_sound {c : Catalog M C W} {d : Description} {w : Walk M C W}
    (hstart : start c d = .ok w) (s : Store M C W) :
    Sound c w s ∧ w.visited = [] ∧ d.query ∈ w.pending ∧ ∀ m ∈ d.mutation, m ∈ w.pending := by
  have hqueued := enqueueAll_spec hstart
  have hvisited : w.visited = [] := hqueued.visited
  have hseen : ∀ h, h ∈ w.pending ↔ h = d.query ∨ h ∈ d.mutation := by
    intro h
    have hiff := hqueued.seen h
    rw [hvisited] at hiff
    simpa [empty] using hiff
  have hfields : w.fields = [] := hqueued.fields
  refine ⟨⟨hqueued.nodup (by simp [empty]), fun h hmem => ?_, ?_, ?_, ?_, ?_, ?_, ?_⟩, hvisited,
    (hseen _).mpr (.inl rfl), fun m hm => (hseen m).mpr (.inr hm)⟩
  · rcases (hqueued.seen h).mp hmem with hold | hmem
    · exact absurd hold (by simp [empty])
    · obtain ⟨m, hm, rfl⟩ := List.mem_map.mp hmem
      exact hqueued.known m hm
  · rw [hvisited]
    exact hqueued.names
  · simp [hvisited]
  · simp [hvisited]
  · rw [hfields, hvisited]
    rfl
  · simp [hfields]
  · simp [hfields]

/-- One more type whose name is free keeps the names apart. -/
theorem distinct_of_free {c : Catalog M C W} {visited : List Handle} {h : Handle}
    (hdistinct : ∀ x ∈ visited, ∀ y ∈ visited, c.nameOf x = c.nameOf y → x = y)
    (hfree : ∀ x ∈ visited, c.nameOf x = c.nameOf h → x = h) :
    ∀ x ∈ visited ++ [h], ∀ y ∈ visited ++ [h], c.nameOf x = c.nameOf y → x = y := by
  intro x hx y hy hxy
  rcases List.mem_append.mp hx with hx | hx <;> rcases List.mem_append.mp hy with hy | hy
  · exact hdistinct x hx y hy hxy
  · rw [List.mem_singleton.mp hy] at hxy ⊢
    exact hfree x hx hxy
  · rw [List.mem_singleton.mp hx] at hxy ⊢
    exact (hfree y hy hxy.symm).symm
  · rw [List.mem_singleton.mp hx, List.mem_singleton.mp hy]

/-- A visit of the next type in the queue keeps the invariant. -/
theorem visit_sound {nested : Nested M C W} {c : Catalog M C W} (hnested : nested.Keeps c)
    {w w' : Walk M C W} {h : Handle} {rest : List Handle} {s s' : Store M C W}
    (hpending : w.pending = h :: rest) (hw : Sound c w s)
    (hvisit : visit nested c { w with pending := rest } h s = (.ok w', s')) :
    Sound c w' s' ∧ w'.visited = w.visited ++ [h] ∧
      ∀ x ∈ w.visited ++ w.pending, x ∈ w'.visited ++ w'.pending := by
  obtain ⟨t, fields, hget, hdeclarable, hbuiltin, howner, hfields, henqueue⟩ := visit_cases hvisit
  have hqueued := enqueueAll_spec henqueue
  have hvisited : w'.visited = w.visited ++ [h] := hqueued.visited
  have hname : c.nameOf h = t.name := Catalog.nameOf_eq hget
  have hold : w.visited ++ [h] ++ rest = w.visited ++ w.pending := by
    rw [hpending, List.append_assoc, List.singleton_append]
  have hseen : ∀ x, x ∈ w'.visited ++ w'.pending ↔
      x ∈ w.visited ++ w.pending ∨ x ∈ (mentions c h t fields).map (·.1) := by
    intro x
    rw [hqueued.seen x, ← hold]
    rfl
  have hlisted : w'.fields = w.fields ++ [(h, fields)] := hqueued.fields
  refine ⟨⟨hqueued.nodup ?_, fun x hx => ?_, ?_, fun x hx => ?_, ?_, ?_, ?_, ?_⟩, hvisited,
    fun x hx => (hseen x).mpr (.inl hx)⟩
  · have hnodup := hw.nodup
    rw [← hold] at hnodup
    exact hnodup
  · rcases (hseen x).mp hx with hx | hx
    · exact hw.known x hx
    · obtain ⟨m, hm, rfl⟩ := List.mem_map.mp hx
      exact hqueued.known m hm
  · rw [hqueued.names, hvisited]
    simp [entered, hw.names, hname]
  · rw [hvisited] at hx
    rcases List.mem_append.mp hx with hx | hx
    · exact hw.proper x hx
    · rw [List.mem_singleton.mp hx, hname]
      exact ⟨hdeclarable, hbuiltin⟩
  · -- the name of the visited type was free, so it is new among the names so far
    rw [hvisited]
    refine distinct_of_free hw.distinct fun x hx hxname => howner x ?_
    show (t.name, x) ∈ w.names
    rw [hw.names]
    exact List.mem_map.mpr ⟨x, hx, by rw [hxname, hname]⟩
  · rw [hlisted, hvisited, List.map_append, hw.listed]
    rfl
  · intro x fields' t' hmem ht' m hm
    rw [hlisted] at hmem
    rcases List.mem_append.mp hmem with hmem | hmem
    · exact (hseen _).mpr (.inl (hw.closed x fields' t' hmem ht' m hm))
    · cases List.mem_singleton.mp hmem
      rw [hget] at ht'
      cases ht'
      exact (hseen _).mpr (.inr (List.mem_map_of_mem hm))
  · intro x fields' t' hmem ht' hsome
    have hspec := fieldsOf_spec hnested hget s
    rw [hfields] at hspec
    rw [hlisted] at hmem
    rcases List.mem_append.mp hmem with hmem | hmem
    · exact hspec.1.ready _ _ (hw.ready x fields' t' hmem ht' hsome)
    · cases List.mem_singleton.mp hmem
      rw [hget] at ht'
      cases ht'
      exact hspec.2 fields rfl hsome

/-- A walk of as many visits as there are types visits all that it has seen. -/
theorem run_sound {nested : Nested M C W} {c : Catalog M C W} (hnested : nested.Keeps c)
    {fuel : Nat} {w w' : Walk M C W} {s s' : Store M C W} (hw : Sound c w s)
    (hfuel : w.visited.length + fuel = c.size) (hrun : run nested c fuel w s = (.ok w', s')) :
    Sound c w' s' ∧ w'.pending = [] ∧ ∀ h ∈ w.visited ++ w.pending, h ∈ w'.visited := by
  induction fuel generalizing w s with
  | zero =>
    cases hrun
    have hbound : (w'.visited ++ w'.pending).length ≤ c.handles.length :=
      hw.nodup.length_le_of_subset fun h hh => Catalog.mem_handles.mpr (hw.known h hh)
    rw [Catalog.length_handles, List.length_append] at hbound
    have hempty : w'.pending = [] := List.eq_nil_of_length_eq_zero (by omega)
    exact ⟨hw, hempty, fun h hh => by simpa [hempty] using hh⟩
  | succ fuel ih =>
    rw [run] at hrun
    cases hpending : w.pending with
    | nil =>
      rw [hpending] at hrun
      cases hrun
      exact ⟨hw, hpending, fun h hh => by simpa using hh⟩
    | cons h rest =>
      rw [hpending] at hrun
      dsimp only at hrun
      rcases hv : visit nested c { w with pending := rest } h s with ⟨result, s''⟩
      rw [hv] at hrun
      cases result with
      | error e => simp at hrun
      | ok v =>
        obtain ⟨hsound, hvisited, hkept⟩ := visit_sound hnested hpending hw hv
        have hlength : v.visited.length + fuel = c.size := by
          rw [hvisited, List.length_append, List.length_singleton]
          omega
        obtain ⟨hfinal, hempty, hall⟩ := ih hsound hlength hrun
        rw [hpending] at hkept
        exact ⟨hfinal, hempty, fun x hx => hall x (hkept x hx)⟩

/-! ### Finished walks -/

/-- What holds of a walk that has come to its end. -/
structure Finished (c : Catalog M C W) (d : Description) (w : Walk M C W) (s : Store M C W) :
    Prop where
  sound : Sound c w s
  pending : w.pending = []
  query : d.query ∈ w.visited
  mutation : ∀ m ∈ d.mutation, m ∈ w.visited

theorem finished_of_run {nested : Nested M C W} {c : Catalog M C W} (hnested : nested.Keeps c)
    {d : Description} {w w' : Walk M C W} {s s' : Store M C W} (hstart : start c d = .ok w)
    (hrun : run nested c c.size w s = (.ok w', s')) : Finished c d w' s' := by
  obtain ⟨hsound, hvisited, hquery, hmutation⟩ := start_sound hstart s
  obtain ⟨hfinal, hempty, hall⟩ := run_sound hnested hsound (by simp [hvisited]) hrun
  exact ⟨hfinal, hempty, hall _ (List.mem_append_right _ hquery),
    fun m hm => hall m (List.mem_append_right _ (hmutation m hm))⟩

section

variable {c : Catalog M C W} {d : Description} {w : Walk M C W} {s : Store M C W}

theorem Finished.get? (hw : Finished c d w s) {h : Handle} (hh : h ∈ w.visited) :
    ∃ t, c.get? h = some t :=
  Option.isSome_iff_exists.mp (hw.sound.known h (List.mem_append_left _ hh))

theorem mem_fields_of_fields? {h : Handle} {fields : List (Field M C W)}
    (hfields : w.fields? h = some fields) : (h, fields) ∈ w.fields := by
  obtain ⟨⟨h', fields'⟩, hfind, rfl⟩ := Option.map_eq_some_iff.mp hfields
  have heq := List.find?_some hfind
  simp only [beq_iff_eq] at heq
  exact heq ▸ List.mem_of_find?_eq_some hfind

theorem fields?_of_mem {h : Handle} (hh : h ∈ w.fields.map (·.1)) :
    ∃ fields, w.fields? h = some fields := by
  obtain ⟨⟨h', fields⟩, hmem, rfl⟩ := List.mem_map.mp hh
  cases hfind : w.fields.find? (·.1 == h') with
  | none => simpa using List.find?_eq_none.mp hfind _ hmem
  | some found => exact ⟨found.2, by simp [fields?, hfind]⟩

/-- What a visited type mentions is visited as well. -/
theorem Finished.mentions_visited (hw : Finished c d w s) {h : Handle} {t : TypeDef M C W}
    {fields : List (Field M C W)} (ht : c.get? h = some t) (hfields : w.fields? h = some fields)
    {m : Mention} (hm : m ∈ mentions c h t fields) : m.1 ∈ w.visited := by
  have hseen := hw.sound.closed h fields t (mem_fields_of_fields? hfields) ht m hm
  rw [hw.pending, List.append_nil] at hseen
  exact hseen

theorem Finished.ready (hw : Finished c d w s) {h : Handle} {t : TypeDef M C W}
    {fields : List (Field M C W)} (ht : c.get? h = some t) (hfields : w.fields? h = some fields)
    (hkind : t.kind.hasFields = true) : s.memo h.index = .ready fields :=
  hw.sound.ready h fields t (mem_fields_of_fields? hfields) ht hkind

end

end Walk

namespace Catalog

variable {c : Catalog M C W} {d : Description}

/-- The walk of a compilation from the roots, stopped after that many visits. -/
def walk (c : Catalog M C W) (depth visits : Nat) (d : Description) (st : Store M C W) :
    Except DefinitionError (Walk M C W) × Store M C W :=
  match Walk.start c d with
  | .error e => (.error e, st)
  | .ok w => w.run (c.nestedAt depth) c visits st

theorem walk_ok {depth visits : Nat} {st st' : Store M C W} {w : Walk M C W}
    (h : c.walk depth visits d st = (.ok w, st')) :
    ∃ w₀, Walk.start c d = .ok w₀ ∧ w₀.run (c.nestedAt depth) c visits st = (.ok w, st') := by
  unfold walk at h
  cases hstart : Walk.start c d with
  | error e => simp [hstart] at h
  | ok w₀ =>
    rw [hstart] at h
    exact ⟨w₀, rfl, h⟩

theorem finished_of_walk {depth : Nat} {st st' : Store M C W} {w : Walk M C W}
    (h : c.walk depth c.size d st = (.ok w, st')) : Walk.Finished c d w st' := by
  obtain ⟨w₀, hstart, hrun⟩ := walk_ok h
  exact Walk.finished_of_run (c.keeps_nestedAt depth) hstart hrun

/-- A compilation links what its walk ends with. -/
theorem walk_of_compileAt {depth : Nat} {st st' : Store M C W} {s : Schema M C W}
    (h : c.compileAt depth d st = (.ok s, st')) :
    ∃ w, c.walk depth c.size d st = (.ok w, st') ∧ Link.schema c d w = .ok s := by
  rw [compileAt_eq, compileWith] at h
  cases hlimits : d.limits.validate with
  | error reason => simp [hlimits] at h
  | ok _ =>
    cases hmisuses : c.misuses with
    | cons e rest => simp [hlimits, hmisuses] at h
    | nil =>
      cases hstart : Walk.start c d with
      | error e => simp [hlimits, hmisuses, hstart] at h
      | ok w =>
        simp only [hlimits, hmisuses, hstart] at h
        rcases hrun : w.run (c.nestedAt depth) c c.size st with ⟨result, st''⟩
        rw [hrun] at h
        cases result with
        | error e => simp at h
        | ok w' =>
          simp only [Prod.mk.injEq] at h
          obtain ⟨hlink, rfl⟩ := h
          refine ⟨w', ?_, hlink⟩
          rw [walk, hstart]
          exact hrun

/-- A schema is linked from a finished walk. -/
theorem compile_ok {st st' : Store M C W} {s : Schema M C W}
    (h : c.compile d st = (.ok s, st')) :
    ∃ w, Walk.Finished c d w st' ∧ Link.schema c d w = .ok s := by
  obtain ⟨w, hwalk, hlink⟩ := walk_of_compileAt h
  exact ⟨w, finished_of_walk hwalk, hlink⟩

end Catalog

end GraphSchema
