import GraphSchema.Proofs.Compile.Accepted

/-! Which object a value of an interface or union is taken for.

`Possible` says which types come into question and in which order, and `Dispatches`
what becomes of a value among them, without the search that finds it. All fields of
a compiled schema that are of one interface or union dispatch by it alike, and
whatever they take a value for is an object of the schema that may stand there
(`dispatch_exact`). -/
namespace GraphSchema

open Direct Execution Link

variable {M C W : Type}

/-- The dispatcher that a plan comes to below its lists and non-nulls. -/
def OutputPlan.dispatcher? : OutputPlan M → Option (Dispatcher M)
  | .abstract d => some d
  | .list inner | .nonNull inner => inner.dispatcher?
  | .scalar _ | .enum _ | .object _ _ => none

/-- The values of the type are objects of other types. -/
def Kind.isAbstract : Kind M C W → Bool
  | .interface _ | .union _ => true
  | .object _ | .enum _ => false

namespace Catalog

/-- The possible types of an interface or union, and its own choice among them. -/
inductive Possible (c : Catalog M C W) (h : Handle) (t : TypeDef M C W) :
    Option (M → Option String) → List Handle → Prop where
  /-- The objects that implement an interface, in the order of their places in the catalog. -/
  | interface {i possible} (kind : t.kind = .interface i)
      (ordered : possible.Pairwise fun x y => x.index < y.index)
      (mem_iff : ∀ x, x ∈ possible ↔ ∃ o, c.object? x = some o ∧ h ∈ o.interfaces) :
      Possible c h t i.resolveType possible
  /-- The members of a union, in the order in which they were added. -/
  | union {u} (kind : t.kind = .union u) : Possible c h t u.resolveType u.members

/-- The object has a predicate, which takes the value. -/
def Recognises (c : Catalog M C W) (x : Handle) (m : M) : Prop :=
  ∃ p, predicate c x = some p ∧ p m = true

/-- The abstract type names no type for the value. -/
def Silent (resolveType : Option (M → Option String)) (m : M) : Prop :=
  ∀ choose ∈ resolveType, choose m = none

/-- What becomes of a value of the abstract type of the name, among its possible types. -/
inductive Dispatches (c : Catalog M C W) (typeName : String)
    (resolveType : Option (M → Option String)) (possible : List Handle) (m : M) :
    Except DispatchError String → Prop where
  /-- The type itself names a possible type. -/
  | chosen {choose x} (set : resolveType = some choose) (names : choose m = some (c.nameOf x))
      (mem : x ∈ possible) : Dispatches c typeName resolveType possible m (.ok (c.nameOf x))
  | notPossible {choose name} (set : resolveType = some choose) (names : choose m = some name)
      (other : ∀ x ∈ possible, c.nameOf x ≠ name) :
      Dispatches c typeName resolveType possible m (.error (.notPossible name typeName))
  /-- The first possible type whose predicate takes the value. -/
  | recognised {before x after} (silent : Silent resolveType m)
      (split : possible = before ++ x :: after) (takes : c.Recognises x m)
      (first : ∀ y ∈ before, ¬ c.Recognises y m) :
      Dispatches c typeName resolveType possible m (.ok (c.nameOf x))
  | sole {x} (silent : Silent resolveType m) (only : possible = [x])
      (bare : predicate c x = none) :
      Dispatches c typeName resolveType possible m (.ok (c.nameOf x))
  | unresolved (silent : Silent resolveType m) (none : ∀ x ∈ possible, ¬ c.Recognises x m)
      (several : ∀ x, possible = [x] → predicate c x ≠ .none) :
      Dispatches c typeName resolveType possible m (.error .unresolved)

variable {c : Catalog M C W} {d : Description} {w : Walk M C W} {st : Store M C W}
  {s : Schema M C W} {h : Handle} {t : TypeDef M C W} {typeName : String}
  {resolveType : Option (M → Option String)} {possible : List Handle} {m : M}

/-! ### The possible types -/

theorem handles_ordered (c : Catalog M C W) :
    c.handles.Pairwise fun x y => x.index < y.index := by
  rw [handles, List.pairwise_map]
  exact List.pairwise_lt_range

/-- The order and the members leave no choice. -/
theorem eq_implementers (ordered : possible.Pairwise fun x y => x.index < y.index)
    (mem_iff : ∀ x, x ∈ possible ↔ ∃ o, c.object? x = some o ∧ h ∈ o.interfaces) :
    possible = c.implementers h := by
  have ordered' := c.handles_ordered.filter (c.implements · h)
  have nodup : ∀ {l : List Handle}, l.Pairwise (fun x y => x.index < y.index) → l.Nodup :=
    fun hl => hl.imp fun hlt heq => by simp [heq] at hlt
  refine List.Perm.eq_of_pairwise (fun x y _ _ hxy hyx => absurd hxy (Nat.lt_asymm hyx)) ordered
    ordered' ((List.perm_ext_iff_of_nodup (nodup ordered) (nodup ordered')).mpr fun x => ?_)
  exact (mem_iff x).trans mem_implementers.symm

theorem possible_iff :
    c.Possible h t resolveType possible ↔ possibleTypes c h t = some (resolveType, possible) := by
  unfold possibleTypes
  constructor
  · intro hp
    cases hp with
    | interface kind ordered mem_iff => simp [kind, eq_implementers ordered mem_iff]
    | union kind => simp [kind]
  · intro hp
    cases hkind : t.kind with
    | interface i =>
      simp only [hkind, Option.some.injEq, Prod.mk.injEq] at hp
      obtain ⟨rfl, rfl⟩ := hp
      exact .interface hkind (c.handles_ordered.filter _) fun x => mem_implementers
    | union u =>
      simp only [hkind, Option.some.injEq, Prod.mk.injEq] at hp
      obtain ⟨rfl, rfl⟩ := hp
      exact .union hkind
    | object o => simp [hkind] at hp
    | enum e => simp [hkind] at hp

theorem exists_possible (habstract : t.kind.isAbstract = true) :
    ∃ resolveType possible, c.Possible h t resolveType possible := by
  cases hkind : t.kind with
  | interface i => exact ⟨_, _, possible_iff.mpr (by rw [possibleTypes, hkind])⟩
  | union u => exact ⟨_, _, .union hkind⟩
  | object o => simp [hkind, Kind.isAbstract] at habstract
  | enum e => simp [hkind, Kind.isAbstract] at habstract

/-! ### The search -/

/-- The dispatcher over possible types. -/
def dispatcherOver (c : Catalog M C W) (typeName : String)
    (resolveType : Option (M → Option String)) (possible : List Handle) : Dispatcher M :=
  ⟨typeName, resolveType, possible.map fun x => ⟨c.nameOf x, predicate c x⟩⟩

theorem silent_iff (D : Dispatcher M) (m : M) : Silent D.resolveType m ↔ D.chosen m = none := by
  simp [Silent, Dispatcher.chosen, Option.bind_eq_none_iff]

theorem recognises_iff {sole : Bool} {x : Handle} :
    Dispatcher.recognises sole m ⟨c.nameOf x, predicate c x⟩ = true ↔
      c.Recognises x m ∨ sole = true ∧ predicate c x = none := by
  cases hp : predicate c x <;> simp [Dispatcher.recognises, Recognises, hp]

theorem byPredicate_eq :
    (c.dispatcherOver typeName resolveType possible).byPredicate m =
      (possible.find? fun x => Dispatcher.recognises (possible.length == 1) m
        ⟨c.nameOf x, predicate c x⟩).map c.nameOf := by
  simp [Dispatcher.byPredicate, dispatcherOver, List.find?_map, Function.comp_def]

theorem resolve_of_chosen {choose : M → Option String} {name : String}
    (set : resolveType = some choose) (names : choose m = some name) :
    (c.dispatcherOver typeName resolveType possible).resolve m =
      if name ∈ possible.map c.nameOf then .ok name else .error (.notPossible name typeName) := by
  have hchosen : (c.dispatcherOver typeName resolveType possible).chosen m = some name := by
    simp [Dispatcher.chosen, dispatcherOver, set, names]
  rw [Dispatcher.resolve, hchosen]
  simp [dispatcherOver]

theorem resolve_of_silent (hsilent : Silent resolveType m) :
    (c.dispatcherOver typeName resolveType possible).resolve m =
      match (c.dispatcherOver typeName resolveType possible).byPredicate m with
      | some name => .ok name
      | none => .error .unresolved := by
  have hchosen := (silent_iff (c.dispatcherOver typeName resolveType possible) m).mp hsilent
  cases hby : (c.dispatcherOver typeName resolveType possible).byPredicate m <;>
    simp [Dispatcher.resolve, hchosen, hby]

/-- A type that stands alone is before and after nothing. -/
theorem nil_of_sole {before after : List Handle} {x : Handle}
    (h : (before ++ x :: after).length = 1) : before = [] ∧ after = [] := by
  simp only [List.length_append, List.length_cons] at h
  exact ⟨List.length_eq_zero_iff.mp (by omega), List.length_eq_zero_iff.mp (by omega)⟩

theorem resolve_of_dispatches {r : Except DispatchError String}
    (hr : c.Dispatches typeName resolveType possible m r) :
    (c.dispatcherOver typeName resolveType possible).resolve m = r := by
  cases hr with
  | chosen set names mem =>
    rw [resolve_of_chosen set names]
    exact if_pos (List.mem_map_of_mem mem)
  | notPossible set names other =>
    rw [resolve_of_chosen set names]
    exact if_neg (by simpa using other)
  | recognised silent split takes first =>
    rename_i before x after
    have hfind : possible.find? (fun x => Dispatcher.recognises (possible.length == 1) m
        ⟨c.nameOf x, predicate c x⟩) = some x := by
      refine List.find?_eq_some_iff_append.mpr
        ⟨recognises_iff.mpr (.inl takes), before, after, split, fun y hy => ?_⟩
      rw [Bool.not_eq_true', ← Bool.not_eq_true, recognises_iff]
      rintro (hy' | ⟨sole, -⟩)
      · exact first y hy hy'
      · rw [split, beq_iff_eq] at sole
        rw [(nil_of_sole sole).1] at hy
        cases hy
    rw [resolve_of_silent silent, byPredicate_eq, hfind]
    rfl
  | sole silent only bare =>
    rename_i x
    rw [resolve_of_silent silent, byPredicate_eq, only]
    simp [Dispatcher.recognises, bare]
  | unresolved silent none several =>
    have hfind : possible.find? (fun x => Dispatcher.recognises (possible.length == 1) m
        ⟨c.nameOf x, predicate c x⟩) = .none := by
      refine List.find?_eq_none.mpr fun x hx => ?_
      rw [recognises_iff]
      rintro (hx' | ⟨sole, bare⟩)
      · exact none x hx hx'
      · obtain ⟨y, rfl⟩ := List.length_eq_one_iff.mp (beq_iff_eq.mp sole)
        obtain rfl := List.mem_singleton.mp hx
        exact several x rfl bare
    rw [resolve_of_silent silent, byPredicate_eq, hfind]
    rfl

theorem dispatches_resolve :
    c.Dispatches typeName resolveType possible m
      ((c.dispatcherOver typeName resolveType possible).resolve m) := by
  cases hchosen : (c.dispatcherOver typeName resolveType possible).chosen m with
  | some name =>
    obtain ⟨choose, set, names⟩ : ∃ choose, resolveType = some choose ∧ choose m = some name :=
      Option.bind_eq_some_iff.mp hchosen
    rw [resolve_of_chosen set names]
    split
    · rename_i hmem
      obtain ⟨x, hx, rfl⟩ := List.mem_map.mp hmem
      exact .chosen set names hx
    · rename_i hmem
      exact .notPossible set names fun x hx heq => hmem (heq ▸ List.mem_map_of_mem hx)
  | none =>
    have silent : Silent resolveType m := (silent_iff _ m).mpr hchosen
    rw [resolve_of_silent silent, byPredicate_eq]
    cases hfind : possible.find? fun x => Dispatcher.recognises (possible.length == 1) m
        ⟨c.nameOf x, predicate c x⟩ with
    | some x =>
      obtain ⟨hx, before, after, split, hbefore⟩ := List.find?_eq_some_iff_append.mp hfind
      rcases recognises_iff.mp hx with takes | ⟨sole, bare⟩
      · refine .recognised silent split takes fun y hy hy' => ?_
        have hno := hbefore y hy
        rw [recognises_iff.mpr (.inl hy')] at hno
        cases hno
      · rw [split, beq_iff_eq] at sole
        obtain ⟨rfl, rfl⟩ := nil_of_sole sole
        exact .sole silent split bare
    | none =>
      have hnone := List.find?_eq_none.mp hfind
      refine .unresolved silent (fun x hx hx' => hnone x hx (recognises_iff.mpr (.inl hx')))
        fun x only bare => ?_
      subst only
      exact hnone x (List.mem_singleton_self x) (recognises_iff.mpr (.inr ⟨rfl, bare⟩))

/-- The relation is the search. -/
theorem dispatches_iff {r : Except DispatchError String} :
    c.Dispatches typeName resolveType possible m r ↔
      (c.dispatcherOver typeName resolveType possible).resolve m = r :=
  ⟨resolve_of_dispatches, fun h => h ▸ dispatches_resolve⟩

theorem mem_of_dispatches {name : String}
    (h : c.Dispatches typeName resolveType possible m (.ok name)) :
    ∃ x ∈ possible, c.nameOf x = name := by
  cases h with
  | chosen _ _ mem => exact ⟨_, mem, rfl⟩
  | recognised _ split => exact ⟨_, by simp [split], rfl⟩
  | sole _ only => exact ⟨_, by simp [only], rfl⟩

/-- Where the abstract type does not choose, a value is lost only if it is recognised by none of
the predicates, of which none is missing. -/
theorem rejected_of_dispatches (hdistinct : c.Distinguishes resolveType possible)
    (hnone : resolveType = none) {e : DispatchError}
    (h : c.Dispatches typeName resolveType possible m (.error e)) :
    e = .unresolved ∧ ∀ x ∈ possible, ∃ p, predicate c x = some p ∧ p m = false := by
  cases h with
  | notPossible set => simp [hnone] at set
  | unresolved silent none several =>
    refine ⟨rfl, fun x hx => ?_⟩
    have hp : ∃ p, predicate c x = some p := by
      rw [← Option.isSome_iff_exists]
      by_cases hmany : 2 ≤ possible.length
      · obtain ⟨o, ho, hpredicate⟩ := hdistinct hmany hnone x hx
        simpa [predicate, ho] using hpredicate
      · match possible, hx with
        | [y], hx =>
          obtain rfl := List.mem_singleton.mp hx
          simpa [Option.isSome_iff_ne_none] using several x rfl
        | _ :: _ :: _, _ => simp at hmany
    obtain ⟨p, hp⟩ := hp
    exact ⟨p, hp, by simpa using fun hx' => none x hx ⟨p, hp, hx'⟩⟩

/-! ### In a schema -/

theorem dispatcher?_of_outputPlan {ty : TypeExpr} {plan : OutputPlan M}
    (hplan : outputPlan c w ty = .ok plan) {D : Dispatcher M} (hD : plan.dispatcher? = some D) :
    ∃ h, ty.named = some h ∧ dispatcherOf c w h = .ok D := by
  induction ty generalizing plan with
  | list inner ih | nonNull inner ih =>
    obtain ⟨inner', hinner, rfl⟩ := Except.map_eq_ok hplan
    exact ih hinner hD
  | interface h | union h =>
    obtain ⟨D', hD', rfl⟩ := Except.map_eq_ok hplan
    cases hD
    exact ⟨h, rfl, hD'⟩
  | scalar k =>
    cases hplan
    cases hD
  | enum h =>
    obtain ⟨values, -, rfl⟩ := Except.map_eq_ok hplan
    cases hD
  | object h =>
    simp only [outputPlan] at hplan
    split at hplan
    · cases hplan
      cases hD
    · cases hplan

/-- The fields that dispatch over one type do so over its possible types. -/
theorem dispatcher?_of_field (hs : Linking c d w st s) (hh : h ∈ w.visited)
    (hget : c.get? h = some t) (hp : c.Possible h t resolveType possible)
    {o : ObjectType M C W} (ho : .object o ∈ s.types) {f : PlannedField M C W} (hf : f ∈ o.fields)
    (hcore : f.info.type.core = c.nameOf h) {D : Dispatcher M}
    (hD : f.plan.output.dispatcher? = some D) :
    D = c.dispatcherOver t.name resolveType possible := by
  obtain ⟨x, hx, hfinish⟩ := hs.visited_of_mem ho
  obtain ⟨def_, odef, fields, hfrom⟩ := Linking.object_of_finish hx hfinish
  obtain ⟨declared, hdeclared, hplanned⟩ := (Except.mem_of_mapM hfrom.planned f).mp hf
  have hfield := plannedField_ok hplanned
  obtain ⟨y, hy, hdispatcher⟩ := dispatcher?_of_outputPlan hfield.output hD
  -- the type that the field mentions has the name, so it is the type
  have hyvisited := visited_of_field hs.walk hfrom.get hfrom.kind hfrom.found hdeclared y hy
  rw [hfield.type, core_typeRef_of_named hy] at hcore
  obtain rfl := hs.walk.sound.distinct y hyvisited h hh hcore
  obtain ⟨-, _, _, hp', hD'⟩ := Linking.dispatcherOf_ok hget hdispatcher
  rw [possible_iff.mp hp] at hp'
  cases hp'
  exact Linking.dispatcher_ok hD'

/-- The engine finds an object of the schema for each possible type. -/
theorem Possible.concrete (hp : c.Possible h t resolveType possible) (hs : Linking c d w st s)
    (hh : h ∈ w.visited) (hget : c.get? h = some t)
    (hunion : ∀ u, t.kind = .union u → ∀ x ∈ u.members, (c.object? x).isSome) {x : Handle}
    (hx : x ∈ possible) :
    ∃ o, s.object? (c.nameOf x) = some o ∧
      Execution.concrete s (c.nameOf h) (some (c.nameOf x)) = .ok o := by
  cases hp with
  | interface kind ordered mem_iff =>
    exact hs.interface_member hh hget kind (mem_implementers.mpr ((mem_iff x).mp hx))
  | union kind =>
    obtain ⟨o, ho⟩ := Option.isSome_iff_exists.mp (hunion _ kind x hx)
    exact hs.union_member_of_object hh hget kind hx ho

theorem Possible.distinguishes (hp : c.Possible h t resolveType possible)
    (hs : Linking c d w st s) (hh : h ∈ w.visited) (hget : c.get? h = some t) :
    c.Distinguishes resolveType possible := by
  have haccepts := hs.accepts hh hget
  cases hp with
  | interface kind ordered mem_iff =>
    rw [kind] at haccepts
    exact eq_implementers ordered mem_iff ▸ haccepts.2.2
  | union kind =>
    rw [kind] at haccepts
    exact haccepts.2

theorem value_abstract_ok {D : Dispatcher M} {name : String} (hr : D.resolve m = .ok name)
    (site : String) (path anchor : Path) :
    (Completion.value site (.abstract D) path anchor (.model m)).result =
      .ok (some (.object m anchor (some name))) := by
  simp only [Completion.value, hr, Completed.ok]

theorem value_abstract_error {D : Dispatcher M} {e : DispatchError} (hr : D.resolve m = .error e)
    (site : String) (path anchor : Path) :
    (Completion.value site (.abstract D) path anchor (.model m)).result =
      .error ⟨path, e.message⟩ := by
  have hfail : Completion.value site (.abstract D) path anchor (.model m) =
      .fail path (.dispatch e) := by simp only [Completion.value, hr]
  rw [hfail]
  rfl

/-- **Dispatch is exact, ordered and sound.** An interface or union that a compiled schema reaches
has its possible types in a fixed order, and all fields of the schema that dispatch over it do so
over these: a model is completed under a name, or lost with a message, exactly as `Dispatches` has
it. A name it is completed under is that of a possible type, an object of the schema, which is
found for the name where the abstract type is declared; and if the abstract type does not choose, a
model is lost only if every possible type has a predicate and none takes the model. -/
theorem dispatch_exact {st' : Store M C W} (hcompile : c.compile d st = (.ok s, st'))
    (hreach : c.Reaches st'.memo d h) (hget : c.get? h = some t)
    (habstract : t.kind.isAbstract = true)
    (hunion : ∀ u, t.kind = .union u → ∀ x ∈ u.members, (c.object? x).isSome) :
    ∃ resolveType possible, c.Possible h t resolveType possible ∧ ∃ D : Dispatcher M,
      (∀ o f D', .object o ∈ s.types → f ∈ o.fields → f.info.type.core = c.nameOf h →
        f.plan.output.dispatcher? = some D' → D' = D) ∧
      (∀ m site path anchor,
        let completed := (Completion.value site (.abstract D) path anchor (.model m)).result
        (∀ found, completed = .ok found ↔ ∃ name,
          found = some (.object m anchor (some name)) ∧
            c.Dispatches t.name resolveType possible m (.ok name)) ∧
        ∀ failure, completed = .error failure ↔ ∃ e : DispatchError,
          failure = ⟨path, e.message⟩ ∧
            c.Dispatches t.name resolveType possible m (.error e)) ∧
      (∀ m name, c.Dispatches t.name resolveType possible m (.ok name) →
        ∃ x ∈ possible, c.nameOf x = name ∧
          ∃ o, s.object? name = some o ∧ concrete s (c.nameOf h) (some name) = .ok o) ∧
      (resolveType = none → ∀ m e, c.Dispatches t.name resolveType possible m (.error e) →
        e = .unresolved ∧ ∀ x ∈ possible, ∃ p, predicate c x = some p ∧ p m = false) := by
  obtain ⟨w, hs, hreached⟩ := visited_of_compile hcompile
  have hh : h ∈ w.visited := (hreached h).mpr hreach
  obtain ⟨resolveType, possible, hp⟩ := exists_possible (c := c) (h := h) habstract
  refine ⟨resolveType, possible, hp, c.dispatcherOver t.name resolveType possible,
    fun o f D' ho hf hcore hD => dispatcher?_of_field hs hh hget hp ho hf hcore hD,
    fun m site path anchor => ?_, fun m name hname => ?_,
    fun hnone m e => rejected_of_dispatches (hp.distinguishes hs hh hget) hnone⟩
  · simp only [dispatches_iff]
    cases hr : (c.dispatcherOver t.name resolveType possible).resolve m with
    | ok name => simp [value_abstract_ok hr, eq_comm]
    | error e => simp [value_abstract_error hr, eq_comm]
  · obtain ⟨x, hx, rfl⟩ := mem_of_dispatches hname
    exact ⟨x, hx, rfl, hp.concrete hs hh hget hunion hx⟩

/-- The characters of Star Wars have two possible types and no choice of their own; Luke is taken
for a human. -/
theorem dispatch_exact_character :
    let luke : StarWars.Source :=
      .character (StarWars.Roster.human "1000" "Luke Skywalker" [] StarWars.Episode.all none)
    ∃ D : Dispatcher StarWars.Source,
      (∀ o f D', .object o ∈ starWarsSchema.types → f ∈ o.fields →
        f.info.type.core = "Character" → f.plan.output.dispatcher? = some D' → D' = D) ∧
      (Completion.value "Query.hero" (.abstract D) [] [] (.model luke)).result =
        .ok (some (.object luke [] (some "Human"))) ∧
      ∃ o, starWarsSchema.object? "Human" = some o ∧
        concrete starWarsSchema "Character" (some "Human") = .ok o := by
  intro luke
  obtain ⟨t, hget, habstract, hunion, hpossible⟩ : ∃ t,
      StarWars.catalog.1.get? ⟨0, 1⟩ = some t ∧ t.kind.isAbstract = true ∧
      (∀ u, t.kind ≠ .union u) ∧
      possibleTypes StarWars.catalog.1 ⟨0, 1⟩ t = some (none, [⟨0, 2⟩, ⟨0, 3⟩]) := by
    refine ⟨_, rfl, rfl, fun u hu => ?_, rfl⟩
    cases hu
  have hreach :
      StarWars.catalog.1.Reaches starWars.2.memo { query := StarWars.catalog.2 } ⟨0, 1⟩ :=
    reaches_of_mem_references (.root (List.mem_cons_self ..)) (by decide +kernel)
  obtain ⟨resolveType, possible, hp, D, hfields, hcompleted, hsound, -⟩ :=
    dispatch_exact starWars_compiles hreach hget habstract fun u hu => absurd hu (hunion u)
  obtain ⟨rfl, rfl⟩ : resolveType = none ∧ possible = [⟨0, 2⟩, ⟨0, 3⟩] := by
    simpa using (possible_iff.mp hp).symm.trans hpossible
  have hhuman : StarWars.catalog.1.Dispatches t.name none [⟨0, 2⟩, ⟨0, 3⟩] luke (.ok "Human") :=
    .recognised (by simp [Silent]) (show _ = [] ++ _ :: _ from rfl) ⟨_, rfl, rfl⟩ (by simp)
  obtain ⟨-, -, -, ho⟩ := hsound luke "Human" hhuman
  exact ⟨D, hfields, ((hcompleted luke "Query.hero" [] []).1 _).mpr ⟨"Human", rfl, hhuman⟩, ho⟩

end Catalog

end GraphSchema
