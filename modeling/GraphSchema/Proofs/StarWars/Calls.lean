import GraphSchema.Proofs.Run.Nulled
import GraphSchema.Proofs.Run.Reports
import GraphSchema.Proofs.StarWars.Root

/-! What the calls of a run come to.

On the way down from the root every object is a character of the roster, as the type of
its species (`meant_of_ran`). So each call of a run reports nothing, that a secret is one,
or that its arguments do not suit it (`call_cases`), and none leaves a position to be null
(`nulls_of_perform`). -/
namespace GraphSchema.StarWars

open Direct Execution Link
open Query (Step Types)

variable {d : Description} {w : Walk Source Context Unit} {st : Store Source Context Unit}
  {s : Schema Source Context Unit} {types : Types} {given : Context}

/-! ### The way down -/

theorem Species.typeName_injective : Function.Injective typeName := by
  intro a b h
  cases a <;> cases b <;> first | rfl | exact absurd h (by decide)

/-- Where objects are of the type of a species, they are characters of it. -/
theorem character_of_meant {species : Species} {m : Source} (h : Meant species.typeName m) :
    ∃ c ∈ Roster.all, m = .character c ∧ c.species = species := by
  generalize hname : species.typeName = name at h
  cases h with
  | root => cases species <;> exact absurd hname (by decide)
  | character hc => exact ⟨_, hc, rfl, Species.typeName_injective hname.symm⟩

theorem root_of_meant {m : Source} (h : Meant "Query" m) : m = .root := by
  generalize hname : "Query" = name at h
  cases h with
  | root => rfl
  | @character c hc => cases hspecies : c.species <;> simp [hspecies, Species.typeName] at hname

/-- A field of an object of the schema, on a model that the object is meant for. -/
theorem tells_of_meant (hs : Linking catalog.1 d w st s) (hst : st.Declared catalog.1)
    (hk : Knows types) {t : ObjectType Source Context Unit} (ht : s.object? t.name = some t)
    {m : Source} (hm : Meant t.name m) {f : PlannedField Source Context Unit} (hf : f ∈ t.fields) :
    Tells types f m := by
  obtain ⟨h, def_, o, fields, ho⟩ := hs.object_of_object? ht
  obtain ⟨declared, hdeclared, hplanned⟩ := (Except.mem_of_mapM ho.planned f).mp hf
  have hends := hst.ends ho.get (hs.walk.ready ho.get ho.found (by rw [ho.kind]; rfl))
  have hkind := ho.kind
  rw [ho.name] at hm
  have hmem := List.mem_of_getElem? (Catalog.types_of_get? ho.get)
  obtain ⟨_, _, _, _, _, _, _, _, htypes⟩ := types_catalog
  rw [htypes] at hmem
  simp only [List.mem_cons, List.not_mem_nil, or_false] at hmem
  rcases hmem with rfl | rfl | rfl | rfl | rfl
  · cases hkind
  · cases hkind
  · cases hkind
    rw [ends_done rfl hends] at hdeclared
    obtain ⟨c, hc, rfl, hspecies⟩ : ∃ c ∈ Roster.all, m = .character c ∧ c.species = .human :=
      character_of_meant hm
    exact tells_of_fieldsOf hc (hspecies ▸ hdeclared) (plannedField_ok hplanned)
  · cases hkind
    rw [ends_done rfl hends] at hdeclared
    obtain ⟨c, hc, rfl, hspecies⟩ : ∃ c ∈ Roster.all, m = .character c ∧ c.species = .droid :=
      character_of_meant hm
    exact tells_of_fieldsOf hc (hspecies ▸ hdeclared) (plannedField_ok hplanned)
  · cases hkind
    rw [ends_done rfl hends] at hdeclared
    cases root_of_meant hm
    exact tells_of_queryFields hdeclared (plannedField_ok hplanned) hk

/-- What such a field produces, if it produces anything, is fine. -/
theorem Tells.fine {f : PlannedField Source Context Unit} {m : Source} (h : Tells types f m)
    {sent : List (String × Value)} {p : Produced Source} {w' : Unit}
    (hproduced : f.plan.produce m sent (some given) () = (.ok p, w')) : Fine f.plan.output p := by
  cases h with
  | secret _ _ h =>
    rw [h] at hproduced
    cases hproduced
  | value _ h =>
    obtain ⟨p', hp', hfine⟩ := h sent given
    rw [hp'] at hproduced
    cases hproduced
    exact hfine
  | lookup _ _ h =>
    rcases h sent given with ⟨p', hp', hfine⟩ | ⟨message, hmessage, _⟩
    · rw [hp'] at hproduced
      cases hproduced
      exact hfine
    · rw [hmessage] at hproduced
      cases hproduced

/-- **On the way down from an object that is meant every call is on such an object.** -/
theorem meant_of_ran (hs : Linking catalog.1 d w st s) (hst : st.Declared catalog.1)
    (hlinked : Linked s) (hk : Knows types) {t : ObjectType Source Context Unit} {m : Source}
    {steps : List Step} {call : Call Source Context Unit}
    (h : Ran s (some given) t m steps call) (ht : s.object? t.name = some t)
    (hm : Meant t.name m) : Tells types call.field call.parent := by
  induction h with
  | here _ _ hf path world =>
    exact tells_of_meant hs hst hk ht hm (List.mem_of_find?_eq_some hf)
  | @deeper t u m m' _ _ _ _ _ _ f _ _ p _ _ _ _ _ _ hf hproduced hcompleted hcontains hconcrete _
      ih =>
    have hmem : f ∈ t.fields := List.mem_of_find?_eq_some hf
    have hfine := (tells_of_meant hs hst hk ht hm hmem).fine hproduced
    -- the object in the value is one that the plan has taken for what it is
    obtain ⟨_, hdone, -, hkeeps⟩ := Completion.complete_of_flawless hfine.flawless _ _
    rw [hdone] at hcompleted
    obtain ⟨hhas, hchooses⟩ := hkeeps _ (Except.ok.inj hcompleted) _ _ hcontains
    have hu := object?_of_concrete hconcrete
    exact ih hu (hfine.meant _ _ hhas
      (hchooses.typeName?_eq (hlinked t.name t ht f hmem) hconcrete))
  | narrow _ _ _ ih => exact ih ht hm

/-! ### One call -/

/-- Whether the call is one of the field that keeps its secret. -/
def isSecret (call : Call Source Context Unit) : Bool := call.field.info.name == "secretBackStory"

/-- What such a call reports, at its own place. -/
def secretError (call : Call Source Context Unit) : ResponseError :=
  ⟨"secretBackstory is secret", call.path, call.position⟩

/-- The call has looked no one up, as its arguments do not suit it, and reports that at its own
place. -/
structure Unsuited (types : Types) (given : Context) (call : Call Source Context Unit)
    (e : ResponseError) : Prop where
  unsuited : ¬ Suits types call.field.info.arguments call.sent
  produced : call.produced (some given) = .error e.message
  path : e.path = call.path
  position : e.position = call.position

section

variable {call : Call Source Context Unit}

theorem failures_of_error {message : String}
    (h : call.produced (some given) = .error message) :
    call.failures (some given) = [⟨message, call.path, call.position⟩] := by
  rw [Call.failures, h]
  rfl

theorem failures_of_fine {p : Produced Source} (h : call.produced (some given) = .ok p)
    (hfine : Fine call.field.plan.output p) : call.failures (some given) = [] := by
  rw [Call.failures, h, ← call.field.plan.settle_failures call.path [],
    (FieldPlan.settle_of_flawless hfine.flawless call.path []).1]
  rfl

/-- **A call reports its secret and nothing else, or nothing, or that its arguments do not suit
it.** -/
theorem call_cases (h : Tells types call.field call.parent) :
    (isSecret call = true ∧ call.failures (some given) = [secretError call]) ∨
      isSecret call = false ∧
        ∀ e ∈ call.failures (some given), Unsuited types given call e := by
  cases h with
  | secret hname _ h =>
    refine .inl ⟨by rw [isSecret, hname]; rfl, failures_of_error ?_⟩
    exact congrArg Prod.fst (h call.sent given)
  | value hname h =>
    obtain ⟨p, hp, hfine⟩ := h call.sent given
    refine .inr ⟨by simpa [isSecret] using hname, ?_⟩
    rw [failures_of_fine (congrArg Prod.fst hp) hfine]
    exact nofun
  | lookup hname _ h =>
    refine .inr ⟨by simpa [isSecret] using hname, fun e he => ?_⟩
    rcases h call.sent given with ⟨p, hp, hfine⟩ | ⟨message, hmessage, hunsuited⟩
    · rw [failures_of_fine (congrArg Prod.fst hp) hfine] at he
      cases he
    · have hproduced : call.produced (some given) = .error message := congrArg Prod.fst hmessage
      rw [failures_of_error hproduced] at he
      cases List.mem_singleton.mp he
      exact ⟨hunsuited, hproduced, rfl, rfl⟩

theorem not_nulls_of_error (hloose : call.field.plan.output.isNonNull = false) {message : String}
    (h : call.produced (some given) = .error message) (q : Path) :
    ¬ call.Nulls (some given) q := by
  rintro ⟨anchor, hq⟩
  rw [h, FieldPlan.settle_loose rfl hloose] at hq
  cases hq

theorem not_nulls_of_fine {p : Produced Source} (h : call.produced (some given) = .ok p)
    (hfine : Fine call.field.plan.output p) (q : Path) : ¬ call.Nulls (some given) q := by
  rintro ⟨anchor, hq⟩
  rw [h, (FieldPlan.settle_of_flawless hfine.flawless call.path anchor).2] at hq
  cases hq

/-- Whether or not it has a failure to report, a call leaves no position to be null. -/
theorem not_nulls_of_tells (h : Tells types call.field call.parent) (q : Path) :
    ¬ call.Nulls (some given) q := by
  cases h with
  | secret _ hloose h => exact not_nulls_of_error hloose (congrArg Prod.fst (h call.sent given)) q
  | value _ h =>
    obtain ⟨p, hp, hfine⟩ := h call.sent given
    exact not_nulls_of_fine (congrArg Prod.fst hp) hfine q
  | lookup _ hloose h =>
    rcases h call.sent given with ⟨p, hp, hfine⟩ | ⟨message, hmessage, _⟩
    · exact not_nulls_of_fine (congrArg Prod.fst hp) hfine q
    · exact not_nulls_of_error hloose (congrArg Prod.fst hmessage) q

end

/-! ### A whole run -/

variable {limits : Limits}

theorem root_eq (hs : Linking catalog.1 { query := catalog.2, limits } w st s)
    {op : Query.Operation} {root : String} (h : op.root? s = some root) : root = "Query" := by
  obtain ⟨_, _, hquery, hmutation, _, _⟩ := schema_ok hs.link
  unfold Query.Operation.root? at h
  split at h
  · rw [← Option.some.inj h, hquery]
    rfl
  · rw [hmutation] at h
    cases h
  · cases h

theorem tells_of_mem_calls
    (hs : Linking catalog.1 { query := catalog.2, limits } w st s)
    (hst : st.Declared catalog.1) (hlinked : Linked s) (hk : Knows types) {r : Request}
    {doc : Query.Document} {op : Query.Operation} {root : String} (hroot : op.root? s = some root)
    {call : Call Source Context Unit}
    (hcall : call ∈ (s.perform (some given) r (doc, op, root) ()).2.calls) :
    Tells types call.field call.parent := by
  obtain ⟨t, ht, hran⟩ := asked_of_mem_calls hcall
  have hname : t.name = root := object?_name ht
  refine meant_of_ran hs hst hlinked hk hran (hname.symm ▸ ht) ?_
  rw [hname, root_eq hs hroot]
  exact .root

/-- **A run leaves no position to be null.** -/
theorem nulls_of_perform
    (hs : Linking catalog.1 { query := catalog.2, limits } w st s)
    (hst : st.Declared catalog.1) (hlinked : Linked s) (hk : Knows types) {r : Request}
    {doc : Query.Document} {op : Query.Operation} {root : String} (hroot : op.root? s = some root) :
    (s.perform (some given) r (doc, op, root) ()).2.nulls = [] := by
  refine List.eq_nil_iff_forall_not_mem.mpr fun q hq => ?_
  obtain ⟨call, hcall, hnulls⟩ := nulls_of_run s (some given) root _ () q hq
  exact not_nulls_of_tells (tells_of_mem_calls hs hst hlinked hk hroot hcall) q hnulls

end GraphSchema.StarWars
