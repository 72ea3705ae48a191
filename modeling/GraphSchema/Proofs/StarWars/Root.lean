import GraphSchema.Proofs.StarWars.Roster

/-! What the fields of the root come to.

The root only looks characters up on the roster. It finds one or none, whatever it is
looking for, and reports nothing as long as it is sent arguments that its types admit
(`tells_of_queryFields`). -/
namespace GraphSchema.StarWars

open Execution Link
open Query (Types admits admitsNamed)

/-! ### What the root is sent -/

/-- The names that the arguments of the root are declared with are known for what they are. -/
structure Knows (types : Types) : Prop where
  scalars : KnowsScalars types
  episode : ∃ t, types "Episode" = some t ∧ t.kind = .enum ∧ t.values = episodes

variable {types : Types}

/-- An episode is a null or the name of one, which may come as a text. -/
theorem admits_episode (hk : Knows types) {v : Value}
    (h : admits types (.named "Episode") v = true) :
    v = .null ∨ ∃ name, (v = .enum name ∨ v = .string name) ∧
      episodes.any (·.name == name) = true := by
  obtain ⟨t, ht, hkind, hvalues⟩ := hk.episode
  simp only [admits, admitsNamed, ht, hkind, hvalues, Bool.or_eq_true] at h
  cases v with
  | null => exact .inl rfl
  | enum name => exact .inr ⟨name, .inl rfl, by simpa [Value.isNull] using h⟩
  | string name => exact .inr ⟨name, .inr rfl, by simpa [Value.isNull] using h⟩
  | _ => simp [Value.isNull] at h

theorem parse_episode {name : String} (h : episodes.any (·.name == name) = true) :
    ∃ e : Episode, episodes.parse name = some e.leaf := by
  simp only [episodes, List.any_cons, List.any_nil, Bool.or_false, Bool.or_eq_true,
    beq_iff_eq] at h
  rcases h with rfl | rfl | rfl
  · exact ⟨.newHope, rfl⟩
  · exact ⟨.empire, rfl⟩
  · exact ⟨.jedi, rfl⟩

/-- A field with one argument gets what the argument decodes to. -/
theorem get_of_decode {p : ArgumentPlan} {sent : List (String × Value)} {found : Supplied}
    (hdecode : p.decode sent = .ok found) {form : Form} {x : form.Data}
    (hread : form.read found = .ok x) :
    ∃ args, ArgumentPlan.decodeAll [p] sent = .ok args ∧ form.get args p.name = .ok x := by
  refine ⟨[(p.name, found)], ?_, ?_⟩
  · simp only [ArgumentPlan.decodeAll, List.mapM_cons, hdecode]
    rfl
  · simp [Form.get, Arguments.get, Arguments.raw?, hread]

/-! ### The fields of the root -/

variable {w : Walk Source Context Unit} {declared : StarWarsField}
  {f : PlannedField Source Context Unit}

theorem tells_of_lookup (h : PlannedFrom catalog.1 w "Query" (Model.unit Source Unit) declared f)
    {shape : Shape} {form : Form} {name : String} {find : form.Data → Option Character}
    (hbody : declared.body = .resolver shape (pureResolver .unit fun _ arguments _ => do
      let x ← form.get arguments name
      return produceCharacter (find x)))
    (hname : declared.name ≠ "secretBackStory") (hloose : f.plan.output.isNonNull = false)
    (hfine : ∀ x, Fine f.plan.output (produceCharacter (find x)))
    (hread : ∀ sent, Suits types f.info.arguments sent →
      ∃ args x, ArgumentPlan.decodeAll f.plan.arguments sent = .ok args ∧
        form.get args name = .ok x) :
    Tells types f .root := by
  refine .lookup (h.name ▸ hname) hloose fun sent given => ?_
  rw [produce_resolver h hbody rfl]
  cases hargs : ArgumentPlan.decodeAll f.plan.arguments sent with
  | error e =>
    refine .inr ⟨_, rfl, fun hsuits => ?_⟩
    obtain ⟨args, _, hargs', _⟩ := hread sent hsuits
    rw [hargs] at hargs'
    cases hargs'
  | ok args =>
    cases hx : form.get args name with
    | error message =>
      refine .inr ⟨message, by simp only [hx]; rfl, fun hsuits => ?_⟩
      obtain ⟨args', x, hargs', hx'⟩ := hread sent hsuits
      rw [hargs, Except.ok.injEq] at hargs'
      rw [← hargs', hx] at hx'
      cases hx'
    | ok x => exact .inl ⟨_, by simp only [hx]; rfl, hfine x⟩

theorem loose_of_plan {plan : OutputPlan Source} {ty : TypeExpr}
    (h : outputPlan catalog.1 w ty = .ok plan) (hty : ty = character ∨ ∃ h, ty = .object h) :
    plan.isNonNull = false := by
  rcases hty with rfl | ⟨handle, rfl⟩
  · obtain ⟨d, rfl, _⟩ := plan_character h
    rfl
  · unfold outputPlan at h
    split at h
    · exact Except.ok.inj h ▸ rfl
    · cases h

theorem tells_of_hero
    (h : PlannedFrom catalog.1 w "Query" (Model.unit Source Unit) (hero episode character) f)
    (hk : Knows types) : Tells types f .root := by
  refine tells_of_lookup h rfl (by decide) (loose_of_plan h.output (.inl rfl))
    (fun x => fine_character h.output fun _ => mem_of_character?) fun sent hsuits => ?_
  have hplans : f.plan.arguments = [⟨"episode", .enum episodes, some (.enum "EMPIRE")⟩] :=
    (Except.ok.inj h.arguments).symm
  obtain ⟨text, hinfos⟩ : ∃ text, f.info.arguments =
      [⟨"episode", text, .named "Episode", some (.enum "EMPIRE")⟩] :=
    ⟨_, (Except.ok.inj h.infos).symm⟩
  rw [hinfos] at hsuits
  obtain ⟨hadmits, -⟩ := hsuits _ (List.mem_singleton_self _)
  suffices hdecode : ∃ found x, ArgumentPlan.decode ⟨"episode", .enum episodes,
      some (.enum "EMPIRE")⟩ sent = .ok found ∧ (Form.option Episode.form).read found = .ok x by
    obtain ⟨found, x, hdecode, hread⟩ := hdecode
    obtain ⟨args, hargs, hget⟩ := get_of_decode hdecode hread
    exact ⟨args, x, hplans ▸ hargs, hget⟩
  cases hsent : Value.member? "episode" sent with
  | none => exact ⟨_, _, by rw [ArgumentPlan.decode, hsent]; rfl, rfl⟩
  | some v =>
    rcases admits_episode hk (hadmits v hsent) with rfl | ⟨name, hv, hname⟩
    · exact ⟨_, _, by rw [ArgumentPlan.decode, hsent]; rfl, rfl⟩
    · obtain ⟨e, he⟩ := parse_episode hname
      refine ⟨.leaf e.leaf, some e.number, ?_, rfl⟩
      rw [ArgumentPlan.decode, hsent]
      rcases hv with rfl | rfl <;>
        simp only [Option.some_or, InputPlan.decode, InputPlan.decodeEnum, he] <;> rfl

/-- The field of the root that finds a character of a species by an id of a scalar. -/
theorem tells_of_finder {name text : String} {species : Species} {k : Scalar} {form : Form}
    {find : form.Data → Option Character}
    (h : PlannedFrom catalog.1 w "Query" (Model.unit Source Unit)
      (finder name text (.object species.handle) k form find) f)
    (hk : Knows types) (hname : name ≠ "secretBackStory")
    (hfind : ∀ x c, find x = some c → c ∈ Roster.all ∧ c.species = species)
    (hread : ∀ v, k.admits v = true → ∃ x, form.read (.value v) = .ok x) :
    Tells types f .root := by
  refine tells_of_lookup h rfl hname (loose_of_plan h.output (.inr ⟨_, rfl⟩))
    (fun x => fine_object h.output (hfind x)) fun sent hsuits => ?_
  have hplans : f.plan.arguments = [⟨"id", .scalar, none⟩] := (Except.ok.inj h.arguments).symm
  have hinfos : f.info.arguments = [⟨"id", some text, .nonNull (.named k.name), none⟩] :=
    (Except.ok.inj h.infos).symm
  rw [hinfos] at hsuits
  obtain ⟨hadmits, hthere⟩ := hsuits _ (List.mem_singleton_self _)
  obtain ⟨v, hsent⟩ := Option.isSome_iff_exists.mp (hthere rfl rfl)
  have hv := hk.scalars.admits (hadmits v hsent)
  obtain ⟨x, hx⟩ := hread v hv
  have hnull : v.isNull = false := by
    cases v with
    | null => cases k <;> cases hv
    | _ => rfl
  have hdecode : ArgumentPlan.decode ⟨"id", .scalar, none⟩ sent = .ok (.value v) := by
    simp only [ArgumentPlan.decode, hsent, Option.some_or, InputPlan.decode, hnull]
    rfl
  obtain ⟨args, hargs, hget⟩ := get_of_decode hdecode hx
  exact ⟨args, x, hplans ▸ hargs, hget⟩

theorem read_id {v : Value} (h : Scalar.id.admits v = true) :
    ∃ x, Form.id.read (.value v) = .ok x := by
  cases v with
  | string s => exact ⟨s, rfl⟩
  | number n => exact ⟨n.text, rfl⟩
  | _ => cases h

theorem read_string {v : Value} (h : Scalar.string.admits v = true) :
    ∃ x, Form.string.read (.value v) = .ok x := by
  cases v with
  | string s => exact ⟨s, rfl⟩
  | _ => cases h

theorem species_of_filter {id : String} {species : Species} {c : Character}
    (h : (Roster.character? id).filter (·.species == species) = some c) :
    c ∈ Roster.all ∧ c.species = species := by
  obtain ⟨hc, hspecies⟩ := Option.filter_eq_some_iff.mp h
  exact ⟨mem_of_character? hc, eq_of_beq hspecies⟩

/-- **A field of the root comes to a value, if it is sent what it asks for.** -/
theorem tells_of_queryFields
    (hd : declared ∈ queryFields episode character (.object Species.human.handle)
      (.object Species.droid.handle))
    (h : PlannedFrom catalog.1 w "Query" (Model.unit Source Unit) declared f)
    (hk : Knows types) : Tells types f .root := by
  simp only [queryFields, List.mem_cons, List.not_mem_nil, or_false] at hd
  rcases hd with rfl | rfl | rfl | rfl
  · exact tells_of_hero h hk
  · exact tells_of_finder h hk (by decide) (fun _ _ => species_of_filter) fun _ => read_id
  · exact tells_of_finder h hk (by decide) (fun _ _ => species_of_filter) fun _ => read_string
  · exact .value (by rw [h.name]; decide) fun sent given =>
      ⟨_, produce_bare h rfl rfl rfl sent given, fine_scalar h.output rfl⟩

end GraphSchema.StarWars
