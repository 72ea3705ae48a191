import GraphSchema.Proofs.Compile.Reach
import GraphSchema.Proofs.Typing.StarWars

/-! Typed schemas do not go wrong.

Going down from the root of a typed schema, each object of a run has a model of the
kind that it was declared over. So no field is ever called on another one, and none
ever yields a value of the wrong kind (`execute_sound`). -/
namespace GraphSchema.Execution

open Direct Link Query

variable {M C W : Type} [Backed M]

variable {c : Catalog M C W} {d : Description} {w : Walk M C W} {st : Store M C W}
  {s : Schema M C W} {context : Option C}

/-- The call was made on a model of the kind that its object is declared over, and that its field is
read from. -/
inductive Sourced (c : Catalog M C W) (call : Call M C W) : Prop where
  | intro {h : Handle} {def_ : TypeDef M C W} {o : ObjectDef M C W} (hget : c.get? h = some def_)
    (hkind : def_.kind = .object o) (hname : def_.name = call.object.name)
    (hsource : call.field.plan.source.Over o.model)
    (hparent : Backed.backing call.parent = o.model.backing) : Sourced c call

/-- A call is made on a model of the kind of its object, and only fails as a typed field may. -/
structure CallSound (c : Catalog M C W) (context : Option C) (call : Call M C W) : Prop where
  sourced : Sourced c call
  errors : ∀ e ∈ call.failures context, CallError context call e

theorem callSound_of_placed (hs : Linking c d w st s) (htyped : c.IsTyped d st.memo (· ∈ w.visited))
    {call : Call M C W} (hplaced : Placed c w call.object call.parent)
    (hf : call.field ∈ call.object.fields) : CallSound c context call := by
  obtain ⟨h, def_, o, fields, ho, hparent⟩ := hplaced
  obtain ⟨declared, hfield⟩ := hs.typed_field htyped ho hf
  refine ⟨.intro ho.get ho.kind ho.name.symm (hfield.planned.over hfield.bodyTyped) hparent,
    fun e he => ?_⟩
  exact callError_of_mem_failures hfield.planned hfield.modelTyped hfield.bodyTyped hparent he

/-- The objects in what a field of a placed object comes to are placed. -/
theorem placed_below (hs : Linking c d w st s) (htyped : c.IsTyped d st.memo (· ∈ w.visited))
    {t u : ObjectType M C W} {m m' : M} (hplaced : Placed c w t m) {f : PlannedField M C W}
    (hf : f ∈ t.fields) {sent : List (String × Value)} {world world' : W} {p : Produced M}
    (hproduced : f.plan.produce m sent context world = (.ok p, world')) (hm : p.Has m')
    {given : Option String} (hconcrete : concrete s f.info.type.core given = .ok u) :
    Placed c w u m' := by
  obtain ⟨h, def_, o, fields, ho, hparent⟩ := hplaced
  obtain ⟨declared, hfield⟩ := hs.typed_field htyped ho hf
  have hfills := hfield.planned.produce_fills hfield.modelTyped hfield.bodyTyped hparent hproduced
  obtain ⟨x, hx, hbacking⟩ := backing_of_has hfills hm
  rw [hfield.planned.type, core_typeRef_of_named hx] at hconcrete
  exact hs.placed_of_concrete htyped (hfield.visited x hx) hbacking hconcrete

/-- On the way down from a placed object every object is placed. -/
theorem callSound_of_ran (hs : Linking c d w st s) (htyped : c.IsTyped d st.memo (· ∈ w.visited))
    {t : ObjectType M C W} {m : M} {steps : List Step} {call : Call M C W}
    (h : Ran s context t m steps call) (hplaced : Placed c w t m) : CallSound c context call := by
  induction h with
  | here _ _ hf path world =>
    exact callSound_of_placed hs htyped hplaced (List.mem_of_find?_eq_some hf)
  | deeper _ hf hproduced hcompleted hcontains hconcrete _ ih =>
    -- whatever completion has made an object of was produced, so it is of the field's type
    have hm := has_of_contains (Completion.complete_made hcompleted) hcontains
    exact ih (placed_below hs htyped hplaced (List.mem_of_find?_eq_some hf) hproduced hm hconcrete)
  | narrow _ _ _ ih => exact ih hplaced

/-- **No call of a typed schema goes wrong**, whether or not there is a context. -/
theorem callSound_of_mem_calls (hs : Linking c d w st s)
    (htyped : c.IsTyped d st.memo (· ∈ w.visited)) {r : Request} {doc : Document}
    {op : Operation} {root : String} (hroot : op.root? s = some root) {world : W} {call : Call M C W}
    (hcall : call ∈ (s.perform context r (doc, op, root) world).2.calls) :
    CallSound c context call := by
  obtain ⟨t, ht, hran⟩ := asked_of_mem_calls hcall
  exact callSound_of_ran hs htyped hran (hs.placed_root htyped hroot ht)

/-- **A typed schema cannot go wrong.** Every field is called on a model of the kind that its object
was declared over. The errors of an answer come from outside or are failures of calls, and no
failure of a call is that something is of the wrong kind. -/
theorem execute_sound {st st' : Store M C W} (hcompile : c.compile d st = (.ok s, st'))
    (hwf : WellFormed c st'.memo (c.Reaches st'.memo d))
    (htyped : c.IsTyped d st'.memo (c.Reaches st'.memo d)) {r : Request}
    {admitted : Document × Operation × String} (hscreen : s.screen r = .ok admitted) {context : C}
    {world : W} {data : Value} {tr : Trace M C W}
    (hrun : s.perform (some context) r admitted world = (data, tr)) :
    ∃ errors,
      s.execute r context world = (.answered ⟨data.nullAll tr.nulls, errors⟩, tr.world) ∧
      (∀ call ∈ tr.calls, CallSound c (some context) call) ∧
      ∀ e ∈ errors, OutsideError s e ∨ ∃ call ∈ tr.calls, e ∈ call.failures (some context) := by
  obtain ⟨walk, hs, hreached⟩ := Catalog.visited_of_compile hcompile
  have hlinked := hs.linked fun h def_ hh => hwf h def_ ((hreached h).mp hh)
  have htyped := htyped.mono fun h hh => (hreached h).mp hh
  obtain ⟨doc, op, root⟩ := admitted
  have htrace : tr = (s.perform (some context) r (doc, op, root) world).2 := by rw [hrun]
  refine ⟨tr.errors.filter (·.message != propagated), ?_, fun call hcall => ?_, fun e he => ?_⟩
  · rw [Schema.execute_of_screen hscreen, hrun]
    rfl
  · exact callSound_of_mem_calls hs htyped (admitted_of_screen hscreen).rooted (htrace ▸ hcall)
  · obtain ⟨he, hmessage⟩ := List.mem_filter.mp he
    rw [htrace] at he ⊢
    rcases error_of_mem_errors he with hcall | hown
    · exact .inr hcall
    · exact .inl (outside_of_raised (raised_of_own hlinked hown (by simpa using hmessage)))

/-- A request for the friends of a hero. -/
def friendsRequest : Request := ⟨"{ hero { friends { name appearsIn } } }", [], none⟩

theorem execute_sound_friends :
    ∃ admitted data tr, starWarsSchema.screen friendsRequest = .ok admitted ∧
      starWarsSchema.perform (some {}) friendsRequest admitted () = (data, tr) ∧
      ∃ errors,
        starWarsSchema.execute friendsRequest {} () =
          (.answered ⟨data.nullAll tr.nulls, errors⟩, tr.world) ∧
        (∀ call ∈ tr.calls, CallSound StarWars.catalog.1 (some {}) call) ∧
        ∀ e ∈ errors, OutsideError starWarsSchema e ∨
          ∃ call ∈ tr.calls, e ∈ call.failures (some {}) := by
  have hok : (starWarsSchema.screen friendsRequest).isOk = true := by decide +kernel
  have hkeeps := StarWars.catalog.1.keeps_compile { query := StarWars.catalog.2 } ⟨Memo.fresh, ()⟩
  rw [starWars_compiles] at hkeeps
  have hst := Store.declared_of_keeps (Store.declared_fresh _ ()) hkeeps
  have htyped := StarWars.catalog_isTyped hst {}
  cases hscreen : starWarsSchema.screen friendsRequest with
  | error e =>
    rw [hscreen] at hok
    cases hok
  | ok admitted =>
    exact ⟨admitted, _, _, rfl, rfl,
      execute_sound starWars_compiles (starWars_wellFormed _) (htyped _) hscreen rfl⟩

end GraphSchema.Execution
