import GraphSchema.Proofs.Direct.Isolation
import GraphSchema.Proofs.Run.Twins

/-! Failures stay where they are.

Two answers to one request, from runs in which only one field came to something else,
have the same data outside of any nullable position around that field, and the same
errors but for those of the field and of what is selected of it
(`execute_isolated`). -/
namespace GraphSchema.Execution

open Query Direct

variable {M C W : Type} [Backed M] {s : Schema M C W}

/-- The calls for a request that repeats no key are at different positions. -/
theorem callsFor_spread (hlinked : Linked s) {root : String} {steps : List Step}
    (hdistinct : ∀ t, s.object? root = some t → distinct s t steps = true) (context : Option C)
    (w : W) : Spread (fun _ => True) (callsFor s context steps root Backed.unit [] w) := by
  cases ht : s.object? root with
  | none =>
    simp only [callsFor, ht]
    exact spread_nil
  | some t =>
    have ht' : s.object? t.name = some t := (object?_name ht).symm ▸ ht
    rw [callsFor_of_object? ht]
    exact spread_mono (fun _ _ => trivial)
      (callsOf_spread hlinked ht' (hdistinct t ht) Backed.unit [] w)

/-- **A failure is isolated to the smallest part of an answer that can be null.** An admitted
request is answered. Two answers to it whose calls agree but for the one at some position and those
below it have the same data, once a position at or above that one is cut out that may be null. They
have the same errors, in the same order, but for the errors at that position or below it and for
what the run raises for the steps below it. -/
theorem execute_isolated {c : Catalog M C W} {d : Description} {st st' : Store M C W}
    (hcompile : c.compile d st = (.ok s, st'))
    (hwf : Link.WellFormed c st'.memo (c.Reaches st'.memo d))
    {r : Request} {doc : Document} {op : Operation} {root : String}
    (hscreen : s.screen r = .ok (doc, op, root))
    (hdistinct : ∀ t, s.object? root = some t → distinct s t (doc.plan op r.sent) = true)
    {context context' : C} {w w' : W} {call : Call M C W}
    (hcall : call ∈ (s.perform (some context) r (doc, op, root) w).2.calls)
    (hagree : AgreeOff (some context) (some context') call.path
      (s.perform (some context) r (doc, op, root) w).2.calls
      (s.perform (some context') r (doc, op, root) w').2.calls)
    {a : Path} (habove : a <+: call.path)
    (hnullable : MayBeNull (s.perform (some context) r (doc, op, root) w).2.calls a) :
    ∃ response v response' v', s.execute r context w = (.answered response, v) ∧
      s.execute r context' w' = (.answered response', v') ∧
      response.data.cut a = response'.data.cut a ∧
      without (fun e => call.path <+: e.path ∨ RaisedBelow s (doc.plan op r.sent) call.path e)
          response.errors =
        without (fun e => call.path <+: e.path ∨ RaisedBelow s (doc.plan op r.sent) call.path e)
          response'.errors := by
  obtain ⟨walk, hs, hlinked⟩ := Catalog.linked_of_compile hcompile hwf
  obtain ⟨hdata, _, hcalls⟩ := run_evaluates hlinked hdistinct (some context) w
  obtain ⟨hdata', _, hcalls'⟩ := run_evaluates hlinked hdistinct (some context') w'
  simp only [Schema.perform] at hcall hagree hnullable
  have hspread := callsFor_spread hlinked hdistinct (some context) w
  refine ⟨_, _, _, _, Schema.execute_of_screen hscreen context w,
    Schema.execute_of_screen hscreen context' w', ?_, ?_⟩
  · simp only [Schema.propagate, Schema.perform, hdata, hdata']
    rw [hcalls] at hagree hnullable
    rw [hcalls'] at hagree
    exact evaluate_alike hlinked hs.parallel hdistinct ⟨hagree, hspread, habove, hnullable⟩
  · simp only [Schema.propagate, Schema.perform, without_filter]
    exact run_twin ⟨hlinked, hspread.keyed call (hcalls ▸ hcall), hagree,
      fun e he => .inl (.inl he), fun position => .inr (by simp)⟩ fun e he => .inl (.inr he)

/-! ### A field that fails in some contexts -/

/-- The root has a hero, who may be away, and a number. -/
def fickleCatalog : Catalog StarWars.Source StarWars.Context Unit × Handle :=
  let one : StarWars.StarWarsField := StarWars.field "number" (.scalar .int)
    (.resolver (.scalar .int) <| StarWars.pureResolver .unit fun _ _ _ =>
      .ok (.value (.number (.int 1))))
  let echo : StarWars.StarWarsField := StarWars.field "echo" (.scalar .int)
    (.resolver (.scalar .int) <| StarWars.pureResolver StarWars.Character.backing fun _ _ _ =>
      .ok (.value (.number (.int 2))))
    none [⟨"x", .nonNull (.scalar .int), none, none⟩]
  let o := ({ id := 0 } : Catalog StarWars.Source StarWars.Context Unit).object "Hero"
    (StarWars.Source.characters Unit)
  let o := o.objectFields (.done [StarWars.field "name" (.scalar .string) .property, echo])
  let q := o.catalog.query.objectFields (.done [
    StarWars.field "hero" (.object o.handle)
      (.resolver StarWars.characterShape <| StarWars.pureResolver .unit fun _ _ context =>
        if context.content = "away" then .error "the hero is away"
        else .ok (StarWars.produceCharacter (StarWars.Roster.hero? none))),
    one])
  (q.catalog, q.handle)

@[irreducible] def fickle : Except DefinitionError (Schema StarWars.Source StarWars.Context Unit) ×
    Store StarWars.Source StarWars.Context Unit :=
  fickleCatalog.1.compile { query := fickleCatalog.2 } ⟨Memo.fresh, ()⟩

def fickleSchema : Schema StarWars.Source StarWars.Context Unit :=
  fickle.1.toOption.getD ⟨[], "", none, {}⟩

theorem fickle_compiles :
    fickleCatalog.1.compile { query := fickleCatalog.2 } ⟨Memo.fresh, ()⟩ =
      (.ok fickleSchema, fickle.2) := by
  have heq : fickle = (.ok fickleSchema, fickle.2) := Except.eq_ok_getD (by decide +kernel) _
  rw [← heq, fickle]

theorem fickle_wellFormed (types : Handle → Prop) :
    Link.WellFormed fickleCatalog.1 fickle.2.memo types :=
  Link.wellFormed_of_isWellFormed (by decide +kernel) types

/-- Whether both came to the same whole number. -/
def sameNumber : Except String (Produced M) → Except String (Produced M) → Bool
  | .ok (.value (.number (.int n))), .ok (.value (.number (.int n'))) => n == n'
  | _, _ => false

omit [Backed M] in
theorem eq_of_sameNumber {x y : Except String (Produced M)} (h : sameNumber x y = true) :
    x = y := by
  unfold sameNumber at h
  split at h
  · rw [beq_iff_eq.mp h]
  · cases h

/-- Whether the calls at the same position, `p` aside, came to the same number. -/
def agreesOff (context context' : Option C) (p : Path) (calls calls' : List (Call M C W)) : Bool :=
  calls.all fun c => calls'.all fun c' =>
    !(c.path == c'.path) || p.isPrefixOf c.path ||
      sameNumber (c.produced context) (c'.produced context')

omit [Backed M] in
theorem agreeOff_of_agreesOff {context context' : Option C} {p : Path}
    {calls calls' : List (Call M C W)} (h : agreesOff context context' p calls calls' = true) :
    AgreeOff context context' p calls calls' := by
  intro c hc c' hc' hpath hoff
  have hpair := List.all_eq_true.mp (List.all_eq_true.mp h c hc) c' hc'
  simp only [hpath, beq_self_eq_true, Bool.not_true, Bool.false_or, Bool.or_eq_true,
    List.isPrefixOf_iff_prefix] at hpair
  exact eq_of_sameNumber (hpair.resolve_left (hpath ▸ hoff))

/-- Where the hero stands in an answer. -/
def heroPath : Path := [.key "hero"]

def away : StarWars.Context := ⟨"away"⟩

/-- The runs of the request with the hero there and with the hero away. Their calls differ just at
the hero, who may be null. -/
structure DifferAtHero (r : Request) (doc : Document) (op : Operation)
    (call : Call StarWars.Source StarWars.Context Unit) : Prop where
  screened : fickleSchema.screen r = .ok (doc, op, "Query")
  distinct : ∀ t, fickleSchema.object? "Query" = some t →
    Direct.distinct fickleSchema t (doc.plan op r.sent) = true
  called : call ∈ (fickleSchema.perform (some {}) r (doc, op, "Query") ()).2.calls
  hero : call.path = heroPath
  nullable : call.field.info.type.nullableAt 0 = true
  agree : AgreeOff (some {}) (some away) call.path
    (fickleSchema.perform (some {}) r (doc, op, "Query") ()).2.calls
    (fickleSchema.perform (some away) r (doc, op, "Query") ()).2.calls

/-- Whether the hero is called for, and the calls for all else agree when the hero is away. -/
def differsAtHero (r : Request) (admitted : Document × Operation × String) : Bool :=
  let calls := (fickleSchema.perform (some {}) r admitted ()).2.calls
  let calls' := (fickleSchema.perform (some away) r admitted ()).2.calls
  agreesOff (some {}) (some away) heroPath calls calls' &&
    calls.any fun c => c.path == heroPath && c.field.info.type.nullableAt 0

/-- The checks decide it. -/
theorem differAtHero_of_checks {r : Request}
    (hadmits : admitsDistinct fickleSchema "Query" r = true)
    (hdiffers : (fickleSchema.screen r).toOption.any (differsAtHero r) = true) :
    ∃ doc op call, DifferAtHero r doc op call := by
  obtain ⟨doc, op, hscreen, hdistinct⟩ := screen_of_admitsDistinct hadmits
  rw [hscreen] at hdiffers
  obtain ⟨hagree, hcall⟩ := Bool.and_eq_true_iff.mp hdiffers
  obtain ⟨call, hcall, hhero⟩ := List.any_eq_true.mp hcall
  obtain ⟨hpath, hnullable⟩ := Bool.and_eq_true_iff.mp hhero
  have hpath : call.path = heroPath := beq_iff_eq.mp hpath
  rw [← hpath] at hagree
  exact ⟨doc, op, call, hscreen, hdistinct, hcall, hpath, hnullable, agreeOff_of_agreesOff hagree⟩

/-- A request that only has an error while the hero is away. -/
def nameRequest : Request := ⟨"{ hero { name } number }", [], none⟩

/-- With the hero away the number stays, and there is no error but the hero's. -/
theorem execute_isolated_hero :
    ∃ doc op call response response', DifferAtHero nameRequest doc op call ∧
      fickleSchema.execute nameRequest {} () = (.answered response, ()) ∧
      fickleSchema.execute nameRequest away () = (.answered response', ()) ∧
      response.data.cut heroPath = response'.data.cut heroPath ∧
      without (fun e => heroPath <+: e.path ∨
          RaisedBelow fickleSchema (doc.plan op []) heroPath e) response.errors =
        without (fun e => heroPath <+: e.path ∨
          RaisedBelow fickleSchema (doc.plan op []) heroPath e) response'.errors := by
  obtain ⟨doc, op, call, h⟩ := differAtHero_of_checks (r := nameRequest) (by decide +kernel)
    (by decide +kernel)
  obtain ⟨response, v, response', v', hthere, hgone, hisolated⟩ :=
    execute_isolated fickle_compiles (fickle_wellFormed _) h.screened h.distinct h.called h.agree
      (List.prefix_refl _) (.inr ⟨call, h.called, [], by simp, h.nullable⟩)
  rw [h.hero] at hisolated
  exact ⟨doc, op, call, response, response', h, hthere, hgone, hisolated⟩

/-- Whether the answer has so many errors, those at the hero left out. -/
def errorsOffHero (n : Nat) : Answer → Bool
  | .answered response => (response.errors.filter (!heroPath.isPrefixOf ·.path)).length == n
  | .refused _ => false

/-- A request for a field of the hero, without a value for its variable. -/
def echoRequest : Request := ⟨"query($x: Int!) { hero { echo(x: $x) } number }", [], none⟩

/-- The variable without a value is an error, not at the hero, of the one answer only. -/
theorem execute_isolated_unbound :
    ∃ doc op call response response', DifferAtHero echoRequest doc op call ∧
      fickleSchema.execute echoRequest {} () = (.answered response, ()) ∧
      fickleSchema.execute echoRequest away () = (.answered response', ()) ∧
      ¬ (response.errors.filter (!call.path.isPrefixOf ·.path)).Perm
        (response'.errors.filter (!call.path.isPrefixOf ·.path)) := by
  obtain ⟨doc, op, call, h⟩ := differAtHero_of_checks (r := echoRequest) (by decide +kernel)
    (by decide +kernel)
  have hthere := Schema.execute_of_screen h.screened {} ()
  have hgone := Schema.execute_of_screen h.screened away ()
  have hone : errorsOffHero 1 (fickleSchema.execute echoRequest {} ()).1 = true := by
    decide +kernel
  have hnone : errorsOffHero 0 (fickleSchema.execute echoRequest away ()).1 = true := by
    decide +kernel
  rw [hthere] at hone
  rw [hgone] at hnone
  refine ⟨doc, op, call, _, _, h, hthere, hgone, fun hperm => ?_⟩
  have hlength := hperm.length_eq
  rw [h.hero, beq_iff_eq.mp hone, beq_iff_eq.mp hnone] at hlength
  cases hlength

end GraphSchema.Execution
