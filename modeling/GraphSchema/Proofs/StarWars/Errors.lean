import GraphSchema.Proofs.Nulling
import GraphSchema.Proofs.StarWars.Compiled
import Mathlib.Data.List.Perm.Basic

/-! The errors of the Star Wars schema.

A request that leaves no argument open gets an error for each secret that it asks for, and
no other. What else is reported is reported because of an argument in which a variable has
no value (`Stray`). In neither case is anything null because of what is below it
(`execute_secrets`). -/
namespace GraphSchema.StarWars

open Direct Execution Link Query

variable {limits : Limits} {r : Request} {doc : Document} {op : Operation} {root : String}
  {given : Context}

/-! ### One call -/

/-- A call whose arguments do not suit its field was selected with one that was left open. -/
theorem open_of_unsuited (h : limits.validate = .ok ())
    (hadmitted : Admitted (compiled limits) r doc op root) {call : Call Source Context Unit}
    (hunsuited : ¬ Suits (compiled limits).named? call.field.info.arguments call.sent)
    {parent : TypeInfo} {head : FieldHead}
    (hselected : SelectedAs (compiled limits) ⟨r.sent, op.variableDefinitions⟩
      (doc.inReach (compiled limits).named? ((compiled limits).named? root) op) call parent head) :
    ∃ a ∈ head.arguments, a.IsOpen op r.sent := by
  obtain ⟨w, hs⟩ := compiled_linking h
  obtain ⟨hasSelections, hoccurs⟩ := hselected.occurs
  obtain ⟨declared, hdeclared, _⟩ := field_of_isValid (hadmitted.valid _ hoccurs).1
  have hown : declared = call.field.info := by
    obtain ⟨_, hinterface | hown⟩ :=
      promised_of_covers hs hselected.object hselected.covers hdeclared hselected.field
    · -- what an interface declares takes no arguments, which suits every field
      refine absurd ?_ hunsuited
      have hcovers := hselected.covers
      cases hcovers with
      | object => cases hinterface
      | union => cases hinterface
      | interface hi hmem =>
        rw [compiled_bare (List.mem_of_find?_eq_some (object?_eq_some hselected.object)) hmem
          (List.mem_of_find?_eq_some hselected.field)]
        exact nofun
    · exact hown
  refine Classical.byContradiction fun hclosed => hunsuited ?_
  exact suits_of_closed hs hadmitted hselected (hown ▸ hdeclared)
    fun a ha hopen => hclosed ⟨a, ha, hopen⟩

theorem tells_of_call (h : limits.validate = .ok ())
    (hadmitted : Admitted (compiled limits) r doc op root) {call : Call Source Context Unit}
    (hcall : call ∈ ((compiled limits).perform (some given) r (doc, op, root) ()).2.calls) :
    Tells (compiled limits).named? call.field call.parent := by
  obtain ⟨w, hs⟩ := compiled_linking h
  exact tells_of_mem_calls hs store_declared (compiled_linked h) (compiled_knows h)
    hadmitted.rooted hcall

/-- What the calls of a run report: one error for each secret, and what the others report. -/
theorem failures_perm {types : Types} {calls : List (Call Source Context Unit)}
    (h : ∀ call ∈ calls, Tells types call.field call.parent) :
    (calls.flatMap (Call.failures (some given))).Perm
      ((calls.filter isSecret).map secretError ++
        (calls.filter (!isSecret ·)).flatMap (Call.failures (some given))) := by
  have hsecrets : (calls.filter isSecret).flatMap (Call.failures (some given)) =
      (calls.filter isSecret).map secretError := by
    rw [List.map_eq_flatMap]
    refine List.flatMap_congr fun call hcall => ?_
    obtain ⟨hcall, hsecret⟩ := List.mem_filter.mp hcall
    rcases call_cases (h call hcall) with ⟨_, hfailures⟩ | ⟨hplain, _⟩
    · exact hfailures
    · rw [hsecret] at hplain
      cases hplain
  rw [← hsecrets, ← List.flatMap_append]
  exact ((List.filter_append_perm isSecret calls).flatMap_right _).symm

/-! ### Errors beside the secrets -/

/-- An error that is explained by an argument in which a variable has no value. -/
inductive Stray (s : Schema Source Context Unit) (r : Request) (doc : Document) (op : Operation)
    (root : String) (given : Context) (calls : List (Call Source Context Unit)) :
    ResponseError → Prop where
  /-- The argument cannot be made out, or is of no use to a question about the schema. -/
  | outside {e : ResponseError} (h : OutsideError s e) {parent : Option TypeInfo} {head : FieldHead}
      {hasSelections : Bool}
      (hoccurs : .field parent head hasSelections ∈ doc.inReach s.named? (s.named? root) op)
      {a : Query.Argument} (ha : a ∈ head.arguments) (hopen : a.IsOpen op r.sent)
      (hposition : e.position = a.position) : Stray s r doc op root given calls e
  /-- A field of the root has no use for the argument. -/
  | unsuited {e : ResponseError} {call : Call Source Context Unit} (hcall : call ∈ calls)
      (h : Unsuited s.named? given call e) {parent : TypeInfo} {head : FieldHead}
      (hselected : SelectedAs s ⟨r.sent, op.variableDefinitions⟩
        (doc.inReach s.named? (s.named? root) op) call parent head)
      {a : Query.Argument} (ha : a ∈ head.arguments) (hopen : a.IsOpen op r.sent) :
      Stray s r doc op root given calls e

theorem Stray.unsent {s : Schema Source Context Unit} {calls : List (Call Source Context Unit)}
    {e : ResponseError} (h : Stray s r doc op root given calls e) :
    ∃ d ∈ op.variableDefinitions, Value.member? d.name r.sent = none := by
  cases h with
  | outside _ _ _ hopen _ => exact hopen.unsent
  | unsuited _ _ _ _ hopen => exact hopen.unsent

section

variable {calls : List (Call Source Context Unit)} {e : ResponseError}

theorem stray_of_raised (h : limits.validate = .ok ())
    (hadmitted : Admitted (compiled limits) r doc op root)
    (hraised : Raised (compiled limits) (doc.plan op r.sent) e) :
    Stray (compiled limits) r doc op root given calls e := by
  obtain ⟨t, ht, hroot⟩ := compiled_rooted h hadmitted.rooted
  have hselects := selects_plan doc (compiled limits).named?
    ((compiled limits).named? root) op r.sent
  obtain ⟨parent, head, hasSelections, hoccurs, a, ha, hopen, hposition⟩ :=
    open_of_faulted (compiled_legible h) hadmitted (faulted_of_raised hraised) ht
      (hroot ▸ hselects)
  exact .outside (outside_of_raised hraised) hoccurs ha hopen hposition

theorem stray_of_call (h : limits.validate = .ok ())
    (hadmitted : Admitted (compiled limits) r doc op root) {call : Call Source Context Unit}
    (hcall : call ∈ ((compiled limits).perform (some given) r (doc, op, root) ()).2.calls)
    (hsecret : isSecret call = false) (he : e ∈ call.failures (some given)) :
    Stray (compiled limits) r doc op root given
      ((compiled limits).perform (some given) r (doc, op, root) ()).2.calls e := by
  obtain ⟨w, hs⟩ := compiled_linking h
  obtain ⟨parent, head, hselected⟩ := selection_of_mem_calls hs hadmitted hcall
  rcases call_cases (tells_of_call h hadmitted hcall) with ⟨hkept, _⟩ | ⟨_, hunsuited⟩
  · rw [hsecret] at hkept
    cases hkept
  · obtain ⟨a, ha, hopen⟩ := open_of_unsuited h hadmitted (hunsuited e he).unsuited hselected
    exact .unsuited hcall (hunsuited e he) hselected ha hopen

end

/-! ### The whole answer -/

/-- **The errors of a run are one for each secret that was asked for, and strays.** -/
theorem errors_of_perform (h : limits.validate = .ok ())
    (hadmitted : Admitted (compiled limits) r doc op root) {tr : Trace Source Context Unit}
    (htr : ((compiled limits).perform (some given) r (doc, op, root) ()).2 = tr) :
    ∃ others, (tr.errors.filter (·.message != propagated)).Perm
        ((tr.calls.filter isSecret).map secretError ++ others) ∧
      ∀ e ∈ others, Stray (compiled limits) r doc op root given tr.calls e := by
  obtain ⟨own, hperm, hown⟩ := errors_of_run (compiled limits) (some given) root
    (doc.plan op r.sent) ()
  have hrun : (run (compiled limits) (some given) root (doc.plan op r.sent) ()).2 = tr := htr
  rw [hrun] at hperm
  have htells : ∀ call ∈ tr.calls, Tells (compiled limits).named? call.field call.parent :=
    fun call hcall => tells_of_call h hadmitted (htr ▸ hcall)
  -- no secret reads like an error that stands in for another one
  have hsecrets : ((tr.calls.filter isSecret).map secretError).filter (·.message != propagated) =
      (tr.calls.filter isSecret).map secretError := by
    refine List.filter_eq_self.mpr fun e he => ?_
    obtain ⟨call, _, rfl⟩ := List.mem_map.mp he
    rfl
  refine ⟨((tr.calls.filter (!isSecret ·)).flatMap (Call.failures (some given))).filter
    (·.message != propagated) ++ own, ?_, fun e he => ?_⟩
  · rw [← List.append_assoc]
    refine hperm.trans (List.Perm.append_right own ?_)
    rw [← hsecrets, ← List.filter_append]
    exact (failures_perm htells).filter _
  · rcases List.mem_append.mp he with he | he
    · obtain ⟨call, hcall, hfailure⟩ := List.mem_flatMap.mp (List.mem_filter.mp he).1
      obtain ⟨hcall, hplain⟩ := List.mem_filter.mp hcall
      subst htr
      exact stray_of_call h hadmitted hcall (by simpa using hplain) hfailure
    · obtain ⟨hown, hmessage⟩ := hown e he
      exact stray_of_raised h hadmitted (raised_of_own (compiled_linked h) hown hmessage)

/-- **The Star Wars schema only fails where it is meant to**, or where an argument was left open.
Whatever is asked of it and under whatever limits, each secret that is asked for is reported once
at its own path. What is reported beside that stems from a variable of the operation that the
request sends no value for, so there is nothing if each of them is sent. No null is handed on. -/
theorem execute_secrets (h : limits.validate = .ok ()) :
    ∃ s, schema limits = .ok s ∧
      ∀ (r : Request) (doc : Document) (op : Operation) (root : String),
        s.screen r = .ok (doc, op, root) → ∀ given : Context,
          ∃ data tr errors others,
            s.perform (some given) r (doc, op, root) () = (data, tr) ∧
            s.execute r given () = (.answered ⟨data, errors⟩, ()) ∧
            tr.nulls = [] ∧
            errors.Perm ((tr.calls.filter isSecret).map secretError ++ others) ∧
            (∀ e ∈ others, Stray s r doc op root given tr.calls e) ∧
            ((∀ d ∈ op.variableDefinitions, (Value.member? d.name r.sent).isSome = true) →
              others = []) := by
  refine ⟨compiled limits, schema_eq h, fun r doc op root hscreen given => ?_⟩
  have hadmitted := admitted_of_screen hscreen
  obtain ⟨w, hs⟩ := compiled_linking h
  rcases hrun : (compiled limits).perform (some given) r (doc, op, root) () with ⟨data, tr⟩
  have htr := congrArg Prod.snd hrun
  have hnulls : tr.nulls = [] := (congrArg Trace.nulls htr).symm.trans
    (nulls_of_perform hs store_declared (compiled_linked h) (compiled_knows h) hadmitted.rooted)
  obtain ⟨others, hperm, hstray⟩ := errors_of_perform h hadmitted htr
  refine ⟨data, tr, _, others, rfl, ?_, hnulls, hperm, hstray, fun hsent => ?_⟩
  · rw [Schema.execute_of_screen hscreen, hrun, Schema.propagate, hnulls, Value.nullAll_nil]
  · refine List.eq_nil_iff_forall_not_mem.mpr fun e he => ?_
    obtain ⟨d, hd, hunsent⟩ := (hstray e he).unsent
    exact absurd (hsent d hd) (by simp [hunsent])

/-- A request for secrets at two depths, under an id that is sent. -/
def secretsRequest : Request where
  query := "query($id: ID!) { human(id: $id) { secretBackStory friends { ...F } } }
    fragment F on Droid { name secretBackStory }"
  sent := [("id", .string "1000")]

theorem execute_secrets_human :
    ∃ s, (⟨some 3, some 9, false⟩ : Limits).validate = .ok () ∧
      schema ⟨some 3, some 9, false⟩ = .ok s ∧
      ∃ doc op root data tr errors,
        s.screen secretsRequest = .ok (doc, op, root) ∧
        (∀ d ∈ op.variableDefinitions,
          (Value.member? d.name secretsRequest.sent).isSome = true) ∧
        s.perform (some {}) secretsRequest (doc, op, root) () = (data, tr) ∧
        s.execute secretsRequest {} () = (.answered ⟨data, errors⟩, ()) ∧
        tr.nulls = [] ∧ errors.Perm ((tr.calls.filter isSecret).map secretError) ∧
        (tr.calls.filter isSecret).length = 3 := by
  have hvalid : (⟨some 3, some 9, false⟩ : Limits).validate = .ok () := rfl
  obtain ⟨s, hs, hall⟩ := execute_secrets hvalid
  cases hs.symm.trans (schema_eq hvalid)
  have hpasses : (((compiled ⟨some 3, some 9, false⟩).screen secretsRequest).toOption.any
      fun admitted =>
        (admitted.2.1.variableDefinitions.all fun d =>
          (Value.member? d.name secretsRequest.sent).isSome) &&
        (((compiled ⟨some 3, some 9, false⟩).perform (some {}) secretsRequest admitted
          ()).2.calls.filter isSecret).length == 3) = true := by
    decide +kernel
  cases hscreen : (compiled ⟨some 3, some 9, false⟩).screen secretsRequest with
  | error refusal =>
    rw [hscreen] at hpasses
    cases hpasses
  | ok admitted =>
    obtain ⟨doc, op, root⟩ := admitted
    rw [hscreen] at hpasses
    obtain ⟨hsent, hlength⟩ := Bool.and_eq_true_iff.mp hpasses
    have hsent := List.all_eq_true.mp hsent
    obtain ⟨data, tr, errors, others, hrun, hexecute, hnulls, hperm, -, hnone⟩ :=
      hall secretsRequest doc op root hscreen {}
    rw [hnone hsent, List.append_nil] at hperm
    rw [hrun] at hlength
    exact ⟨_, hvalid, hs, doc, op, root, data, tr, errors, hscreen, hsent, hrun, hexecute, hnulls,
      hperm, by simpa using hlength⟩

/-- A request whose variable is null unless it is sent. -/
def unsentRequest : Request where
  query := "query($i: ID = null) { human(id: $i) { name } }"

/-- The errors of an answer need not be those of secrets. -/
theorem execute_beyond_secrets :
    ¬ ∀ s, schema {} = .ok s → ∀ r admitted response, s.screen r = .ok admitted →
      s.execute r {} () = (.answered response, ()) →
        response.errors.Perm
          (((s.perform (some {}) r admitted ()).2.calls.filter isSecret).map secretError) := by
  intro hclaim
  have hanswer : (match (compiled {}).execute unsentRequest {} () with
      | (.answered response, _) =>
        response.errors.any (·.message != "secretBackstory is secret")
      | (.refused _, _) => false) = true := by
    decide +kernel
  rcases hexecute : (compiled {}).execute unsentRequest {} () with ⟨answer, w⟩
  rw [hexecute] at hanswer
  cases answer with
  | refused refusal => cases hanswer
  | answered response =>
    obtain ⟨e, he, hmessage⟩ := List.any_eq_true.mp hanswer
    cases hscreen : (compiled {}).screen unsentRequest with
    | error refusal =>
      simp only [Schema.execute, hscreen] at hexecute
      cases hexecute
    | ok admitted =>
      have hperm := hclaim _ (schema_eq rfl) unsentRequest admitted response hscreen hexecute
      obtain ⟨call, _, rfl⟩ := List.mem_map.mp (hperm.mem_iff.mp he)
      cases hmessage

end GraphSchema.StarWars
