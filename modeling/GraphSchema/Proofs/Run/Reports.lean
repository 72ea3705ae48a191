import GraphSchema.Execution.Answer
import GraphSchema.Proofs.Run.Log
import GraphSchema.StarWars.Schema

/-! What an answer reports.

The errors of an answer are the failures of the calls that were made for it, each
once and with its own message and path, and the errors of the run itself. The one
failure that is missing is one whose message reads like the error that stands in for
another one (`execute_reports`). -/
namespace GraphSchema.Execution

open Query

variable {M C W : Type} {s : Schema M C W}

namespace Entry

def own? : Entry M C W → Option ResponseError
  | call _ => none
  | own e => some e

theorem errors_perm (context : Option C) (entries : List (Entry M C W)) :
    (entries.flatMap (errors context)).Perm
      ((entries.filterMap call?).flatMap (Call.failures context) ++ entries.filterMap own?) := by
  induction entries with
  | nil => exact .refl _
  | cons e entries ih =>
    cases e with
    | call c =>
      simp only [List.flatMap_cons, List.filterMap_cons, call?, own?, errors, List.append_assoc]
      exact ih.append_left _
    | own e =>
      simp only [List.flatMap_cons, List.filterMap_cons, call?, own?, errors,
        List.singleton_append]
      exact (ih.cons e).trans List.perm_middle.symm

theorem own_of_own? {steps : List Step} {asked : Call M C W → Prop}
    {entries : List (Entry M C W)} (h : ∀ e ∈ entries, Explained s steps asked e)
    {e : ResponseError} (he : e ∈ entries.filterMap own?) : Own s steps e := by
  obtain ⟨entry, hentry, hown⟩ := List.mem_filterMap.mp he
  cases entry with
  | call c => cases hown
  | own e' =>
    cases hown
    exact h _ hentry

end Entry

/-- A call that the steps of an operation asked for, on the root or below it. -/
def Asked [Backed M] (s : Schema M C W) (context : Option C) (root : String) (steps : List Step)
    (c : Call M C W) : Prop :=
  ∃ t, s.object? root = some t ∧ Ran s context t Backed.unit steps c

/-- All that a run leaves in its trace is explained. -/
theorem run_log [Backed M] (s : Schema M C W) (context : Option C) (root : String)
    (steps : List Step) (w : W) :
    Logs context (Explained s steps (Asked s context root steps)) (.start w)
      (run s context root steps w).2 := by
  unfold run
  cases hroot : s.object? root with
  | none => exact logs_refl _
  | some t =>
    have hsteps : StepsLog s context steps := steps_log steps
    have ht : s.object? t.name = some t := (Direct.object?_name hroot).symm ▸ hroot
    refine logs_mono (explained_mono (fun _ => id) fun c hc => ?_)
      (hsteps t ht .root [] [] (.start w))
    exact ⟨t, hroot, hc.1⟩

/-- Every call of a run was asked for. -/
theorem asked_of_mem_calls [Backed M] {context : Option C} {root : String} {steps : List Step}
    {w : W} {c : Call M C W} (hc : c ∈ (run s context root steps w).2.calls) :
    Asked s context root steps c := by
  obtain ⟨entries, hcalls, _, hexplained⟩ := run_log s context root steps w
  have hmem : c ∈ entries.filterMap Entry.call? := by
    rw [hcalls] at hc
    simpa [Trace.start] using hc
  obtain ⟨entry, hentry, hcall⟩ := List.mem_filterMap.mp hmem
  cases entry with
  | call c' =>
    cases hcall
    exact hexplained _ hentry
  | own e => cases hcall

/-- Every error of a run is that of a call, or one of the run itself. -/
theorem error_of_mem_errors [Backed M] {context : Option C} {root : String} {steps : List Step}
    {w : W} {e : ResponseError} (he : e ∈ (run s context root steps w).2.errors) :
    (∃ c ∈ (run s context root steps w).2.calls, e ∈ c.failures context) ∨
      Own s steps e := by
  obtain ⟨entries, hcalls, herrors, hexplained⟩ := run_log s context root steps w
  rw [herrors] at he
  obtain ⟨entry, hentry, he⟩ := List.mem_flatMap.mp he
  cases entry with
  | call c =>
    refine .inl ⟨c, ?_, he⟩
    rw [hcalls]
    exact List.mem_append_right _ (List.mem_filterMap.mpr ⟨_, hentry, rfl⟩)
  | own e' =>
    cases List.mem_singleton.mp he
    exact .inr (hexplained _ hentry)

/-- With the stand-ins gone, the errors of a run are the failures of its calls and its own. -/
theorem errors_of_run [Backed M] (s : Schema M C W) (context : Option C) (root : String)
    (steps : List Step) (w : W) :
    ∃ own, ((run s context root steps w).2.errors.filter (·.message != propagated)).Perm
        (((run s context root steps w).2.calls.flatMap (Call.failures context)).filter
          (·.message != propagated) ++ own) ∧
      ∀ e ∈ own, Own s steps e ∧ e.message ≠ propagated := by
  obtain ⟨entries, hcalls, herrors, hexplained⟩ := run_log s context root steps w
  rw [hcalls, herrors]
  refine ⟨(entries.filterMap Entry.own?).filter (·.message != propagated), ?_, fun e he => ?_⟩
  · rw [← List.filter_append]
    exact (Entry.errors_perm context entries).filter _
  · obtain ⟨he, hmessage⟩ := List.mem_filter.mp he
    exact ⟨Entry.own_of_own? hexplained he, by simpa using hmessage⟩

/-- **An answer reports every failure of its calls once, unless the message is that of the
stand-ins.** Apart from them it only has errors that are of no call. -/
theorem execute_reports [Backed M] {r : Request} {admitted : Document × Operation × String}
    (hscreen : s.screen r = .ok admitted) {context : C} {w : W} {data : Value} {tr : Trace M C W}
    (hrun : s.perform (some context) r admitted w = (data, tr)) :
    ∃ errors own,
      s.execute r context w = (.answered ⟨data.nullAll tr.nulls, errors⟩, tr.world) ∧
      errors.Perm ((tr.calls.flatMap (Call.failures (some context))).filter
        (·.message != propagated) ++ own) ∧
      ∀ e ∈ own, EngineError s e := by
  obtain ⟨doc, op, root⟩ := admitted
  obtain ⟨own, hperm, hown⟩ := errors_of_run s (some context) root (doc.plan op r.sent) w
  have htrace : (run s (some context) root (doc.plan op r.sent) w).2 = tr := congrArg Prod.snd hrun
  rw [htrace] at hperm
  refine ⟨tr.errors.filter (·.message != propagated), own, ?_, hperm, fun e he => ?_⟩
  · rw [Schema.execute_of_screen hscreen, hrun]
    rfl
  · exact engineError_of_own (hown e he).1 (hown e he).2

/-- A schema whose first field fails just like a stand-in. -/
def quietSchema : Schema StarWars.Source StarWars.Context Unit :=
  let query := ({ id := 0 } : Catalog StarWars.Source StarWars.Context Unit).query.objectFields
    (.done [
      StarWars.field "f" (.scalar .int) (.resolver (.scalar .int) <|
        StarWars.pureResolver .unit fun _ _ _ => .error propagated),
      StarWars.field "g" (.scalar .int) (.resolver (.scalar .int) <|
        StarWars.pureResolver .unit fun _ _ _ => .ok (.value (.number (.int 1))))])
  let (compiled, _) := query.catalog.compile { query := query.handle } ⟨Memo.fresh, ()⟩
  compiled.toOption.getD ⟨[], "", none, {}⟩

/-- The failure of that field is lost: the answer has no errors. -/
theorem execute_reports_quiet :
    ∃ admitted data tr own, quietSchema.screen ⟨"{ f g }", [], none⟩ = .ok admitted ∧
      quietSchema.perform (some {}) ⟨"{ f g }", [], none⟩ admitted () = (data, tr) ∧
      (∃ e ∈ tr.calls.flatMap (Call.failures (some {})), e.path = [.key "f"]) ∧
      quietSchema.execute ⟨"{ f g }", [], none⟩ {} () =
        (.answered ⟨data.nullAll tr.nulls, []⟩, tr.world) ∧
      [].Perm ((tr.calls.flatMap (Call.failures (some {}))).filter
        (·.message != propagated) ++ own) ∧
      ∀ e ∈ own, EngineError quietSchema e := by
  have hfails : (quietSchema.screen ⟨"{ f g }", [], none⟩).toOption.any (fun admitted =>
      ((quietSchema.perform (some {}) ⟨"{ f g }", [], none⟩ admitted ()).2.calls.flatMap
        (Call.failures (some {}))).any (·.path == [.key "f"])) = true := by
    decide +kernel
  have hquiet : (match (quietSchema.execute ⟨"{ f g }", [], none⟩ {} ()).1 with
      | .answered response => response.errors.isEmpty
      | .refused _ => false) = true := by decide +kernel
  cases hscreen : quietSchema.screen ⟨"{ f g }", [], none⟩ with
  | error e =>
    rw [hscreen] at hfails
    cases hfails
  | ok admitted =>
    obtain ⟨errors, own, hexecute, hperm, hown⟩ := execute_reports hscreen rfl
    rw [hexecute] at hquiet
    obtain rfl : errors = [] := List.isEmpty_iff.mp hquiet
    rw [hscreen] at hfails
    obtain ⟨e, he, hpath⟩ := List.any_eq_true.mp hfails
    exact ⟨admitted, _, _, own, rfl, rfl, ⟨e, he, beq_iff_eq.mp hpath⟩, hexecute, hperm, hown⟩

end GraphSchema.Execution
