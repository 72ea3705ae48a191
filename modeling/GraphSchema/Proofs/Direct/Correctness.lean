import GraphSchema.Execution.Answer
import GraphSchema.Proofs.Compile.Reach
import GraphSchema.Proofs.Direct.Simulation

/-! Answers against direct evaluation.

The data that a compiled schema answers with, after all the writing of nulls, is the
data of the direct evaluation, and the resolvers leave the same world behind
(`execute_evaluates`). -/
namespace GraphSchema.Direct

open Execution Mending Query

variable {M C W : Type} [Backed M] {s : Schema M C W}

/-- A run of an operation, with its nulls written, is its direct evaluation, and makes the calls of
it. -/
theorem run_evaluates (hlinked : Linked s) {root : String} {steps : List Step}
    (hdistinct : ∀ t, s.object? root = some t → distinct s t steps = true) (context : Option C)
    (w : W) :
    (run s context root steps w).1.nullAll (run s context root steps w).2.nulls =
        (evaluate s context root steps w).1 ∧
      (run s context root steps w).2.world = (evaluate s context root steps w).2 ∧
      (run s context root steps w).2.calls =
        callsFor s context steps root Backed.unit [] w := by
  cases hroot : s.object? root with
  | none =>
    simp only [run, evaluate, select, callsFor, hroot]
    exact ⟨rfl, rfl, rfl⟩
  | some t =>
    have hname := object?_name hroot
    have hparent : (Parent.root : Parent M) ≠ .hole := by simp
    obtain ⟨v, nulls, hv, hsettles⟩ := select_settles (steps_add hlinked steps)
      (hname ▸ hroot) (hdistinct t hroot) hparent [] (.start w)
    obtain ⟨result, hnulls, hcalls, hworld⟩ := hv
    have hrun : run s context root steps w =
        (v, (Execution.select s context steps t .root [] (.start w)).2) := by
      rw [run, hroot]
      dsimp only
      generalize Execution.select s context steps t .root [] (.start w) = o at result
      obtain ⟨ov, tr⟩ := o
      subst result
      rfl
    rw [hrun, evaluate, ← hname]
    refine ⟨?_, hworld, hcalls⟩
    have hmended := (settles_getD hsettles []).2
    rw [Path.under_root] at hmended
    rw [hnulls]
    exact hmended

/-- **The data of an answer is what evaluating the request directly gives.** A failing or null
value is null in the nearest position around it that may be null, and every other position is as
it was resolved. -/
theorem execute_evaluates {c : Catalog M C W} {d : Description} {st st' : Store M C W}
    (hcompile : c.compile d st = (.ok s, st'))
    (hwf : Link.WellFormed c st'.memo (c.Reaches st'.memo d))
    {r : Request} {doc : Document} {op : Operation} {root : String}
    (hscreen : s.screen r = .ok (doc, op, root))
    (hdistinct : ∀ t, s.object? root = some t → distinct s t (doc.plan op r.sent) = true)
    (context : C) (w : W) :
    s.execute r context w =
      (.answered
          ⟨(evaluate s (some context) root (doc.plan op r.sent) w).1,
            (s.perform (some context) r (doc, op, root) w).2.errors.filter
              (·.message != propagated)⟩,
        (evaluate s (some context) root (doc.plan op r.sent) w).2) := by
  obtain ⟨-, -, hlinked⟩ := Catalog.linked_of_compile hcompile hwf
  obtain ⟨hdata, hworld, _⟩ := run_evaluates hlinked hdistinct (some context) w
  rw [Schema.execute_of_screen hscreen, Schema.propagate, Schema.perform, hdata, hworld]

/-- Whether the request is admitted for the root of the name, and repeats no key. -/
def admitsDistinct (s : Schema M C W) (root : String) (r : Request) : Bool :=
  match s.screen r with
  | .ok (doc, op, found) =>
    found == root && (s.object? root).all fun t => distinct s t (doc.plan op r.sent)
  | .error _ => false

omit [Backed M] in
theorem screen_of_admitsDistinct {root : String} {r : Request}
    (h : admitsDistinct s root r = true) :
    ∃ doc op, s.screen r = .ok (doc, op, root) ∧
      ∀ t, s.object? root = some t → distinct s t (doc.plan op r.sent) = true := by
  unfold admitsDistinct at h
  split at h
  · next doc op found hscreen =>
    obtain ⟨hroot, hdistinct⟩ := Bool.and_eq_true_iff.mp h
    obtain rfl := beq_iff_eq.mp hroot
    exact ⟨doc, op, hscreen, by simpa only [Option.all_eq_true] using hdistinct⟩
  · cases h

/-- A request for a hero with friends, whose secrets are failures. -/
def heroRequest : Request :=
  ⟨"{ hero { name friends { ... on Human { secretBackStory } } } }", [], none⟩

theorem execute_evaluates_hero :
    ∃ doc op, Link.starWarsSchema.screen heroRequest = .ok (doc, op, "Query") ∧
      Link.starWarsSchema.execute heroRequest {} () =
        (.answered
            ⟨(evaluate Link.starWarsSchema (some {}) "Query" (doc.plan op []) ()).1,
              (Link.starWarsSchema.perform (some {}) heroRequest (doc, op, "Query")
                ()).2.errors.filter (·.message != propagated)⟩,
          (evaluate Link.starWarsSchema (some {}) "Query" (doc.plan op []) ()).2) := by
  have hadmits : admitsDistinct Link.starWarsSchema "Query" heroRequest = true := by
    decide +kernel
  obtain ⟨doc, op, hscreen, hdistinct⟩ := screen_of_admitsDistinct hadmits
  exact ⟨doc, op, hscreen, execute_evaluates Link.starWars_compiles (Link.starWars_wellFormed _)
    hscreen hdistinct {} ()⟩

end GraphSchema.Direct
