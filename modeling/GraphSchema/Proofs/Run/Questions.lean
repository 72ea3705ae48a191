import GraphSchema.Proofs.Run.Unsent

/-! The errors that a run raises itself, and the arguments that they stem from.

A run raises an error of its own where an argument does not do: its variable has no
value, or a question about the schema has no use for what it is (`faulted_of_raised`).
Validation has looked at every argument with what was sent in it, so in a schema that
declares what its questions ask for such an argument is one that was left open
(`open_of_faulted`). -/
namespace GraphSchema.Execution

open Query Introspection

variable {M C W : Type}

/-- An argument of one of the steps, or of one below them, does not do, and stands there. -/
inductive Faulted : List Step → Position → Prop where
  | unbound {steps below : List Step} {key name : String} {position : Position} {u : Unbound}
      (hmem : .field key name position (.error u) below ∈ steps) : Faulted steps u.position
  /-- A flag that is no boolean. -/
  | flag {steps below : List Step} {key name : String} {position : Position}
      {sent : List BoundArgument} (hmem : .field key name position (.ok sent) below ∈ steps)
      {a : BoundArgument} (ha : a ∈ sent) (hname : a.name = "includeDeprecated")
      (h : a.value.isBoolean = false) : Faulted steps a.position
  /-- A type is asked for by a name that is no text. -/
  | name {steps below : List Step} {key : String} {position : Position}
      {sent : List BoundArgument} (hmem : .field key "__type" position (.ok sent) below ∈ steps)
      {a : BoundArgument} (ha : a ∈ sent) (hname : a.name = "name")
      (h : ∀ text, a.value ≠ .string text) : Faulted steps a.position
  | deeper {steps below : List Step} {key name : String} {position : Position}
      {sent : List BoundArgument} (hmem : .field key name position (.ok sent) below ∈ steps)
      {p : Position} (h : Faulted below p) : Faulted steps p
  | narrow {steps below : List Step} {condition : String}
      (hmem : .narrow condition below ∈ steps) {p : Position} (h : Faulted below p) :
      Faulted steps p

theorem faulted_mono {steps steps' : List Step} {p : Position}
    (hsub : ∀ step ∈ steps, step ∈ steps') (h : Faulted steps p) : Faulted steps' p := by
  cases h with
  | unbound hmem => exact .unbound (hsub _ hmem)
  | flag hmem ha hname h => exact .flag (hsub _ hmem) ha hname h
  | name hmem ha hname h => exact .name (hsub _ hmem) ha hname h
  | deeper hmem h => exact .deeper (hsub _ hmem) h
  | narrow hmem h => exact .narrow (hsub _ hmem) h

/-! ### Questions that cannot be answered -/

section

variable {v : View} {n : Node} {path : Path} {e : ResponseError}

theorem errors_of_reply {select : Path → Node → Reply Value} {found : Found}
    (h : e ∈ (found.reply select path).errors) : ∃ path n, e ∈ (select path n).errors := by
  cases found with
  | node n => exact ⟨path, n, h⟩
  | nodes ns =>
    obtain ⟨r, hr, he⟩ := List.mem_flatMap.mp h
    obtain ⟨⟨n, i⟩, _, rfl⟩ := List.mem_map.mp hr
    exact ⟨_, n, he⟩
  | null | text _ | name _ | names _ | flag _ => cases h

theorem faulted_of_vet {key name : String} {position : Position}
    {arguments : Except Unbound (List BoundArgument)} {below : List Step}
    (h : vet path arguments = .error e) :
    Faulted [.field key name position arguments below] e.position := by
  cases arguments with
  | error u =>
    cases h
    exact .unbound (List.mem_singleton_self _)
  | ok sent =>
    rw [vet] at h
    split at h
    · next a ha =>
      cases h
      have hfound := List.find?_some ha
      simp only [Bool.and_eq_true, beq_iff_eq, Bool.not_eq_true'] at hfound
      exact .flag (List.mem_singleton_self _) (List.mem_of_find?_eq_some ha) hfound.1 hfound.2
    · cases h

theorem sent_of_vet {arguments : Except Unbound (List BoundArgument)} {sent : List BoundArgument}
    (h : vet path arguments = .ok sent) : arguments = .ok sent := by
  cases arguments with
  | error u => cases h
  | ok sent' =>
    rw [vet] at h
    split at h
    · cases h
    · rw [Except.ok.inj h]

mutual

/-- What is reported beside the answers was reported before, or stems from one of the steps. -/
theorem faulted_of_answerAll : ∀ {steps : List Step} {path : Path} {n : Node} {as : Answers},
    e ∈ (answerAll v path n steps as).errors → e ∈ as.errors ∨ Faulted steps e.position
  | [], _, _, _, h => .inl h
  | step :: steps, path, n, as, h => by
    rw [answerAll] at h
    rcases faulted_of_answerAll h with h | h
    · refine (faulted_of_answer h).imp_right (faulted_mono fun x hx => ?_)
      exact List.mem_singleton.mp hx ▸ List.mem_cons_self ..
    · exact .inr (faulted_mono (fun _ => List.mem_cons_of_mem _) h)

theorem faulted_of_answer : ∀ {step : Step} {path : Path} {n : Node} {as : Answers},
    e ∈ (answer v path n step as).errors → e ∈ as.errors ∨ Faulted [step] e.position
  | .typename key, _, _, as, h => by
    rw [answer, Answers.add, List.append_nil] at h
    exact .inl h
  | .field key name position arguments below, path, n, as, h => by
    rw [answer] at h
    cases hvet : vet (path ++ [.key key]) arguments with
    | error e' =>
      simp only [hvet, Answers.report, List.mem_append, List.mem_singleton] at h
      rcases h with h | rfl
      · exact .inl h
      · exact .inr (faulted_of_vet hvet)
    | ok sent =>
      simp only [hvet, Answers.add, List.mem_append] at h
      rcases h with h | h
      · exact .inl h
      · obtain ⟨path, n, h⟩ := errors_of_reply h
        change e ∈ (answerAll v path n below .none).errors at h
        rcases faulted_of_answerAll h with h | h
        · cases h
        · rw [sent_of_vet hvet]
          exact .inr (.deeper (List.mem_singleton_self _) h)
  | .narrow condition below, path, n, as, h => by
    rw [answer] at h
    split at h
    · exact (faulted_of_answerAll h).imp_right (.narrow (List.mem_singleton_self _))
    · exact .inl h

end

theorem faulted_of_run {found : Found} {below : List Step}
    (h : e ∈ (Introspection.run v found below).errors) : Faulted below e.position := by
  obtain ⟨path, n, h⟩ := errors_of_reply h
  change e ∈ (answerAll v path n below .none).errors at h
  rcases faulted_of_answerAll h with h | h
  · cases h
  · exact h

/-- Only a name that is no text is refused. -/
theorem name_of_asked? {name : String} {sent : List BoundArgument}
    (h : asked? v name sent = some (.error e)) :
    name = "__type" ∧ ∃ a ∈ sent, a.name = "name" ∧ (∀ text, a.value ≠ .string text) ∧
      e.position = a.position := by
  unfold asked? at h
  split at h
  · cases h
  · refine ⟨rfl, ?_⟩
    split at h
    · cases h
    · next a hne ha =>
      cases h
      refine ⟨a, List.mem_of_find?_eq_some ha, by simpa using List.find?_some ha,
        fun text htext => ?_, rfl⟩
      obtain ⟨name, value, position⟩ := a
      cases (htext : value = .string text)
      exact hne name text position rfl
    · cases h
  · cases h

end

variable {s : Schema M C W}

/-- **An error that a run raises itself stems from an argument that does not do.** -/
theorem faulted_of_raised {steps : List Step} {e : ResponseError} (h : Raised s steps e) :
    Faulted steps e.position := by
  induction h with
  | unbound hmem => exact .unbound hmem
  | question hmem h =>
    unfold introspect at h
    split at h
    · obtain ⟨asked, hasked, h⟩ := Option.map_eq_some_iff.mp h
      cases Except.map_eq_error h
      obtain ⟨rfl, a, ha, hname, hvalue, hposition⟩ := name_of_asked? hasked
      exact hposition ▸ .name hmem ha hname hvalue
    · cases h
  | answer hmem h he =>
    unfold introspect at h
    split at h
    · obtain ⟨asked, hasked, h⟩ := Option.map_eq_some_iff.mp h
      obtain ⟨found, _, rfl⟩ := Except.map_eq_ok h
      exact .deeper hmem (faulted_of_run he)
    · cases h
  | deeper hmem _ ih => exact .deeper hmem ih
  | narrow hmem _ ih => exact .narrow hmem ih

/-! ### Arguments that validation has looked at -/

/-- The fields that a query may select lead to types that it may name, and the arguments of
questions are declared as what the questions ask for. -/
structure Legible (s : Schema M C W) : Prop where
  scalars : KnowsScalars s.named?
  leads : ∀ t ∈ s.surface, ∀ f ∈ t.fields, (s.named? f.type.core).isSome = true
  flag : ∀ t ∈ s.surface, ∀ f ∈ t.fields, ∀ a ∈ f.arguments, a.name = "includeDeprecated" →
    a.type = .nonNull (.named Scalar.boolean.name)
  name : ∀ t ∈ s.surface, ∀ f ∈ t.fields, f.name = "__type" → ∀ a ∈ f.arguments,
    a.name = "name" → a.type = .nonNull (.named Scalar.string.name)

variable {r : Request} {doc : Document} {op : Operation} {root : String}

/-- An argument that its scalar does not admit was left open. -/
theorem open_of_mistyped (hadmitted : Admitted s r doc op root) (hscalars : KnowsScalars s.named?)
    {parent : TypeInfo} {head : FieldHead} {hasSelections : Bool}
    (hoccurs : .field (some parent) head hasSelections ∈
      doc.inReach s.named? (s.named? root) op) {sent : List BoundArgument}
    (hsent : (⟨r.sent, op.variableDefinitions⟩ : Bindings).arguments head.arguments = .ok sent)
    {x : BoundArgument} (hx : x ∈ sent) (k : Scalar)
    (htype : ∀ declared, parent.field? head.name = some declared → ∀ y ∈ declared.arguments,
      y.name = x.name → y.type = .nonNull (.named k.name)) (hmistyped : k.admits x.value = false) :
    ∃ a ∈ head.arguments, a.IsOpen op r.sent ∧ x.position = a.position := by
  obtain ⟨declared, hdeclared, _⟩ := field_of_isValid (hadmitted.valid _ hoccurs).1
  obtain ⟨a, ha, hname, hposition, hreplaced⟩ := Bindings.of_mem_arguments hsent hx
  refine ⟨a, ha, Classical.byContradiction fun hclosed => ?_, hposition⟩
  obtain ⟨y, hy, hadmits⟩ := admits_of_closed hadmitted hoccurs hdeclared ha hclosed hreplaced
  have hyname : y.name = x.name := by simpa [hname] using List.find?_some hy
  rw [htype declared hdeclared y (List.mem_of_find?_eq_some hy) hyname] at hadmits
  rw [hscalars.admits hadmits] at hmistyped
  cases hmistyped

/-- A step is only narrowed to a type that can be named. -/
theorem named_of_narrow (hadmitted : Admitted s r doc op root) {b : Bindings}
    {parent : Option TypeInfo} {levels : Nat} {ss : List Selection} {condition : String}
    {below : List Step} (h : .narrow condition below ∈ doc.steps b levels ss)
    (hos : ∀ o ∈ occurrences s.named? parent ss,
      o ∈ doc.inReach s.named? (s.named? root) op) :
    (s.named? condition).isSome = true := by
  have hnamed : ∀ {name}, conditionIsValid s.named? name = true →
      (s.named? name).isSome = true := by
    intro name hname
    unfold conditionIsValid at hname
    split at hname
    · next t ht => rw [ht]; rfl
    · cases hname
  induction levels generalizing ss with
  | zero => cases h
  | succ levels ih =>
    obtain ⟨selection, hs, hstems⟩ := stems_of_mem h
    have hos' := fun o ho => hos o (occurrences_of_mem hs o ho)
    cases hstems with
    | narrow _ ds below' =>
      have hinline : .inline parent (some condition) ∈
          doc.inReach s.named? (s.named? root) op := by
        refine hos' _ ?_
        rw [occurrencesOf]
        exact List.mem_cons_self ..
      exact hnamed (Bool.and_eq_true_iff.mp (hadmitted.valid _ hinline).2).1
    | inline ds h => exact ih h (occurrences_of_inline hos')
    | spread ds hf => exact hnamed (hadmitted.conditions _ (Document.mem_fragments hf).1)

/-- **In a request that is run an argument that does not do is one that was left open.** -/
theorem open_of_faulted (hlegible : Legible s) (hadmitted : Admitted s r doc op root)
    {steps : List Step} {p : Position} (h : Faulted steps p) {t : TypeInfo} (ht : t ∈ s.surface)
    (hselects : Selects doc ⟨r.sent, op.variableDefinitions⟩ s.named?
      (doc.inReach s.named? (s.named? root) op) (some t) steps) :
    ∃ parent head hasSelections,
      .field parent head hasSelections ∈ doc.inReach s.named? (s.named? root) op ∧
        ∃ a ∈ head.arguments, a.IsOpen op r.sent ∧ p = a.position := by
  induction h generalizing t with
  | unbound hmem =>
    obtain ⟨head, hfield⟩ := selects_field hselects hmem
    obtain ⟨hasSelections, hoccurs⟩ := hfield.occurs
    obtain ⟨a, ha, hreplaced, hposition⟩ := Bindings.of_arguments_error hfield.arguments
    exact ⟨_, head, hasSelections, hoccurs, a, ha, open_of_unbound hadmitted hoccurs ha hreplaced,
      hposition⟩
  | @flag _ below key name position sent hmem x hx hname hflag =>
    obtain ⟨head, hfield⟩ := selects_field hselects hmem
    obtain ⟨hasSelections, hoccurs⟩ := hfield.occurs
    refine ⟨_, head, hasSelections, hoccurs, open_of_mistyped hadmitted hlegible.scalars hoccurs
      hfield.arguments hx .boolean (fun declared hdeclared y hy hyx => ?_) ?_⟩
    · exact hlegible.flag t ht declared (List.mem_of_find?_eq_some hdeclared) y hy (hyx.trans hname)
    · cases hv : x.value <;> simp [hv, Value.isBoolean] at hflag <;> rfl
  | @name _ below key position sent hmem x hx hname htext =>
    obtain ⟨head, hfield⟩ := selects_field hselects hmem
    obtain ⟨hasSelections, hoccurs⟩ := hfield.occurs
    refine ⟨_, head, hasSelections, hoccurs, open_of_mistyped hadmitted hlegible.scalars hoccurs
      hfield.arguments hx .string (fun declared hdeclared y hy hyx => ?_) ?_⟩
    · have hfound : declared.name = "__type" := by
        simpa [hfield.name] using List.find?_some hdeclared
      exact hlegible.name t ht declared (List.mem_of_find?_eq_some hdeclared) hfound y hy
        (hyx.trans hname)
    · cases hv : x.value with
      | string text => exact absurd hv (htext text)
      | _ => rfl
  | deeper hmem _ ih =>
    obtain ⟨head, hfield⟩ := selects_field hselects hmem
    obtain ⟨hasSelections, hoccurs⟩ := hfield.occurs
    obtain ⟨declared, hdeclared, _⟩ := field_of_isValid (hadmitted.valid _ hoccurs).1
    have hbelow := hfield.below
    obtain ⟨u, hu⟩ := Option.isSome_iff_exists.mp
      (hlegible.leads t ht declared (List.mem_of_find?_eq_some hdeclared))
    rw [targetOf, Option.bind_some, hdeclared, Option.bind_some, hu] at hbelow
    exact ih (List.mem_of_find?_eq_some hu) hbelow
  | narrow hmem _ ih =>
    have hbelow := selects_narrow (spreads_inReach doc _ _ op) hselects hmem
    obtain ⟨levels, ss, hsteps, hos⟩ := hselects
    obtain ⟨u, hu⟩ := Option.isSome_iff_exists.mp
      (named_of_narrow hadmitted (hsteps _ hmem) hos)
    rw [hu] at hbelow
    exact ih (List.mem_of_find?_eq_some hu) hbelow

end GraphSchema.Execution
