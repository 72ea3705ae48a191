import GraphSchema.Proofs.Run.Required

/-! Arguments and the variables that were sent.

Validation looks at the values of arguments with the variables that were sent in their
places. An argument in which no variable is left open has the value that was validated
(`admits_of_closed`), so a field whose arguments are all of that kind is run with what
suits it (`suits_of_closed`). -/
namespace GraphSchema

open Query

variable {M C W : Type}

/-! ### Replacing variables -/

namespace Query.InputValue

variable {f g : String → Option Value}

mutual

/-- The variable that has no value is one of those in the value. -/
theorem replace_eq_error {x : String} : ∀ {v : InputValue}, v.replace f = .error x →
    x ∈ v.variableNames ∧ f x = none
  | .var name, h => by
    rw [replace] at h
    cases hf : f name with
    | some v => simp [hf] at h
    | none =>
      simp only [hf, Except.error.injEq] at h
      exact ⟨h ▸ List.mem_singleton_self _, h ▸ hf⟩
  | .list items, h => by
    rw [replace] at h
    exact replaceItems_eq_error (Except.map_eq_error h)
  | .object members, h => by
    rw [replace] at h
    exact replaceMembers_eq_error (Except.map_eq_error h)
  | .null, h | .number _, h | .string _, h | .boolean _, h | .enum _, h => by cases h

theorem replaceItems_eq_error {x : String} : ∀ {vs : List InputValue},
    replaceItems f vs = .error x → x ∈ itemVariables vs ∧ f x = none
  | [], h => by cases h
  | v :: vs, h => by
    rw [replaceItems] at h
    rw [itemVariables, List.mem_append]
    rcases Except.bind_eq_error h with hv | ⟨v', _, h⟩
    · obtain ⟨hmem, hnone⟩ := replace_eq_error hv
      exact ⟨.inl hmem, hnone⟩
    · rcases Except.bind_eq_error h with hvs | ⟨vs', _, h⟩
      · obtain ⟨hmem, hnone⟩ := replaceItems_eq_error hvs
        exact ⟨.inr hmem, hnone⟩
      · cases h

theorem replaceMembers_eq_error {x : String} : ∀ {vs : List (String × InputValue)},
    replaceMembers f vs = .error x → x ∈ memberVariables vs ∧ f x = none
  | [], h => by cases h
  | (k, v) :: vs, h => by
    rw [replaceMembers] at h
    rw [memberVariables, List.mem_append]
    rcases Except.bind_eq_error h with hv | ⟨v', _, h⟩
    · obtain ⟨hmem, hnone⟩ := replace_eq_error hv
      exact ⟨.inl hmem, hnone⟩
    · rcases Except.bind_eq_error h with hvs | ⟨vs', _, h⟩
      · obtain ⟨hmem, hnone⟩ := replaceMembers_eq_error hvs
        exact ⟨.inr hmem, hnone⟩
      · cases h

end

mutual

/-- Only the values of the variables in it count. -/
theorem replace_congr : ∀ {v : InputValue}, (∀ x ∈ v.variableNames, f x = g x) →
    v.replace f = v.replace g
  | .var name, h => by rw [replace, replace, h name (List.mem_singleton_self _)]
  | .list items, h => by rw [replace, replace, replaceItems_congr h]
  | .object members, h => by rw [replace, replace, replaceMembers_congr h]
  | .null, _ | .number _, _ | .string _, _ | .boolean _, _ | .enum _, _ => rfl

theorem replaceItems_congr : ∀ {vs : List InputValue}, (∀ x ∈ itemVariables vs, f x = g x) →
    replaceItems f vs = replaceItems g vs
  | [], _ => rfl
  | v :: vs, h => by
    rw [replaceItems, replaceItems, replace_congr fun x hx => h x (List.mem_append_left _ hx),
      replaceItems_congr fun x hx => h x (List.mem_append_right _ hx)]

theorem replaceMembers_congr : ∀ {vs : List (String × InputValue)},
    (∀ x ∈ memberVariables vs, f x = g x) → replaceMembers f vs = replaceMembers g vs
  | [], _ => rfl
  | (k, v) :: vs, h => by
    rw [replaceMembers, replaceMembers,
      replace_congr fun x hx => h x (List.mem_append_left _ hx),
      replaceMembers_congr fun x hx => h x (List.mem_append_right _ hx)]

end

end Query.InputValue

/-! ### Open arguments -/

/-- In the value of the argument stands a variable that the operation declares and that the request
sends nothing for. -/
def Query.Argument.IsOpen (op : Operation) (sent : List (String × Value)) (a : Query.Argument) :
    Prop :=
  ∃ x ∈ a.value.variableNames, x ∈ op.variableDefinitions.map (·.name) ∧
    Value.member? x sent = none

theorem Query.Argument.IsOpen.unsent {op : Operation} {sent : List (String × Value)}
    {a : Query.Argument} (h : a.IsOpen op sent) :
    ∃ d ∈ op.variableDefinitions, Value.member? d.name sent = none := by
  obtain ⟨_, _, hdeclared, hunsent⟩ := h
  obtain ⟨d, hd, rfl⟩ := List.mem_map.mp hdeclared
  exact ⟨d, hd, hunsent⟩

namespace Query.Bindings

variable {b : Bindings} {x : String}

theorem value?_of_sent (hx : x ∈ b.declared.map (·.name)) {v : Value}
    (hv : Value.member? x b.sent = some v) : b.value? x = some v := by
  obtain ⟨d, hd, rfl⟩ := List.mem_map.mp hx
  unfold value?
  split
  · next hnone => exact absurd (List.find?_eq_none.mp hnone d hd) (by simp)
  · simp only [hv, Option.some_or]

theorem unsent_of_value? (hx : x ∈ b.declared.map (·.name)) (h : b.value? x = none) :
    Value.member? x b.sent = none := by
  cases hv : Value.member? x b.sent with
  | none => rfl
  | some v =>
    rw [value?_of_sent hx hv] at h
    cases h

theorem of_arguments_error {as : List Query.Argument} {u : Unbound}
    (h : b.arguments as = .error u) :
    ∃ a ∈ as, a.value.replace b.value? = .error u.name ∧ u.position = a.position := by
  induction as with
  | nil => cases h
  | cons a as ih =>
    rw [arguments] at h
    cases hv : a.value.replace b.value? with
    | error name =>
      simp only [hv, Except.error.injEq] at h
      exact ⟨a, List.mem_cons_self .., h ▸ hv, h ▸ rfl⟩
    | ok v =>
      simp only [hv] at h
      obtain ⟨a', ha', hfound⟩ := ih (Except.map_eq_error h)
      exact ⟨a', List.mem_cons_of_mem _ ha', hfound⟩

theorem of_mem_arguments {as : List Query.Argument} {sent : List BoundArgument}
    (h : b.arguments as = .ok sent) {x : BoundArgument} (hx : x ∈ sent) :
    ∃ a ∈ as, x.name = a.name ∧ x.position = a.position ∧
      a.value.replace b.value? = .ok x.value := by
  induction as generalizing sent with
  | nil =>
    cases h
    cases hx
  | cons a as ih =>
    rw [arguments] at h
    cases hv : a.value.replace b.value? with
    | error name => simp [hv] at h
    | ok v =>
      simp only [hv] at h
      obtain ⟨rest, hrest, rfl⟩ := Except.map_eq_ok h
      rcases List.mem_cons.mp hx with rfl | hx
      · exact ⟨a, List.mem_cons_self .., rfl, rfl, hv⟩
      · obtain ⟨a', ha', hfound⟩ := ih hrest hx
        exact ⟨a', List.mem_cons_of_mem _ ha', hfound⟩

end Query.Bindings

/-! ### Scalars -/

/-- The names of the scalars are those of scalars. -/
def KnowsScalars (types : Types) : Prop :=
  ∀ k : Scalar, ∃ t, types k.name = some t ∧ t.kind = .scalar

theorem KnowsScalars.admits {types : Types} (hknown : KnowsScalars types) {k : Scalar} {v : Value}
    (h : Query.admits types (.nonNull (.named k.name)) v = true) : k.admits v = true := by
  obtain ⟨t, ht, hkind⟩ := hknown k
  simp only [Query.admits, Bool.and_eq_true, Bool.not_eq_true'] at h
  exact admits_scalar ht hkind h.1 (by simpa [Query.admits] using h.2)

/-- In a schema that has been compiled a scalar can be named as what it is. -/
theorem Link.Linking.knowsScalars {c : Catalog M C W} {d : Description} {w : Walk M C W}
    {st : Store M C W} {s : Schema M C W} (hs : Linking c d w st s) : KnowsScalars s.named? :=
  fun k => ⟨_, Schema.named?_scalar (hs.type?_scalar k), rfl⟩

/-! ### Arguments of a request that is run -/

namespace Execution

variable {s : Schema M C W} {r : Request} {doc : Document} {op : Operation} {root : String}
  {parent : Option TypeInfo} {head : FieldHead} {hasSelections : Bool}

/-- Every variable that is used is declared. -/
theorem declared_of_used (hadmitted : Admitted s r doc op root)
    (hoccurs : .field parent head hasSelections ∈ doc.inReach s.named? (s.named? root) op)
    {a : Query.Argument} (ha : a ∈ head.arguments) {x : String} (hx : x ∈ a.value.variableNames) :
    x ∈ op.variableDefinitions.map (·.name) := by
  have hdeclared := hadmitted.declarations
  simp only [Operation.variablesAreValid, Bool.and_eq_true, List.all_eq_true] at hdeclared
  have huse : (⟨head.arguments, (parent.bind (·.field? head.name)).map (·.arguments)⟩ :
      ArgumentUse) ∈ (doc.inReach s.named? (s.named? root) op).flatMap (·.uses) :=
    List.mem_flatMap.mpr ⟨_, hoccurs, List.mem_singleton_self _⟩
  have hused := hdeclared.1.1.2 x
    (List.mem_flatMap.mpr ⟨_, huse, List.mem_flatMap.mpr ⟨a, ha, hx⟩⟩)
  simpa using hused

/-- A variable without a value leaves the argument open. -/
theorem open_of_unbound (hadmitted : Admitted s r doc op root)
    (hoccurs : .field parent head hasSelections ∈ doc.inReach s.named? (s.named? root) op)
    {a : Query.Argument} (ha : a ∈ head.arguments) {x : String}
    (h : a.value.replace (⟨r.sent, op.variableDefinitions⟩ : Bindings).value? = .error x) :
    a.IsOpen op r.sent := by
  obtain ⟨hx, hnone⟩ := InputValue.replace_eq_error h
  have hdeclared := declared_of_used hadmitted hoccurs ha hx
  exact ⟨x, hx, hdeclared, Bindings.unsent_of_value? hdeclared hnone⟩

/-- An argument that is not open has its value from the variables that were sent. -/
theorem replace_of_closed (hadmitted : Admitted s r doc op root)
    (hoccurs : .field parent head hasSelections ∈ doc.inReach s.named? (s.named? root) op)
    {a : Query.Argument} (ha : a ∈ head.arguments) (hclosed : ¬ a.IsOpen op r.sent) :
    a.value.replace (⟨r.sent, op.variableDefinitions⟩ : Bindings).value? =
      a.value.replace (Value.member? · r.sent) := by
  refine InputValue.replace_congr fun x hx => ?_
  have hdeclared := declared_of_used hadmitted hoccurs ha hx
  cases hv : Value.member? x r.sent with
  | none => exact absurd ⟨x, hx, hdeclared, hv⟩ hclosed
  | some v => exact Bindings.value?_of_sent hdeclared hv

/-- **An argument that is not open is of the type that it is declared with.** -/
theorem admits_of_closed (hadmitted : Admitted s r doc op root) {parent : TypeInfo}
    (hoccurs : .field (some parent) head hasSelections ∈
      doc.inReach s.named? (s.named? root) op)
    {declared : FieldInfo} (hdeclared : parent.field? head.name = some declared)
    {a : Query.Argument} (ha : a ∈ head.arguments) (hclosed : ¬ a.IsOpen op r.sent) {v : Value}
    (hv : a.value.replace (⟨r.sent, op.variableDefinitions⟩ : Bindings).value? = .ok v) :
    ∃ y, declared.arguments.find? (·.name == a.name) = some y ∧
      admits s.named? y.type v = true := by
  obtain ⟨declared', hdeclared', hvalid⟩ := field_of_isValid (hadmitted.valid _ hoccurs).1
  rw [hdeclared] at hdeclared'
  cases hdeclared'
  simp only [ArgumentUse.isValid, Bool.and_eq_true, ArgumentUse.areKnown, ArgumentUse.fitTypes,
    ArgumentUse.declared?, Option.bind_some, Option.isNone_some, Bool.false_or,
    List.all_eq_true] at hvalid
  have hknown := hvalid.1.1.2 a ha
  have hfits := hvalid.2 a ha
  rw [replace_of_closed hadmitted hoccurs ha hclosed] at hv
  cases hy : declared.arguments.find? (·.name == a.name) with
  | none => simp [hy] at hknown
  | some y =>
    rw [hy] at hfits
    simp only [admitsInput, hv] at hfits
    exact ⟨y, rfl, hfits⟩

end Execution

/-! ### Fields whose arguments are not open -/

/-- What a field is sent fits what it declares: each argument is admitted by its type, and none is
left out that has to be there. -/
def Suits (types : Types) (declared : List ArgumentInfo) (sent : List (String × Value)) : Prop :=
  ∀ a ∈ declared,
    (∀ v, Value.member? a.name sent = some v → admits types a.type v = true) ∧
      (a.type.isNonNull = true → a.default = none → (Value.member? a.name sent).isSome = true)

namespace Execution

open Direct Link

variable {c : Catalog M C W} {d : Description} {w : Walk M C W} {st : Store M C W}
  {s : Schema M C W} {r : Request} {doc : Document} {op : Operation} {root : String}

/-- **A call is sent what suits its field, unless the selection leaves an argument open.** This is
said of a field that was validated as the object's own. -/
theorem suits_of_closed (hs : Linking c d w st s) (hadmitted : Admitted s r doc op root)
    {call : Call M C W} {parent : TypeInfo} {head : FieldHead}
    (hselected : SelectedAs s ⟨r.sent, op.variableDefinitions⟩
      (doc.inReach s.named? (s.named? root) op) call parent head)
    (hown : parent.field? head.name = some call.field.info)
    (hclosed : ∀ a ∈ head.arguments, ¬ a.IsOpen op r.sent) :
    Suits s.named? call.field.info.arguments call.sent := by
  obtain ⟨h, def_, o, fields, ho⟩ := hs.object_of_object? hselected.object
  obtain ⟨declared, hfound, hplanned⟩ := ho.field? hselected.field
  obtain ⟨hasSelections, hoccurs⟩ := hselected.occurs
  obtain ⟨sent, hsent, hcallSent⟩ := hselected.arguments
  intro a ha
  obtain ⟨_, ha', _, _⟩ := hplanned.argument?_of_mem (ho.checked_of_find? hfound).2.2 ha
  rw [hcallSent]
  rcases Bindings.find?_of_arguments hsent a.name with
    ⟨homitted, hmember⟩ | ⟨x, v, hx, hmember, hreplaced⟩
  · -- left out, which only an argument may be that is not required
    refine ⟨fun v hv => ?_, fun hstrict hbare => ?_⟩
    · rw [hmember] at hv
      cases hv
    · obtain ⟨declared', hdeclared', hvalid⟩ := field_of_isValid (hadmitted.valid _ hoccurs).1
      rw [hown] at hdeclared'
      cases hdeclared'
      have hnone : head.arguments.any (·.name == a.name) = false :=
        List.any_eq_false.mpr (List.find?_eq_none.mp homitted)
      simp only [ArgumentUse.isValid, Bool.and_eq_true, ArgumentUse.areComplete, Option.getD_some,
        List.all_eq_true] at hvalid
      simpa [hstrict, hbare, hnone] using hvalid.1.2 a ha
  · refine ⟨fun v' hv' => ?_, fun _ _ => by rw [hmember]; rfl⟩
    rw [hmember] at hv'
    cases hv'
    have hmem := List.mem_of_find?_eq_some hx
    have hname : x.name = a.name := by simpa using List.find?_some hx
    obtain ⟨y, hy, hadmits⟩ := admits_of_closed hadmitted hoccurs hown hmem (hclosed x hmem)
      hreplaced
    rw [hname] at hy
    cases hy.symm.trans ha'
    exact hadmits

end Execution

end GraphSchema
