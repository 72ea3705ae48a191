import GraphSchema.Proofs.Compile.Promises
import GraphSchema.Proofs.Query.Screen
import GraphSchema.Proofs.Query.Steps
import GraphSchema.Proofs.Run.Reports

/-! What the calls of a run were selected as.

A field is called on an object, but was validated on the type of its selection, which
may be an interface of the object. Going down from the root, the type of a selection
always covers the objects that it is made on, as what an interface says of a field
holds of its objects (`selection_of_mem_calls`). -/
namespace GraphSchema.Execution

open Direct Link Query

variable {M C W : Type} {s : Schema M C W}

/-- The object may stand where selections are made on the type. -/
inductive Covers (s : Schema M C W) : TypeInfo → ObjectType M C W → Prop where
  | object (t : ObjectType M C W) : Covers s (s.info (.object t)) t
  | interface {i : InterfaceType} {t : ObjectType M C W}
    (hi : s.type? i.name = some (.interface i)) (hmem : i.name ∈ t.interfaces) :
    Covers s (s.info (.interface i)) t
  | union (u : UnionType) (t : ObjectType M C W) : Covers s (s.info (.union u)) t

/-- The selection that a field was called for, and the type that it was validated on. -/
structure SelectedAs (s : Schema M C W) (b : Bindings) (os : List Occurrence) (call : Call M C W)
    (parent : TypeInfo) (head : FieldHead) : Prop where
  object : s.object? call.object.name = some call.object
  covers : Covers s parent call.object
  field : call.object.field? head.name = some call.field
  occurs : ∃ hasSelections, .field (some parent) head hasSelections ∈ os
  arguments : ∃ sent, b.arguments head.arguments = .ok sent ∧
    call.sent = sent.map fun a => (a.name, a.value)

/-! ### One step down -/

variable {c : Catalog M C W} {d : Description} {w : Walk M C W} {st : Store M C W}

theorem object?_of_mem (hs : Linking c d w st s) {t : ObjectType M C W}
    (ht : .object t ∈ s.types) : s.object? t.name = some t := by
  obtain ⟨h, hh, hfinish⟩ := hs.visited_of_mem ht
  have htype := hs.type?_eq hh hfinish
  rw [← finish_name hfinish] at htype
  exact object?_of_type? htype

theorem covers_of_meets (hs : Linking c d w st s) {t : ObjectType M C W}
    (ht : s.object? t.name = some t) {condition : String} (hmeets : meets t condition = true) :
    ∃ parent, s.named? condition = some parent ∧ Covers s parent t := by
  have htype := object?_eq_some ht
  rcases Bool.or_eq_true_iff.mp hmeets with h | h
  · have hname : t.name = condition := by simpa using h
    exact ⟨_, Schema.named?_of_type? (hname ▸ htype), .object t⟩
  · have hmem : condition ∈ t.interfaces := by simpa using h
    obtain ⟨i, hi, _⟩ := hs.interface_of_mem (List.mem_of_find?_eq_some htype) hmem
    have hname : i.name = condition := type?_name hi
    exact ⟨_, Schema.named?_of_type? hi, .interface (hname.symm ▸ hi) (hname.symm ▸ hmem)⟩

/-- An object that an interface may be lists the interface. -/
theorem mem_interfaces_of_possible (hs : Linking c d w st s) {t : ObjectType M C W}
    (ht : s.object? t.name = some t) {i : InterfaceType}
    (h : t.name ∈ s.possibleTypes (.interface i)) : i.name ∈ t.interfaces := by
  obtain ⟨ty, hty, hmem⟩ := List.mem_filterMap.mp h
  split at hmem
  · next o =>
    by_cases ho : o.interfaces.contains i.name = true
    · rw [if_pos ho] at hmem
      have hsame := object?_of_mem hs hty
      rw [Option.some.inj hmem, ht] at hsame
      cases hsame
      simpa using ho
    · rw [if_neg ho] at hmem
      cases hmem
  · cases hmem

theorem covers_of_concrete (hs : Linking c d w st s) {declared : String} {given : Option String}
    {u : ObjectType M C W} (h : concrete s declared given = .ok u) :
    s.object? u.name = some u ∧
      ∃ parent, s.named? declared = some parent ∧ Covers s parent u := by
  obtain ⟨hu, hd | ⟨i, hi, hmem⟩ | ⟨un, hun, _⟩⟩ := concrete_cases h
  · exact ⟨hu, _, Schema.named?_of_type? hd, .object u⟩
  · have hname : i.name = declared := type?_name hi
    exact ⟨hu, _, Schema.named?_of_type? hi,
      .interface (hname.symm ▸ hi) (mem_interfaces_of_possible hs hu hmem)⟩
  · exact ⟨hu, _, Schema.named?_of_type? hun, .union un u⟩

/-- A field that is selected on a type that covers the object: either the type is an interface of
the object, or it is the object's type and the field the object's own. -/
theorem promised_of_covers (hs : Linking c d w st s) {t : ObjectType M C W}
    (ht : s.object? t.name = some t) {parent : TypeInfo} (hcovers : Covers s parent t)
    {name : String} {declared : FieldInfo} (hdeclared : parent.field? name = some declared)
    {f : PlannedField M C W} (hf : t.field? name = some f) :
    Promised declared f.info ∧ (parent.kind = .interface ∨ declared = f.info) := by
  obtain ⟨h, def_, o, fields, ho⟩ := hs.object_of_object? ht
  obtain ⟨found, hfound, hplanned⟩ := ho.field? hf
  obtain ⟨hname, hdeclarable, hnodup⟩ := ho.checked_of_find? hfound
  have hown : name ≠ "__schema" ∧ name ≠ "__type" := by
    rw [hname] at hdeclarable
    constructor <;> rintro rfl <;> exact absurd hdeclarable (by decide)
  cases hcovers with
  | object =>
    rw [Schema.field?_info_object hf] at hdeclared
    cases hdeclared
    refine ⟨⟨rfl, fun a ha => ?_⟩, .inr rfl⟩
    obtain ⟨_, ha', _⟩ := hplanned.argument?_of_mem hnodup ha
    exact ⟨a, ha', rfl⟩
  | @interface i _ hi hmem =>
    rcases Schema.field?_info hdeclared with hdeclared | hschema | htype
    · exact ⟨hs.promised ht hi hmem hdeclared hf, .inl rfl⟩
    · exact absurd hschema hown.1
    · exact absurd htype hown.2
  | union u =>
    rcases Schema.field?_info hdeclared with hdeclared | hschema | htype
    · cases hdeclared
    · exact absurd hschema hown.1
    · exact absurd htype hown.2

/-! ### The whole way down -/

/-- A valid field is one that its parent has, and its arguments are validated against that. -/
theorem field_of_isValid {types : Types} {sent : List (String × Value)} {parent : TypeInfo}
    {head : FieldHead} {hasSelections : Bool}
    (h : (Occurrence.field (some parent) head hasSelections).isValid types sent = true) :
    ∃ declared, parent.field? head.name = some declared ∧
      (⟨head.arguments, some declared.arguments⟩ : ArgumentUse).isValid types sent = true := by
  obtain ⟨huses, hfield⟩ := Bool.and_eq_true_iff.mp h
  cases hdeclared : parent.field? head.name with
  | none => simp [fieldIsValid, hdeclared] at hfield
  | some declared => exact ⟨declared, rfl, by simpa [Occurrence.uses, hdeclared] using huses⟩

variable {doc : Document} {b : Bindings} {os : List Occurrence} {sent : List (String × Value)}

/-- What was asked for on an object was selected on a type that covers it. -/
theorem selection_of_ran (hs : Linking c d w st s) (hspreads : Spreads doc s.named? os)
    (hvalid : ∀ o ∈ os, o.isValid s.named? sent = true) {context : Option C}
    {t : ObjectType M C W} {m : M} {steps : List Step} {call : Call M C W}
    (h : Ran s context t m steps call) (ht : s.object? t.name = some t) {parent : TypeInfo}
    (hcovers : Covers s parent t) (hselects : Selects doc b s.named? os (some parent) steps) :
    ∃ parent head, SelectedAs s b os call parent head := by
  induction h generalizing parent with
  | here hmem _ hf path w =>
    obtain ⟨head, hfield⟩ := selects_field hselects hmem
    exact ⟨parent, head, ht, hcovers, hfield.name ▸ hf, hfield.occurs, _, hfield.arguments, rfl⟩
  | deeper hmem hf _ _ _ hconcrete _ ih =>
    obtain ⟨head, hfield⟩ := selects_field hselects hmem
    obtain ⟨hasSelections, hoccurs⟩ := hfield.occurs
    obtain ⟨declared, hdeclared, _⟩ := field_of_isValid (hvalid _ hoccurs)
    have hcore := (promised_of_covers hs ht hcovers hdeclared (hfield.name ▸ hf)).1.core
    obtain ⟨hu, target, htarget, hcovers'⟩ := covers_of_concrete hs hconcrete
    refine ih hu hcovers' ?_
    have hbelow := hfield.below
    rw [targetOf, Option.bind_some, hdeclared, Option.bind_some, ← hcore, htarget] at hbelow
    exact hbelow
  | narrow hmem hmeets _ ih =>
    obtain ⟨target, htarget, hcovers'⟩ := covers_of_meets hs ht hmeets
    exact ih ht hcovers' (htarget ▸ selects_narrow hspreads hselects hmem)

/-- **Every call of a request that is run was selected, on a type that covers its object.** -/
theorem selection_of_mem_calls [Backed M] (hs : Linking c d w st s) {r : Request} {op : Operation}
    {root : String} (hadmitted : Admitted s r doc op root) {context : Option C} {world : W}
    {call : Call M C W} (hcall : call ∈ (s.perform context r (doc, op, root) world).2.calls) :
    ∃ parent head, SelectedAs s ⟨r.sent, op.variableDefinitions⟩
      (doc.inReach s.named? (s.named? root) op) call parent head := by
  obtain ⟨t, ht, hran⟩ := asked_of_mem_calls hcall
  have hname : t.name = root := object?_name ht
  have hparent : s.named? root = some (s.info (.object t)) :=
    Schema.named?_of_type? (object?_eq_some ht)
  refine selection_of_ran hs (spreads_inReach doc _ _ op) (fun o ho => (hadmitted.valid o ho).1)
    hran (hname.symm ▸ ht) (.object t) ?_
  rw [← hparent]
  exact selects_plan doc _ _ op r.sent

end GraphSchema.Execution
