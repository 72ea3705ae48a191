import GraphSchema.Proofs.Run.Selections

/-! Arguments that may not be null.

A resolver is handed a null for such an argument in two cases, and in no others
(`supplied_null_iff`). The selection leaves the argument out, as the interface that it
is made on allows, and the object's own field has no default for it; or the selection
gives it a variable that was not sent and that may be null. -/
namespace GraphSchema

open Except Execution Link Query

variable {M C W : Type}

/-! ### Decoding -/

theorem InputPlan.decode_eq_null {plan : InputPlan} {v : Value} :
    plan.decode v = .ok .null ↔ v = .null := by
  constructor
  · intro h
    cases plan with
    | scalar =>
      rw [decode] at h
      cases v <;> simp [Value.isNull] at h ⊢
    | enum values =>
      rw [decode] at h
      cases v with
      | null => rfl
      | enum name | string name =>
        cases hname : values.parse name <;> simp [Value.isNull, decodeEnum, hname] at h
      | _ => simp [Value.isNull, decodeEnum] at h
    | list inner =>
      cases v with
      | null => rfl
      | _ =>
        obtain ⟨_, _, h⟩ := map_eq_ok h
        cases h
  · rintro rfl
    cases plan <;> rfl

/-- The value that an argument is decoded from, if there is one at all. -/
def ArgumentPlan.source (plan : ArgumentPlan) (sent : List (String × Value)) : Option Value :=
  (Value.member? plan.name sent).or plan.default

theorem ArgumentPlan.decode_eq_null {plan : ArgumentPlan} {sent : List (String × Value)} :
    plan.decode sent = .ok .null ↔ (plan.source sent).getD .null = .null := by
  unfold decode source
  cases (Value.member? plan.name sent).or plan.default with
  | none => simp
  | some v => exact InputPlan.decode_eq_null

/-- What a resolver gets for an argument is the decoded value of it. -/
theorem ArgumentPlan.get_of_decodeAll {plans : List ArgumentPlan} {sent : List (String × Value)}
    {args : Arguments} (h : decodeAll plans sent = .ok args) {name : String} {p : ArgumentPlan}
    (hp : plans.find? (·.name == name) = some p) : p.decode sent = .ok (args.get name) := by
  have hfind := find?_of_mapM (p := fun p : ArgumentPlan => p.name == name)
    (q := fun a : String × Supplied => a.1 == name)
    (fun p a h => by
      obtain ⟨_, _, rfl⟩ := map_eq_ok h
      rfl) h
  rcases hfind with ⟨hnone, _⟩ | ⟨p', a, hp', ha, hdecode⟩
  · rw [hp] at hnone
    cases hnone
  · rw [hp] at hp'
    cases hp'
    obtain ⟨v, hv, rfl⟩ := map_eq_ok hdecode
    rw [Arguments.get, Arguments.raw?, ha]
    exact hv

/-! ### Values in a query -/

namespace Query

theorem InputValue.replace_eq_null {lookup : String → Option Value} {v : InputValue}
    (h : v.replace lookup = .ok .null) :
    v = .null ∨ ∃ x, v = .var x ∧ lookup x = some .null := by
  cases v with
  | var x =>
    rw [replace] at h
    cases hx : lookup x with
    | none => simp [hx] at h
    | some y =>
      simp only [hx, Except.ok.injEq] at h
      exact .inr ⟨x, rfl, by rw [hx, h]⟩
  | null => exact .inl rfl
  | list items =>
    rw [replace] at h
    obtain ⟨_, _, h⟩ := map_eq_ok h
    cases h
  | object members =>
    rw [replace] at h
    obtain ⟨_, _, h⟩ := map_eq_ok h
    cases h
  | _ => cases h

/-- Looking for an argument before its variables are replaced and after. -/
theorem Bindings.find?_of_arguments {b : Bindings} {as : List Query.Argument}
    {sent : List BoundArgument} (h : b.arguments as = .ok sent) (name : String) :
    (as.find? (·.name == name) = none ∧
      Value.member? name (sent.map fun a => (a.name, a.value)) = none) ∨
    ∃ x v, as.find? (·.name == name) = some x ∧
      Value.member? name (sent.map fun a => (a.name, a.value)) = some v ∧
      x.value.replace b.value? = .ok v := by
  induction as generalizing sent with
  | nil =>
    cases h
    exact .inl ⟨rfl, rfl⟩
  | cons a as ih =>
    rw [arguments] at h
    cases hv : a.value.replace b.value? with
    | error x => simp [hv] at h
    | ok v =>
      simp only [hv] at h
      obtain ⟨rest, hrest, rfl⟩ := map_eq_ok h
      rw [List.find?_cons, List.map_cons, Value.member?]
      by_cases hname : a.name = name
      · simp only [hname, beq_self_eq_true, if_true]
        exact .inr ⟨a, v, rfl, rfl, hv⟩
      · have hne : (a.name == name) = false := by simpa using hname
        rw [hne, if_neg hname]
        exact ih hrest

end Query

/-! ### What validation leaves open -/

namespace Execution

/-- The selection leaves the argument out and the field has no default for it. The type that the
selection is made on is then an interface, which does not ask for the argument. -/
structure LeftOut (parent : TypeInfo) (head : FieldHead) (a : ArgumentInfo) : Prop where
  omitted : head.arguments.find? (·.name == a.name) = none
  bare : a.default = none
  interface : parent.kind = .interface
  lenient : ∀ declared, parent.field? head.name = some declared →
    ∀ x ∈ declared.arguments, x.name = a.name → x.default.isSome = true

/-- The selection gives the argument a variable that was not sent and that is null then. It is of a
type that may be null, which is allowed if it has a default itself, or the argument has one where
the selection is made. -/
structure LeftUnset (op : Operation) (sent : List (String × Value)) (parent : TypeInfo)
    (head : FieldHead) (a : ArgumentInfo) (x : Query.Argument) (v : VariableDefinition) : Prop where
  given : head.arguments.find? (·.name == a.name) = some x
  value : x.value = .var v.name
  declared : op.variableDefinitions.find? (·.name == v.name) = some v
  unsent : Value.member? v.name sent = none
  loose : v.type.isNonNull = false
  null : v.default.getD .null = .null
  lenient : v.default = none → ∃ declared y, parent.field? head.name = some declared ∧
    declared.arguments.find? (·.name == a.name) = some y ∧ y.default.isSome = true

/-- A variable without a value of its own is null only as it is declared to be. -/
theorem value?_eq_null {b : Bindings} {name : String} (h : b.value? name = some .null) :
    ∃ v, b.declared.find? (·.name == name) = some v ∧ v.name = name ∧
      (Value.member? name b.sent = some .null ∨
        Value.member? name b.sent = none ∧ v.default.getD .null = .null ∧
          (v.default = none → v.type.isNonNull = false)) := by
  unfold Bindings.value? at h
  cases hv : b.declared.find? (·.name == name) with
  | none => simp [hv] at h
  | some v =>
    refine ⟨v, rfl, by simpa using List.find?_some hv, ?_⟩
    simp only [hv] at h
    cases hsent : Value.member? name b.sent with
    | some y =>
      simp only [hsent, Option.some_or, Option.some.injEq] at h
      exact .inl (h ▸ rfl)
    | none =>
      refine .inr ⟨rfl, ?_⟩
      cases hdefault : v.default with
      | some y =>
        simp only [hsent, hdefault, Option.none_or, Option.some_or, Option.some.injEq] at h
        exact ⟨h, nofun⟩
      | none =>
        cases hstrict : v.type.isNonNull with
        | true => simp [hsent, hdefault, hstrict] at h
        | false => exact ⟨rfl, fun _ => rfl⟩

theorem admits_null {types : Types} {ref : TypeRef} (h : ref.isNonNull = true) :
    admits types ref .null = false := by
  cases ref with
  | nonNull inner => rfl
  | _ => cases h

theorem accepts_loose {a b : TypeRef} (ha : a.isNonNull = true) (hb : b.isNonNull = false) :
    a.accepts b = false := by
  cases a with
  | nonNull a =>
    cases b with
    | nonNull b => cases hb
    | _ => rfl
  | _ => cases ha

/-- Without a default an argument takes what its type says. -/
theorem expected_of_bare {a : ArgumentInfo} (h : a.default = none) :
    ArgumentUse.expected a = a.type := by
  rw [ArgumentUse.expected, h]
  cases a.type <;> rfl

section

variable {types : Types} {sent : List (String × Value)} {as : List Query.Argument}
  {declared : FieldInfo} {f : FieldInfo} {a : ArgumentInfo}

/-- An argument that may not be null is left out only if there is a default for it where the
selection is made. -/
theorem lenient_of_omitted
    (hvalid : (⟨as, some declared.arguments⟩ : ArgumentUse).isValid types sent = true)
    (hpromised : Promised declared f) (ha : f.argument? a.name = some a)
    (hstrict : a.type.isNonNull = true) (homitted : as.find? (·.name == a.name) = none) :
    ∀ x ∈ declared.arguments, x.name = a.name → x.default.isSome = true := by
  intro x hx hname
  obtain ⟨b, hb, htype⟩ := hpromised.arguments x hx
  rw [hname, ha] at hb
  cases hb
  simp only [ArgumentUse.isValid, Bool.and_eq_true, ArgumentUse.areComplete, Option.getD_some,
    List.all_eq_true] at hvalid
  have hcomplete := hvalid.1.2 x hx
  have hnone : as.any (·.name == x.name) = false := by
    rw [hname]
    exact List.any_eq_false.mpr (List.find?_eq_none.mp homitted)
  simpa [← htype, hstrict, hnone] using hcomplete

/-- A value that is given for such an argument is no null, as far as variables have been sent. -/
theorem strict_of_given
    (hvalid : (⟨as, some declared.arguments⟩ : ArgumentUse).isValid types sent = true)
    (hpromised : Promised declared f) (ha : f.argument? a.name = some a)
    (hstrict : a.type.isNonNull = true) {x : Query.Argument}
    (hx : as.find? (·.name == a.name) = some x) :
    x.value.replace (Value.member? · sent) ≠ .ok .null ∧
      ∃ y, declared.arguments.find? (·.name == a.name) = some y ∧ y.type = a.type := by
  have hmem := List.mem_of_find?_eq_some hx
  have hname : x.name = a.name := by simpa using List.find?_some hx
  simp only [ArgumentUse.isValid, Bool.and_eq_true, ArgumentUse.areKnown, ArgumentUse.fitTypes,
    ArgumentUse.declared?, Option.bind_some, Option.isNone_some, Bool.false_or,
    List.all_eq_true] at hvalid
  have hknown := hvalid.1.1.2 x hmem
  have hfits := hvalid.2 x hmem
  rw [hname] at hknown hfits
  cases hy : declared.arguments.find? (·.name == a.name) with
  | none => simp [hy] at hknown
  | some y =>
    have hyname : y.name = a.name := by simpa using List.find?_some hy
    obtain ⟨b, hb, htype⟩ := hpromised.arguments y (List.mem_of_find?_eq_some hy)
    rw [hyname, ha] at hb
    cases hb
    refine ⟨fun hnull => ?_, y, rfl, htype.symm⟩
    rw [hy] at hfits
    simp only [admitsInput, hnull, admits_null (htype ▸ hstrict)] at hfits
    cases hfits

end

/-- A variable that is null unless it is sent may stand for such an argument only if there is a
default for the one or the other. -/
theorem lenient_of_unset {s : Schema M C W} {r : Request} {doc : Document} {op : Operation}
    {root : String} (hadmitted : Admitted s r doc op root) {parent : TypeInfo} {head : FieldHead}
    {hasSelections : Bool}
    (hoccurs : .field (some parent) head hasSelections ∈ doc.inReach s.named? (s.named? root) op)
    {declared : FieldInfo} (hdeclared : parent.field? head.name = some declared)
    {a : ArgumentInfo} (hstrict : a.type.isNonNull = true) {x : Query.Argument}
    (hx : head.arguments.find? (·.name == a.name) = some x) {v : VariableDefinition}
    (hvalue : x.value = .var v.name)
    (hv : op.variableDefinitions.find? (·.name == v.name) = some v)
    (hloose : v.type.isNonNull = false) (hnone : v.default = none) {y : ArgumentInfo}
    (hy : declared.arguments.find? (·.name == a.name) = some y) (htype : y.type = a.type) :
    y.default.isSome = true := by
  have hvariables := hadmitted.declarations
  simp only [Operation.variablesAreValid, Bool.and_eq_true, List.all_eq_true] at hvariables
  have huse : (⟨head.arguments, some declared.arguments⟩ : ArgumentUse) ∈
      (doc.inReach s.named? (s.named? root) op).flatMap (·.uses) := by
    refine List.mem_flatMap.mpr ⟨_, hoccurs, ?_⟩
    simp [Occurrence.uses, hdeclared]
  have hname : x.name = a.name := by simpa using List.find?_some hx
  have hexpected : (⟨.var v.name, some (ArgumentUse.expected y)⟩ : Expectation) ∈
      (⟨head.arguments, some declared.arguments⟩ : ArgumentUse).expectations := by
    refine List.mem_flatMap.mpr ⟨x, List.mem_of_find?_eq_some hx, ?_⟩
    rw [hvalue, hname]
    simp [Expectation.parts, ArgumentUse.declared?, hy]
  have hmet := hvariables.2 _ huse _ hexpected
  simp only [Expectation.isMet, hv] at hmet
  have heffective : v.effectiveType = v.type := by
    simp [VariableDefinition.effectiveType, hloose, hnone]
  cases hdefault : y.default with
  | some _ => rfl
  | none =>
    have htype' : ArgumentUse.expected y = a.type := by
      rw [expected_of_bare hdefault, htype]
    rw [heffective, htype', accepts_loose hstrict hloose] at hmet
    cases hmet

/-- A default that is null is of a type that may be null. -/
theorem loose_of_null {s : Schema M C W} {r : Request} {doc : Document} {op : Operation}
    {root : String} (hadmitted : Admitted s r doc op root) {v : VariableDefinition}
    (hv : v ∈ op.variableDefinitions) (hnull : v.default.getD .null = .null)
    (hnone : v.default = none → v.type.isNonNull = false) : v.type.isNonNull = false := by
  cases hdefault : v.default with
  | none => exact hnone hdefault
  | some y =>
    have hvariables := hadmitted.declarations
    simp only [Operation.variablesAreValid, Bool.and_eq_true, List.all_eq_true] at hvariables
    have hvalid := hvariables.1.1.1.1.2 v hv
    rw [hdefault, Option.getD_some] at hnull
    subst hnull
    simp only [VariableDefinition.isValid, hdefault, Bool.and_eq_true] at hvalid
    cases hstrict : v.type.isNonNull with
    | false => rfl
    | true =>
      rw [admits_null hstrict] at hvalid
      cases hvalid.1.2

/-! ### The two cases -/

/-- An argument without a value is one without a default, as no default of it is a null. -/
theorem bare_of_null {a : ArgumentInfo} (hproper : a.default ≠ some .null)
    (hnull : a.default.getD .null = .null) : a.default = none := by
  cases hdefault : a.default with
  | none => rfl
  | some y =>
    rw [hdefault, Option.getD_some] at hnull
    exact absurd (hdefault.trans (congrArg some hnull)) hproper

/-- A variable that the selection leaves unset is null. -/
theorem value?_of_leftUnset {op : Operation} {sent : List (String × Value)} {parent : TypeInfo}
    {head : FieldHead} {a : ArgumentInfo} {x : Query.Argument} {v : VariableDefinition}
    (h : LeftUnset op sent parent head a x v) :
    (⟨sent, op.variableDefinitions⟩ : Bindings).value? v.name = some .null := by
  have hnull := h.null
  simp only [Bindings.value?, h.declared, h.unsent, h.loose]
  cases hdefault : v.default with
  | none => rfl
  | some y =>
    rw [hdefault, Option.getD_some] at hnull
    rw [hnull]
    rfl

/-- A null for such an argument comes from a variable that was not sent. -/
theorem leftUnset_of_null {s : Schema M C W} {r : Request} {doc : Document} {op : Operation}
    {root : String} (hadmitted : Admitted s r doc op root) {parent : TypeInfo} {head : FieldHead}
    {hasSelections : Bool}
    (hoccurs : .field (some parent) head hasSelections ∈ doc.inReach s.named? (s.named? root) op)
    {declared : FieldInfo} (hdeclared : parent.field? head.name = some declared)
    {a : ArgumentInfo} (hstrict : a.type.isNonNull = true) {x : Query.Argument}
    (hx : head.arguments.find? (·.name == a.name) = some x)
    (hnot : x.value.replace (Value.member? · r.sent) ≠ .ok .null) {y : ArgumentInfo}
    (hy : declared.arguments.find? (·.name == a.name) = some y) (htype : y.type = a.type)
    (hreplaced : x.value.replace (⟨r.sent, op.variableDefinitions⟩ : Bindings).value? = .ok .null) :
    ∃ v, LeftUnset op r.sent parent head a x v := by
  rcases InputValue.replace_eq_null hreplaced with hvalue | ⟨z, hvalue, hz⟩
  · rw [hvalue] at hnot
    exact absurd rfl hnot
  · obtain ⟨v, hv, rfl, hnull | ⟨hunsent, hnull, hloose⟩⟩ := value?_eq_null hz
    · have hreplace : x.value.replace (Value.member? · r.sent) = .ok .null := by
        rw [hvalue, InputValue.replace]
        simp only at hnull
        rw [hnull]
      exact absurd hreplace hnot
    · have hloose' := loose_of_null hadmitted (List.mem_of_find?_eq_some hv) hnull hloose
      exact ⟨v, hx, hvalue, hv, hunsent, hloose', hnull, fun hnone => ⟨declared, y, hdeclared, hy,
        lenient_of_unset hadmitted hoccurs hdeclared hstrict hx hvalue hv hloose' hnone hy htype⟩⟩

/-- What the resolver of a selected field gets for an argument that may not be null. -/
theorem get_eq_null_iff {c : Catalog M C W} {d : Description} {w : Walk M C W} {st : Store M C W}
    {s : Schema M C W} (hs : Linking c d w st s) {r : Request} {doc : Document} {op : Operation}
    {root : String} (hadmitted : Admitted s r doc op root) {call : Call M C W} {parent : TypeInfo}
    {head : FieldHead}
    (hselected : SelectedAs s ⟨r.sent, op.variableDefinitions⟩
      (doc.inReach s.named? (s.named? root) op) call parent head) {args : Arguments}
    (hargs : ArgumentPlan.decodeAll call.field.plan.arguments call.sent = .ok args)
    {a : ArgumentInfo} (ha : a ∈ call.field.info.arguments) (hstrict : a.type.isNonNull = true) :
    args.get a.name = .null ↔
      LeftOut parent head a ∨ ∃ x v, LeftUnset op r.sent parent head a x v := by
  obtain ⟨h, def_, o, fields, ho⟩ := hs.object_of_object? hselected.object
  obtain ⟨found, hfound, hplanned⟩ := ho.field? hselected.field
  obtain ⟨p, ha', hp, halike⟩ := hplanned.argument?_of_mem (ho.checked_of_find? hfound).2.2 ha
  obtain ⟨hasSelections, hoccurs⟩ := hselected.occurs
  obtain ⟨declared, hdeclared, hvalid⟩ := field_of_isValid (hadmitted.valid _ hoccurs).1
  obtain ⟨hpromised, hown⟩ := promised_of_covers hs hselected.object hselected.covers hdeclared
    hselected.field
  obtain ⟨sent, hsent, hcallSent⟩ := hselected.arguments
  have hget : args.get a.name = .null ↔
      ((Value.member? a.name call.sent).or a.default).getD .null = .null := by
    have hdecode := ArgumentPlan.get_of_decodeAll hargs hp
    rw [← halike.name, ← halike.default]
    refine Iff.trans ?_ ArgumentPlan.decode_eq_null
    rw [hdecode, Except.ok.injEq, halike.name]
  rw [hget, hcallSent]
  rcases Bindings.find?_of_arguments hsent a.name with
    ⟨homitted, hmember⟩ | ⟨x, v, hx, hmember, hreplaced⟩
  · -- left out: only the default of the object's own field counts
    have hlenient := lenient_of_omitted hvalid hpromised ha' hstrict homitted
    rw [hmember, Option.none_or]
    constructor
    · intro hnull
      have hbare := bare_of_null (halike.proper hstrict) hnull
      refine .inl ⟨homitted, hbare, hown.resolve_right ?_, fun declared' hdeclared' => ?_⟩
      · rintro rfl
        have hsome := hlenient a ha rfl
        rw [hbare] at hsome
        cases hsome
      · rw [hdeclared] at hdeclared'
        cases hdeclared'
        exact hlenient
    · rintro (hleft | ⟨x, v, hunset⟩)
      · rw [hleft.bare, Option.getD_none]
      · have hgiven := hunset.given
        rw [homitted] at hgiven
        cases hgiven
  · -- given: the value is a null, and then a variable, or it is none
    obtain ⟨hnot, y, hy, htype⟩ := strict_of_given hvalid hpromised ha' hstrict hx
    rw [hmember, Option.some_or, Option.getD_some]
    constructor
    · rintro rfl
      exact .inr ⟨x, leftUnset_of_null hadmitted hoccurs hdeclared hstrict hx hnot hy htype
        hreplaced⟩
    · rintro (hleft | ⟨x', u, hunset⟩)
      · have homitted := hleft.omitted
        rw [hx] at homitted
        cases homitted
      · have hgiven := hunset.given
        rw [hx] at hgiven
        cases hgiven
        rw [hunset.value, InputValue.replace, value?_of_leftUnset hunset] at hreplaced
        exact (Except.ok.inj hreplaced).symm

/-- **A required argument is null in two cases and in no others.** Each call of a request that is
run was selected on a type that covers its object, and of the arguments that its own field requires
those are null that this selection leaves out, or leaves to a variable that was not sent. -/
theorem supplied_null_iff [Backed M] {c : Catalog M C W} {d : Description} {st st' : Store M C W}
    {s : Schema M C W} (hcompile : c.compile d st = (.ok s, st')) {r : Request} {doc : Document}
    {op : Operation} {root : String} (hscreen : s.screen r = .ok (doc, op, root))
    {context : Option C} {w : W} {call : Call M C W}
    (hcall : call ∈ (s.perform context r (doc, op, root) w).2.calls) :
    ∃ parent head,
      SelectedAs s ⟨r.sent, op.variableDefinitions⟩ (doc.inReach s.named? (s.named? root) op)
        call parent head ∧
      ∀ args, ArgumentPlan.decodeAll call.field.plan.arguments call.sent = .ok args →
        ∀ a ∈ call.field.info.arguments, a.type.isNonNull = true →
          (args.get a.name = .null ↔
            LeftOut parent head a ∨ ∃ x v, LeftUnset op r.sent parent head a x v) := by
  obtain ⟨walk, hs⟩ := Catalog.linking_of_compile hcompile
  have hadmitted := admitted_of_screen hscreen
  obtain ⟨parent, head, hselected⟩ := selection_of_mem_calls hs hadmitted hcall
  exact ⟨parent, head, hselected, fun args hargs a ha hstrict =>
    get_eq_null_iff hs hadmitted hselected hargs ha hstrict⟩

/-! ### A required argument that is left out -/

/-- An object asks for a title where its interface asks for nothing. -/
def titledCatalog : Catalog StarWars.Source StarWars.Context Unit × Handle :=
  let i := ({ id := 0 } : Catalog StarWars.Source StarWars.Context Unit).interface "Named"
    StarWars.Character.backing
  let i := i.interfaceFields (.done [StarWars.field "name" (.scalar .string) .abstract])
  let o := i.catalog.object "Titled" (StarWars.Source.characters Unit)
  let o := (o.implement i.handle).objectFields (.done [
    StarWars.field "name" (.scalar .string)
      (.resolver (.scalar .string) <|
        StarWars.pureResolver StarWars.Character.backing fun _ args _ =>
          .ok (.value (.string (args.get "title").kind)))
      none [⟨"title", .nonNull (.scalar .string), none, none⟩]])
  let q := o.catalog.query.objectFields (.done [
    StarWars.field "first" (.interface i.handle)
      (.resolver StarWars.characterShape <| StarWars.pureResolver .unit fun _ _ _ =>
        .ok (StarWars.produceCharacter (StarWars.Roster.hero? none)))])
  (q.catalog, q.handle)

@[irreducible] def titled : Except DefinitionError (Schema StarWars.Source StarWars.Context Unit) ×
    Store StarWars.Source StarWars.Context Unit :=
  titledCatalog.1.compile { query := titledCatalog.2 } ⟨Memo.fresh, ()⟩

def titledSchema : Schema StarWars.Source StarWars.Context Unit :=
  titled.1.toOption.getD ⟨[], "", none, {}⟩

def isNullSupplied : Supplied → Bool
  | .null => true
  | _ => false

/-- Whether the call hands its resolver a null for an argument that may not be null. -/
def Call.lacks (call : Call M C W) : Bool :=
  match ArgumentPlan.decodeAll call.field.plan.arguments call.sent with
  | .ok args => call.field.info.arguments.any fun a =>
    a.type.isNonNull && isNullSupplied (args.get a.name)
  | .error _ => false

theorem null_of_lacks {call : Call M C W} (h : call.lacks = true) :
    ∃ args, ArgumentPlan.decodeAll call.field.plan.arguments call.sent = .ok args ∧
      ∃ a ∈ call.field.info.arguments, a.type.isNonNull = true ∧ args.get a.name = .null := by
  unfold Call.lacks at h
  split at h
  · next args hargs =>
    obtain ⟨a, ha, hlacks⟩ := List.any_eq_true.mp h
    obtain ⟨hstrict, hnull⟩ := Bool.and_eq_true_iff.mp hlacks
    refine ⟨args, hargs, a, ha, hstrict, ?_⟩
    cases hget : args.get a.name with
    | null => rfl
    | _ => simp [hget, isNullSupplied] at hnull
  · cases h

theorem supplied_null_iff_titled :
    ∃ doc op root call, titledSchema.screen ⟨"{ first { name } }", [], none⟩ = .ok (doc, op, root) ∧
      call ∈ (titledSchema.perform (some {}) ⟨"{ first { name } }", [], none⟩ (doc, op, root)
        ()).2.calls ∧
      ∃ parent head args, ∃ a ∈ call.field.info.arguments, a.type.isNonNull = true ∧
        ArgumentPlan.decodeAll call.field.plan.arguments call.sent = .ok args ∧
        args.get a.name = .null ∧
        (LeftOut parent head a ∨ ∃ x v, LeftUnset op [] parent head a x v) := by
  have hcompile : titledCatalog.1.compile { query := titledCatalog.2 } ⟨Memo.fresh, ()⟩ =
      (.ok titledSchema, titled.2) := by
    have heq : titled = (.ok titledSchema, titled.2) := Except.eq_ok_getD (by decide +kernel) _
    rw [← heq, titled]
  have hlacks : (match titledSchema.screen ⟨"{ first { name } }", [], none⟩ with
      | .ok admitted => (titledSchema.perform (some {}) ⟨"{ first { name } }", [], none⟩ admitted
          ()).2.calls.any Call.lacks
      | .error _ => false) = true := by decide +kernel
  cases hscreen : titledSchema.screen ⟨"{ first { name } }", [], none⟩ with
  | error e =>
    rw [hscreen] at hlacks
    cases hlacks
  | ok admitted =>
    obtain ⟨doc, op, root⟩ := admitted
    rw [hscreen] at hlacks
    obtain ⟨call, hcall, hlacks⟩ := List.any_eq_true.mp hlacks
    obtain ⟨args, hargs, a, ha, hstrict, hnull⟩ := null_of_lacks hlacks
    obtain ⟨parent, head, _, hiff⟩ := supplied_null_iff hcompile hscreen hcall
    exact ⟨doc, op, root, call, rfl, hcall, parent, head, args, a, ha, hstrict, hargs, hnull,
      (hiff args hargs a ha hstrict).mp hnull⟩

end Execution

end GraphSchema
