import GraphSchema.Proofs.Compile.Plans
import GraphSchema.Proofs.Run.Faults
import GraphSchema.Proofs.Run.Log
import GraphSchema.Proofs.Typing.Shapes

/-! Fields whose values keep to their shapes.

A field of an object is typed if its resolver is one over the models of the object
and yields what its shape says. Called on such a model it produces a value of the
type of the field (`produce_fills`), and of such a value nothing is of the wrong
kind (`faults_of_fills`). What remains to fail are the arguments, the context, the
resolver itself, and nulls and objects that the type has no place for
(`callError_of_mem_failures`). -/
namespace GraphSchema

variable {M C W : Type}

/-- Whether the value is of another kind than was expected. -/
def CompletionError.isMismatch : CompletionError → Bool
  | wrongKind .. | wrongScalar .. => true
  | nullInNonNull _ | namelessEnumValue _ | wrongType .. | dispatch _ => false

/-- The models have properties of static shapes, and what is read of them keeps to these. -/
structure Model.IsTyped [Backed M] (model : Model M W) : Prop where
  isStatic : ∀ p ∈ model.properties, p.shape.isStatic = true
  inhabits : ∀ p ∈ model.properties, ∀ m w found, Backed.backing m = model.backing →
    (model.read m p.name w).1 = some found → found.Inhabits p.shape

/-- The field is declared on an object over the backing. A resolver of it has a static shape, only
takes models of the backing, and what it makes of these keeps to the shape. -/
inductive FieldBody.IsTyped [Backed M] (b : Backing) : FieldBody M C W → Prop where
  | abstract : IsTyped b .abstract
  | property : IsTyped b .property
  | resolver {shape : Shape} (hstatic : shape.isStatic = true) {inner : Resolver M C W}
    (h : ∀ m args context w p, Backed.backing m = b → (inner m args context w).1 = .ok p →
      p.Inhabits shape) : IsTyped b (.resolver shape (.ofBacking b inner))

/-- The source takes models of the kind: it reads a property of them, or resolves them after it has
checked their backing. -/
inductive FieldSource.Over [Backed M] (model : Model M W) : FieldSource M C W → Prop where
  | property (name : String) : Over model (.property model.read name)
  | resolver (inner : Resolver M C W) : Over model (.resolver (.ofBacking model.backing inner))

namespace Completion

/-! ### Values of a type -/

variable {backing : Handle → Option Backing} {site : String} {path : Path} {f : Fault}

theorem faults_enum {e : EnumDef} {l : Leaf}
    (h : f ∈ enumFaults (M := M) site e path (.leaf l)) : f.cause.isMismatch = false := by
  simp only [enumFaults] at h
  split at h
  · cases h
  · rw [List.mem_singleton.mp h]
    rfl

theorem faults_object {name : String} {isTypeOf : Option (M → Bool)} {m : M}
    (h : f ∈ objectFaults site name isTypeOf path (.model m)) : f.cause.isMismatch = false := by
  simp only [objectFaults] at h
  split at h
  · cases h
  · rw [List.mem_singleton.mp h]
    rfl

theorem faults_abstract {dispatcher : Dispatcher M} {m : M}
    (h : f ∈ abstractFaults site dispatcher path (.model m)) : f.cause.isMismatch = false := by
  simp only [abstractFaults] at h
  split at h
  · cases h
  · rw [List.mem_singleton.mp h]
    rfl

/-- **Nothing in a value of a type is of the wrong kind.** -/
theorem faults_of_fills [Backed M] {c : Catalog M C W} {w : Walk M C W} {p : Produced M}
    {ty : TypeExpr} (hp : Fills backing p ty) {plan : OutputPlan M}
    (hplan : Link.outputPlan c w ty = .ok plan) (hf : f ∈ faults site plan path p) :
    f.cause.isMismatch = false := by
  induction hp generalizing plan path with
  | null ty =>
    rw [faults_null] at hf
    split at hf
    · rw [List.mem_singleton.mp hf]
      rfl
    · cases hf
  | scalar hv =>
    cases hplan
    simp [faults, scalarFaults, hv] at hf
  | enum _ =>
    obtain ⟨values, _, rfl⟩ := Except.map_eq_ok hplan
    exact faults_enum hf
  | @object h m _ =>
    cases hget : c.get? h with
    | none => simp [Link.outputPlan, hget] at hplan
    | some t =>
      simp only [Link.outputPlan, hget, Except.ok.injEq] at hplan
      subst hplan
      exact faults_object hf
  | interface _ | union _ =>
    obtain ⟨dispatcher, _, rfl⟩ := Except.map_eq_ok hplan
    exact faults_abstract hf
  | list _ ih =>
    obtain ⟨inner, hinner, rfl⟩ := Except.map_eq_ok hplan
    obtain ⟨_, p, hp, hf⟩ := mem_itemFaults hf
    exact ih p (List.mem_of_getElem? hp) hinner hf
  | nonNull _ ih =>
    obtain ⟨inner, hinner, rfl⟩ := Except.map_eq_ok hplan
    rcases List.mem_append.mp hf with hf | hf
    · exact ih hinner hf
    · split at hf
      · rw [List.mem_singleton.mp hf]
        rfl
      · cases hf

end Completion

/-! ### Fields of an object -/

namespace Link

variable [Backed M] {c : Catalog M C W} {walk : Walk M C W} {typeName : String}
  {model : Model M W} {declared : Field M C W} {f : PlannedField M C W}

omit [Backed M] in
theorem bodyOf_property (hbody : declared.body = .property) {shape : Shape}
    {source : FieldSource M C W} (h : bodyOf typeName model declared = .ok (shape, source)) :
    ∃ p ∈ model.properties, p.name = declared.name ∧ p.shape = shape ∧
      source = .property model.read declared.name := by
  simp only [bodyOf, hbody] at h
  cases hfind : model.properties.find? (·.name == declared.name) with
  | none => simp [hfind] at h
  | some p =>
    simp only [hfind, Except.ok.injEq, Prod.mk.injEq] at h
    have hname : p.name = declared.name := by simpa using List.find?_some hfind
    exact ⟨p, List.mem_of_find?_eq_some hfind, hname, h.1, h.2.symm⟩

/-- The source of a typed field takes models of its object's kind. -/
theorem PlannedFrom.over (h : PlannedFrom c walk typeName model declared f)
    (htyped : declared.body.IsTyped model.backing) : f.plan.source.Over model := by
  obtain ⟨shape, hbody, _⟩ := h.body
  cases hdeclared : declared.body with
  | abstract => simp [bodyOf, hdeclared] at hbody
  | property =>
    obtain ⟨_, _, _, _, hsource⟩ := bodyOf_property hdeclared hbody
    exact hsource ▸ .property declared.name
  | resolver shape' resolve =>
    simp only [bodyOf, hdeclared, Except.ok.injEq, Prod.mk.injEq] at hbody
    rw [hdeclared] at htyped
    cases htyped with
    | resolver _ _ => exact hbody.2 ▸ .resolver _

/-- **A typed field of a model of its object's kind produces values of its type.** -/
theorem PlannedFrom.produce_fills (h : PlannedFrom c walk typeName model declared f)
    (hmodel : model.IsTyped) (htyped : declared.body.IsTyped model.backing) {m : M}
    (hm : Backed.backing m = model.backing) {sent : List (String × Value)} {context : Option C}
    {w w' : W} {p : Produced M} (hproduced : f.plan.produce m sent context w = (.ok p, w')) :
    Fills c.backing? p declared.type := by
  obtain ⟨shape, hbody, hproduces⟩ := h.body
  cases hdeclared : declared.body with
  | abstract => simp [bodyOf, hdeclared] at hbody
  | property =>
    obtain ⟨property, hmem, hname, rfl, hsource⟩ := bodyOf_property hdeclared hbody
    simp only [FieldPlan.produce, hsource, Prod.mk.injEq, Except.ok.injEq] at hproduced
    obtain ⟨rfl, _⟩ := hproduced
    cases hfound : (model.read m declared.name w).1 with
    | none => exact .null _
    | some found =>
      have hinhabits := hmodel.inhabits property hmem m w found hm (hname ▸ hfound)
      exact fills_of_produces hinhabits (hmodel.isStatic property hmem) hproduces
  | resolver shape' resolve =>
    simp only [bodyOf, hdeclared, Except.ok.injEq, Prod.mk.injEq] at hbody
    obtain ⟨rfl, hsource⟩ := hbody
    rw [hdeclared] at htyped
    cases htyped with
    | resolver hstatic hinner =>
      simp only [FieldPlan.produce, ← hsource] at hproduced
      split at hproduced
      · simp at hproduced
      · split at hproduced
        · simp at hproduced
        · rw [Resolver.ofBacking, if_pos hm] at hproduced
          have hresult := congrArg Prod.fst hproduced
          exact fills_of_produces (hinner _ _ _ _ _ hm hresult) hstatic hproduces

end Link

/-! ### Failures of a call -/

namespace Execution

variable [Backed M]

/-- What may go wrong in the call of a typed field: the arguments, the context, the resolver itself,
or something in its value that is not of the wrong kind. -/
inductive CallError (context : Option C) (call : Call M C W) : ResponseError → Prop where
  | arguments {e : DecodeError}
    (h : ArgumentPlan.decodeAll call.field.plan.arguments call.sent = .error e) :
    CallError context call ⟨e.message, call.path, call.position⟩
  | context (h : context = none) :
    CallError context call ⟨missingContext, call.path, call.position⟩
  | resolver {b : Backing} {inner : Resolver M C W}
    (hsource : call.field.plan.source = .resolver (.ofBacking b inner))
    (hparent : Backed.backing call.parent = b) {args : Arguments}
    (hargs : ArgumentPlan.decodeAll call.field.plan.arguments call.sent = .ok args) {given : C}
    (hcontext : context = some given) {message : String}
    (h : (inner call.parent args given call.world).1 = .error message) :
    CallError context call ⟨message, call.path, call.position⟩
  | value {p : Produced M} (hproduced : call.produced context = .ok p) {f : Fault}
    (hf : f ∈ Completion.faults call.field.plan.site call.field.plan.output call.path p)
    (hcause : f.cause.isMismatch = false) :
    CallError context call ⟨f.cause.message, f.path, call.position⟩

variable {c : Catalog M C W} {walk : Walk M C W} {typeName : String} {model : Model M W}
  {declared : Field M C W} {context : Option C} {call : Call M C W}

/-- A typed field that produces nothing has not been given what it needs, or its resolver fails. -/
theorem callError_of_produced (hover : call.field.plan.source.Over model)
    (hparent : Backed.backing call.parent = model.backing) {message : String}
    (h : call.produced context = .error message) :
    CallError context call ⟨message, call.path, call.position⟩ := by
  unfold Call.produced FieldPlan.produce at h
  generalize hsource : call.field.plan.source = source at h hover
  cases hover with
  | property name => simp at h
  | resolver inner =>
    dsimp only at h
    cases hargs : ArgumentPlan.decodeAll call.field.plan.arguments call.sent with
    | error e =>
      simp only [hargs, Except.error.injEq] at h
      exact h ▸ .arguments hargs
    | ok args =>
      cases context with
      | none =>
        simp only [hargs, Except.error.injEq] at h
        exact h ▸ .context rfl
      | some given =>
        simp only [hargs, Resolver.ofBacking, if_pos hparent] at h
        exact .resolver hsource hparent hargs rfl h

/-- **A call of a typed field on a model of its object's kind only fails as it may.** -/
theorem callError_of_mem_failures (h : Link.PlannedFrom c walk typeName model declared call.field)
    (hmodel : model.IsTyped) (htyped : declared.body.IsTyped model.backing)
    (hparent : Backed.backing call.parent = model.backing) {e : ResponseError}
    (he : e ∈ call.failures context) : CallError context call e := by
  obtain ⟨located, hlocated, rfl⟩ := List.mem_map.mp he
  cases hproduced : call.produced context with
  | error message =>
    rw [hproduced] at hlocated
    cases List.mem_singleton.mp hlocated
    exact callError_of_produced (h.over htyped) hparent hproduced
  | ok p =>
    rw [hproduced] at hlocated
    obtain ⟨f, hf, rfl⟩ := List.mem_map.mp hlocated
    have hfills := h.produce_fills hmodel htyped hparent (Prod.ext hproduced rfl)
    exact .value hproduced hf (Completion.faults_of_fills hfills h.output hf)

end Execution

end GraphSchema
