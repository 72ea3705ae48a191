import GraphSchema.Execution.Answer
import GraphSchema.Proofs.Direct.Linked
import GraphSchema.Proofs.Query.Reach
import GraphSchema.Proofs.Success

/-! What is known of a request that is run.

Screening leaves a document in which every occurrence in reach of the operation has
been validated on the type that it is selected on, with the values that were sent
(`admitted_of_screen`). A type of the schema is seen there with the fields that it
declares (`field?_info_object`, `field?_info`), and a scalar as what it is (`named?_scalar`). -/
namespace GraphSchema

open Query

variable {M C W : Type}

theorem Scalar.find?_name (k : Scalar) : Scalar.all.find? (·.name == k.name) = some k := by
  cases k <;> decide

/-- What a type that is known for a scalar admits, beside null, the scalar does. -/
theorem Query.admits_scalar {types : Types} {k : Scalar} {t : TypeInfo}
    (ht : types k.name = some t) (hkind : t.kind = .scalar) {v : Value} (hv : v.isNull = false)
    (h : admits types (.named k.name) v = true) : k.admits v = true := by
  simpa [admits, admitsNamed, ht, hkind, Scalar.find?_name, hv] using h

namespace Schema

/-- The types that a query may name. -/
def named? (s : Schema M C W) : Types := fun name => s.surface.find? (·.name == name)

variable {s : Schema M C W}

theorem named?_of_type? {name : String} {ty : SchemaType M C W} (h : s.type? name = some ty) :
    s.named? name = some (s.info ty) := by
  have hfind : s.types.find? ((fun t : TypeInfo => t.name == name) ∘ s.info) = some ty := h
  rw [named?, surface, List.append_assoc, List.find?_append, List.find?_map, hfind]
  rfl

/-- A scalar is seen as what it is, unless the schema has a type of its name. -/
theorem named?_scalar {k : Scalar} (hk : s.type? k.name = none) :
    s.named? k.name = some { kind := .scalar, name := k.name, description := k.description } := by
  have hnone : (s.types.map s.info).find? (·.name == k.name) = none := by
    rw [List.find?_map, Option.map_eq_none_iff]
    exact hk
  have hscalar : Schema.scalarInfos.find? (·.name == k.name) =
      some { kind := .scalar, name := k.name, description := k.description } := by
    rw [Schema.scalarInfos, List.find?_map]
    exact congrArg (Option.map _) k.find?_name
  rw [Schema.named?, Schema.surface, List.append_assoc, List.find?_append, hnone,
    List.find?_append, hscalar]
  rfl

theorem fields_info (s : Schema M C W) (ty : SchemaType M C W) :
    (s.info ty).fields = ty.fields ++
      if s.limits.introspection && ty.name == s.query then Introspection.rootFields else [] :=
  rfl

theorem field?_info_object {t : ObjectType M C W} {name : String} {f : PlannedField M C W}
    (hf : t.field? name = some f) : (s.info (.object t)).field? name = some f.info := by
  have hfind : t.fields.find? ((fun f : FieldInfo => f.name == name) ∘ (·.info)) = some f := hf
  rw [TypeInfo.field?, fields_info, List.find?_append]
  simp only [SchemaType.fields, List.find?_map, hfind]
  rfl

/-- Only introspection adds to the fields of a type. -/
theorem field?_info {ty : SchemaType M C W} {name : String} {f : FieldInfo}
    (hf : (s.info ty).field? name = some f) :
    ty.fields.find? (·.name == name) = some f ∨ name = "__schema" ∨ name = "__type" := by
  rw [TypeInfo.field?, fields_info, List.find?_append] at hf
  rcases Option.or_eq_some_iff.mp hf with h | ⟨_, h⟩
  · exact .inl h
  · have hname : f.name = name := by simpa using List.find?_some h
    have hmem := List.mem_of_find?_eq_some h
    split at hmem
    · simp only [Introspection.rootFields, List.mem_cons, List.not_mem_nil, or_false] at hmem
      rcases hmem with rfl | rfl
      · exact .inr (.inl hname.symm)
      · exact .inr (.inr hname.symm)
    · cases hmem

end Schema

/-- A request that has passed: what is known of the operation that is run and of all that is in its
reach. -/
structure Admitted (s : Schema M C W) (r : Request) (d : Document) (op : Operation)
    (root : String) : Prop where
  rooted : op.root? s = some root
  valid : ∀ o ∈ d.inReach s.named? (s.named? root) op,
    o.isValid s.named? r.sent = true ∧ o.fragmentIsValid s.named? d = true
  declarations : op.variablesAreValid s.named?
    ((d.inReach s.named? (s.named? root) op).flatMap (·.uses)) = true
  conditions : ∀ f ∈ d.fragments, conditionIsValid s.named? f.condition = true

theorem operation_of_operation? {d : Document} {asked : Option String} {op : Operation}
    (h : d.operation? asked = some op) :
    op ∈ d.operations ∧ Document.asksFor asked op = true := by
  cases asked with
  | some name =>
    have hname := List.find?_some h
    exact ⟨List.mem_of_find?_eq_some h, by simpa [Document.asksFor] using hname⟩
  | none =>
    unfold Document.operation? at h
    split at h
    · next heq => cases heq
    · split at h
      · next hops =>
        cases h
        exact ⟨hops ▸ List.mem_singleton_self _, rfl⟩
      · cases h

theorem admitted_of_isValid {s : Schema M C W} {r : Request} {d : Document} {op : Operation}
    {root : String} (hvalid : d.isValid s r.sent r.operation = true)
    (hop : d.operation? r.operation = some op) (hroot : op.root? s = some root) :
    Admitted s r d op root := by
  obtain ⟨hmem, hasks⟩ := operation_of_operation? hop
  simp only [Document.isValid, Bool.and_eq_true, List.all_eq_true] at hvalid
  obtain ⟨⟨⟨⟨_, hfragments⟩, hall⟩, hops⟩, hvariables⟩ := hvalid
  refine ⟨hroot, fun o ho => ?_, ?_, ?_⟩
  · rcases Document.mem_inReach.mp ho with ho | ⟨_, _, f, hf, ho⟩
    · have h := hops op hmem o (by rw [hroot]; exact ho)
      rw [if_pos hasks] at h
      exact h.1
    · exact (hall f (Document.mem_fragments hf).1 o ho).1
  · have h := hvariables op hmem
    rw [hroot] at h
    exact h
  · simp only [Document.fragmentsAreValid, Bool.and_eq_true, List.all_eq_true] at hfragments
    exact hfragments.1.1

theorem admitted_of_screen {s : Schema M C W} {r : Request} {d : Document} {op : Operation}
    {root : String} (h : s.screen r = .ok (d, op, root)) : Admitted s r d op root := by
  unfold Schema.screen at h
  cases hparse : Document.parse? r.query with
  | none => simp [hparse] at h
  | some d' =>
    rw [hparse] at h
    obtain ⟨_, h⟩ := Except.of_ite_eq_ok h
    obtain ⟨_, h⟩ := Except.of_ite_eq_ok h
    obtain ⟨_, h⟩ := Except.of_ite_eq_ok h
    obtain ⟨hvalid, h⟩ := Except.of_ite_eq_ok h
    cases hop : d'.operation? r.operation with
    | none => simp [hop] at h
    | some op' =>
      cases hroot : op'.root? s with
      | none => simp [hop, hroot] at h
      | some root' =>
        simp only [hop, hroot] at h
        cases h
        exact admitted_of_isValid (by simpa using hvalid) hop hroot

end GraphSchema
