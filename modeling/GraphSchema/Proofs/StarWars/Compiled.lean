import GraphSchema.Proofs.Compile.Limits
import GraphSchema.Proofs.Run.Questions
import GraphSchema.Proofs.StarWars.Calls

/-! The schema of the Star Wars catalog.

Under limits that are valid the catalog compiles to one schema, whose types are the same
under all of them (`schema_eq`). It is linked (`compiled_linked`), and it declares what
requests are validated with as what its fields and its questions read
(`compiled_knows`, `compiled_legible`). -/
namespace GraphSchema.StarWars

open Direct Execution Link

/-- The schema that the catalog compiles to. -/
def compiled (limits : Limits) : Schema Source Context Unit := { starWarsSchema with limits }

/-- The cells after compiling. -/
def store : Store Source Context Unit := starWars.2

variable {limits : Limits}

theorem compile_compiled (h : limits.validate = .ok ()) :
    catalog.1.compile { query := catalog.2, limits } ⟨Memo.fresh, ()⟩ =
      (.ok (compiled limits), store) := by
  have hcompile := catalog.1.compile_limits
    (show ({ query := catalog.2 } : Description).limits.validate = .ok () from rfl) h
    ⟨Memo.fresh, ()⟩
  rw [starWars_compiles] at hcompile
  exact hcompile

theorem schema_eq (h : limits.validate = .ok ()) : schema limits = .ok (compiled limits) :=
  congrArg Prod.fst (compile_compiled h)

theorem store_declared : store.Declared catalog.1 := by
  have hkeeps := catalog.1.keeps_compile { query := catalog.2 } ⟨Memo.fresh, ()⟩
  rw [starWars_compiles] at hkeeps
  exact Store.declared_of_keeps (Store.declared_fresh _ ()) hkeeps

/-- The walk that the schema is linked from. -/
theorem compiled_linking (h : limits.validate = .ok ()) :
    ∃ w, Linking catalog.1 { query := catalog.2, limits } w store (compiled limits) :=
  Catalog.linking_of_compile (compile_compiled h)

theorem compiled_linked (h : limits.validate = .ok ()) : Linked (compiled limits) := by
  obtain ⟨w, hs⟩ := compiled_linking h
  exact hs.linked (starWars_wellFormed _)

/-! ### What requests are validated with -/

theorem compiled_episode : ∃ ty, (compiled limits).type? "Episode" = some ty ∧
    ((compiled limits).info ty).kind = .enum ∧ ((compiled limits).info ty).values = episodes := by
  have hvalues : (starWarsSchema.type? "Episode").any (fun ty =>
      decide ((starWarsSchema.info ty).kind = .enum ∧
        (starWarsSchema.info ty).values = episodes)) = true := by
    decide +kernel
  obtain ⟨ty, hty, hvalues⟩ := (Option.any_eq_true _ _).mp hvalues
  exact ⟨ty, hty, of_decide_eq_true hvalues⟩

theorem compiled_knows (h : limits.validate = .ok ()) : Knows (compiled limits).named? := by
  obtain ⟨w, hs⟩ := compiled_linking h
  obtain ⟨ty, hty, hkind, hvalues⟩ := compiled_episode
  exact ⟨hs.knowsScalars, _, Schema.named?_of_type? hty, hkind, hvalues⟩

theorem compiled_rooted (h : limits.validate = .ok ()) {op : Query.Operation} {root : String}
    (hroot : op.root? (compiled limits) = some root) :
    ∃ t ∈ (compiled limits).surface, (compiled limits).named? root = some t := by
  obtain ⟨w, hs⟩ := compiled_linking h
  have hquery : (starWarsSchema.type? "Query").isSome = true := by decide +kernel
  obtain ⟨t, ht⟩ := Option.isSome_iff_exists.mp hquery
  have hnamed : (compiled limits).named? root = some ((compiled limits).info t) := by
    rw [root_eq hs hroot]
    exact Schema.named?_of_type? ht
  exact ⟨_, List.mem_of_find?_eq_some hnamed, hnamed⟩

theorem compiled_leads : ∀ introspection : Bool,
    ∀ t ∈ (compiled { introspection }).surface, ∀ f ∈ t.fields,
      ((compiled { introspection }).named? f.type.core).isSome = true := by
  decide +kernel

theorem compiled_arguments : ∀ introspection : Bool,
    ∀ t ∈ (compiled { introspection }).surface, ∀ f ∈ t.fields, ∀ a ∈ f.arguments,
      (a.name = "includeDeprecated" → a.type = .nonNull (.named Scalar.boolean.name)) ∧
        (f.name = "__type" → a.name = "name" → a.type = .nonNull (.named Scalar.string.name)) := by
  decide +kernel

theorem compiled_legible (h : limits.validate = .ok ()) : Legible (compiled limits) := by
  obtain ⟨w, hs⟩ := compiled_linking h
  -- of the limits only whether questions are answered shows in what a request may name
  exact {
    scalars := hs.knowsScalars
    leads := compiled_leads limits.introspection
    flag := fun t ht f hf a ha =>
      (compiled_arguments limits.introspection t ht f hf a ha).1
    name := fun t ht f hf hname a ha =>
      (compiled_arguments limits.introspection t ht f hf a ha).2 hname }

/-- Where a field is declared for an interface, it takes no arguments. -/
theorem compiled_bare {t : ObjectType Source Context Unit}
    (ht : .object t ∈ (compiled limits).types) {i : String} (hi : i ∈ t.interfaces) {f : PlannedField Source Context Unit}
    (hf : f ∈ t.fields) : f.info.arguments = [] := by
  have hbare : (starWarsSchema.types.all fun ty =>
      (starWarsSchema.info ty).interfaces.isEmpty || ty.fields.all (·.arguments.isEmpty)) =
        true := by
    decide +kernel
  have h := List.all_eq_true.mp hbare _ ht
  rcases Bool.or_eq_true_iff.mp h with h | h
  · have hnone : t.interfaces = [] := List.isEmpty_iff.mp h
    rw [hnone] at hi
    cases hi
  · exact List.isEmpty_iff.mp (List.all_eq_true.mp h f.info (List.mem_map_of_mem hf))

end GraphSchema.StarWars
