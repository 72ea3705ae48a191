import GraphSchema.Compile.Basic

/-! Limits and compiling.

Limits are checked before anything else, and then play no part until a request comes: a
catalog compiles under limits that are valid to what it compiles to without any, but for
the limits themselves (`compile_limits`). -/
namespace GraphSchema

variable {M C W : Type}

namespace Conformance

theorem checkObject_limits (s : Schema M C W) (limits : Limits) (o : ObjectType M C W)
    (names : List String) : checkObject { s with limits } o names = checkObject s o names := by
  induction names with
  | nil => rfl
  | cons name rest ih =>
    simp only [checkObject, ih]
    rfl

theorem checkTypes_limits (s : Schema M C W) (limits : Limits) (types : List (SchemaType M C W)) :
    checkTypes { s with limits } types = checkTypes s types := by
  induction types with
  | nil => rfl
  | cons t rest ih =>
    cases t with
    | object o => simp only [checkTypes, checkObject_limits, ih]
    | _ => exact ih

theorem check_limits (s : Schema M C W) (limits : Limits) : check { s with limits } = check s :=
  checkTypes_limits s limits s.types

end Conformance

theorem Link.schema_limits (c : Catalog M C W) (d : Description) (w : Walk M C W)
    (limits : Limits) :
    schema c { d with limits } w = (schema c d w).map fun s => { s with limits } := by
  unfold schema
  cases prepareAll c w w.visited with
  | error e => rfl
  | ok u =>
    cases w.visited.mapM (finish c w) with
    | error e => rfl
    | ok types =>
      have hcheck := Conformance.check_limits
        (⟨types, c.nameOf d.query, d.mutation.map c.nameOf, d.limits⟩ : Schema M C W) limits
      simp only [bind, Except.bind] at hcheck ⊢
      rw [hcheck]
      cases Conformance.check (⟨types, c.nameOf d.query, d.mutation.map c.nameOf, d.limits⟩ :
        Schema M C W) <;> rfl

namespace Catalog

theorem compileWith_limits (c : Catalog M C W) (nested : Nested M C W) {d : Description}
    (hd : d.limits.validate = .ok ()) {limits : Limits} (h : limits.validate = .ok ())
    (st : Store M C W) :
    c.compileWith nested { d with limits } st =
      ((c.compileWith nested d st).1.map fun s => { s with limits },
        (c.compileWith nested d st).2) := by
  have hstart : Walk.start c { d with limits } = Walk.start c d := rfl
  simp only [compileWith, h, hd, hstart]
  cases c.misuses with
  | cons e es => rfl
  | nil =>
    cases Walk.start c d with
    | error e => rfl
    | ok w =>
      dsimp only
      rcases w.run nested c c.size st with ⟨_ | w, st'⟩
      · rfl
      · simp only [Link.schema_limits c d w limits]

/-- **Valid limits only show in the limits of a schema.** -/
theorem compile_limits (c : Catalog M C W) {d : Description} (hd : d.limits.validate = .ok ())
    {limits : Limits} (h : limits.validate = .ok ()) (st : Store M C W) :
    c.compile { d with limits } st =
      ((c.compile d st).1.map fun s => { s with limits }, (c.compile d st).2) := by
  unfold compile
  cases c.size with
  | zero => exact c.compileWith_limits _ hd h st
  | succ depth => exact c.compileWith_limits _ hd h st

end Catalog

end GraphSchema
