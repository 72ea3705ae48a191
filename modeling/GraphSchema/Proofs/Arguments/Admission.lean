import GraphSchema.Proofs.Arguments.Defaults
import GraphSchema.Proofs.Query.Screen

/-! Defaults that a caller could send.

Two checks say what a value of a type is: one lets defaults pass when a schema is
compiled, the other the values that a request gives for an argument. They go through the
type in the same way and differ only at whole numbers. An `Int` of 32 bits passes both. An
`ID` may be any whole number of 64 bits as a default, with a sign or without, but one of 64
bits with a sign in a request. So a default may be sent by a caller exactly if the numbers
in it fit where an `ID` is expected (`defaults_admitted`). -/
namespace GraphSchema

open Except Link

variable {M C W : Type}

/-- Whether the numbers of the value are whole and of 64 bits with a sign wherever the type expects
an `ID`. -/
def TypeExpr.idsFit : TypeExpr → Value → Bool
  | scalar .id, .number n => n.fitsInt64
  | list inner, .list items => items.all inner.idsFit
  | list inner, v => inner.idsFit v
  | nonNull inner, v => inner.idsFit v
  | _, _ => true

namespace Link

variable {c : Catalog M C W} {d : Description} {w : Walk M C W} {st : Store M C W}
  {s : Schema M C W} {ty inner : TypeExpr} {x : Default} {v : Value}

/-! ### Nulls -/

theorem idsFit_null (ty : TypeExpr) : ty.idsFit .null = true := by
  induction ty with
  | list inner ih | nonNull inner ih => exact ih
  | scalar k => cases k <;> rfl
  | _ => rfl

/-! ### Named types -/

theorem admits_scalar (hs : Linking c d w st s) (k : Scalar) (v : Value) :
    Query.admits s.named? (.named k.name) v = (v.isNull || k.admits v) := by
  simp [Query.admits, Query.admitsNamed, Schema.named?_scalar (hs.type?_scalar k), k.find?_name]

/-- The two checks of a scalar differ at whole numbers for an ID alone. -/
theorem admits_of_holds {k : Scalar} (h : k.holds v = true) :
    (v.isNull || k.admits v) = (TypeExpr.scalar k).idsFit v := by
  cases k <;> cases v <;> simp only [Scalar.holds, Bool.false_eq_true] at h <;> try rfl
  case int.number n =>
    cases n with
    | int i =>
      have hfits : Number.isInt64 i = true := by
        simp [Number.int32?, Number.isInt32] at h
        simp [Number.isInt64]
        omega
      exact hfits
    | float x => cases h

theorem admits_of_scalar (hs : Linking c d w st s) {k : Scalar}
    (hv : defaultValue c (.scalar k) x = .ok v) :
    Query.admits s.named? (.named k.name) v = (TypeExpr.scalar k).idsFit v := by
  rw [admits_scalar hs]
  obtain ⟨-, rfl⟩ | ⟨-, hholds⟩ := scalar_of_defaultValue hv
  · exact (idsFit_null _).symm
  · exact admits_of_holds hholds

theorem admits_of_enum (hs : Linking c d w st s) {h : Handle} (hh : h ∈ w.visited)
    (hv : defaultValue c (.enum h) x = .ok v) :
    Query.admits s.named? (.named (c.nameOf h)) v = true := by
  obtain ⟨-, rfl⟩ | ⟨e, he, y, hy, rfl, -⟩ := enum_of_defaultValue hv
  · rfl
  obtain ⟨t, hget, hkind⟩ := Catalog.enum?_eq_some.mp he
  have htype : s.type? (c.nameOf h) = some (.enum ⟨t.name, t.description, e.values⟩) :=
    hs.type?_eq hh (by simp only [finish, hget, hkind])
  have hname : e.values.any (·.name == y.name) = true :=
    List.any_eq_true.mpr ⟨y, hy, beq_self_eq_true y.name⟩
  simp [Query.admits, Query.admitsNamed, Schema.named?_of_type? htype, Schema.info, hname]

/-! ### Lists -/

theorem admits_of_list {ref : TypeRef}
    (h : ∀ x v, defaultValue c inner x = .ok v →
      Query.admits s.named? ref v = inner.idsFit v)
    (hv : defaultValue c (.list inner) x = .ok v) :
    Query.admits s.named? (.list ref) v = (TypeExpr.list inner).idsFit v := by
  cases x with
  | null =>
    cases hv
    exact (idsFit_null _).symm
  | list xs =>
    obtain ⟨vs, hvs, rfl⟩ := map_eq_ok hv
    rw [Query.admits, TypeExpr.idsFit]
    have hitems : ∀ v ∈ vs, Query.admits s.named? ref v = inner.idsFit v := by
      intro v hv
      obtain ⟨x, -, hx⟩ := (mem_of_mapM hvs v).mp hv
      exact h x v hx
    rw [Bool.eq_iff_iff, List.all_eq_true, List.all_eq_true]
    exact forall₂_congr fun v hv => by rw [hitems v hv]
  | value _ | leaf _ =>
    obtain ⟨u, hu, rfl⟩ := map_eq_ok hv
    simp [Query.admits, TypeExpr.idsFit, h _ u hu]

/-! ### Every type -/

/-- **The value of a default is admitted exactly if its IDs fit.** -/
theorem admits_of_defaultValue (hs : Linking c d w st s) (hvisited : Visited w ty)
    (hv : defaultValue c ty x = .ok v) :
    Query.admits s.named? (typeRef c ty) v = ty.idsFit v := by
  induction ty generalizing x v with
  | scalar k => exact admits_of_scalar hs hv
  | enum h => exact admits_of_enum hs (hvisited h rfl) hv
  | object h | interface h | union h =>
    cases x with
    | null =>
      cases hv
      rfl
    | _ => cases hv
  | list inner ih => exact admits_of_list (fun x v hv => ih hvisited hv) hv
  | nonNull inner ih =>
    cases x with
    | null => cases hv
    | value _ | leaf _ | list _ =>
      have hinner : defaultValue c inner _ = .ok v := hv
      have hsome : v ≠ .null := defaultValue_ne_null (by simp) hinner
      have hnull : v.isNull = false := by cases v <;> first | rfl | exact absurd rfl hsome
      rw [typeRef, Query.admits, hnull, ih hvisited hv]
      simp [TypeExpr.idsFit]

end Link

namespace Catalog

/-- **A default may be sent by a caller exactly if its IDs fit.** In a compiled schema this holds of
whatever is accepted as the default of a type within reach, at that type; and so of every argument
of a field of an object that has a default, at the type and with the value that callers see. -/
theorem defaults_admitted {d : Description} {st st' : Store M C W} {s : Schema M C W}
    {c : Catalog M C W} (hcompile : c.compile d st = (.ok s, st')) :
    (∀ ty, (∀ h, ty.named = some h → c.Reaches st'.memo d h) →
      ∀ default v, defaultValue c ty default = .ok v →
        (Query.admits s.named? (typeRef c ty) v = true ↔ ty.idsFit v = true)) ∧
    ∀ t f, .object t ∈ s.types → f ∈ t.fields → ∃ x declared,
      c.Reaches st'.memo d x ∧ c.nameOf x = t.name ∧ c.HasField st'.memo x declared ∧
      f.info.name = declared.name ∧
      ∀ a ∈ declared.arguments, ∀ default ∈ a.default, ∃ info ∈ f.info.arguments, ∃ v,
        info.name = a.name ∧ info.type = typeRef c a.type ∧ info.default = some v ∧
        (Query.admits s.named? info.type v = true ↔ a.type.idsFit v = true) := by
  refine ⟨fun ty hty default v hv => ?_, fun t f ht hf => ?_⟩
  · obtain ⟨w, hs, hreached⟩ := visited_of_compile hcompile
    rw [admits_of_defaultValue hs (fun h hh => (hreached h).mpr (hty h hh)) hv]
  obtain ⟨w, x, declared, typeName, _, hs, hreached, hx, hname, hfield, -, hplanned⟩ :=
    declared_of_mem hcompile ht hf
  refine ⟨x, declared, hx, hname, hfield, hplanned.name, fun a ha default hdefault => ?_⟩
  obtain ⟨info, hinfo, hargument⟩ := exists_of_mapM hplanned.infos ha
  obtain ⟨hinfoname, htype, hof⟩ := argumentInfo_ok hargument
  obtain ⟨v, hv, hsome⟩ := default_of_defaultOf hof hdefault
  refine ⟨info, hinfo, v, hinfoname, htype, hsome, ?_⟩
  rw [htype, admits_of_defaultValue hs (fun h hh =>
    (hreached h).mpr (.argument hx hfield ha hh)) hv]

/-- One field, whose argument is an ID with the number as its default. -/
def identified (n : Int) : Catalog Unit Unit Unit where
  id := 0
  types := [
    { name := "Query"
      kind := .object {
        model := .unit Unit Unit
        fields := some (.done [⟨"f", none, none, .scalar .int,
          [⟨"x", .scalar .id, some (.value (.number (.int n))), none⟩],
          .resolver .dynamic fun _ _ _ w => (.ok .null, w)⟩]) } }]

/-- The greatest number of 64 bits with a sign may be sent as an ID, the next one may not. -/
theorem defaults_admitted_identified :
    ∃ s st', (identified 0x7FFFFFFFFFFFFFFF).compile { query := ⟨0, 0⟩ } ⟨Memo.fresh, ()⟩ =
        (.ok s, st') ∧
      Query.admits s.named? (.named "ID") (.number (.int 0x7FFFFFFFFFFFFFFF)) = true ∧
      Query.admits s.named? (.named "ID") (.number (.int 0x8000000000000000)) = false := by
  have hcompile := eq_ok_getD
    (x := (identified 0x7FFFFFFFFFFFFFFF).compile { query := ⟨0, 0⟩ } ⟨Memo.fresh, ()⟩)
    (by decide +kernel) ⟨[], "", none, {}⟩
  obtain ⟨hadmitted, -⟩ := defaults_admitted hcompile
  refine ⟨_, _, hcompile, ?_, ?_⟩
  · exact (hadmitted (.scalar .id) nofun (.value (.number (.int 0x7FFFFFFFFFFFFFFF))) _ rfl).mpr rfl
  · exact Bool.eq_false_iff.mpr fun h => absurd
      ((hadmitted (.scalar .id) nofun (.value (.number (.int 0x8000000000000000))) _ rfl).mp h)
      (by decide)

/-- A schema compiles with a default that a caller may not send: the least whole number of which 64
bits with a sign do not hold. -/
theorem default_not_admitted :
    ∃ s st', (identified 0x8000000000000000).compile { query := ⟨0, 0⟩ } ⟨Memo.fresh, ()⟩ =
        (.ok s, st') ∧
      ∃ t f info, .object t ∈ s.types ∧ f ∈ t.fields ∧ info ∈ f.info.arguments ∧
        ∃ v ∈ info.default, Query.admits s.named? info.type v = false := by
  have hcompile := eq_ok_getD
    (x := (identified 0x8000000000000000).compile { query := ⟨0, 0⟩ } ⟨Memo.fresh, ()⟩)
    (by decide +kernel) ⟨[], "", none, {}⟩
  refine ⟨_, _, hcompile, ?_⟩
  generalize hs : ((identified 0x8000000000000000).compile { query := ⟨0, 0⟩ }
    ⟨Memo.fresh, ()⟩).1.toOption.getD ⟨[], "", none, {}⟩ = s
  have hrefused : (s.object? "Query").any (fun t => t.fields.any fun f =>
      f.info.arguments.any fun info => info.default.any fun v =>
        !Query.admits s.named? info.type v) = true := by
    rw [← hs]
    decide +kernel
  obtain ⟨t, ht, hrefused⟩ := (Option.any_eq_true _ _).mp hrefused
  obtain ⟨f, hf, hrefused⟩ := List.any_eq_true.mp hrefused
  obtain ⟨info, hinfo, hrefused⟩ := List.any_eq_true.mp hrefused
  obtain ⟨v, hv, hrefused⟩ := (Option.any_eq_true _ _).mp hrefused
  exact ⟨t, f, info, Direct.mem_types_of_object? ht, hf, hinfo, v, hv,
    (Bool.not_eq_true' _).mp hrefused⟩

end Catalog

end GraphSchema
