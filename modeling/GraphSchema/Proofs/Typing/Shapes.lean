import GraphSchema.Proofs.Run.Made
import GraphSchema.Types.Record

/-! Shapes and types as sets of values.

A shape says what is produced, a type what may stand in a field. A shape that is
not dynamic and that produces a type only describes values of that type
(`fills_of_produces`), so what was promised when a schema was compiled holds of
every value that keeps to its shape. -/
namespace GraphSchema

variable {M : Type} [Backed M]

/-- Whether all of the shape is known before a value arrives. -/
def Shape.isStatic : Shape → Bool
  | dynamic => false
  | list item => item.isStatic
  | nullable inner => inner.isStatic
  | scalar _ | leaf _ | model _ => true

/-- The value is such as the shape says. -/
inductive Produced.Inhabits : Produced M → Shape → Prop where
  | string (s : String) : Inhabits (.value (.string s)) (.scalar .string)
  | id (s : String) : Inhabits (.value (.string s)) (.scalar .id)
  | int {n : Int} (h : Number.isInt32 n = true) :
    Inhabits (.value (.number (.int n))) (.scalar .int)
  | float (x : Double) : Inhabits (.value (.number (.float x))) (.scalar .float)
  /-- What is produced for a float that is infinite or no number. -/
  | notFinite : Inhabits .null (.scalar .float)
  | boolean (b : Bool) : Inhabits (.value (.boolean b)) (.scalar .boolean)
  | leaf (l : Leaf) : Inhabits (.leaf l) (.leaf l.backing)
  | model {m : M} {name : String} (h : Backed.backing m = .model name) :
    Inhabits (.model m) (.model name)
  | list {ps : List (Produced M)} {item : Shape} (h : ∀ p ∈ ps, Inhabits p item) :
    Inhabits (.list ps) (.list item)
  | absent (inner : Shape) : Inhabits .null (.nullable inner)
  | present {p : Produced M} {inner : Shape} (h : Inhabits p inner) : Inhabits p (.nullable inner)
  | dynamic (p : Produced M) : Inhabits p .dynamic

/-- The value is of the type, apart from nulls where none may be. -/
inductive Fills (backing : Handle → Option Backing) : Produced M → TypeExpr → Prop where
  | null (ty : TypeExpr) : Fills backing .null ty
  | scalar {s : Scalar} {v : Value} (h : s.holds v = true) : Fills backing (.value v) (.scalar s)
  | enum {h : Handle} {l : Leaf} (hl : backing h = some (.leaf l.backing)) :
    Fills backing (.leaf l) (.enum h)
  | object {h : Handle} {m : M} (hm : backing h = some (Backed.backing m)) :
    Fills backing (.model m) (.object h)
  | interface {h : Handle} {m : M} (hm : backing h = some (Backed.backing m)) :
    Fills backing (.model m) (.interface h)
  | union {h : Handle} {m : M} (hm : backing h = some (Backed.backing m)) :
    Fills backing (.model m) (.union h)
  | list {ps : List (Produced M)} {ty : TypeExpr} (h : ∀ p ∈ ps, Fills backing p ty) :
    Fills backing (.list ps) (.list ty)
  | nonNull {p : Produced M} {ty : TypeExpr} (h : Fills backing p ty) :
    Fills backing p (.nonNull ty)

variable {backing : Handle → Option Backing} {p : Produced M} {shape : Shape} {ty : TypeExpr}

/-! ### Shapes that produce types -/

/-- Every scalar that a shape fits holds what the shape describes. -/
theorem holds_of_scalarFits {s : Scalar} {k : ScalarShape} (hfits : Shape.scalarFits s k = true)
    {v : Value} (h : (Produced.value v : Produced M).Inhabits (.scalar k)) : s.holds v = true := by
  cases h with
  | string t | id t => cases s <;> first | rfl | cases hfits
  | int hn =>
    cases s with
    | int => simp [Scalar.holds, Number.int32?, hn]
    | float => rfl
    | id =>
      simp only [Number.isInt32, Bool.and_eq_true, decide_eq_true_eq] at hn
      simp only [Scalar.holds, Number.isWord, Number.isInt64, Bool.or_eq_true, Bool.and_eq_true,
        decide_eq_true_eq]
      omega
    | string | boolean => cases hfits
  | float x => cases s <;> first | rfl | cases hfits
  | boolean b => cases s <;> first | rfl | cases hfits

/-- Non-nulls of the type do not count. -/
theorem fills_of_fitsWith {inner : TypeExpr → Bool} (h : shape.fitsWith inner backing ty = true)
    (hloose : ∀ ty, ty.isNonNull = false → shape.fitsWith inner backing ty = true →
      Fills backing p ty) : Fills backing p ty := by
  induction ty with
  | nonNull ty ih => exact .nonNull (ih h)
  | _ => exact hloose _ rfl h

theorem fills_of_fitsWith_scalar {k : ScalarShape}
    (h : (Shape.scalar k).fitsWith (fun _ => false) backing ty = true) {v : Value}
    (hv : (Produced.value v : Produced M).Inhabits (.scalar k)) :
    Fills (M := M) backing (.value v) ty := by
  refine fills_of_fitsWith h fun ty hloose h => ?_
  cases ty with
  | scalar s => exact .scalar (holds_of_scalarFits h hv)
  | nonNull ty => cases hloose
  | list ty | enum _ | object _ | interface _ | union _ => cases h

/-- **A value that keeps to its shape is of every type that the shape produces.** -/
theorem fills_of_produces (h : p.Inhabits shape) (hstatic : shape.isStatic = true)
    (hproduces : shape.produces backing ty = true) : Fills backing p ty := by
  induction h generalizing ty with
  | string s => exact fills_of_fitsWith_scalar hproduces (.string s)
  | id s => exact fills_of_fitsWith_scalar hproduces (.id s)
  | int hn => exact fills_of_fitsWith_scalar hproduces (.int hn)
  | float x => exact fills_of_fitsWith_scalar hproduces (.float x)
  | notFinite => exact .null ty
  | boolean b => exact fills_of_fitsWith_scalar hproduces (.boolean b)
  | leaf l =>
    refine fills_of_fitsWith hproduces fun ty hloose h => ?_
    cases ty with
    | enum x => exact .enum (by simpa [Shape.fitsWith] using h)
    | nonNull ty => cases hloose
    | scalar _ | list _ | object _ | interface _ | union _ => cases h
  | model hm =>
    refine fills_of_fitsWith hproduces fun ty hloose h => ?_
    cases ty with
    | object x => exact .object (by simpa [Shape.fitsWith, hm] using h)
    | interface x => exact .interface (by simpa [Shape.fitsWith, hm] using h)
    | union x => exact .union (by simpa [Shape.fitsWith, hm] using h)
    | nonNull ty => cases hloose
    | scalar _ | list _ | enum _ => cases h
  | list _ ih =>
    refine fills_of_fitsWith hproduces fun ty hloose h => ?_
    cases ty with
    | list ty => exact .list fun p hp => ih p hp hstatic h
    | nonNull ty => cases hloose
    | scalar _ | enum _ | object _ | interface _ | union _ => cases h
  | absent inner => exact .null ty
  | present _ ih => exact ih hstatic hproduces
  | dynamic p => cases hstatic

/-! ### Models in values -/

/-- The models in a value of a type have the backing of the type's core. -/
theorem backing_of_has (h : Fills backing p ty) {m : M} (hm : p.Has m) :
    ∃ x, ty.named = some x ∧ backing x = some (Backed.backing m) := by
  induction h with
  | null ty => cases hm
  | scalar _ => cases hm
  | enum _ => cases hm
  | object hb | interface hb | union hb =>
    cases hm
    exact ⟨_, rfl, hb⟩
  | list _ ih =>
    cases hm with
    | item hp hm => exact ih _ hp hm
  | nonNull _ ih => exact ih hm

/-! ### Forms -/

namespace Form

/-- Whether every integer in the data is one of 32 bits. -/
def inRange : (form : Form) → form.Data → Bool
  | int, n => Number.isInt32 n
  | option _, none => true
  | option form, some x => form.inRange x
  | list form, xs => xs.all form.inRange
  | string, _ | id, _ | float, _ | boolean, _ | leaf _, _ => true

/-- Data of a form is produced as the shape of the form says. -/
theorem produce_inhabits (form : Form) {x : form.Data} (h : form.inRange x = true) :
    (form.produce x : Produced M).Inhabits form.shape := by
  induction form with
  | string => exact .string x
  | id => exact .id x
  | int => exact .int h
  | float =>
    unfold produce Number.ofFloat?
    by_cases hx : Double.isFinite x = true
    · simp only [hx, if_true]
      exact .float x
    · simp only [hx]
      exact .notFinite
  | boolean => exact .boolean x
  | leaf backing => exact .leaf ⟨backing, x⟩
  | option form ih =>
    cases x with
    | none => exact .absent form.shape
    | some x => exact .present (ih h)
  | list form ih =>
    refine .list fun p hp => ?_
    obtain ⟨y, hy, rfl⟩ := List.mem_map.mp hp
    exact ih (List.all_eq_true.mp h y hy)

end Form

end GraphSchema
