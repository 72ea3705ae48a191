/-! Limits on the requests that a schema answers. A limit of zero would turn every
request down and is refused. -/
namespace GraphSchema

structure Limits where
  /-- The greatest nesting of fields, if it is limited. -/
  maxDepth : Option Nat := none
  /-- The greatest number of fields, if it is limited. -/
  maxComplexity : Option Nat := none
  /-- Whether a request may ask for the schema itself. -/
  introspection : Bool := true
  deriving DecidableEq, Repr

namespace Limits

def validate (l : Limits) : Except String Unit :=
  if l.maxDepth = some 0 then .error "max_depth must be > 0"
  else if l.maxComplexity = some 0 then .error "max_complexity must be > 0"
  else .ok ()

theorem validate_eq_ok_iff (l : Limits) :
    l.validate = .ok () ↔ l.maxDepth ≠ some 0 ∧ l.maxComplexity ≠ some 0 := by
  unfold validate
  by_cases hd : l.maxDepth = some 0 <;> by_cases hc : l.maxComplexity = some 0 <;> simp [hd, hc]

end Limits

end GraphSchema
