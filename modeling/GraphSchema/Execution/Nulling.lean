import GraphSchema.Schema.Response

/-! Writing nulls into finished data. A path leads from the data as a whole to one of
its positions; where it leads nowhere, nothing is written. -/
namespace GraphSchema

namespace Value

mutual

/-- Writes null at the path. The last key of a path is added where it is missing. -/
def nullAt : Path → Value → Value
  | [], _ => .null
  | .key name :: rest, .object members => .object (nullMember name rest members)
  | .index i :: rest, .list items => .list (nullItem i rest items)
  | _, v => v

def nullMember (name : String) (rest : Path) : List (String × Value) → List (String × Value)
  | [] => if rest.isEmpty then [(name, .null)] else []
  | (k, v) :: ms => if k = name then (k, nullAt rest v) :: ms else (k, v) :: nullMember name rest ms

def nullItem (i : Nat) (rest : Path) : List Value → List Value
  | [] => []
  | v :: vs => match i with
    | 0 => nullAt rest v :: vs
    | i + 1 => v :: nullItem i rest vs

end

/-- Writes null at each of the paths. -/
def nullAll (paths : List Path) (v : Value) : Value := paths.foldl (fun v p => nullAt p v) v

/-- What stands at the path. -/
def atPath? : Path → Value → Option Value
  | [], v => some v
  | .key name :: rest, .object members => (member? name members).bind (atPath? rest)
  | .index i :: rest, .list items => items[i]?.bind (atPath? rest)
  | _, _ => none

@[simp] theorem nullAt_nil (v : Value) : nullAt [] v = .null := by
  unfold nullAt; rfl

end Value

end GraphSchema
