import GraphSchema.Number.Basic

/-! JSON documents. Members of an object keep their order and may repeat, so that a
reader can tell a repeated member from a single one. -/
namespace GraphSchema

inductive Json where
  | null
  | bool (b : Bool)
  | num (n : Number)
  | str (s : String)
  | arr (items : List Json)
  | obj (members : List (String × Json))
  deriving BEq, Inhabited

namespace Json

def int (n : Int) : Json := .num (.int n)

/-- The last member of that name, which is the one that counts. -/
def member? (name : String) : Json → Option Json
  | .obj members => (members.reverse.find? (·.1 == name)).map (·.2)
  | _ => none

def str? : Json → Option String
  | .str s => some s
  | _ => none

def bool? : Json → Option Bool
  | .bool b => some b
  | _ => none

def int? : Json → Option Int
  | .num (.int n) => some n
  | _ => none

def arr? : Json → Option (List Json)
  | .arr items => some items
  | _ => none

def obj? : Json → Option (List (String × Json))
  | .obj members => some members
  | _ => none

/-- One entry per name, the last one, in the order of the names' code points. -/
def settle (members : List (String × Json)) : List (String × Json) :=
  let kept := members.foldr (fun m acc => if acc.any (·.1 == m.1) then acc else m :: acc) []
  kept.mergeSort fun a b => !decide (b.1 < a.1)

mutual

/-- Equality of documents as data: objects are compared by their settled members, numbers by
amount within each kind. -/
def same : Json → Json → Bool
  | .null, .null => true
  | .bool a, .bool b => a == b
  | .num a, .num b => a.same b
  | .str a, .str b => a == b
  | .arr a, .arr b => sameItems a b
  | .obj a, .obj b => a.length == b.length && sameMembers a b
  | _, _ => false

def sameItems : List Json → List Json → Bool
  | [], [] => true
  | a :: as, b :: bs => same a b && sameItems as bs
  | _, _ => false

/-- Every member on the left has an equal one on the right. -/
def sameMembers : List (String × Json) → List (String × Json) → Bool
  | [], _ => true
  | (k, a) :: as, bs =>
    (match bs.find? (·.1 == k) with
      | some (_, b) => same a b
      | none => false) && sameMembers as bs

end

end Json

end GraphSchema
