import GraphSchema.Value.Basic

/-! Results that share a response key. The first one stays; of two objects the members
come together, and of two lists the objects at equal places. -/
namespace GraphSchema.Value

mutual

/-- The first value with what the second one adds to it. -/
def join (first : Value) : Value → Value
  | .object added => match first with
    | .object members => .object (joinMembers members added)
    | first => first
  | .list added => match first with
    | .list items => .list (joinItems items added)
    | first => first
  | _ => first

def joinMembers (members : List (String × Value)) :
    List (String × Value) → List (String × Value)
  | [] => members
  | (key, v) :: rest =>
    let members := match member? key members with
      | some first => insert key (join first v) members
      | none => insert key v members
    joinMembers members rest

def joinItems (items : List Value) : List Value → List Value
  | [] => items
  | v :: rest => match items with
    | [] => []
    | .object members :: items => join (.object members) v :: joinItems items rest
    | item :: items => item :: joinItems items rest

end

/-- Puts a result under its key, joined with the one that is there. -/
def absorb (key : String) (v : Value) (members : List (String × Value)) :
    List (String × Value) :=
  match member? key members with
  | some first => insert key (join first v) members
  | none => insert key v members

theorem absorb_of_member?_eq_none {key : String} {members : List (String × Value)}
    (h : member? key members = none) (v : Value) : absorb key v members = insert key v members := by
  simp [absorb, h]

theorem absorb_of_not_mem {key : String} {members : List (String × Value)}
    (h : key ∉ members.map (·.1)) (v : Value) :
    absorb key v members = members ++ [(key, v)] := by
  rw [absorb_of_member?_eq_none (member?_eq_none h), insert_of_not_mem h]

end GraphSchema.Value
