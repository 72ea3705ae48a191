import GraphSchema.Json.Basic

/-! Values of the query language: what an argument, a default or a finished
response is made of. Beside the values of JSON there are enum names, which are
neither strings nor leaves of the schema's own types. -/
namespace GraphSchema

inductive Value where
  | null
  | number (n : Number)
  | string (s : String)
  | boolean (b : Bool)
  | enum (name : String)
  | list (items : List Value)
  | object (members : List (String × Value))
  deriving BEq, Inhabited

namespace Value

def isNull : Value → Bool
  | .null => true
  | _ => false

def isBoolean : Value → Bool
  | .boolean _ => true
  | _ => false

/-- The value under a key of an object. -/
def member? (key : String) : List (String × Value) → Option Value
  | [] => none
  | (k, v) :: rest => if k = key then some v else member? key rest

/-- Puts `v` under `key`: in its place if the key is there, else at the end. -/
def insert (key : String) (v : Value) : List (String × Value) → List (String × Value)
  | [] => [(key, v)]
  | (k, w) :: rest => if k = key then (k, v) :: rest else (k, w) :: insert key v rest

@[simp] theorem member?_insert_self (key : String) (v : Value) (ms : List (String × Value)) :
    member? key (insert key v ms) = some v := by
  induction ms with
  | nil => simp [insert, member?]
  | cons m ms ih =>
    obtain ⟨k, w⟩ := m
    by_cases h : k = key <;> simp [insert, member?, h, ih]

theorem member?_insert_of_ne {key other : String} (h : key ≠ other) (v : Value)
    (ms : List (String × Value)) : member? other (insert key v ms) = member? other ms := by
  induction ms with
  | nil => simp [insert, member?, h]
  | cons m ms ih =>
    obtain ⟨k, w⟩ := m
    by_cases hk : k = key
    · subst hk; simp [insert, member?, h]
    · rw [insert, if_neg hk, member?, member?, ih]

theorem member?_eq_none {key : String} {ms : List (String × Value)}
    (h : key ∉ ms.map (·.1)) : member? key ms = none := by
  induction ms with
  | nil => rfl
  | cons m ms ih =>
    have hk : m.1 ≠ key := fun e => h (by simp [e])
    rw [member?, if_neg hk]
    exact ih fun hm => h (List.mem_cons_of_mem _ hm)

/-- What is under a new key goes after the others. -/
theorem insert_of_not_mem {key : String} {ms : List (String × Value)}
    (h : key ∉ ms.map (·.1)) (v : Value) : insert key v ms = ms ++ [(key, v)] := by
  induction ms with
  | nil => rfl
  | cons m ms ih =>
    have hk : m.1 ≠ key := fun e => h (by simp [e])
    rw [insert, if_neg hk, ih fun hm => h (List.mem_cons_of_mem _ hm)]
    rfl

mutual

/-- A document as a value. Objects keep one member per name, in the order of the names. -/
def ofJson : Json → Value
  | .null => .null
  | .bool b => .boolean b
  | .num n => .number n
  | .str s => .string s
  | .arr items => .list (ofItems items)
  | .obj members =>
    let settled := (ofMembers members).foldr
      (fun m acc => if acc.any (·.1 == m.1) then acc else m :: acc) []
    .object (settled.mergeSort fun a b => !decide (b.1 < a.1))

def ofItems : List Json → List Value
  | [] => []
  | v :: vs => ofJson v :: ofItems vs

def ofMembers : List (String × Json) → List (String × Value)
  | [] => []
  | (k, v) :: vs => (k, ofJson v) :: ofMembers vs

end

mutual

/-- A value as a document; an enum name becomes a string. -/
def toJson : Value → Json
  | .null => .null
  | .number n => .num n
  | .string s => .str s
  | .boolean b => .bool b
  | .enum name => .str name
  | .list items => .arr (toItems items)
  | .object members => .obj (toMembers members)

def toItems : List Value → List Json
  | [] => []
  | v :: vs => toJson v :: toItems vs

def toMembers : List (String × Value) → List (String × Json)
  | [] => []
  | (k, v) :: vs => (k, toJson v) :: toMembers vs

end

end Value

end GraphSchema
