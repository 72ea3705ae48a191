import GraphSchema.Query.Validation.Fragments

/-! Fields that share a response key. Two fields of one selection set under one key and
one type condition have to be the same field with the same arguments. Fragments
count with the set they stand in; what is selected below the fields is not compared
across them. -/
namespace GraphSchema.Query

/-- A field as it answers for its key: under which condition, and what it is. -/
structure Answer where
  condition : Option String
  key : String
  head : FieldHead

namespace Answer

/-- Two answers for one key are one field with the same arguments. -/
def agrees (a b : Answer) : Bool :=
  a.head.name == b.head.name &&
    a.head.arguments.length == b.head.arguments.length &&
    a.head.arguments.all fun x =>
      match b.head.arguments.find? (·.name == x.name) with
      | some y => x.value.same y.value
      | none => false

def sharesKey (a b : Answer) : Bool := a.condition == b.condition && a.key == b.key

end Answer

/-- The answers of a selection set, with the fragments already followed. -/
structure Gathered where
  answers : List Answer
  followed : List String

/-- Gathers the answers of selections under a condition. A fragment is followed once; `depth`
bounds how many are followed inside one another. -/
def gather (d : Document) : Nat → Option String → Gathered → List Selection → Gathered
  | 0, _, g, _ => g
  | depth + 1, condition, g, ss => ss.foldl (fun g => fun
    | .field head _ => { g with answers := g.answers ++ [⟨condition, head.key, head⟩] }
    | .inline condition _ below => gather d depth condition g below
    | .spread name _ =>
      match d.fragment? name with
      | none => g
      | some f =>
        if g.followed.contains name then g
        else
          gather d depth (some f.condition) { g with followed := name :: g.followed }
            f.selections) g

/-- Every answer agrees with the first one for its key. -/
def agree : List Answer → List Answer → Bool
  | _, [] => true
  | before, a :: rest =>
    (match before.find? (·.sharesKey a) with
      | some first => first.agrees a
      | none => true) && agree (before ++ [a]) rest

/-- The levels that fragments in place and spreads can add to one selection set. -/
def Document.overlapDepth (d : Document) : Nat := (d.fragments.length + 1) * (maxLevels + 1)

def Document.keysAgree (d : Document) (ss : List Selection) : Bool :=
  agree [] (gather d d.overlapDepth none ⟨[], []⟩ ss).answers

def Occurrence.keysAgree (d : Document) : Occurrence → Bool
  | .selectionSet ss => d.keysAgree ss
  | _ => true

end GraphSchema.Query
