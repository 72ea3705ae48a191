import GraphSchema.Json.Outline

/-! The body of a posted request: an object with a query and perhaps the name of an
operation and variables, or a list of the three. It is read from front to back, and
the first fault counts, be it in the spelling or in what is said. -/
namespace GraphSchema.Http

structure Posted where
  query : String
  operation : Option String
  /-- The values for the variables. Anything but an object gives none. -/
  sent : Json

inductive BodyError where
  /-- The text is no JSON. -/
  | misspelled
  /-- The JSON is no request. -/
  | misfit
  deriving DecidableEq, Repr

abbrev BodyReader (α : Type) := List Char → Except BodyError (α × List Char)

open Json (skipBlank string? value? read? past?)

/-- What is wrong where something else was expected. -/
def unexpected (cs : List Char) : BodyError :=
  match skipBlank cs with
  | '[' :: _ | '\x7b' :: _ => .misfit
  | cs => if (read? cs).isSome then .misfit else .misspelled

def string : BodyReader String := fun cs =>
  match skipBlank cs with
  | '"' :: rest => match string? ('"' :: rest) with
    | some found => .ok found
    | none => .error .misspelled
  | cs => .error (unexpected cs)

def optionalString : BodyReader (Option String) := fun cs =>
  match skipBlank cs with
  | 'n' :: cs => match cs with
    | 'u' :: 'l' :: 'l' :: cs => .ok (none, cs)
    | _ => .error .misspelled
  | cs => (string cs).map fun (s, cs) => (some s, cs)

/-- A value inside the body, which is one level deep already. -/
def anything : BodyReader Json := fun cs =>
  match value? (2 * cs.length + 2) 127 cs with
  | some found => .ok found
  | none => .error .misspelled

/-- A value that nobody asks for. -/
def passOver (cs : List Char) : Except BodyError (List Char) :=
  match past? cs with
  | some rest => .ok rest
  | none => .error .misspelled

/-! ### Objects -/

/-- The members read so far. -/
structure Members where
  query : Option String := none
  operation : Option (Option String) := none
  sent : Option Json := none

/-- Reads the value of a member. Members that nobody asks for are passed over. -/
def memberValue (ms : Members) (name : String) : BodyReader Members := fun cs =>
  match name with
  | "query" => (string cs).map fun (s, cs) => ({ ms with query := some s }, cs)
  | "operationName" =>
    (optionalString cs).map fun (s, cs) => ({ ms with operation := some s }, cs)
  | "variables" => (anything cs).map fun (v, cs) => ({ ms with sent := some v }, cs)
  | _ => (passOver cs).map fun cs => (ms, cs)

def colon (cs : List Char) : Except BodyError (List Char) :=
  match skipBlank cs with
  | ':' :: cs => .ok cs
  | _ => .error .misspelled

/-- Whether a member that is asked for is there already. It may come once. -/
def isRepeated (ms : Members) (name : String) : Bool :=
  match name with
  | "query" => ms.query.isSome
  | "operationName" => ms.operation.isSome
  | "variables" => ms.sent.isSome
  | _ => false

/-- The members from a name on, up to the closing brace. -/
def members : Nat → Members → BodyReader Members
  | 0, _, _ => .error .misspelled
  | fuel + 1, ms, cs =>
    match string? (skipBlank cs) with
    | none => .error .misspelled
    | some (name, cs) =>
      if isRepeated ms name then .error .misfit
      else
        match colon cs with
        | .error e => .error e
        | .ok cs =>
          match memberValue ms name cs with
          | .error e => .error e
          | .ok (ms, cs) =>
            match skipBlank cs with
            | ',' :: cs => members fuel ms cs
            | '\x7d' :: cs => .ok (ms, cs)
            | _ => .error .misspelled

def ofMembers (ms : Members) : Except BodyError Posted :=
  match ms.query with
  | some query => .ok ⟨query, ms.operation.getD none, ms.sent.getD .null⟩
  | none => .error .misfit

def object : BodyReader Posted := fun cs =>
  match skipBlank cs with
  | '\x7d' :: _ => .error .misfit
  | cs => do
    let (ms, rest) ← members (cs.length + 1) {} cs
    return (← ofMembers ms, rest)

/-! ### Lists -/

/-- The text after the comma that another item needs. A list that ends here is too short. -/
def comma (cs : List Char) : Except BodyError (List Char) :=
  match skipBlank cs with
  | ',' :: cs => match skipBlank cs with
    | ']' :: _ => .error .misspelled
    | cs => .ok cs
  | ']' :: _ => .error .misfit
  | _ => .error .misspelled

def list : BodyReader Posted := fun cs =>
  match skipBlank cs with
  | ']' :: _ => .error .misfit
  | cs => do
    let (query, cs) ← string cs
    let (operation, cs) ← optionalString (← comma cs)
    let (sent, cs) ← anything (← comma cs)
    match skipBlank cs with
    | ']' :: cs => return (⟨query, operation, sent⟩, cs)
    | _ => throw .misspelled

/-! ### The whole -/

/-- The request that the whole text spells. -/
def Posted.parse (s : String) : Except BodyError Posted := do
  let (posted, rest) ← match skipBlank s.toList with
    | '\x7b' :: cs => object cs
    | '[' :: cs => list cs
    | cs => .error (unexpected cs)
  if (skipBlank rest).isEmpty then return posted else throw .misspelled

end GraphSchema.Http
