import GraphSchema.Query.Document
import GraphSchema.Query.Literal

/-! From a text to a document. The readers of nested parts are given fuel, two units for
each character there is. -/
namespace GraphSchema.Query.Reader

def name : Reader String := lexeme Literal.name?

def variableName : Reader String := fun c => do
  let ((), c) ← literal "$" c
  name c

/-! ### Values -/

/-- A value that is spelled as a word. A word that starts with `true`, `false` or `null` is read
as that, whatever comes after it. -/
def word : Reader InputValue := fun c =>
  match literal "true" c with
  | some ((), c) => some (.boolean true, c)
  | none =>
    match literal "false" c with
    | some ((), c) => some (.boolean false, c)
    | none =>
      match literal "null" c with
      | some ((), c) => some (.null, c)
      | none => (name c).map fun (s, c) => (.enum s, c)

/-- A number, a string or a word. -/
def leaf : Reader InputValue := fun c =>
  if c.sees '"' then (lexeme Literal.string? c).map fun (s, c) => (.string s, c)
  else
    match lexeme Literal.number? c with
    | some (n, c) => some (.number n, c)
    | none => word c

mutual

/-- `open_` tells whether variables may stand in the value. -/
def value? (open_ : Bool) : Nat → Reader InputValue
  | 0, _ => none
  | fuel + 1, c =>
    if c.sees '$' then
      if open_ then (variableName c).map fun (s, c) => (.var s, c) else none
    else
      match literal "[" c with
      | some ((), c) => items? open_ fuel [] c
      | none =>
        match literal "\x7b" c with
        | some ((), c) => members? open_ fuel [] c
        | none => leaf c

def items? (open_ : Bool) : Nat → List InputValue → Reader InputValue
  | 0, _, _ => none
  | fuel + 1, done, c =>
    match literal "]" c with
    | some ((), c) => some (.list done.reverse, c)
    | none =>
      match value? open_ fuel c with
      | some (v, c) => items? open_ fuel (v :: done) c
      | none => none

def members? (open_ : Bool) : Nat → List (String × InputValue) → Reader InputValue
  | 0, _, _ => none
  | fuel + 1, done, c =>
    match literal "\x7d" c with
    | some ((), c) => some (.object done, c)
    | none =>
      match name c with
      | none => none
      | some (k, c) =>
        match literal ":" c with
        | none => none
        | some ((), c) =>
          match value? open_ fuel c with
          | some (v, c) => members? open_ fuel (InputValue.putMember k v done) c
          | none => none

end

/-! ### Arguments and directives -/

def arguments? : Nat → List Argument → Reader (List Argument)
  | 0, _, _ => none
  | fuel + 1, done, c =>
    match literal ")" c with
    | some ((), c) => if done.isEmpty then none else some (done.reverse, c)
    | none => do
      let (k, c) ← name c
      let ((), c) ← literal ":" c
      let (v, next) ← value? true fuel c
      arguments? fuel (⟨k, v, c.place⟩ :: done) next

/-- The arguments in parentheses, none if there are no parentheses. -/
def optionalArguments (fuel : Nat) : Reader (List Argument) := fun c =>
  match literal "(" c with
  | some ((), c) => arguments? fuel [] c
  | none => some ([], c)

def directives? : Nat → List Directive → Reader (List Directive)
  | 0, _, _ => none
  | fuel + 1, done, c =>
    match literal "@" c with
    | some ((), c) => do
      let (k, c) ← name c
      let (args, c) ← optionalArguments fuel c
      directives? fuel (⟨k, args⟩ :: done) c
    | none => some (done.reverse, c)

/-! ### Selections -/

/-- The name of a field, with the alias in front of it if there is one. -/
def fieldName : Reader (Option String × String) := fun c => do
  let (first, c) ← name c
  match literal ":" c with
  | some ((), c) =>
    let (second, c) ← name c
    return ((some first, second), c)
  | none => return ((none, first), c)

/-- The condition of a fragment. -/
def condition : Reader String := lexeme Literal.condition?

/-- The rest of a spread of a fragment. -/
def spread (fuel : Nat) : Reader Selection := fun c => do
  let (fragment, c) ← name c
  let (ds, c) ← directives? fuel [] c
  return (.spread fragment ds, c)

mutual

/-- The selections up to the closing brace, at least one. -/
def selections? : Nat → List Selection → Reader (List Selection)
  | 0, _, _ => none
  | fuel + 1, done, c =>
    match literal "\x7d" c with
    | some ((), c) => if done.isEmpty then none else some (done.reverse, c)
    | none =>
      match selection? fuel c with
      | some (s, c) => selections? fuel (s :: done) c
      | none => none

/-- A spread of dots that no condition follows is a fragment in place if selections follow, else
it names a fragment. -/
def selection? : Nat → Reader Selection
  | 0, _ => none
  | fuel + 1, c =>
    match literal "..." c with
    | some ((), c) =>
      match condition c with
      | some (condition, c) => inline? fuel (some condition) c
      | none => (inline? fuel none c).or (spread fuel c)
    | none =>
      match fieldName c with
      | none => none
      | some ((other, fname), rest) =>
        match optionalArguments fuel rest with
        | none => none
        | some (args, rest) =>
          match directives? fuel [] rest with
          | none => none
          | some (ds, rest) =>
            let head : FieldHead := ⟨other, fname, c.place, args, ds⟩
            match literal "\x7b" rest with
            | some ((), rest) =>
              (selections? fuel [] rest).map fun (ss, rest) => (.field head ss, rest)
            | none => some (.field head [], rest)

/-- The rest of a fragment that stands in place, after its condition. -/
def inline? : Nat → Option String → Reader Selection
  | 0, _, _ => none
  | fuel + 1, condition, c =>
    match directives? fuel [] c with
    | none => none
    | some (ds, c) =>
      match literal "\x7b" c with
      | none => none
      | some ((), c) =>
        (selections? fuel [] c).map fun (ss, c) => (.inline condition ds ss, c)

end

def selectionSet (fuel : Nat) : Reader (List Selection) := fun c => do
  let ((), c) ← literal "\x7b" c
  selections? fuel [] c

/-! ### Definitions -/

def variableDefinitions? : Nat → List VariableDefinition → Reader (List VariableDefinition)
  | 0, _, _ => none
  | fuel + 1, done, c =>
    match literal ")" c with
    | some ((), c) => some (done.reverse, c)
    | none => do
      let (k, c) ← variableName c
      let ((), c) ← literal ":" c
      let (type, c) ← lexeme (Literal.type? fuel) c
      let (ds, c) ← directives? fuel [] c
      match literal "=" c with
      | some ((), c) =>
        let (v, c) ← value? false fuel c
        variableDefinitions? fuel (⟨k, type, ds, v.constant?⟩ :: done) c
      | none => variableDefinitions? fuel (⟨k, type, ds, none⟩ :: done) c

def optionalVariables (fuel : Nat) : Reader (List VariableDefinition) := fun c =>
  match literal "(" c with
  | some ((), c) => variableDefinitions? fuel [] c
  | none => some ([], c)

def kind : Reader OperationKind := fun c =>
  match literal "query" c with
  | some ((), c) => some (.query, c)
  | none =>
    match literal "mutation" c with
    | some ((), c) => some (.mutation, c)
    | none => (literal "subscription" c).map fun ((), c) => (.subscription, c)

def optionalName : Reader (Option String) := fun c =>
  match name c with
  | some (s, c) => some (some s, c)
  | none => some (none, c)

/-- An operation, which may be nothing but the selections of a query. -/
def operation (fuel : Nat) : Reader Operation := fun c =>
  match kind c with
  | none => (selectionSet fuel c).map fun (ss, c) => (⟨.query, none, [], [], ss⟩, c)
  | some (kind, c) => do
    let (opName, c) ← optionalName c
    let (definitions, c) ← optionalVariables fuel c
    let (directives, c) ← directives? fuel [] c
    let (selections, c) ← selectionSet fuel c
    return (⟨kind, opName, definitions, directives, selections⟩, c)

def fragment (fuel : Nat) : Reader Fragment := fun c => do
  let ((), c) ← literal "fragment" c
  let (fname, c) ← name c
  let (condition, c) ← condition c
  let (directives, c) ← directives? fuel [] c
  let (selections, c) ← selectionSet fuel c
  return (⟨fname, condition, directives, selections⟩, c)

/-- The definitions up to the end of the text. -/
def definitions? : Nat → Document → Cursor → Option Document
  | 0, _, _ => none
  | fuel + 1, d, c =>
    if c.skip.rest.isEmpty then some ⟨d.operations.reverse, d.fragments.reverse⟩
    else
      match operation fuel c with
      | some (op, c) => definitions? fuel { d with operations := op :: d.operations } c
      | none =>
        match fragment fuel c with
        | some (f, c) => definitions? fuel { d with fragments := f :: d.fragments } c
        | none => none

end GraphSchema.Query.Reader

namespace GraphSchema.Query

/-- The document that the text spells, if its names and its nesting are in order. -/
def Document.parse? (s : String) : Option Document := do
  let c := Cursor.start s
  let d ← Reader.definitions? (2 * c.rest.length + 2) ⟨[], []⟩ c
  if d.wellNamed && d.wellNested then some d else none

end GraphSchema.Query
