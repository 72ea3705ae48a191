import GraphSchema.Schema.Response
import GraphSchema.Schema.TypeRef

/-! Documents of the query language: operations and the fragments they share. -/
namespace GraphSchema.Query

/-- A value in a query, which may leave places for variables. -/
inductive InputValue where
  | var (name : String)
  | null
  | number (n : Number)
  | string (s : String)
  | boolean (b : Bool)
  | enum (name : String)
  | list (items : List InputValue)
  | object (members : List (String × InputValue))

namespace InputValue

mutual

/-- The variables of a value, from left to right. -/
def variableNames : InputValue → List String
  | var name => [name]
  | list items => itemVariables items
  | object members => memberVariables members
  | _ => []

def itemVariables : List InputValue → List String
  | [] => []
  | v :: vs => variableNames v ++ itemVariables vs

def memberVariables : List (String × InputValue) → List String
  | [] => []
  | (_, v) :: vs => variableNames v ++ memberVariables vs

end

mutual

/-- The value with its variables replaced, or the first variable that has no value. -/
def replace (lookup : String → Option Value) : InputValue → Except String Value
  | var name => match lookup name with
    | some v => .ok v
    | none => .error name
  | null => .ok .null
  | number n => .ok (.number n)
  | string s => .ok (.string s)
  | boolean b => .ok (.boolean b)
  | enum name => .ok (.enum name)
  | list items => (replaceItems lookup items).map .list
  | object members => (replaceMembers lookup members).map .object

def replaceItems (lookup : String → Option Value) : List InputValue → Except String (List Value)
  | [] => .ok []
  | v :: vs => do
    let v ← replace lookup v
    let vs ← replaceItems lookup vs
    return v :: vs

def replaceMembers (lookup : String → Option Value) :
    List (String × InputValue) → Except String (List (String × Value))
  | [] => .ok []
  | (k, v) :: vs => do
    let v ← replace lookup v
    let vs ← replaceMembers lookup vs
    return (k, v) :: vs

end

mutual

/-- Equality of values as amounts: minus zero is zero, and the order of members does not matter. -/
def same : InputValue → InputValue → Bool
  | var a, var b => a == b
  | null, null => true
  | number a, number b => a.same b
  | string a, string b => a == b
  | boolean a, boolean b => a == b
  | enum a, enum b => a == b
  | list as, list bs => sameItems as bs
  | object as, object bs => as.length == bs.length && sameMembers as bs
  | _, _ => false

def sameItems : List InputValue → List InputValue → Bool
  | [], [] => true
  | a :: as, b :: bs => same a b && sameItems as bs
  | _, _ => false

def sameMembers : List (String × InputValue) → List (String × InputValue) → Bool
  | [], _ => true
  | (k, a) :: as, bs =>
    (match bs.find? (·.1 == k) with
      | some (_, b) => same a b
      | none => false) && sameMembers as bs

end

/-- Adds a member to those of an object. A name that is there already gets the new value in its old
place. -/
def putMember (name : String) (v : InputValue) :
    List (String × InputValue) → List (String × InputValue)
  | [] => [(name, v)]
  | (k, w) :: ms => if k = name then (k, v) :: ms else (k, w) :: putMember name v ms

/-- The value as a constant, if it has no variables. -/
def constant? (v : InputValue) : Option Value :=
  match v.replace fun _ => none with
  | .ok v => some v
  | .error _ => none

end InputValue

structure Argument where
  name : String
  value : InputValue
  position : Position

structure Directive where
  name : String
  arguments : List Argument

structure FieldHead where
  aliasName : Option String
  name : String
  position : Position
  arguments : List Argument
  directives : List Directive

namespace FieldHead

/-- The key of the field's value in the response. -/
def key (f : FieldHead) : String := f.aliasName.getD f.name

end FieldHead

inductive Selection where
  | field (head : FieldHead) (selections : List Selection)
  | spread (fragment : String) (directives : List Directive)
  /-- Selections for the types that fit the condition, if there is one. -/
  | inline (condition : Option String) (directives : List Directive) (selections : List Selection)

structure VariableDefinition where
  name : String
  type : TypeRef
  directives : List Directive
  default : Option Value

inductive OperationKind where
  | query
  | mutation
  | subscription
  deriving DecidableEq, Repr

structure Operation where
  kind : OperationKind
  name : Option String
  variableDefinitions : List VariableDefinition
  directives : List Directive
  selections : List Selection

structure Fragment where
  name : String
  condition : String
  directives : List Directive
  selections : List Selection

structure Document where
  operations : List Operation
  fragments : List Fragment

namespace Document

def fragment? (d : Document) (name : String) : Option Fragment :=
  d.fragments.find? (·.name == name)

/-- Operations are either one without a name or several with different names, and there is at
least one; fragments have different names. -/
def wellNamed (d : Document) : Bool :=
  let distinct (names : List String) : Bool := names.eraseDups.length == names.length
  distinct (d.fragments.map (·.name)) &&
    match d.operations with
    | [] => false
    | [_] => true
    | ops => ops.all (·.name.isSome) && distinct (ops.filterMap (·.name))

/-- The levels of selections that a definition may have below its own. -/
def maxLevels : Nat := 64

/-- Whether nothing nests deeper than `levels` below the selections, fragments apart. -/
def nestsWithin : Nat → List Selection → Bool
  | 0, ss => ss.all fun
    | .field _ below => below.isEmpty
    | .inline _ _ _ => false
    | .spread _ _ => true
  | levels + 1, ss => ss.all fun
    | .field _ below | .inline _ _ below => nestsWithin levels below
    | .spread _ _ => true

/-- Every definition nests within its levels. -/
def wellNested (d : Document) : Bool :=
  (d.operations.all fun op => nestsWithin maxLevels op.selections) &&
    d.fragments.all fun f => nestsWithin maxLevels f.selections

/-- Whether the request may ask for the operation: it names it or names none. -/
def asksFor (name : Option String) (op : Operation) : Bool := name.isNone || op.name == name

/-- The operation that a request asks for: the named one, or the only one. -/
def operation? (d : Document) (name : Option String) : Option Operation :=
  match name with
  | some name => d.operations.find? (·.name == some name)
  | none =>
    match d.operations with
    | [op] => some op
    | _ => none

end Document

end GraphSchema.Query
