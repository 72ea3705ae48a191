import GraphSchema.Catalog.Field
import GraphSchema.Json.Printer
import GraphSchema.Types.Form

/-! Resolvers written down as data. A recipe says how a value comes about: from
constants, from the source and the arguments of the call, or from the world. The
models of such a schema are instances, which store a recipe for each property. -/
namespace GraphSchema.Blueprint

inductive Recipe where
  | null
  | value (v : Value)
  | leaf (l : Leaf)
  | list (items : List Recipe)
  /-- An instance of a backing. Each property comes with the text it was written as. -/
  | model (backing : String) (properties : List (String × Json × Recipe))
  /-- A property of the source. -/
  | parent (property : String)
  /-- An argument read in a form. -/
  | argument (name : String) (form : Form)
  /-- A description of an argument as it arrived. -/
  | rawArgument (name : String)
  | argumentCount
  | hasNoArguments
  | context
  /-- Adds to the counter and yields what it comes to. -/
  | counter (step : Int)
  | fail (message : String)
  /-- One of two recipes, by what the source stores for a property. -/
  | choose (property : String) (expected : Json) (yes no : Recipe)

/-- A value of a model. -/
structure Instance where
  backing : String
  properties : List (String × Json × Recipe)

namespace Instance

instance : Backed Instance where
  backing i := .model i.backing
  unit := ⟨"()", []⟩
  backing_unit := rfl

/-- An instance of a backing. That of the roots stores nothing. -/
def make (backing : String) (properties : List (String × Json × Recipe)) : Instance :=
  ⟨backing, if backing = "()" then [] else properties⟩

/-- What is stored for a property, as it was written and as a recipe. -/
def stored? (i : Instance) (property : String) : Option (Json × Recipe) :=
  (i.properties.find? (·.1 == property)).map (·.2)

def stores (i : Instance) (property : String) (expected : Json) : Bool :=
  match i.stored? property with
  | some (written, _) => written.same expected
  | none => false

end Instance

/-! ### The world -/

/-- A type under the key that a blueprint gave to it. -/
abbrev Keys := List (String × TypeExpr)

/-- What is noted about a field while it is declared. -/
structure FieldNote where
  field : String
  isAbstract : Bool
  isNonNull : Bool
  isNamed : Bool
  /-- The arguments with whether they may not be null and whether their types are for input. -/
  arguments : List (String × Bool × Bool)

inductive LogEntry where
  | field (note : FieldNote)
  | text (s : String)
  /-- A compilation from within a thunk. -/
  | compiled (answer : Except DefinitionError (List String))

/-- What recipes and thunks may see and change. -/
structure World where
  counter : Int := 0
  keys : Keys := []
  log : List LogEntry := []
  /-- How often the thunk of each type has run. -/
  runs : List (String × Nat) := []

namespace World

def note (w : World) (e : LogEntry) : World := { w with log := w.log ++ [e] }

def countRun (key : String) (w : World) : World :=
  { w with
    runs := match w.runs.find? (·.1 == key) with
      | some _ => w.runs.map fun (k, n) => if k = key then (k, n + 1) else (k, n)
      | none => w.runs ++ [(key, 1)] }

end World

/-! ### Evaluation -/

mutual

/-- An argument as it arrived, in words. -/
def describe : Supplied → String
  | .null => "null"
  | .value v => "scalar " ++ v.literal
  | .leaf l => "leaf " ++ (Json.arr [.str l.backing, .int l.value]).write
  | .list items => "list(" ++ "; ".intercalate (describeItems items) ++ ")"

def describeItems : List Supplied → List String
  | [] => []
  | s :: ss => describe s :: describeItems ss

end

/-- What a recipe is evaluated with. -/
structure Call where
  source : Instance
  arguments : Arguments
  context : String
  /-- Reads a property of the source. -/
  read : String → World → Option (Produced Instance) × World

/-- The message of a counter that no 32-bit integer holds. -/
def counterOverflow : String := "out of range integral type conversion attempted"

def count (step : Int) (w : World) : Except String (Produced Instance) × World :=
  let n := w.counter + step
  let w := { w with counter := n }
  if Number.isInt32 n then (.ok (.value (.number (.int n))), w) else (.error counterOverflow, w)

mutual

def evaluate (call : Call) : Recipe → World → Except String (Produced Instance) × World
  | .null, w => (.ok .null, w)
  | .value v, w => (.ok (.value v), w)
  | .leaf l, w => (.ok (.leaf l), w)
  | .list items, w =>
    match evaluateAll call items w with
    | (.ok ps, w) => (.ok (.list ps), w)
    | (.error m, w) => (.error m, w)
  | .model backing properties, w => (.ok (.model (.make backing properties)), w)
  | .parent property, w =>
    let (p, w) := call.read property w
    (.ok (p.getD .null), w)
  | .argument name form, w => ((form.get call.arguments name).map form.produce, w)
  | .rawArgument name, w =>
    let text := match call.arguments.raw? name with
      | some s => describe s
      | none => "absent"
    (.ok (.value (.string text)), w)
  | .argumentCount, w => (.ok (.value (.number (.int call.arguments.length))), w)
  | .hasNoArguments, w => (.ok (.value (.boolean call.arguments.isEmpty)), w)
  | .context, w => (.ok (.value (.string call.context)), w)
  | .counter step, w => count step w
  | .fail message, w => (.error message, w)
  | .choose property expected yes no, w =>
    if call.source.stores property expected then evaluate call yes w else evaluate call no w

/-- Evaluates from left to right up to the first failure. -/
def evaluateAll (call : Call) : List Recipe → World →
    Except String (List (Produced Instance)) × World
  | [], w => (.ok [], w)
  | r :: rs, w =>
    match evaluate call r w with
    | (.error m, w) => (.error m, w)
    | (.ok p, w) =>
      match evaluateAll call rs w with
      | (.ok ps, w) => (.ok (p :: ps), w)
      | (.error m, w) => (.error m, w)

end

namespace Instance

/-- Reads a property, through at most `depth` others. A stored recipe gets no arguments and an
empty context, and if it fails there is no property. -/
def readWithin : Nat → Instance → String → World → Option (Produced Instance) × World
  | 0, _, _, w => (none, w)
  | depth + 1, i, property, w =>
    match i.stored? property with
    | none => (none, w)
    | some (_, recipe) =>
      match evaluate ⟨i, [], "", readWithin depth i⟩ recipe w with
      | (.ok p, w) => (some p, w)
      | (.error _, w) => (none, w)

/-- Reads a property. One that is read through more properties than there are is read through
itself and has no value. -/
def read (i : Instance) (property : String) (w : World) : Option (Produced Instance) × World :=
  i.readWithin i.properties.length property w

end Instance

/-- The recipe as a resolver. -/
def Recipe.resolver (r : Recipe) : Resolver Instance String World :=
  fun source arguments context w => evaluate ⟨source, arguments, context, source.read⟩ r w

/-- The model of a backing with its declared properties. -/
def modelOf (backing : String) (properties : List Property) : Model Instance World where
  backing := .model backing
  properties
  read i property w := if i.backing = backing then i.read property w else (none, w)

/-! ### Predicates -/

/-- A question about an instance. -/
inductive Predicate where
  | always (b : Bool)
  | stores (property : String) (expected : Json)

def Predicate.holds : Predicate → Instance → Bool
  | always b, _ => b
  | stores property expected, i => i.stores property expected

/-- The choice of an abstract type for an instance. -/
inductive Choice where
  | const (name : String)
  /-- The stored text of a property. -/
  | stored (property : String)

def Choice.name? : Choice → Instance → Option String
  | const name, _ => some name
  | stored property, i => match i.stored? property with
    | some (.str name, _) => some name
    | _ => none

end GraphSchema.Blueprint
