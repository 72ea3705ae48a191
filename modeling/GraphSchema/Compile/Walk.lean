import GraphSchema.Catalog.Build
import GraphSchema.Memo.Cell
import GraphSchema.Text.Name

/-! The walk over a catalog: which types the roots reach, and their fields.

The types wait in a queue. A visit claims the type's name, gets its fields, and
queues every type that it mentions and that has not been seen: the types of a
field before those of its arguments, the fields before the interfaces, the
implementers of an interface in the order of their places, the members of a union
in their order. So types are visited in the order of their first mention, level by
level, each once. -/
namespace GraphSchema

variable {M C W : Type}

/-- What outlives a compilation: the cells of the field lists, and the world outside. -/
structure Store (M C W : Type) where
  memo : Memo (List (Field M C W))
  world : W

/-- How a thunk compiles the catalog it belongs to. -/
abbrev Nested (M C W : Type) :=
  Description → Store M C W → Except DefinitionError (Schema M C W) × Store M C W

namespace Thunk

/-- Runs a thunk to its end: the fields, or nothing if it broke off. -/
def run (nested : Nested M C W) : Thunk M C W → Store M C W →
    Option (List (Field M C W)) × Store M C W
  | .done fields, s => (some fields, s)
  | .panic, s => (none, s)
  | .outside change next, s => run nested (next s.world) { s with world := change s.world }
  | .compile d next, s =>
    let (answer, s) := nested d s
    run nested (next answer) s

end Thunk

namespace Store

def setCell (s : Store M C W) (i : Nat) (c : Cell (List (Field M C W))) : Store M C W :=
  { s with memo := s.memo.set i c }

/-- The fields in the cell of the type at place `i`, computed now if nobody has yet. While the
thunk runs the cell is taken, and it keeps the outcome. -/
def force (nested : Nested M C W) (typeName : String) (i : Nat) (thunk : Thunk M C W)
    (s : Store M C W) : Except DefinitionError (List (Field M C W)) × Store M C W :=
  match s.memo i with
  | .ready fields => (.ok fields, s)
  | .poisoned => (.error (.poisonedFields typeName), s)
  | .resolving _ => (.error (.reentrantFields typeName), s)
  | .pending =>
    let (outcome, s) := thunk.run nested (s.setCell i (.resolving 0))
    let s := s.setCell i (.ofOutcome outcome)
    match outcome with
    | some fields => (.ok fields, s)
    | none => (.error (.poisonedFields typeName), s)

end Store

structure Walk (M C W : Type) where
  /-- The types that have been visited or are being visited, in the order of their visits. -/
  visited : List Handle
  pending : List Handle
  names : List (String × Handle)
  fields : List (Handle × List (Field M C W))

/-- A mention of a type, with the place that it is mentioned at. -/
abbrev Mention := Handle × String

namespace Walk

def empty : Walk M C W := ⟨[], [], [], []⟩

def isSeen (w : Walk M C W) (h : Handle) : Bool := w.visited.contains h || w.pending.contains h

/-- Queues a type of the catalog unless it has been seen. -/
def enqueue (c : Catalog M C W) (w : Walk M C W) (m : Mention) :
    Except DefinitionError (Walk M C W) :=
  if (c.get? m.1).isNone then .error (.foreignHandle m.2)
  else .ok (if w.isSeen m.1 then w else { w with pending := w.pending ++ [m.1] })

def enqueueAll (c : Catalog M C W) : Walk M C W → List Mention →
    Except DefinitionError (Walk M C W)
  | w, [] => .ok w
  | w, m :: ms =>
    match w.enqueue c m with
    | .ok w => enqueueAll c w ms
    | .error e => .error e

/-- The types that a field mentions: its own, then those of its arguments. -/
def fieldMentions (typeName : String) (f : Field M C W) : List Mention :=
  (f.type.named.toList ++ f.arguments.filterMap (·.type.named)).map
    fun h => (h, typeName ++ "." ++ f.name)

/-- The types that a definition mentions, in the order in which they are queued. -/
def mentions (c : Catalog M C W) (h : Handle) (t : TypeDef M C W) (fields : List (Field M C W)) :
    List Mention :=
  match t.kind with
  | .object o => fields.flatMap (fieldMentions t.name) ++ o.interfaces.map (·, t.name)
  | .interface _ => fields.flatMap (fieldMentions t.name) ++ (c.implementers h).map (·, t.name)
  | .union u => u.members.map (·, t.name)
  | .enum _ => []

/-- Takes the name for the type, unless it is no name or belongs to another type. -/
def claimName (w : Walk M C W) (h : Handle) (name : String) :
    Except DefinitionError (Walk M C W) :=
  if !Text.isDeclarable name then .error (.invalidTypeName name)
  else if Scalar.isBuiltin name || w.names.any (fun (n, owner) => n == name && owner != h) then
    .error (.duplicateTypeName name)
  else .ok { w with names := w.names ++ [(name, h)] }

/-- The fields of a type that has fields, from its cell. -/
def fieldsOf (nested : Nested M C W) (h : Handle) (t : TypeDef M C W) (s : Store M C W) :
    Except DefinitionError (List (Field M C W)) × Store M C W :=
  match t.kind with
  | .object _ | .interface _ =>
    match t.kind.fields? with
    | some thunk => s.force nested t.name h.index thunk
    | none => (.error (.undefinedType t.name), s)
  | .union _ | .enum _ => (.ok [], s)

def visit (nested : Nested M C W) (c : Catalog M C W) (w : Walk M C W) (h : Handle)
    (s : Store M C W) : Except DefinitionError (Walk M C W) × Store M C W :=
  match c.get? h with
  | none => (.error (.foreignHandle "schema"), s)
  | some t =>
    match { w with visited := w.visited ++ [h] }.claimName h t.name with
    | .error e => (.error e, s)
    | .ok w =>
      match fieldsOf nested h t s with
      | (.error e, s) => (.error e, s)
      | (.ok fields, s) =>
        let w := { w with fields := w.fields ++ [(h, fields)] }
        (w.enqueueAll c (mentions c h t fields), s)

/-- Visits until the queue is empty. A visit takes a type off the queue for good, so there are no
more visits than types. -/
def run (nested : Nested M C W) (c : Catalog M C W) : Nat → Walk M C W → Store M C W →
    Except DefinitionError (Walk M C W) × Store M C W
  | 0, w, s => (.ok w, s)
  | fuel + 1, w, s =>
    match w.pending with
    | [] => (.ok w, s)
    | h :: rest =>
      match visit nested c { w with pending := rest } h s with
      | (.ok w, s) => run nested c fuel w s
      | (.error e, s) => (.error e, s)

/-- The roots in the queue, the query first. -/
def start (c : Catalog M C W) (d : Description) : Except DefinitionError (Walk M C W) :=
  empty.enqueueAll c ((d.query :: d.mutation.toList).map (·, "schema roots"))

/-- The fields of a visited type. -/
def fields? (w : Walk M C W) (h : Handle) : Option (List (Field M C W)) :=
  (w.fields.find? (·.1 == h)).map (·.2)

end Walk

end GraphSchema
