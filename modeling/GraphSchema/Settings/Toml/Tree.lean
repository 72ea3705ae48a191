import GraphSchema.Settings.Setting

/-! What a configuration file holds while it is read. A table remembers how it came to
be, because that decides what may still be added to it: a header defines a table
once, a key with points adds only to tables that such keys have made, and a value is
complete as it stands. -/
namespace GraphSchema.Toml

/-- How a table came to be. -/
inductive Origin where
  /-- A header names it, or it is the whole file. -/
  | header
  /-- It lies on the way to a table with a header. -/
  | onWay
  /-- It lies on the way to a value of a key with points. -/
  | dotted
  deriving DecidableEq, Repr

inductive Tree where
  | value (s : Setting)
  | table (origin : Origin) (entries : List (String × Tree))
  /-- The tables of one header in double brackets, in their order. -/
  | tables (items : List Tree)

namespace Tree

mutual

def toSetting : Tree → Setting
  | value s => s
  | table _ es => .table (entriesToSettings es)
  | tables ts => .list (itemsToSettings ts)

def entriesToSettings : List (String × Tree) → List (String × Setting)
  | [] => []
  | (k, t) :: es => (k, toSetting t) :: entriesToSettings es

def itemsToSettings : List Tree → List Setting
  | [] => []
  | t :: ts => toSetting t :: itemsToSettings ts

end

/-- Replaces the entry of that name, or adds one. -/
def put (name : String) (t : Tree) : List (String × Tree) → List (String × Tree)
  | [] => [(name, t)]
  | (k, u) :: es => if k = name then (k, t) :: es else (k, u) :: put name t es

def get? (name : String) (es : List (String × Tree)) : Option Tree :=
  (es.find? (·.1 == name)).map (·.2)

/-- A key with points leads only through tables without a header of their own. -/
def mayPass (viaDots : Bool) (o : Origin) : Bool := !(viaDots && o == .header)

/-- Applies a change where a path leads. Tables that are missing on the way are made. Through tables
in double brackets it leads to the last one. -/
def within? (viaDots : Bool) (change : Tree → Option Tree) : List String → Tree → Option Tree
  | [], t => change t
  | name :: rest, table o es =>
    let onward (t : Tree) : Option Tree := within? viaDots change rest t
    match get? name es with
    | none =>
      (onward (table (if viaDots then .dotted else .onWay) [])).map fun t => table o (put name t es)
    | some (table p inner) =>
      if mayPass viaDots p then (onward (table p inner)).map fun t => table o (put name t es)
      else none
    | some (tables ts) =>
      match ts.getLast? with
      | some last =>
        (onward last).map fun t => table o (put name (tables (ts.dropLast ++ [t])) es)
      | none => none
    | some (value _) => none
  | _, _ => none

/-- Sets a new entry of a table. Keys with points and without do not share a table. -/
def define? (viaDots : Bool) (name : String) (s : Setting) : Tree → Option Tree
  | table o es =>
    if (o == .dotted) != viaDots || (get? name es).isSome then none
    else some (table o (put name (value s) es))
  | _ => none

/-- Sets the value of a key, given by the names on the way and the last one. -/
def set? (way : List String) (name : String) (s : Setting) (t : Tree) : Option Tree :=
  let viaDots := !way.isEmpty
  within? viaDots (define? viaDots name s) way t

/-- A header names a table that is new or was only on the way to others. -/
def open? (name : String) : Tree → Option Tree
  | table o es =>
    match get? name es with
    | none => some (table o (put name (table .header []) es))
    | some (table .onWay inner) => some (table o (put name (table .header inner) es))
    | some _ => none
  | _ => none

/-- A header in double brackets adds a table to those of its name. -/
def append? (name : String) : Tree → Option Tree
  | table o es =>
    match get? name es with
    | none => some (table o (put name (tables [table .header []]) es))
    | some (tables ts) => some (table o (put name (tables (ts ++ [table .header []])) es))
    | some _ => none
  | _ => none

end Tree

end GraphSchema.Toml
