import GraphSchema.Settings.Toml.Scalar
import GraphSchema.Settings.Toml.Tree

/-! Configuration files: lines of keys with values, under headers that name tables. A
value may be a list or a table in braces, over as many lines as it likes. -/
namespace GraphSchema.Toml

/-! ### Values -/

/-- The last name of a key, with those before it. -/
def splitLast? (names : List String) : Option (List String × String) :=
  names.getLast?.map fun name => (names.dropLast, name)

/-- Lists and tables in braces nest at most so deep. -/
def maxDepth : Nat := 80

mutual

/-- `depth` counts the lists and tables that may still be opened. -/
def value? : Nat → Nat → Reader Setting
  | 0, _, _ => none
  | fuel + 1, depth, cs =>
    match cs with
    | '"' :: cs => (string? '"' cs).map fun (s, cs) => (.text s, cs)
    | '\'' :: cs => (string? '\'' cs).map fun (s, cs) => (.text s, cs)
    | '[' :: cs => if depth = 0 then none else items? fuel (depth - 1) [] cs
    | '\x7b' :: cs =>
      if depth = 0 then none else members? fuel (depth - 1) (.table .header []) cs
    | cs => word? cs

/-- Items with commas between them and perhaps one behind. -/
def items? : Nat → Nat → List Setting → Reader Setting
  | 0, _, _, _ => none
  | fuel + 1, depth, done, cs =>
    match skipLines? cs.length cs with
    | none => none
    | some (']' :: cs) => some (.list done.reverse, cs)
    | some cs =>
      match value? fuel depth cs with
      | none => none
      | some (v, cs) =>
        match skipLines? cs.length cs with
        | some (',' :: cs) => items? fuel depth (v :: done) cs
        | some (']' :: cs) => some (.list (v :: done).reverse, cs)
        | _ => none

/-- Keys with values, with commas between them and perhaps one behind. -/
def members? : Nat → Nat → Tree → Reader Setting
  | 0, _, _, _ => none
  | fuel + 1, depth, done, cs =>
    match skipLines? cs.length cs with
    | none => none
    | some ('\x7d' :: cs) => some (done.toSetting, cs)
    | some cs =>
      match member? fuel depth done cs with
      | none => none
      | some (done, cs) =>
        match skipLines? cs.length cs with
        | some (',' :: cs) => members? fuel depth done cs
        | some ('\x7d' :: cs) => some (done.toSetting, cs)
        | _ => none

/-- A key with its value, put into a table. Lines may end on both sides of the equals sign. -/
def member? : Nat → Nat → Tree → Reader Tree
  | 0, _, _, _ => none
  | fuel + 1, depth, done, cs =>
    match key? cs with
    | none => none
    | some (names, cs) =>
      match splitLast? names, skipLines? cs.length cs with
      | some (way, name), some ('=' :: cs) =>
        match (skipLines? cs.length cs).bind (value? fuel depth) with
        | none => none
        | some (v, cs) => (done.set? way name v).map fun done => (done, cs)
      | _, _ => none

end

/-! ### Documents -/

/-- A file in the reading: what it holds, and the table that keys go to now. -/
structure Document where
  root : Tree := .table .header []
  here : List String := []

namespace Document

/-- Applies a change to the table above the one that a header names, and goes to that one. -/
def enter? (change : String → Tree → Option Tree) (d : Document) (names : List String) :
    Option Document := do
  let (way, name) ← splitLast? names
  let root ← d.root.within? false (change name) way
  return { d with root, here := names }

def set? (d : Document) (names : List String) (v : Setting) : Option Document := do
  let (way, name) ← splitLast? names
  let root ← d.root.within? false (Tree.set? way name v) d.here
  return { d with root }

/-- The line at the front: a header or a key with its value. -/
def line? (d : Document) (cs : List Char) : Option (Document × List Char) := do
  match cs with
  | '[' :: '[' :: cs =>
    match ← key? cs with
    | (names, ']' :: ']' :: cs) => return (← d.enter? Tree.append? names, ← lineEnd? cs)
    | _ => none
  | '[' :: cs =>
    match ← key? cs with
    | (names, ']' :: cs) => return (← d.enter? Tree.open? names, ← lineEnd? cs)
    | _ => none
  | cs =>
    match ← key? cs with
    | (names, '=' :: cs) =>
      let (v, cs) ← value? (2 * cs.length + 2) maxDepth (skipBlank cs)
      return (← d.set? names v, ← lineEnd? cs)
    | _ => none

def read? : Nat → Document → List Char → Option Document
  | 0, d, _ => some d
  | fuel + 1, d, cs =>
    match skipLines? cs.length cs with
    | none => none
    | some [] => some d
    | some cs =>
      match d.line? cs with
      | some (d, rest) => read? fuel d rest
      | none => none

end Document

/-- A text without the byte order mark that may come first. -/
def withoutMark : List Char → List Char
  | '\uFEFF' :: cs => cs
  | cs => cs

/-- The table that a text spells. -/
def parse? (s : String) : Option Setting :=
  let cs := withoutMark s.toList
  (Document.read? (cs.length + 1) {} cs).map (·.root.toSetting)

/-- The table in a file, which may have a byte order mark before that of its text. -/
def parseFile? (s : String) : Option Setting := parse? (String.ofList (withoutMark s.toList))

end GraphSchema.Toml
