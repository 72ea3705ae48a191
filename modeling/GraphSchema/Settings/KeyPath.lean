import GraphSchema.Number.Numeral
import GraphSchema.Settings.Setting

/-! Keys that are paths: a name, then names after points and places in brackets. A place
counts from the front or, below zero, from the back. -/
namespace GraphSchema

inductive PathStep where
  | key (name : String)
  | place (i : Int)
  deriving DecidableEq, Repr

namespace PathStep

open Numeral (digits1? natOf)

/-- The characters of a name in a path. -/
def isNameChar (c : Char) : Bool := c.isAlphanum || c = '_' || c = '-'

def name? (cs : List Char) : Option (String × List Char) :=
  match cs.takeWhile isNameChar with
  | [] => none
  | name => some (String.ofList name, cs.dropWhile isNameChar)

def skipBlank (cs : List Char) : List Char := cs.dropWhile fun c => c = ' ' || c = '\t'

/-- A place after its opening bracket, blanks around it or not. -/
def place? (cs : List Char) : Option (Int × List Char) := do
  let (negative, cs) := match skipBlank cs with
    | '-' :: cs => (true, cs)
    | cs => (false, cs)
  let (ds, cs) ← digits1? cs
  let i : Int := if negative then -(natOf ds : Int) else natOf ds
  match skipBlank cs with
  | ']' :: cs => if Number.isInt64 i then some (i, cs) else none
  | _ => none

/-- The steps after the first name. Each takes a character, so the length is fuel enough. -/
def more? : Nat → List Char → Option (List PathStep)
  | _, [] => some []
  | 0, _ => none
  | fuel + 1, c :: cs =>
    if c = '.' then do
      let (name, cs) ← name? cs
      return key name :: (← more? fuel cs)
    else if c = '[' then do
      let (i, cs) ← place? cs
      return place i :: (← more? fuel cs)
    else none

/-- A key as a path. A key that is no path stands for itself. -/
def ofKey (s : String) : List PathStep :=
  let steps? := do
    let (name, cs) ← name? s.toList
    return key name :: (← more? cs.length cs)
  steps?.getD [key s]

end PathStep

namespace Setting

/-- The items of a list; anything else counts as an empty one. -/
def items : Setting → List Setting
  | list vs => vs
  | _ => []

/-- Changes the item at a place. A list that is too short grows, with nothing in the new places:
behind for a place from the front, in front for one from the back. -/
def changeItem (change : Setting → Setting) (i : Int) (vs : List Setting) : List Setting :=
  let grown := if i < 0 then List.replicate (i.natAbs - vs.length) nothing ++ vs
    else vs ++ List.replicate (i.natAbs + 1 - vs.length) nothing
  grown.modify (if i < 0 then grown.length - i.natAbs else i.natAbs) change

/-- Lays a setting over what is at the path. Tables and lists on the way are made where there are
none, in place of whatever else is there. -/
def overlayAt : Setting → List PathStep → Setting → Setting
  | s, [], v => overlay s v
  | s, .key name :: rest, v => s.put name (overlayAt ((s.get? name).getD nothing) rest v)
  | s, .place i :: rest, v => list (changeItem (overlayAt · rest v) i s.items)

end Setting

end GraphSchema
