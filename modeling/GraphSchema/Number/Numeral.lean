import GraphSchema.Number.Basic

/-! Numbers as they are spelled: an optional minus, digits without a superfluous
zero in front, an optional fraction, an optional exponent. Queries and JSON share
this grammar.

The value of a float is found in two roundings. The leading digits that 64 bits
hold are rounded to a double, and that is multiplied or divided by one power of
ten; further digits count only by their place. -/
namespace GraphSchema

/-- The parts of a spelled number. -/
structure Numeral where
  negative : Bool
  whole : List Char
  /-- The digits after the point, if there is one. -/
  fraction : Option (List Char)
  /-- Whether the exponent is negative, and its digits. -/
  exponent : Option (Bool × List Char)

namespace Numeral

def isDigit (c : Char) : Bool := '0' ≤ c && c ≤ '9'

def digitValue (c : Char) : Nat := c.toNat - '0'.toNat

def natOf (cs : List Char) : Nat := cs.foldl (fun n c => n * 10 + digitValue c) 0

/-- At least one digit, and what follows them. -/
def digits1? (cs : List Char) : Option (List Char × List Char) :=
  match cs.takeWhile isDigit with
  | [] => none
  | ds => some (ds, cs.dropWhile isDigit)

def fraction? : List Char → Option (Option (List Char) × List Char)
  | '.' :: cs => (digits1? cs).map fun (ds, rest) => (some ds, rest)
  | cs => some (none, cs)

def exponentDigits? (negative : Bool) (cs : List Char) :
    Option (Option (Bool × List Char) × List Char) :=
  (digits1? cs).map fun (ds, rest) => (some (negative, ds), rest)

def exponent? : List Char → Option (Option (Bool × List Char) × List Char)
  | c :: cs =>
    if c = 'e' ∨ c = 'E' then
      match cs with
      | '-' :: ds => exponentDigits? true ds
      | '+' :: ds => exponentDigits? false ds
      | ds => exponentDigits? false ds
    else some (none, c :: cs)
  | [] => some (none, [])

/-- The numeral at the front of the text. A zero is never followed by a digit. -/
def read? (cs : List Char) : Option (Numeral × List Char) := do
  let (negative, cs) := match cs with
    | '-' :: cs => (true, cs)
    | cs => (false, cs)
  let (whole, cs) ← digits1? cs
  if whole.head? = some '0' ∧ whole.length > 1 then none
  let (fraction, cs) ← fraction? cs
  let (exponent, cs) ← exponent? cs
  return (⟨negative, whole, fraction, exponent⟩, cs)

/-- The digits of a whole number: a zero, or as many as there are. -/
def whole? (cs : List Char) : Option (List Char × List Char) :=
  match cs with
  | '0' :: rest => some (['0'], rest)
  | cs => digits1? cs

/-- The longest numeral at the front of the text. A point or an exponent mark without digits is
no part of it. -/
def longest? (cs : List Char) : Option (Numeral × List Char) := do
  let (negative, cs) := match cs with
    | '-' :: cs => (true, cs)
    | cs => (false, cs)
  let (whole, cs) ← whole? cs
  let (fraction, cs) := (fraction? cs).getD (none, cs)
  let (exponent, cs) := (exponent? cs).getD (none, cs)
  return (⟨negative, whole, fraction, exponent⟩, cs)

/-- Digits taken into a significand of 64 bits until the next one would overflow it: the
significand, how many were taken, and how many were not. -/
def take64 (significand : Nat) : List Char → Nat × Nat × Nat
  | [] => (significand, 0, 0)
  | c :: cs =>
    let next := significand * 10 + digitValue c
    if next < 0x10000000000000000 then
      let (s, taken, left) := take64 next cs
      (s, taken + 1, left)
    else (significand, 0, cs.length + 1)

/-- One division by a power of ten for every 308 places that the table of powers does not reach. -/
def divideOut : Nat → Float → Nat → Float
  | 0, f, _ => f
  | fuel + 1, f, places =>
    if places ≤ 308 then f / Float.ofScientific 1 false places
    else if f == 0.0 then f
    else divideOut fuel (f / 1e308) (places - 308)

/-- `significand * 10 ^ exponent`, or `none` if it is out of range. -/
def scaled? (negative : Bool) (significand : Nat) (exponent : Int) : Option Number :=
  let f := (UInt64.ofNat significand).toFloat
  let sign (f : Float) : Number := .float (Double.ofFloat (if negative then -f else f))
  if 0 ≤ exponent then
    if exponent ≤ 308 then
      let product := f * Float.ofScientific 1 false exponent.toNat
      if product.isInf then none else some (sign product)
    else if f == 0.0 then some (sign f) else none
  else if significand = 0 ∨ exponent < -1000 then some (sign 0.0)
  else some (sign (divideOut 4 f exponent.natAbs))

/-- The number that a numeral spells, or `none` if it is beyond the greatest double. -/
def number? (x : Numeral) : Option Number :=
  let (significand, _, left) := take64 0 x.whole
  match x.fraction, x.exponent with
  | none, none =>
    if left > 0 then scaled? x.negative significand left
    else Number.ofIntText x.negative significand
  | fraction, exponent =>
    let (significand, taken, _) := take64 significand (fraction.getD [])
    let places : Int := (left : Int) - taken
    match exponent with
    | none => scaled? x.negative significand places
    | some (true, ds) => scaled? x.negative significand (places - natOf ds)
    | some (false, ds) => scaled? x.negative significand (places + natOf ds)

end Numeral

end GraphSchema
