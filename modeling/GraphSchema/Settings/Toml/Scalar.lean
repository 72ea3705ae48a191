import GraphSchema.Settings.DateTime
import GraphSchema.Settings.Toml.Text
import GraphSchema.Settings.Setting

/-! Values that are spelled without quotes: flags, numbers, dates and times. Dates and
times count as text, in the one form in which they are written. -/
namespace GraphSchema.Toml

open Json (hexValue?)
open Numeral (isDigit natOf)

/-- Digits of a radix with single underscores between them. -/
def digits? (isDigit : Char → Bool) : List Char → Option (List Char)
  | [] => none
  | [c] => if isDigit c then some [c] else none
  | c :: '_' :: cs => if isDigit c then (digits? isDigit cs).map (c :: ·) else none
  | c :: cs => if isDigit c then (digits? isDigit cs).map (c :: ·) else none

def radix? (radix : Nat) (cs : List Char) : Option Setting := do
  let ds ← digits? (fun c => (hexValue? c).any (· < radix)) cs
  let n := ds.foldl (fun n c => n * radix + (hexValue? c).getD 0) 0
  if Number.isInt64 n then some (.whole n) else none

/-- Whole digits without a superfluous zero. -/
def decimal? (cs : List Char) : Option (List Char) := do
  let ds ← digits? isDigit cs
  if ds.head? = some '0' ∧ ds.length > 1 then none else some ds

/-- The exponent of a float, if there is one; it ends the number. -/
def exponent? (cs : List Char) : Option Int :=
  match cs with
  | [] => some 0
  | c :: cs =>
    if c ≠ 'e' ∧ c ≠ 'E' then none
    else
      match cs with
      | '-' :: ds => (digits? isDigit ds).map fun ds => -(natOf ds : Int)
      | '+' :: ds => (digits? isDigit ds).map fun ds => natOf ds
      | ds => (digits? isDigit ds).map fun ds => natOf ds

/-- A finite double. -/
def float? (x : Double) : Option Setting := if x.isFinite then some (.float x) else none

/-- A number without its sign. -/
def unsigned? (negative signed : Bool) (cs : List Char) : Option Setting := do
  match cs with
  | '0' :: 'x' :: ds => if signed then none else radix? 16 ds
  | '0' :: 'o' :: ds => if signed then none else radix? 8 ds
  | '0' :: 'b' :: ds => if signed then none else radix? 2 ds
  | ['i', 'n', 'f'] =>
    return .float (Double.ofFloat (if negative then -(1.0 / 0.0) else 1.0 / 0.0))
  | ['n', 'a', 'n'] => return .float (Double.ofFloat (0.0 / 0.0))
  | cs =>
    let isMark (c : Char) : Bool := c = '.' || c = 'e' || c = 'E'
    let whole ← decimal? (cs.takeWhile (!isMark ·))
    match cs.dropWhile (!isMark ·) with
    | [] =>
      let n : Int := if negative then -(natOf whole : Int) else natOf whole
      if Number.isInt64 n then some (.whole n) else none
    | '.' :: rest =>
      let fraction ← digits? isDigit (rest.takeWhile (!isMark ·))
      let e ← exponent? (rest.dropWhile (!isMark ·))
      float? (Double.ofDecimal negative (natOf (whole ++ fraction)) (e - fraction.length))
    | rest => float? (Double.ofDecimal negative (natOf whole) (← exponent? rest))

/-- A character that may stand in such a value. -/
def isWordChar (c : Char) : Bool := isBareChar c || c = '+' || c = '.' || c = ':'

def ofWord? (cs : List Char) : Option Setting :=
  if cs = "true".toList then some (.flag true)
  else if cs = "false".toList then some (.flag false)
  else
    match DateTime.parse? cs with
    | some d => some (.text d.text)
    | none =>
      match cs with
      | '-' :: cs => unsigned? true true cs
      | '+' :: cs => unsigned? false true cs
      | cs => unsigned? false false cs

/-- A word is a value. Two words with blanks between them are one as well: a date with a time
after a single blank. -/
def word? : Reader Setting := fun cs =>
  let word := cs.takeWhile isWordChar
  let rest := cs.dropWhile isWordChar
  let blanks := rest.takeWhile isBlank
  let next := rest.dropWhile isBlank
  match next.takeWhile isWordChar with
  | [] => (ofWord? word).map fun v => (v, rest)
  | more =>
    if blanks.isEmpty then none
    else (DateTime.parse? (word ++ blanks ++ more)).map fun d =>
      (.text d.text, next.dropWhile isWordChar)

end GraphSchema.Toml
