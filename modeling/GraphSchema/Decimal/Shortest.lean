import GraphSchema.Decimal.Double

/-! The shortest decimal that reads back as a given double.

A finite double stands for every real that rounds to it, an interval around its
own value whose ends belong to it when its significand is even. For one digit,
two digits and so on, the two neighbours of the value on the grid of decimals
with that many digits are tried; the first grid with a neighbour inside the
interval gives the digits. Seventeen digits always suffice. All of it is exact
arithmetic on natural numbers. -/
namespace GraphSchema

/-- The decimal `digits * 10 ^ exponent`. -/
structure Decimal where
  digits : Nat
  exponent : Int
  deriving DecidableEq, Repr

namespace Decimal

/-- The reals that round to a double, as multiples of one unit `1 / unit`. -/
structure Interval where
  low : Nat
  value : Nat
  high : Nat
  unit : Nat
  closed : Bool

/-- The half way points to the neighbours of a finite, nonzero double. Below a power of two
the neighbour is nearer. -/
def Interval.of (x : Double) : Interval :=
  let m := x.significand
  let nearBelow := m = Double.hiddenBit ∧ x.scale > 0
  let below := if nearBelow then 1 else 2
  let e : Int := (x.scale : Int) - 1074 - 2
  let up := if e < 0 then 1 else Nat.pow 2 e.toNat
  { low := (4 * m - below) * up
    value := 4 * m * up
    high := (4 * m + 2) * up
    unit := if e < 0 then Nat.pow 2 e.natAbs else 1
    closed := m % 2 = 0 }

/-- `digits * 10 ^ exponent` in units of the interval, times `10 ^ -exponent` where the exponent
is negative, beside the factor that the interval's own numbers then need. -/
def Interval.scaled (i : Interval) (d : Decimal) : Nat × Nat :=
  if d.exponent < 0 then (d.digits * i.unit, Nat.pow 10 d.exponent.natAbs)
  else (d.digits * Nat.pow 10 d.exponent.toNat * i.unit, 1)

def Interval.contains (i : Interval) (d : Decimal) : Bool :=
  let (n, k) := i.scaled d
  if i.closed then i.low * k ≤ n && n ≤ i.high * k else i.low * k < n && n < i.high * k

/-- The greatest multiple of `10 ^ exponent` that is no greater than the value. -/
def Interval.floor (i : Interval) (exponent : Int) : Decimal :=
  if exponent < 0 then ⟨i.value * Nat.pow 10 exponent.natAbs / i.unit, exponent⟩
  else ⟨i.value / (i.unit * Nat.pow 10 exponent.toNat), exponent⟩

/-- Whether the value lies nearer to `d + 1` than to `d`; a tie goes to the even one. -/
def Interval.prefersNext (i : Interval) (d : Decimal) : Bool :=
  let (n, k) := i.scaled d
  let (n', _) := i.scaled { d with digits := d.digits + 1 }
  let below := i.value * k - n
  let above := n' - i.value * k
  above < below || (above == below && d.digits % 2 == 1)

/-- The number of the grid's digit before the decimal point, so that the value lies in
`[10 ^ p, 10 ^ (p + 1))`. -/
def Interval.leading (i : Interval) : Int :=
  if i.unit ≤ i.value then (toString (i.value / i.unit)).length - 1
  else
    let rec go (fuel : Nat) (v : Nat) (p : Int) : Int :=
      match fuel with
      | 0 => p
      | fuel + 1 => if i.unit ≤ v then p else go fuel (v * 10) (p - 1)
    go 400 i.value 0

/-- The shortest member of the interval on the grids of `n` digits and more. -/
def Interval.search (i : Interval) (leading : Int) : Nat → Nat → Decimal
  | _, 0 => i.floor leading
  | n, fuel + 1 =>
    let here := i.floor (leading - n + 1)
    let next := { here with digits := here.digits + 1 }
    match i.contains here, i.contains next with
    | true, true => if i.prefersNext here then next else here
    | true, false => here
    | false, true => next
    | false, false => i.search leading (n + 1) fuel

/-- Trailing zeros moved into the exponent. -/
def trimmed (d : Decimal) : Decimal :=
  let rec go (fuel digits : Nat) (exponent : Int) : Decimal :=
    match fuel with
    | 0 => ⟨digits, exponent⟩
    | fuel + 1 =>
      if digits ≠ 0 ∧ digits % 10 = 0 then go fuel (digits / 10) (exponent + 1)
      else ⟨digits, exponent⟩
  go 400 d.digits d.exponent

/-- The shortest decimal that reads back as the finite double `x`, its sign aside. -/
def shortest (x : Double) : Decimal :=
  if x.isZero then ⟨0, 0⟩
  else
    let i := Interval.of x
    (i.search i.leading 1 17).trimmed

/-- How a decimal is written out. -/
structure Layout where
  /-- The least and greatest power of ten of the leading digit that is written without exponent. -/
  least : Int
  greatest : Int
  /-- Written after a whole number. -/
  whole : String
  /-- Written before an exponent that is not negative. -/
  plus : String

def zeros (n : Nat) : String := String.ofList (List.replicate n '0')

/-- `d` without sign, positional where the layout allows it. -/
def Layout.render (l : Layout) (d : Decimal) : String :=
  let ds := toString d.digits
  let lead : Int := d.exponent + (ds.length : Int) - 1
  if l.least ≤ lead ∧ lead ≤ l.greatest then
    if 0 ≤ d.exponent then ds ++ zeros d.exponent.toNat ++ l.whole
    else if 0 ≤ lead then
      let cs := ds.toList
      String.ofList (cs.take (lead.toNat + 1)) ++ "." ++ String.ofList (cs.drop (lead.toNat + 1))
    else "0." ++ zeros (lead.natAbs - 1) ++ ds
  else
    let mantissa := match ds.toList with
      | [] => ""
      | [c] => c.toString
      | c :: cs => c.toString ++ "." ++ String.ofList cs
    mantissa ++ "e" ++ (if lead < 0 then "-" else l.plus) ++ toString lead.natAbs

end Decimal

end GraphSchema
