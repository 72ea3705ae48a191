/-! Double precision numbers, kept as their bits so that two of them can be told
apart by equality, zero from minus zero included. -/
namespace GraphSchema

structure Double where
  bits : UInt64
  deriving DecidableEq, Repr

namespace Double

def ofFloat (x : Float) : Double := ⟨x.toBits⟩

def toFloat (x : Double) : Float := Float.ofBits x.bits

/-- The bit of the sign, `2 ^ 63`. -/
def signBit : Nat := 0x8000000000000000

/-- The leading bit of a normal significand, `2 ^ 52`. It is not written; the exponent field begins
in its place. -/
def hiddenBit : Nat := 0x10000000000000

/-- The bits of infinity. -/
def infinityBits : Nat := 2047 * hiddenBit

/-- Set for negative numbers and minus zero. -/
def isNegative (x : Double) : Bool := x.bits.toNat ≥ signBit

/-- The exponent field: 0 for zero and the subnormals, 2047 for infinities and NaN. -/
def exponentField (x : Double) : Nat := x.bits.toNat / hiddenBit % 2048

def fractionField (x : Double) : Nat := x.bits.toNat % hiddenBit

def isFinite (x : Double) : Bool := x.exponentField != 2047

/-- The magnitude of a finite number is `significand * 2 ^ (scale - 1074)`. -/
def significand (x : Double) : Nat :=
  if x.exponentField = 0 then x.fractionField else hiddenBit + x.fractionField

def scale (x : Double) : Nat := x.exponentField - 1

def isZero (x : Double) : Bool := x.significand == 0

/-! ### Rounding -/

/-- The quotient, rounded to the nearest integer, a half going to the even one. -/
def roundDiv (n d : Nat) : Nat :=
  let q := n / d
  let twice := 2 * (n % d)
  if twice > d ∨ (twice = d ∧ q % 2 = 1) then q + 1 else q

/-- The scale at which the significand of the ratio has 53 bits, or the least one there is. -/
def scaleOf (n d : Nat) : Int :=
  let e : Int := n.log2 - d.log2 - 52
  let fits := if 0 ≤ e then hiddenBit * d * Nat.pow 2 e.toNat ≤ n
    else hiddenBit * d ≤ n * Nat.pow 2 (-e).toNat
  max (if fits then e else e - 1) (-1074)

/-- The bits without the sign of the double nearest to a ratio. The significand carries its leading
bit into the exponent field, and so does one that rounds up to the next power of two. -/
def magnitudeBits (n d : Nat) : Nat :=
  if n = 0 then 0
  else
    let e := scaleOf n d
    let q := if 0 ≤ e then roundDiv n (d * Nat.pow 2 e.toNat)
      else roundDiv (n * Nat.pow 2 (-e).toNat) d
    min ((e + 1074).toNat * hiddenBit + q) infinityBits

/-- A double of the given sign; beyond the greatest one the bits are those of infinity. -/
def ofMagnitude (negative : Bool) (bits : Nat) : Double :=
  ⟨UInt64.ofNat (if negative then signBit + bits else bits)⟩

/-- The nearest double to `mantissa * 10 ^ exponent`, a half going to the even neighbour.
Beyond the range the result is infinite or zero. -/
def ofDecimal (negative : Bool) (mantissa : Nat) (exponent : Int) : Double :=
  let digits := (toString mantissa).length
  ofMagnitude negative <|
    if mantissa = 0 ∨ exponent + digits < -330 then 0
    else if exponent + digits > 310 then infinityBits
    else if exponent < 0 then magnitudeBits mantissa (Nat.pow 10 exponent.natAbs)
    else magnitudeBits (mantissa * Nat.pow 10 exponent.natAbs) 1

/-- The nearest double to an integer. -/
def ofInt (n : Int) : Double := ofDecimal (n < 0) n.natAbs 0

end Double

end GraphSchema
