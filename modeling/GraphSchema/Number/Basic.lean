import GraphSchema.Decimal.Shortest

/-! Numbers of a query, a variable or a document: integers stay apart from floats,
so `2` and `2.0` are two numbers. -/
namespace GraphSchema

inductive Number where
  | int (n : Int)
  /-- A finite double. -/
  | float (x : Double)
  deriving DecidableEq, Repr

namespace Number

/-- Floats are written with the fewest digits that read back, without an exponent while the
leading digit stands between 10^-5 and 10^15, and a whole one keeps its `.0`. -/
def layout : Decimal.Layout := ⟨-5, 15, ".0", "+"⟩

def text : Number → String
  | .int n => toString n
  | .float x => (if x.isNegative then "-" else "") ++ layout.render (Decimal.shortest x)

def ofFloat? (x : Double) : Option Number := if x.isFinite then some (.float x) else none

def isInt32 (n : Int) : Bool := -0x80000000 ≤ n && n < 0x80000000

def isInt64 (n : Int) : Bool := -0x8000000000000000 ≤ n && n < 0x8000000000000000

def isUInt64 (n : Int) : Bool := 0 ≤ n && n < 0x10000000000000000

/-- The integer itself, if it fits 32 bits. -/
def int32? : Number → Option Int
  | .int n => if isInt32 n then some n else none
  | .float _ => none

/-- Whether the number is an integer of 64 bits, with or without sign. -/
def isWord : Number → Bool
  | .int n => isInt64 n || isUInt64 n
  | .float _ => false

def fitsInt64 : Number → Bool
  | .int n => isInt64 n
  | .float _ => false

/-- An integer read from text becomes a float where 64 bits do not hold it, and minus zero
is a float as well. `none` if the number is out of the range of doubles. -/
def ofIntText (negative : Bool) (n : Nat) : Option Number :=
  let i : Int := if negative then -(n : Int) else n
  if negative && n == 0 then some (.float (Double.ofFloat (-0.0)))
  else if isInt64 i || isUInt64 i then some (.int i)
  else ofFloat? (Double.ofDecimal negative n 0)

def toDouble : Number → Double
  | .int n => Double.ofInt n
  | .float x => x

/-- Equality of amounts within each kind: minus zero is zero, an integer is no float. -/
def same : Number → Number → Bool
  | .int a, .int b => a == b
  | .float x, .float y => x.toFloat == y.toFloat
  | _, _ => false

end Number

end GraphSchema
