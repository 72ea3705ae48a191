import GraphSchema.Decimal.Shortest
import GraphSchema.Number.Numeral
import GraphSchema.Settings.Setting

/-! Reading settings as data. A document means what it says: a number is no text and a
text is no flag. Settings from files and the environment are taken for what is
asked for wherever that makes sense. A record is read from a table by name or from
a list by place. -/
namespace GraphSchema

namespace Text

def lower (s : String) : String := s.map Char.toLower

end Text

namespace Number

def maxWord : Nat := 0xFFFFFFFFFFFFFFFF

/-- A double as decimal digits without an exponent. -/
def plainFloat (x : Double) : String :=
  if x.exponentField = 2047 then
    if x.fractionField ≠ 0 then "NaN" else if x.isNegative then "-inf" else "inf"
  else (if x.isNegative then "-" else "") ++
    (⟨-400, 400, "", ""⟩ : Decimal.Layout).render (Decimal.shortest x)

/-- Digits with an optional plus, as a word of 64 bits. -/
def wordOfText? (s : String) : Option Nat :=
  let ds := match s.toList with
    | '+' :: cs => cs
    | cs => cs
  if ds.isEmpty || !ds.all Numeral.isDigit then none
  else if Numeral.natOf ds ≤ maxWord then some (Numeral.natOf ds) else none

/-- The nearest word of 64 bits, a half going away from zero. -/
def wordOfFloat (x : Double) : Nat := x.toFloat.round.toUInt64.toNat

end Number

/-- How settings are taken for flags, numbers and texts. -/
structure Convention where
  flag? : Setting → Option Bool
  /-- A word of 64 bits. -/
  word? : Setting → Option Nat
  text? : Setting → Option String
  /-- Whether a list may be longer than the record it is read as. -/
  allowsMore : Bool

namespace Convention

def strict : Convention where
  flag?
    | .flag b => some b
    | _ => none
  word?
    | .whole n => if 0 ≤ n ∧ n ≤ Number.maxWord then some n.toNat else none
    | _ => none
  text?
    | .text s => some s
    | _ => none
  allowsMore := false

def lenientFlag? : Setting → Option Bool
  | .flag b => some b
  | .whole n => some (n != 0)
  | .float x => some (x.toFloat != 0.0)
  | .text s =>
    let word := Text.lower s
    if ["1", "true", "on", "yes"].contains word then some true
    else if ["0", "false", "off", "no"].contains word then some false
    else none
  | _ => none

def lenientWord? : Setting → Option Nat
  | .flag b => some b.toNat
  | .whole n => if 0 ≤ n ∧ n ≤ Number.maxWord then some n.toNat else none
  | .float x => some (Number.wordOfFloat x)
  | .text s =>
    let word := Text.lower s
    if ["true", "on", "yes"].contains word then some 1
    else if ["false", "off", "no"].contains word then some 0
    else Number.wordOfText? s
  | _ => none

def lenientText? : Setting → Option String
  | .text s => some s
  | .flag b => some (if b then "true" else "false")
  | .whole n => some (toString n)
  | .float x => some (Number.plainFloat x)
  | _ => none

def lenient : Convention where
  flag? := lenientFlag?
  word? := lenientWord?
  text? := lenientText?
  allowsMore := true

/-- What a setting holds for each field of a record. -/
def fields? (c : Convention) (names : List String) : Setting → Option (List (Option Setting))
  | .table es => some (names.map fun name => (Setting.table es).get? name)
  | .list items =>
    if !c.allowsMore && items.length > names.length then none
    else some ((List.range names.length).map fun i => items[i]?)
  | _ => none

/-- Reads a field, which has a default. -/
def field? {α : Type} (read : Setting → Option α) (default : α) : Option Setting → Option α
  | some s => read s
  | none => some default

/-- A number that may be absent. -/
def optionalWord? (c : Convention) : Setting → Option (Option Nat)
  | .nothing => some none
  | s => (c.word? s).map some

/-- A number up to a bound. -/
def bounded? (c : Convention) (bound : Nat) (s : Setting) : Option Nat :=
  (c.word? s).bind fun n => if n ≤ bound then some n else none

end Convention

end GraphSchema
