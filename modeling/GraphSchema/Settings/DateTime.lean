import GraphSchema.Number.Numeral

/-! Dates and times of day, alone or together, and together with their distance from
universal time. They are read in several spellings and written in one. -/
namespace GraphSchema

structure Date where
  year : Nat
  month : Nat
  day : Nat
  deriving DecidableEq, Repr

namespace Date

def isLeap (year : Nat) : Bool := year % 4 = 0 && (year % 100 ≠ 0 || year % 400 = 0)

def daysIn (year month : Nat) : Nat :=
  if month = 2 then (if isLeap year then 29 else 28)
  else if month ∈ [4, 6, 9, 11] then 30
  else 31

/-- Whether the calendar has the day. -/
def isValid (d : Date) : Bool :=
  1 ≤ d.month && d.month ≤ 12 && 1 ≤ d.day && d.day ≤ daysIn d.year d.month

end Date

structure TimeOfDay where
  hour : Nat
  minute : Nat
  second : Option Nat
  /-- The digits behind the second. -/
  fraction : Option (List Char)
  deriving DecidableEq, Repr

namespace TimeOfDay

/-- Whether clocks show the time. A minute may have a leap second. -/
def isValid (t : TimeOfDay) : Bool := t.hour ≤ 23 && t.minute ≤ 59 && t.second.getD 0 ≤ 60

end TimeOfDay

/-- A distance from universal time. -/
inductive TimeOffset where
  | none
  | universal
  | minutes (n : Int)
  deriving DecidableEq, Repr

inductive DateTime where
  | date (d : Date)
  | time (t : TimeOfDay)
  | both (d : Date) (t : TimeOfDay) (offset : TimeOffset)
  deriving DecidableEq, Repr

namespace DateTime

open Numeral (isDigit natOf digits1?)

/-! ### Reading -/

/-- Exactly so many digits. -/
def digits? (count : Nat) (cs : List Char) : Option (Nat × List Char) :=
  let ds := cs.takeWhile isDigit
  if ds.length = count then some (natOf ds, cs.drop count) else .none

def mark? (c : Char) : List Char → Option (List Char)
  | d :: cs => if c = d then some cs else .none
  | [] => .none

def date? (cs : List Char) : Option (Date × List Char) := do
  let (year, cs) ← digits? 4 cs
  let (month, cs) ← digits? 2 (← mark? '-' cs)
  let (day, cs) ← digits? 2 (← mark? '-' cs)
  let d : Date := ⟨year, month, day⟩
  if d.isValid then some (d, cs) else .none

def fraction? : List Char → Option (Option (List Char) × List Char)
  | '.' :: cs => (digits1? cs).map fun (ds, cs) => (some ds, cs)
  | cs => some (.none, cs)

/-- Hours and minutes, perhaps seconds, perhaps a fraction of them. -/
def time? (cs : List Char) : Option (TimeOfDay × List Char) := do
  let (hour, cs) ← digits? 2 cs
  let (minute, cs) ← digits? 2 (← mark? ':' cs)
  let (t, cs) ← match cs with
    | ':' :: cs => do
      let (second, cs) ← digits? 2 cs
      let (fraction, cs) ← fraction? cs
      some (TimeOfDay.mk hour minute (some second) fraction, cs)
    | cs => some (⟨hour, minute, .none, .none⟩, cs)
  if t.isValid then some (t, cs) else .none

def signedOffset? (negative : Bool) (cs : List Char) : Option TimeOffset := do
  let (hours, cs) ← digits? 2 cs
  let (minutes, cs) ← digits? 2 (← mark? ':' cs)
  let n : Int := hours * 60 + minutes
  if cs.isEmpty && hours ≤ 23 && minutes ≤ 59 then some (.minutes (if negative then -n else n))
  else .none

/-- The offset that ends a date and time. -/
def offset? : List Char → Option TimeOffset
  | [] => some .none
  | ['Z'] | ['z'] => some .universal
  | '+' :: cs => signedOffset? false cs
  | '-' :: cs => signedOffset? true cs
  | _ => .none

/-- The date, the time or both that the whole text spells. A letter or a blank stands between
them. -/
def parse? (cs : List Char) : Option DateTime :=
  match date? cs with
  | some (d, []) => some (.date d)
  | some (d, c :: cs) =>
    if c = 'T' ∨ c = 't' ∨ c = ' ' then do
      let (t, cs) ← time? cs
      return .both d t (← offset? cs)
    else .none
  | .none =>
    match time? cs with
    | some (t, []) => some (.time t)
    | _ => .none

/-! ### Writing -/

def padded (width n : Nat) : String :=
  let s := toString n
  "".pushn '0' (width - s.length) ++ s

def dateText (d : Date) : String :=
  padded 4 d.year ++ "-" ++ padded 2 d.month ++ "-" ++ padded 2 d.day

/-- Up to nine digits of a fraction, without zeros behind, but one at least. -/
def fractionText (ds : List Char) : String :=
  match ((ds.take 9).reverse.dropWhile (· = '0')).reverse with
  | [] => "0"
  | ds => String.ofList ds

def timeText (t : TimeOfDay) : String :=
  padded 2 t.hour ++ ":" ++ padded 2 t.minute ++
    (match t.second with
      | some s => ":" ++ padded 2 s
      | .none => "") ++
    (match t.fraction with
      | some ds => "." ++ fractionText ds
      | .none => "")

def offsetText : TimeOffset → String
  | .none => ""
  | .universal => "Z"
  | .minutes n =>
    (if n < 0 then "-" else "+") ++ padded 2 (n.natAbs / 60) ++ ":" ++ padded 2 (n.natAbs % 60)

def text : DateTime → String
  | date d => dateText d
  | time t => timeText t
  | both d t offset => dateText d ++ "T" ++ timeText t ++ offsetText offset

end DateTime

end GraphSchema
