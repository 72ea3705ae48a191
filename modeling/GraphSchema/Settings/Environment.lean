import GraphSchema.Settings.KeyPath
import GraphSchema.Settings.Reading

/-! Settings from environment variables. A variable counts if its name starts with a mark
of the program; the rest of the name, in small letters, is the path of the setting. -/
namespace GraphSchema.Environment

open Numeral (isDigit natOf)

def integer? (s : String) : Option Int :=
  let (negative, ds) := match s.toList with
    | '-' :: cs => (true, cs)
    | '+' :: cs => (false, cs)
    | cs => (false, cs)
  if ds.isEmpty || !ds.all isDigit then none
  else
    let n : Int := if negative then -(natOf ds : Int) else natOf ds
    if Number.isInt64 n then some n else none

/-- The exponent of a float, if there is one; it ends the text. -/
def exponent? : List Char → Option Int
  | [] => some 0
  | c :: cs =>
    if c ≠ 'e' ∧ c ≠ 'E' then none
    else
      let (negative, ds) := match cs with
        | '-' :: ds => (true, ds)
        | '+' :: ds => (false, ds)
        | ds => (false, ds)
      if ds.isEmpty || !ds.all isDigit then none
      else some (if negative then -(natOf ds : Int) else natOf ds)

/-- A float without its sign. A point may stand before or after all digits. -/
def magnitude? (negative : Bool) (cs : List Char) : Option Double :=
  let sign (f : Float) : Double := Double.ofFloat (if negative then -f else f)
  let word := Text.lower (String.ofList cs)
  if word == "inf" || word == "infinity" then some (sign (1.0 / 0.0))
  else if word == "nan" then some (sign (0.0 / 0.0))
  else
    let whole := cs.takeWhile isDigit
    let (fraction, rest) := match cs.dropWhile isDigit with
      | '.' :: cs => (cs.takeWhile isDigit, cs.dropWhile isDigit)
      | cs => ([], cs)
    if whole.isEmpty && fraction.isEmpty then none
    else (exponent? rest).map fun e =>
      Double.ofDecimal negative (natOf (whole ++ fraction)) (e - fraction.length)

def float? (s : String) : Option Double :=
  match s.toList with
  | '-' :: cs => magnitude? true cs
  | '+' :: cs => magnitude? false cs
  | cs => magnitude? false cs

/-- What the text of a variable is taken for: a flag, an integer, a float, or else the text. -/
def settingOf (s : String) : Setting :=
  let word := Text.lower s
  if word == "true" then .flag true
  else if word == "false" then .flag false
  else
    match integer? s, float? s with
    | some n, _ => .whole n
    | none, some x => .float x
    | none, none => .text s

/-- The path that a variable sets, if its name starts with the mark. Levels are set apart by the
separator. -/
def path? (mark separator name : String) : Option (List PathStep) :=
  let name := Text.lower name
  let start := Text.lower (mark ++ separator)
  if name.startsWith start then
    some (PathStep.ofKey ((name.drop start.length).toString.replace separator "."))
  else none

/-- The variables laid over a setting. -/
def overlay (mark separator : String) (environment : List (String × String)) (s : Setting) :
    Setting :=
  environment.foldl (fun s (name, value) => match path? mark separator name with
    | some path => s.overlayAt path (settingOf value)
    | none => s) s

end GraphSchema.Environment
