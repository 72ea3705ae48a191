import GraphSchema.Json.Parser
import GraphSchema.Query.Cursor
import GraphSchema.Schema.TypeRef
import GraphSchema.Text.Name

/-! Names, numbers, strings and types as they are spelled, with no separators inside.
Each is read as far as it goes and no further: of `01` only the zero is a number,
and of a block string that is never closed only its first two quotes are a string. -/
namespace GraphSchema.Query.Literal

def name? : Lexeme String
  | c :: cs =>
    if Text.isNameStart c then
      some (String.ofList (c :: cs.takeWhile Text.isNameContinue),
        cs.dropWhile Text.isNameContinue)
    else none
  | [] => none

/-- The longest number at the front. -/
def number? : Lexeme Number := fun cs => do
  let (x, rest) ← Numeral.longest? cs
  return (← x.number?, rest)

/-! ### Strings -/

/-- A unit written as four hexadecimal digits; a surrogate is no character. -/
def scalar? (a b c d : Char) : Option Char :=
  match Json.hex4? a b c d with
  | some u => if 0xD800 ≤ u ∧ u < 0xE000 then none else some (Char.ofNat u)
  | none => none

/-- The rest of a string on one line, after its opening quote. -/
def lineString? : Nat → List Char → Lexeme String
  | 0, _, _ => none
  | _, _, [] => none
  | fuel + 1, done, c :: cs =>
    if c = '"' then some (String.ofList done.reverse, cs)
    else if isLineEnd c then none
    else if c = '\\' then
      match cs with
      | 'u' :: a :: b :: c :: d :: cs =>
        match scalar? a b c d with
        | some x => lineString? fuel (x :: done) cs
        | none => none
      | e :: cs =>
        match Json.simpleEscape? e with
        | some x => lineString? fuel (x :: done) cs
        | none => none
      | [] => none
    else lineString? fuel (c :: done) cs

/-- The text of a block string after its opening quotes. Three quotes behind a backslash do not
close it; the backslash stays in the text. -/
def blockText? : Nat → List Char → Lexeme (List Char)
  | 0, _, _ => none
  | _, done, '"' :: '"' :: '"' :: cs => some (done.reverse, cs)
  | fuel + 1, done, '\\' :: '"' :: '"' :: '"' :: cs =>
    blockText? fuel ('"' :: '"' :: '"' :: '\\' :: done) cs
  | fuel + 1, done, c :: cs => blockText? fuel (c :: done) cs
  | _, _, [] => none

/-- The lines of a text; a carriage return with or without line feed ends a line too. -/
def lines : List Char → List Char → List (List Char)
  | done, [] => [done.reverse]
  | done, '\r' :: '\n' :: cs => done.reverse :: lines [] cs
  | done, c :: cs => if isLineEnd c then done.reverse :: lines [] cs else lines (c :: done) cs

def isIndent (c : Char) : Bool := c = ' ' || c = '\t'

def isBlankLine (line : List Char) : Bool := line.all isIndent

/-- The indentation that all lines after the first have in common, blank lines aside. -/
def commonIndent (ls : List (List Char)) : Nat :=
  let indents := (ls.drop 1).filterMap fun line =>
    if isBlankLine line then none else some (line.takeWhile isIndent).length
  indents.min?.getD 0

/-- The line without the indentation; one that is shorter stays as it is. -/
def outdent (indent : Nat) (line : List Char) : List Char :=
  if indent ≤ line.length then line.drop indent else line

/-- The value of a block string: the common indentation and blank lines at both ends go. -/
def blockValue (raw : List Char) : String :=
  let ls := lines [] raw
  let indent := commonIndent ls
  let shifted := match ls with
    | [] => []
    | first :: rest => first :: rest.map (outdent indent)
  let kept := (shifted.dropWhile isBlankLine).reverse.dropWhile isBlankLine |>.reverse
  "\n".intercalate (kept.map String.ofList)

def block? : Lexeme String
  | '"' :: '"' :: '"' :: cs =>
    (blockText? (cs.length + 1) [] cs).map fun (raw, rest) => (blockValue raw, rest)
  | _ => none

def line? : Lexeme String
  | '"' :: cs => lineString? (cs.length + 1) [] cs
  | _ => none

/-- A block string if there is a whole one, else a string on one line. -/
def string? : Lexeme String := fun cs => (block? cs).or (line? cs)

/-! ### Types -/

def type? : Nat → Lexeme TypeRef
  | 0, _ => none
  | fuel + 1, cs => do
    let (inner, cs) ← match cs with
      | '[' :: cs =>
        match type? fuel cs with
        | some (inner, ']' :: cs) => some (.list inner, cs)
        | _ => none
      | cs => (name? cs).map fun (s, cs) => (TypeRef.named s, cs)
    match cs with
    | '!' :: cs => return (.nonNull inner, cs)
    | cs => return (inner, cs)

/-- The condition of a fragment: `on`, separators but no comment, and the name of a type. -/
def condition? : Lexeme String
  | 'o' :: 'n' :: c :: cs => if isIgnored c then name? (cs.dropWhile isIgnored) else none
  | _ => none

end GraphSchema.Query.Literal
