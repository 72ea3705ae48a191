import GraphSchema.Json.Parser

/-! The text of configuration files below the level of values: blanks and comments,
strings and keys. Each reader takes the text that is left and gives back what
follows, or nothing if the text is malformed. -/
namespace GraphSchema.Toml

open Json (hexValue?)

abbrev Reader (α : Type) := List Char → Option (α × List Char)

/-! ### Blanks -/

def isBlank (c : Char) : Bool := c = ' ' || c = '\t'

def skipBlank (cs : List Char) : List Char := cs.dropWhile isBlank

def isControl (c : Char) : Bool := (c.toNat < 0x20 && c != '\t') || c.toNat = 0x7F

/-- The line after a comment, if one stands here; control characters may not stand in it. -/
def skipComment? (cs : List Char) : Option (List Char) :=
  match cs with
  | '#' :: cs =>
    let isEnd (c : Char) : Bool := c = '\n' || c = '\r'
    if (cs.takeWhile (!isEnd ·)).any isControl then none else some (cs.dropWhile (!isEnd ·))
  | cs => some cs

def newline? : List Char → Option (List Char)
  | '\n' :: cs => some cs
  | '\r' :: '\n' :: cs => some cs
  | _ => none

/-- Blanks, comments and line ends. -/
def skipLines? : Nat → List Char → Option (List Char)
  | 0, cs => some cs
  | fuel + 1, cs => do
    let cs ← skipComment? (skipBlank cs)
    match newline? cs with
    | some cs => skipLines? fuel cs
    | none => some cs

/-- The end of a line, or of the text. -/
def lineEnd? (cs : List Char) : Option (List Char) := do
  let cs ← skipComment? (skipBlank cs)
  match cs with
  | [] => some []
  | cs => newline? cs

/-- What is left after blanks and line ends. -/
def skipSpace : List Char → List Char
  | '\r' :: '\n' :: cs => skipSpace cs
  | c :: cs => if isBlank c || c = '\n' then skipSpace cs else c :: cs
  | [] => []

/-! ### Strings -/

def hexCode? (digits : Nat) (cs : List Char) : Option (Char × List Char) := do
  let ds ← (cs.take digits).mapM hexValue?
  if ds.length < digits then none
  let n := ds.foldl (fun n d => n * 16 + d) 0
  if n.isValidChar then some (Char.ofNat n, cs.drop digits) else none

def escape? : Reader Char
  | 'b' :: cs => some ('\x08', cs)
  | 'e' :: cs => some ('\x1b', cs)
  | 't' :: cs => some ('\t', cs)
  | 'n' :: cs => some ('\n', cs)
  | 'f' :: cs => some ('\x0c', cs)
  | 'r' :: cs => some ('\r', cs)
  | '"' :: cs => some ('"', cs)
  | '\\' :: cs => some ('\\', cs)
  | 'x' :: cs => hexCode? 2 cs
  | 'u' :: cs => hexCode? 4 cs
  | 'U' :: cs => hexCode? 8 cs
  | _ => none

/-- A string on one line, after its opening quote. In one of single quotes nothing is escaped. -/
def line? (quote : Char) : Nat → List Char → Reader String
  | 0, _, _ => none
  | _, _, [] => none
  | fuel + 1, done, c :: cs =>
    if c = quote then some (String.ofList done.reverse, cs)
    else if c = '\\' ∧ quote = '"' then
      match escape? cs with
      | some (c, cs) => line? quote fuel (c :: done) cs
      | none => none
    else if isControl c then none
    else line? quote fuel (c :: done) cs

/-- A string over several lines, after its opening quotes. A backslash at the end of a line takes
the line end and all blanks after it away. -/
def lines? (quote : Char) : Nat → List Char → Reader String
  | 0, _, _ => none
  | _, _, [] => none
  | fuel + 1, done, c :: cs =>
    if c = quote ∧ cs.take 2 = [quote, quote] then
      let extra := ((cs.drop 2).take 2).takeWhile (· = quote)
      some (String.ofList (extra ++ done).reverse, cs.drop (2 + extra.length))
    else if c = '\\' ∧ quote = '"' then
      match newline? (skipBlank cs) with
      | some cs => lines? quote fuel done (skipSpace cs)
      | none =>
        match escape? cs with
        | some (c, cs) => lines? quote fuel (c :: done) cs
        | none => none
    else if c = '\r' ∧ cs.head? ≠ some '\n' then none
    else if isControl c ∧ c ≠ '\n' ∧ c ≠ '\r' then none
    else lines? quote fuel (c :: done) cs

def string? (quote : Char) (cs : List Char) : Option (String × List Char) :=
  if cs.take 2 = [quote, quote] then
    let body := cs.drop 2
    lines? quote (cs.length + 1) [] ((newline? body).getD body)
  else line? quote (cs.length + 1) [] cs

/-! ### Keys -/

def isBareChar (c : Char) : Bool := c.isAlphanum || c = '_' || c = '-'

def simpleKey? : Reader String
  | '"' :: cs => line? '"' (cs.length + 1) [] cs
  | '\'' :: cs => line? '\'' (cs.length + 1) [] cs
  | cs =>
    match cs.takeWhile isBareChar with
    | [] => none
    | name => some (String.ofList name, cs.dropWhile isBareChar)

/-- Names with points between them, blanks around each. -/
def names? : Nat → Reader (List String)
  | 0, _ => none
  | fuel + 1, cs => do
    let (name, cs) ← simpleKey? (skipBlank cs)
    match skipBlank cs with
    | '.' :: cs =>
      let (names, cs) ← names? fuel cs
      return (name :: names, cs)
    | cs => return ([name], cs)

/-- A key has at most so many names. -/
def maxNames : Nat := 80

def key? : Reader (List String) := fun cs => do
  let (names, cs) ← names? (maxNames + 1) cs
  if names.length ≤ maxNames then some (names, cs) else none

end GraphSchema.Toml
