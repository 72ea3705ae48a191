import GraphSchema.Schema.Response

/-! A place in the text of a query with what follows it. A reader takes a cursor and
gives back what it read with the cursor behind it, or nothing if the text does not
fit. Readers look at characters, not at words: `querya` reads as `query` and then
`a` wherever both may follow each other. -/
namespace GraphSchema.Query

/-- A whole text, and what is left of it. -/
structure Cursor where
  text : List Char
  rest : List Char

/-- Reads something off the front of the text. -/
abbrev Reader (α : Type) := Cursor → Option (α × Cursor)

/-- Reads characters without asking where they stand. -/
abbrev Lexeme (α : Type) := List Char → Option (α × List Char)

def isLineEnd (c : Char) : Bool := c = '\n' || c = '\r'

/-- The characters that only separate. -/
def isIgnored (c : Char) : Bool :=
  c = ' ' || c = ',' || c = '\t' || isLineEnd c || c = '\uFEFF'

namespace Cursor

def start (s : String) : Cursor := ⟨s.toList, s.toList⟩

def upTo (c : Cursor) (rest : List Char) : Cursor := { c with rest }

/-- The position after a character. A carriage return goes back to the first column. -/
def advance (p : Position) (c : Char) : Position :=
  if c = '\n' then ⟨p.line + 1, 1⟩
  else if c = '\r' then ⟨p.line, 1⟩
  else ⟨p.line, p.column + 1⟩

/-- Where the rest begins. -/
def position (c : Cursor) : Position :=
  (c.text.take (c.text.length - c.rest.length)).foldl advance ⟨1, 1⟩

/-- What is left after the separators and comments at the front. A comment ends with its line. -/
def unspaced (inComment : Bool) : List Char → List Char
  | [] => []
  | c :: cs =>
    if inComment then unspaced (!isLineEnd c) cs
    else if isIgnored c then unspaced false cs
    else if c = '#' then unspaced true cs
    else c :: cs

/-- The cursor behind the separators and comments. -/
def skip (c : Cursor) : Cursor := c.upTo (unspaced false c.rest)

def sees (c : Cursor) (x : Char) : Bool := c.skip.rest.head? == some x

/-- Where the next thing stands that is more than a separator. -/
def place (c : Cursor) : Position := c.skip.position

end Cursor

namespace Reader

/-- Reads a lexeme after the separators in front of it. -/
def lexeme {α : Type} (r : Lexeme α) : Reader α := fun c =>
  let c := c.skip
  (r c.rest).map fun (a, rest) => (a, c.upTo rest)

/-- The characters of `s`, whatever follows them. -/
def spelled (s : String) : Lexeme Unit := fun cs =>
  if s.toList.isPrefixOf cs then some ((), cs.drop s.length) else none

def literal (s : String) : Reader Unit := lexeme (spelled s)

end Reader

end GraphSchema.Query
