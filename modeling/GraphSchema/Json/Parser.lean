import GraphSchema.Json.Basic
import GraphSchema.Number.Numeral

/-! Reading JSON text. Each reader takes the text that is left and gives back what
it read with the text that follows, or nothing if the text is malformed. Strings
hold no bare control characters and no lone surrogates, a list has no trailing
comma, and containers nest at most 127 deep. -/
namespace GraphSchema.Json

def isBlank (c : Char) : Bool := c = ' ' || c = '\t' || c = '\n' || c = '\r'

def skipBlank (cs : List Char) : List Char := cs.dropWhile isBlank

def hexValue? (c : Char) : Option Nat :=
  if '0' ≤ c ∧ c ≤ '9' then some (c.toNat - '0'.toNat)
  else if 'a' ≤ c ∧ c ≤ 'f' then some (c.toNat - 'a'.toNat + 10)
  else if 'A' ≤ c ∧ c ≤ 'F' then some (c.toNat - 'A'.toNat + 10)
  else none

def hex4? (a b c d : Char) : Option Nat := do
  let a ← hexValue? a
  let b ← hexValue? b
  let c ← hexValue? c
  let d ← hexValue? d
  return ((a * 16 + b) * 16 + c) * 16 + d

def simpleEscape? (c : Char) : Option Char :=
  match c with
  | '"' => some '"'
  | '\\' => some '\\'
  | '/' => some '/'
  | 'b' => some '\x08'
  | 'f' => some '\x0c'
  | 'n' => some '\n'
  | 'r' => some '\r'
  | 't' => some '\t'
  | _ => none

/-- A character escaped as one UTF-16 unit, or as two where the first is a surrogate. -/
def unicodeEscape? : List Char → Option (Char × List Char)
  | a :: b :: c :: d :: rest =>
    match hex4? a b c d with
    | none => none
    | some u =>
      if 0xD800 ≤ u ∧ u < 0xDC00 then
        match rest with
        | '\\' :: 'u' :: a :: b :: c :: d :: rest =>
          match hex4? a b c d with
          | some v =>
            if 0xDC00 ≤ v ∧ v < 0xE000 then
              some (Char.ofNat (0x10000 + (u - 0xD800) * 0x400 + (v - 0xDC00)), rest)
            else none
          | none => none
        | _ => none
      else if 0xDC00 ≤ u ∧ u < 0xE000 then none
      else some (Char.ofNat u, rest)
  | _ => none

/-- The rest of a string after its opening quote. -/
def stringBody? : Nat → List Char → List Char → Option (String × List Char)
  | 0, _, _ => none
  | _, _, [] => none
  | fuel + 1, done, c :: cs =>
    if c = '"' then some (String.ofList done.reverse, cs)
    else if c = '\\' then
      match cs with
      | 'u' :: cs =>
        match unicodeEscape? cs with
        | some (c, cs) => stringBody? fuel (c :: done) cs
        | none => none
      | e :: cs =>
        match simpleEscape? e with
        | some c => stringBody? fuel (c :: done) cs
        | none => none
      | [] => none
    else if c.toNat < 0x20 then none
    else stringBody? fuel (c :: done) cs

def string? : List Char → Option (String × List Char)
  | '"' :: cs => stringBody? (cs.length + 1) [] cs
  | _ => none

def number? (cs : List Char) : Option (Number × List Char) := do
  let (x, rest) ← Numeral.read? cs
  return (← x.number?, rest)

mutual

/-- `depth` counts the containers that may still be opened. -/
def value? : Nat → Nat → List Char → Option (Json × List Char)
  | 0, _, _ => none
  | fuel + 1, depth, cs =>
    match skipBlank cs with
    | 'n' :: 'u' :: 'l' :: 'l' :: cs => some (.null, cs)
    | 't' :: 'r' :: 'u' :: 'e' :: cs => some (.bool true, cs)
    | 'f' :: 'a' :: 'l' :: 's' :: 'e' :: cs => some (.bool false, cs)
    | '"' :: cs => (stringBody? (cs.length + 1) [] cs).map fun (s, cs) => (.str s, cs)
    | '[' :: cs =>
      if depth ≤ 1 then none else
      match skipBlank cs with
      | ']' :: cs => some (.arr [], cs)
      | cs => items? fuel (depth - 1) [] cs
    | '\x7b' :: cs =>
      if depth ≤ 1 then none else
      match skipBlank cs with
      | '\x7d' :: cs => some (.obj [], cs)
      | cs => members? fuel (depth - 1) [] cs
    | cs => (number? cs).map fun (n, cs) => (.num n, cs)

def items? : Nat → Nat → List Json → List Char → Option (Json × List Char)
  | 0, _, _, _ => none
  | fuel + 1, depth, done, cs =>
    match value? fuel depth cs with
    | none => none
    | some (v, cs) =>
      match skipBlank cs with
      | ',' :: cs => items? fuel depth (v :: done) cs
      | ']' :: cs => some (.arr (v :: done).reverse, cs)
      | _ => none

def members? : Nat → Nat → List (String × Json) → List Char → Option (Json × List Char)
  | 0, _, _, _ => none
  | fuel + 1, depth, done, cs =>
    match string? (skipBlank cs) with
    | none => none
    | some (k, cs) =>
      match skipBlank cs with
      | ':' :: cs =>
        match value? fuel depth cs with
        | none => none
        | some (v, cs) =>
          match skipBlank cs with
          | ',' :: cs => members? fuel depth ((k, v) :: done) cs
          | '\x7d' :: cs => some (.obj ((k, v) :: done).reverse, cs)
          | _ => none
      | _ => none

end

/-- The value at the front of the text. Every step of the reader takes a character or opens
a level, so twice the length is fuel enough. -/
def read? (cs : List Char) : Option (Json × List Char) := value? (2 * cs.length + 2) 128 cs

/-- The document that the whole text spells. -/
def parse? (s : String) : Option Json :=
  match read? s.toList with
  | some (v, rest) => if (skipBlank rest).isEmpty then some v else none
  | none => none

end GraphSchema.Json
