import GraphSchema.Json.Parser

/-! Reading past a value: the spelling of JSON without what it stands for. Numbers may be
of any size, escapes may name half of a character, and containers nest without end. -/
namespace GraphSchema.Json

/-- What follows a string, from behind its opening quote. -/
def stringEnd? : Nat → List Char → Option (List Char)
  | 0, _ => none
  | _, [] => none
  | fuel + 1, c :: cs =>
    if c = '"' then some cs
    else if c = '\\' then
      match cs with
      | 'u' :: a :: b :: c :: d :: cs => if (hex4? a b c d).isSome then stringEnd? fuel cs else none
      | e :: cs => if (simpleEscape? e).isSome then stringEnd? fuel cs else none
      | [] => none
    else if c.toNat < 0x20 then none
    else stringEnd? fuel cs

mutual

def valueEnd? : Nat → List Char → Option (List Char)
  | 0, _ => none
  | fuel + 1, cs =>
    match skipBlank cs with
    | 'n' :: 'u' :: 'l' :: 'l' :: cs => some cs
    | 't' :: 'r' :: 'u' :: 'e' :: cs => some cs
    | 'f' :: 'a' :: 'l' :: 's' :: 'e' :: cs => some cs
    | '"' :: cs => stringEnd? (cs.length + 1) cs
    | '[' :: cs =>
      match skipBlank cs with
      | ']' :: cs => some cs
      | cs => itemsEnd? fuel cs
    | '\x7b' :: cs =>
      match skipBlank cs with
      | '\x7d' :: cs => some cs
      | cs => membersEnd? fuel cs
    | cs => (Numeral.read? cs).map (·.2)

def itemsEnd? : Nat → List Char → Option (List Char)
  | 0, _ => none
  | fuel + 1, cs =>
    match valueEnd? fuel cs with
    | none => none
    | some cs =>
      match skipBlank cs with
      | ',' :: cs => itemsEnd? fuel cs
      | ']' :: cs => some cs
      | _ => none

def membersEnd? : Nat → List Char → Option (List Char)
  | 0, _ => none
  | fuel + 1, cs =>
    match skipBlank cs with
    | '"' :: cs =>
      match (stringEnd? (cs.length + 1) cs).map skipBlank with
      | some (':' :: cs) =>
        match valueEnd? fuel cs with
        | none => none
        | some cs =>
          match skipBlank cs with
          | ',' :: cs => membersEnd? fuel cs
          | '\x7d' :: cs => some cs
          | _ => none
      | _ => none
    | _ => none

end

/-- What follows the value at the front of the text, if there is one. -/
def past? (cs : List Char) : Option (List Char) := valueEnd? (2 * cs.length + 2) cs

end GraphSchema.Json
