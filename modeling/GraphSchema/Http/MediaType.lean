import GraphSchema.Settings.Reading

/-! Media types, as far as it takes to know JSON: a type, a subtype that may end in a
suffix after a plus, and parameters. Small and capital letters are the same, and
blanks stand only after a semicolon or a quoted value. -/
namespace GraphSchema.Http

def isTokenChar (c : Char) : Bool := c.isAlphanum || "!#$%&'*+-.^_\x60|~".toList.contains c

/-- A character that shows, or a blank. -/
def isPlainChar (c : Char) : Bool := 0x20 ≤ c.toNat && c.toNat < 0x7F

/-- The text after a quoted value, from behind its opening quote. The value has at least one
character, which may be a quote itself; a backslash means nothing. -/
def quotedEnd? : List Char → Option (List Char)
  | [] => none
  | _ :: cs =>
    match cs.dropWhile (· ≠ '"') with
    | _ :: cs => some cs
    | [] => none

/-- The text from the semicolon after a parameter, which is a name, an equals sign and a value,
perhaps in quotes. Only the last value may be empty. -/
def parameterEnd? (cs : List Char) : Option (List Char) :=
  match cs.takeWhile isTokenChar, cs.dropWhile isTokenChar with
  | [], _ => none
  | _, '=' :: '"' :: cs => (quotedEnd? cs).map (·.dropWhile (· = ' '))
  | _, '=' :: ';' :: _ => none
  | _, '=' :: cs => some (cs.dropWhile isTokenChar)
  | _, _ => none

/-- Whether parameters, each after a semicolon, go on to the end. -/
def areParameters : Nat → List Char → Bool
  | 0, _ => false
  | _, [] => true
  | fuel + 1, ';' :: cs =>
    match cs.dropWhile (· = ' ') with
    | [] => true
    | cs => match parameterEnd? cs with
      | some cs => areParameters fuel cs
      | none => false
  | _, _ => false

/-- The two sides of the last plus of a subtype. A plus in front is no such plus. -/
def splitSuffix (subtype : List Char) : List Char × Option (List Char) :=
  let after := (subtype.reverse.takeWhile (· ≠ '+')).reverse
  if after.length + 1 < subtype.length then
    (subtype.take (subtype.length - after.length - 1), some after)
  else (subtype, none)

/-- Whether the media type is that of JSON, a variety of it or a format in it. -/
def isJson (mediaType : String) : Bool :=
  let cs := (Text.lower mediaType).toList
  match cs.dropWhile isTokenChar with
  | '/' :: rest =>
    let (kind, suffix) := splitSuffix (rest.takeWhile isTokenChar)
    cs.all isPlainChar && String.ofList (cs.takeWhile isTokenChar) == "application" &&
      (kind == "json".toList || suffix == some "json".toList) &&
      areParameters (cs.length + 1) (rest.dropWhile isTokenChar)
  | _ => false

end GraphSchema.Http
