/-! Strings as they are written inside a query or a schema: between double quotes,
with the usual escapes. A control character that has no escape of its own is
written as `\u` and its code in four decimal digits. -/
namespace GraphSchema.Text

/-- The controls: code points below the space, delete, and the block above it. -/
def isControl (c : Char) : Bool :=
  c.toNat < 0x20 || (0x7F ≤ c.toNat && c.toNat < 0xA0)

/-- At least `width` digits, with zeros in front. -/
def padded (width n : Nat) : String :=
  let digits := toString n
  String.ofList (List.replicate (width - digits.length) '0') ++ digits

def quotedChar (c : Char) : String :=
  match c with
  | '\r' => "\\r"
  | '\n' => "\\n"
  | '\t' => "\\t"
  | '"' => "\\\""
  | '\\' => "\\\\"
  | c => if isControl c then "\\u" ++ padded 4 c.toNat else c.toString

def quoted (s : String) : String :=
  "\"" ++ String.join (s.toList.map quotedChar) ++ "\""

/-- The escapes of a deprecation reason, which leaves quotes alone. -/
def reasonChar (c : Char) : String :=
  match c with
  | '\\' => "\\\\"
  | '\x08' => "\\b"
  | '\x0c' => "\\f"
  | '\n' => "\\n"
  | '\r' => "\\r"
  | '\t' => "\\t"
  | c => c.toString

def escapedReason (s : String) : String := String.join (s.toList.map reasonChar)

end GraphSchema.Text
