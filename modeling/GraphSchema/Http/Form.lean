import GraphSchema.Json.Parser

/-! Forms in an address: names with values, where a plus stands for a blank and any byte
may be written as a percent sign with two digits. Bytes that are no UTF-8 become
replacement characters, one for each piece that could have been the start of a
character. -/
namespace GraphSchema.Http

/-! ### Bytes -/

/-- The bytes that a name or a value stands for. -/
def decodeBytes : List Nat → List Nat
  | 0x2B :: bs => 0x20 :: decodeBytes bs
  | 0x25 :: a :: b :: bs =>
    match Json.hexValue? (Char.ofNat a), Json.hexValue? (Char.ofNat b) with
    | some x, some y => (x * 16 + y) :: decodeBytes bs
    | _, _ => 0x25 :: decodeBytes (a :: b :: bs)
  | b :: bs => b :: decodeBytes bs
  | [] => []

/-- What a byte starts: how many bytes follow it, which ones may come next, and its own bits. -/
structure Lead where
  following : Nat
  least : Nat
  greatest : Nat
  bits : Nat

def lead? (b : Nat) : Option Lead :=
  if b < 0x80 then some ⟨0, 0x80, 0xBF, b⟩
  else if b < 0xC2 then none
  else if b < 0xE0 then some ⟨1, 0x80, 0xBF, b - 0xC0⟩
  else if b < 0xF0 then
    some ⟨2, if b = 0xE0 then 0xA0 else 0x80, if b = 0xED then 0x9F else 0xBF, b - 0xE0⟩
  else if b < 0xF5 then
    some ⟨3, if b = 0xF0 then 0x90 else 0x80, if b = 0xF4 then 0x8F else 0xBF, b - 0xF0⟩
  else none

/-- The bytes after a lead that belong to its character, as far as they are there. -/
def continuation (l : Lead) (bs : List Nat) : List Nat :=
  match l.following, bs with
  | 0, _ | _, [] => []
  | n + 1, b :: bs =>
    if l.least ≤ b ∧ b ≤ l.greatest then
      b :: (bs.take n).takeWhile fun c => 0x80 ≤ c && c < 0xC0
    else []

def replacement : Char := Char.ofNat 0xFFFD

/-- The characters that bytes spell, with fuel for their number. -/
def decodeChars : Nat → List Nat → List Char
  | 0, _ | _, [] => []
  | fuel + 1, b :: bs =>
    match lead? b with
    | none => replacement :: decodeChars fuel bs
    | some l =>
      let more := continuation l bs
      let c := if more.length = l.following then
          Char.ofNat (more.foldl (fun n m => n * 64 + (m - 0x80)) l.bits)
        else replacement
      c :: decodeChars fuel (bs.drop more.length)

def decodeComponent (s : String) : String :=
  let bs := decodeBytes (s.toUTF8.toList.map (·.toNat))
  String.ofList (decodeChars bs.length bs)

/-! ### Forms -/

/-- The two sides of the first equals sign. -/
def splitPair (s : String) : String × String :=
  let cs := s.toList
  (String.ofList (cs.takeWhile (· ≠ '=')), String.ofList ((cs.dropWhile (· ≠ '=')).drop 1))

/-- The names and values of a form, in their order. -/
def formPairs (s : String) : List (String × String) :=
  ((s.splitOn "&").filter (!·.isEmpty)).map fun part =>
    let (name, value) := splitPair part
    (decodeComponent name, decodeComponent value)

/-- The value of a name that a form gives once at most: nothing if it gives it more often. -/
def onlyValue? (pairs : List (String × String)) (name : String) : Option (Option String) :=
  match pairs.filter (·.1 == name) with
  | [] => some none
  | [(_, value)] => some (some value)
  | _ => none

end GraphSchema.Http
