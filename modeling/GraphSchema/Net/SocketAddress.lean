import GraphSchema.Json.Parser
import GraphSchema.Text.Escaped

/-! Addresses of sockets: an address of version 4 or, in brackets, of version 6, and a
port. The readers take the text that is left and give back what follows. -/
namespace GraphSchema.Net

inductive SocketAddress where
  | v4 (octets : List Nat) (port : Nat)
  /-- Eight groups of 16 bits. -/
  | v6 (groups : List Nat) (scope port : Nat)
  deriving DecidableEq, Repr

/-! ### Reading -/

/-- Digits of a radix as a number up to a bound. -/
def number? (radix : Nat) (maxDigits : Option Nat) (allowZero : Bool) (bound : Nat)
    (cs : List Char) : Option (Nat × List Char) :=
  let isDigit (c : Char) : Bool := (Json.hexValue? c).any (· < radix)
  let ds := cs.takeWhile isDigit
  let n := ds.foldl (fun n c => n * radix + (Json.hexValue? c).getD 0) 0
  if ds.isEmpty || maxDigits.any (ds.length > ·) || n > bound then none
  else if !allowZero && ds.length > 1 && ds.head? == some '0' then none
  else some (n, cs.dropWhile isDigit)

def char? (c : Char) : List Char → Option (List Char)
  | d :: cs => if c = d then some cs else none
  | [] => none

def octet? (cs : List Char) : Option (Nat × List Char) := number? 10 (some 3) false 255 cs

def v4? (cs : List Char) : Option (List Nat × List Char) := do
  let (a, cs) ← octet? cs
  let (b, cs) ← octet? (← char? '.' cs)
  let (c, cs) ← octet? (← char? '.' cs)
  let (d, cs) ← octet? (← char? '.' cs)
  return ([a, b, c, d], cs)

/-- Up to `limit` groups with colons between them, the last two perhaps as an address of version
4; whether that was so comes with them. `first` tells that no colon is due. -/
def groups : Nat → Bool → List Char → List Nat × Bool × List Char
  | 0, _, cs => ([], false, cs)
  | limit + 1, first, cs =>
    match if first then some cs else char? ':' cs with
    | none => ([], false, cs)
    | some inner =>
      match if limit = 0 then none else v4? inner with
      | some ([a, b, c, d], rest) => ([a * 256 + b, c * 256 + d], true, rest)
      | _ =>
        match number? 16 (some 4) true 0xFFFF inner with
        | none => ([], false, cs)
        | some (g, rest) =>
          let (gs, embedded, rest) := groups limit false rest
          (g :: gs, embedded, rest)

/-- Two colons stand for as many zeros as are missing, at least one. -/
def v6? (cs : List Char) : Option (List Nat × List Char) :=
  let (head, embedded, rest) := groups 8 true cs
  if head.length = 8 then some (head, rest)
  else if embedded then none
  else
    match rest with
    | ':' :: ':' :: rest =>
      let (tail, _, rest) := groups (7 - head.length) true rest
      some (head ++ List.replicate (8 - head.length - tail.length) 0 ++ tail, rest)
    | _ => none

def port? (cs : List Char) : Option (Nat × List Char) := do
  number? 10 none true 0xFFFF (← char? ':' cs)

def scope? (cs : List Char) : Option (Nat × List Char) :=
  match cs with
  | '%' :: cs => number? 10 none true 0xFFFFFFFF cs
  | cs => some (0, cs)

def SocketAddress.v4? (cs : List Char) : Option SocketAddress := do
  let (octets, cs) ← Net.v4? cs
  let (port, rest) ← port? cs
  if rest.isEmpty then some (.v4 octets port) else none

def SocketAddress.v6? (cs : List Char) : Option SocketAddress := do
  let (groups, cs) ← Net.v6? (← char? '[' cs)
  let (scope, cs) ← scope? cs
  let (port, rest) ← port? (← char? ']' cs)
  if rest.isEmpty then some (.v6 groups scope port) else none

def SocketAddress.parse? (s : String) : Option SocketAddress :=
  (SocketAddress.v4? s.toList).or (SocketAddress.v6? s.toList)

/-! ### Writing -/

def renderV4 (octets : List Nat) : String := ".".intercalate (octets.map toString)

/-- The zeros at the front of the groups. -/
def zeroRun (gs : List Nat) : Nat := (gs.takeWhile (· = 0)).length

/-- Where the first of the longest runs of zeros starts, and how long it is. -/
def longestRun : Nat → List Nat → Nat × Nat
  | _, [] => (0, 0)
  | i, g :: gs =>
    let here := zeroRun (g :: gs)
    let later := longestRun (i + 1) gs
    if here ≠ 0 ∧ here ≥ later.2 then (i, here) else later

def renderGroups (gs : List Nat) : String := ":".intercalate (gs.map Text.hex)

/-- Of several zeros in a row the longest run is left out; an address of version 4 inside one of
version 6 keeps its form. -/
def renderV6 (gs : List Nat) : String :=
  match gs with
  | [0, 0, 0, 0, 0, 0xFFFF, a, b] =>
    "::ffff:" ++ renderV4 [a / 256, a % 256, b / 256, b % 256]
  | gs =>
    let (start, length) := longestRun 0 gs
    if length > 1 then
      renderGroups (gs.take start) ++ "::" ++ renderGroups (gs.drop (start + length))
    else renderGroups gs

def SocketAddress.render : SocketAddress → String
  | v4 octets port => renderV4 octets ++ ":" ++ toString port
  | v6 groups scope port =>
    "[" ++ renderV6 groups ++ (if scope = 0 then "" else "%" ++ toString scope) ++ "]:" ++
      toString port

end GraphSchema.Net
