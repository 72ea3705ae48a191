import GraphSchema.Json.Basic

/-! Settings before they are read: what a configuration file, the environment or a
document holds, put together in one tree. -/
namespace GraphSchema

inductive Setting where
  | nothing
  | flag (b : Bool)
  | whole (n : Int)
  /-- Also infinities and what is no number. -/
  | float (x : Double)
  | text (s : String)
  | list (items : List Setting)
  | table (entries : List (String × Setting))
  deriving Inhabited

namespace Setting

mutual

def ofJson : Json → Setting
  | .null => nothing
  | .bool b => flag b
  | .num (.int n) => whole n
  | .num (.float x) => float x
  | .str s => text s
  | .arr items => list (ofItems items)
  | .obj members => table (ofMembers members)

def ofItems : List Json → List Setting
  | [] => []
  | v :: vs => ofJson v :: ofItems vs

def ofMembers : List (String × Json) → List (String × Setting)
  | [] => []
  | (k, v) :: vs => (k, ofJson v) :: ofMembers vs

end

/-- The entries of a table; anything else counts as an empty one. -/
def entries : Setting → List (String × Setting)
  | table es => es
  | _ => []

def get? (s : Setting) (key : String) : Option Setting :=
  (s.entries.find? (·.1 == key)).map (·.2)

/-- Puts a setting under a key of a table. -/
def put (s : Setting) (key : String) (v : Setting) : Setting :=
  table (if s.entries.any (·.1 == key) then
    s.entries.map fun (k, w) => if k = key then (k, v) else (k, w)
  else s.entries ++ [(key, v)])

mutual

/-- Lays one setting over another: a table adds its entries to those below, anything else hides
what is below. -/
def overlay (below : Setting) : Setting → Setting
  | table es => overlayEntries (table below.entries) es
  | v => v

def overlayEntries (below : Setting) : List (String × Setting) → Setting
  | [] => below
  | (k, v) :: es => overlayEntries (below.put k (overlay ((below.get? k).getD (table [])) v)) es

end

end Setting

end GraphSchema
