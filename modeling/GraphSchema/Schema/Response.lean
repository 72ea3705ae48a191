import GraphSchema.Value.Basic

/-! Responses: the data, and the errors with the place of the data they belong to. -/
namespace GraphSchema

/-- A step into a response: a key of an object or an index of a list. -/
inductive Segment where
  | key (name : String)
  | index (i : Nat)
  deriving DecidableEq, Repr

abbrev Path := List Segment

/-- A place in the text of a query; lines and columns count from one. -/
structure Position where
  line : Nat
  column : Nat
  deriving DecidableEq, Repr

structure ResponseError where
  message : String
  path : Path
  position : Position
  deriving DecidableEq, Repr

structure Response where
  data : Value
  errors : List ResponseError

/-- Why a request was turned down before anything ran. -/
inductive Refusal where
  | tooComplex
  | tooDeep
  | invalid
  deriving DecidableEq, Repr

end GraphSchema
