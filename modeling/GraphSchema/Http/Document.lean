import GraphSchema.Http.Service

/-! Replies as documents: the data with its errors, or only the errors where there is no
data to show. -/
namespace GraphSchema

def Segment.document : Segment → Json
  | .key name => .str name
  | .index i => .int i

def Position.document (p : Position) : Json := .obj [("line", .int p.line), ("column", .int p.column)]

/-- An error that belongs to no position of the data has no path. -/
def ResponseError.document (e : ResponseError) : Json :=
  let path := if e.path.isEmpty then [] else [("path", Json.arr (e.path.map Segment.document))]
  .obj ([("message", .str e.message), ("locations", .arr [e.position.document])] ++ path)

/-- Data that is null beside errors is left out, and so are errors where there are none. -/
def Response.document (r : Response) : Json :=
  let data := if r.data.isNull && !r.errors.isEmpty then [] else [("data", r.data.toJson)]
  let errors := if r.errors.isEmpty then []
    else [("errors", Json.arr (r.errors.map ResponseError.document))]
  .obj (data ++ errors)

def Refusal.message : Refusal → String
  | .tooComplex => "Query is too complex."
  | .tooDeep => "Query is nested too deep."
  | .invalid => "Query is not valid."

namespace Http

/-- A document with a single message. -/
def messageDocument (message : String) : Json :=
  .obj [("errors", .arr [.obj [("message", .str message)]])]

def FormFault.document (f : FormFault) : Json := messageDocument f.message

/-- The document in a body, if it holds one. -/
def Body.document? : Body → Option Json
  | .empty | .words | .page => none
  | .fault f => some f.document
  | .answer (.refused r) => some (messageDocument r.message)
  | .answer (.answered r) => some r.document

end Http

end GraphSchema
