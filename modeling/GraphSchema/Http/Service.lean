import GraphSchema.Execution.Answer
import GraphSchema.Http.Body
import GraphSchema.Http.Form
import GraphSchema.Http.MediaType
import GraphSchema.StarWars.Schema

/-! The service: requests for the schema under one path, posted as JSON or asked in the
address. A browser that asks for a page gets one to write queries in. -/
namespace GraphSchema.Http

/-! ### Messages -/

structure Message where
  method : String := "GET"
  /-- The path and perhaps, after a question mark, a form. -/
  target : String
  headers : List (String × String) := []
  body : String := ""

namespace Message

/-- The first header of that name, whatever the case of its letters. -/
def header? (m : Message) (name : String) : Option String :=
  (m.headers.find? fun h => Text.lower h.1 == name).map (·.2)

def isSchemeChar (c : Char) : Bool := c.isAlphanum || c = '+' || c = '-' || c = '.'

/-- The target without a scheme and a host in front and a fragment behind. -/
def location (m : Message) : String :=
  let cs := m.target.toList.takeWhile (· ≠ '#')
  match cs.dropWhile isSchemeChar with
  | ':' :: '/' :: '/' :: rest => String.ofList (rest.dropWhile fun c => c ≠ '/' && c ≠ '?')
  | _ => String.ofList cs

def path (m : Message) : String := String.ofList (m.location.toList.takeWhile (· ≠ '?'))

def form (m : Message) : String :=
  String.ofList ((m.location.toList.dropWhile (· ≠ '?')).drop 1)

end Message

/-! ### Replies -/

/-- Why a form makes no request. -/
inductive FormFault where
  | noQuery
  /-- The variables are no document. -/
  | malformedVariables
  deriving DecidableEq, Repr

def FormFault.message : FormFault → String
  | noQuery => "missing query parameter"
  | malformedVariables => "invalid variables: not a document"

inductive Body where
  | empty
  /-- A few words on what is wrong with the message. -/
  | words
  /-- The page to write queries in. -/
  | page
  /-- What is wrong with a form. -/
  | fault (f : FormFault)
  | answer (a : Answer)

structure Reply where
  status : Nat
  contentType : Option String
  body : Body

namespace Reply

def words (status : Nat) : Reply := ⟨status, some "text/plain", .words⟩

def bare (status : Nat) : Reply := ⟨status, none, .empty⟩

def fault (f : FormFault) : Reply := ⟨400, some "application/json", .fault f⟩

def answer (a : Answer) : Reply := ⟨200, some "application/json", .answer a⟩

def page : Reply := ⟨200, some "text/html", .page⟩

end Reply

/-! ### The service -/

structure Service where
  schema : Schema StarWars.Source StarWars.Context Unit
  context : StarWars.Context := {}
  /-- Whether browsers get the page. -/
  graphiql : Bool := true

namespace Service

def variablesOf (j : Json) : List (String × Value) :=
  match Value.ofJson j with
  | .object members => members
  | _ => []

def ask (s : Service) (p : Posted) : Reply :=
  .answer (s.schema.execute ⟨p.query, variablesOf p.sent, p.operation⟩ s.context ()).1

def post (s : Service) (m : Message) : Reply :=
  if !(m.header? "content-type").any isJson then .words 415
  else
    match Posted.parse m.body with
    | .error .misspelled => .words 400
    | .error .misfit => .words 422
    | .ok p => s.ask p

/-- A header value counts if it is plain text. -/
def isPlain (s : String) : Bool := s.toList.all fun c => c = '\t' || isPlainChar c

def wantsPage (m : Message) : Bool :=
  match m.header? "accept" with
  | some accept => isPlain accept && (accept.splitOn "text/html").length > 1
  | none => false

/-- White space as far as any script has it. -/
def isSpace (c : Char) : Bool :=
  let n := c.toNat
  (0x09 ≤ n && n ≤ 0x0D) || n = 0x20 || n = 0x85 || n = 0xA0 || n = 0x1680 ||
    (0x2000 ≤ n && n ≤ 0x200A) || n = 0x2028 || n = 0x2029 || n = 0x202F || n = 0x205F ||
    n = 0x3000

def isBlank (s : String) : Bool := s.toList.all isSpace

/-- The request that a form makes, or what it lacks. -/
def formRequest (query operation sent : Option String) : Except FormFault Posted :=
  match query.filter (!isBlank ·) with
  | none => .error .noQuery
  | some query =>
    match sent with
    | none => .ok ⟨query, operation, .null⟩
    | some text =>
      match Json.parse? text with
      | some v => .ok ⟨query, operation, v⟩
      | none => .error .malformedVariables

def get (s : Service) (m : Message) : Reply :=
  let pairs := formPairs m.form
  match onlyValue? pairs "query", onlyValue? pairs "operationName",
    onlyValue? pairs "variables" with
  | some query, some operation, some sent =>
    if s.graphiql && wantsPage m then .page
    else
      match formRequest query operation sent with
      | .error f => .fault f
      | .ok p => s.ask p
  | _, _, _ => .words 400

/-- Replies to a message. One that only asks for the head of a reply gets no body. -/
def respond (s : Service) (m : Message) : Reply :=
  if m.path ≠ "/graphql" then .bare 404
  else
    match m.method with
    | "POST" => s.post m
    | "GET" => s.get m
    | "HEAD" => { s.get m with body := .empty }
    | _ => .bare 405

end Service

end GraphSchema.Http
