import GraphSchema.Http.Document
import GraphSchema.Json.Printer
import GraphSchema.Settings.App

/-! The command. It takes settings from a file and the environment, builds the Star Wars
schema and answers requests: every line of the input is the body of a posted
message, and the reply to it is one line of the output. -/
namespace GraphSchema.Command

def usage : String := "usage: starwars-server [--config CONFIG]"

/-- The settings file, named by the arguments, else by the environment, else by default. -/
def settingsFile? (arguments : List String) (named : Option String) : Option String :=
  match arguments with
  | [] => some (named.getD "starwars.toml")
  | ["--config", path] => some path
  | [argument] =>
    if argument.startsWith "--config=" then some (argument.drop 9).toString else none
  | _ => none

/-- The variables of the environment that hold settings. -/
def variableNames : List String :=
  ["SERVER__HOST", "SERVER__PORT", "LOGGING__LEVEL", "GRAPHQL__CONTEXT_CONTENT",
    "GRAPHQL__GRAPHIQL", "GRAPHQL__LIMITS__MAX_DEPTH", "GRAPHQL__LIMITS__MAX_COMPLEXITY",
    "GRAPHQL__LIMITS__INTROSPECTION"].map fun name =>
      AppSettings.variableMark ++ AppSettings.variableSeparator ++ name

/-- The service that the settings ask for, or what is wrong with them. -/
def service (s : AppSettings) : Except String Http.Service :=
  match s.address, StarWars.schema s.graphql.limits with
  | .error e, _ => .error e
  | _, .error e => .error ("schema definition rejected: " ++ e.message)
  | .ok _, .ok schema => .ok {
      schema
      context := ⟨s.graphql.contextContent⟩
      graphiql := s.graphql.graphiql }

/-- The posted message with a body. -/
def posted (body : String) : Http.Message where
  method := "POST"
  target := "/graphql"
  headers := [("content-type", "application/json")]
  body

def replyLine (r : Http.Reply) : String :=
  match r.body.document? with
  | some d => toString r.status ++ " " ++ d.write
  | none => toString r.status

def environment : IO (List (String × String)) :=
  variableNames.filterMapM fun name => return (← IO.getEnv name).map (name, ·)

/-- The text of a file; a file that is not there has none. -/
def readText? (path : String) : IO (Option String) := do
  try return some (← IO.FS.readFile path) catch _ => return none

partial def answerLines (s : Http.Service) (input output : IO.FS.Stream) : IO Unit := do
  let line ← input.getLine
  if line.isEmpty then return
  output.putStrLn (replyLine (s.respond (posted line)))
  output.flush
  answerLines s input output

def run (arguments : List String) : IO UInt32 := do
  let some path := settingsFile? arguments (← IO.getEnv "STARWARS_CONFIG")
    | IO.eprintln usage
      return 2
  match AppSettings.load (← readText? path) (← environment) with
  | .error e =>
    IO.eprintln ("Configuration error: " ++ e.message)
    return 2
  | .ok settings =>
    match service settings with
    | .error e =>
      IO.eprintln ("Server error: " ++ e)
      return 1
    | .ok s =>
      answerLines s (← IO.getStdin) (← IO.getStdout)
      return 0

end GraphSchema.Command

def main (arguments : List String) : IO UInt32 := GraphSchema.Command.run arguments
