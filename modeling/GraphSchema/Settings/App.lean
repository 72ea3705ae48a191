import GraphSchema.Net.SocketAddress
import GraphSchema.Schema.Limits
import GraphSchema.Settings.Environment
import GraphSchema.Settings.Toml

/-! The settings of a server: where it listens, how much it logs, and what its schema
allows. Everything has a default. -/
namespace GraphSchema

namespace Limits

def fieldNames : List String := ["max_depth", "max_complexity", "introspection"]

def read? (c : Convention) (s : Setting) : Option Limits := do
  match ← c.fields? fieldNames s with
  | [depth, complexity, introspection] =>
    return {
      maxDepth := ← Convention.field? c.optionalWord? none depth
      maxComplexity := ← Convention.field? c.optionalWord? none complexity
      introspection := ← Convention.field? c.flag? true introspection }
  | _ => none

/-- One change of the limits. -/
inductive Change where
  | maxDepth (n : Nat)
  | maxComplexity (n : Nat)
  | introspection (b : Bool)

def change (l : Limits) : Change → Limits
  | .maxDepth n => { l with maxDepth := some n }
  | .maxComplexity n => { l with maxComplexity := some n }
  | .introspection b => { l with introspection := b }

end Limits

/-! ### Parts -/

structure ServerSettings where
  host : String := "127.0.0.1"
  port : Nat := 4000
  deriving DecidableEq, Repr

structure LoggingSettings where
  level : String := "info"
  deriving DecidableEq, Repr

structure RequestSettings where
  /-- The content of the context that every request gets. -/
  contextContent : String := ""
  /-- Whether browsers get a page to write queries in. -/
  graphiql : Bool := true
  limits : Limits := {}
  deriving DecidableEq, Repr

structure AppSettings where
  server : ServerSettings := {}
  logging : LoggingSettings := {}
  graphql : RequestSettings := {}
  deriving DecidableEq, Repr

namespace ServerSettings

def read? (c : Convention) (s : Setting) : Option ServerSettings := do
  match ← c.fields? ["host", "port"] s with
  | [host, port] =>
    return {
      host := ← Convention.field? c.text? "127.0.0.1" host
      port := ← Convention.field? (c.bounded? 0xFFFF) 4000 port }
  | _ => none

end ServerSettings

namespace LoggingSettings

def read? (c : Convention) (s : Setting) : Option LoggingSettings := do
  match ← c.fields? ["level"] s with
  | [level] => return { level := ← Convention.field? c.text? "info" level }
  | _ => none

def levels : List String := ["trace", "debug", "info", "warn", "error", "off"]

end LoggingSettings

namespace RequestSettings

def read? (c : Convention) (s : Setting) : Option RequestSettings := do
  match ← c.fields? ["context_content", "graphiql", "limits"] s with
  | [content, graphiql, limits] =>
    return {
      contextContent := ← Convention.field? c.text? "" content
      graphiql := ← Convention.field? c.flag? true graphiql
      limits := ← Convention.field? (Limits.read? c) {} limits }
  | _ => none

end RequestSettings

/-! ### The whole -/

namespace AppSettings

def read? (c : Convention) (s : Setting) : Option AppSettings := do
  match ← c.fields? ["server", "logging", "graphql"] s with
  | [server, logging, graphql] =>
    return {
      server := ← Convention.field? (ServerSettings.read? c) {} server
      logging := ← Convention.field? (LoggingSettings.read? c) {} logging
      graphql := ← Convention.field? (RequestSettings.read? c) {} graphql }
  | _ => none

/-- The first thing that is wrong with the settings. -/
def validate (s : AppSettings) : Except String Unit :=
  if s.server.port = 0 then .error "server.port must be > 0"
  else if !LoggingSettings.levels.contains (Text.lower s.logging.level) then
    let names := LoggingSettings.levels.map fun l => "\"" ++ l ++ "\""
    .error ("logging.level must be one of [" ++ ", ".intercalate names ++ "]")
  else
    match s.graphql.limits.validate with
    | .ok () => .ok ()
    | .error e => .error ("graphql.limits: " ++ e)

/-- The address to listen on. -/
def address (s : AppSettings) : Except String Net.SocketAddress :=
  match Net.SocketAddress.parse? (s.server.host ++ ":" ++ toString s.server.port) with
  | some a => .ok a
  | none => .error "invalid server address: invalid socket address syntax"

/-! ### Loading -/

inductive LoadError where
  /-- The file is no configuration file. -/
  | malformed
  /-- A setting is not of its kind. -/
  | mistyped
  | invalid (reason : String)
  deriving DecidableEq, Repr

def LoadError.message : LoadError → String
  | malformed => "config build error: the file is malformed"
  | mistyped => "config deserialize error: a setting is not of its kind"
  | invalid reason => reason

/-- The variables that override the file start with this and separate levels by this. -/
def variableMark : String := "STARWARS"

def variableSeparator : String := "__"

/-- The settings of a file, if there is one, with the environment over them. A key at the top of
the file may be a path. -/
def merge (file : Option Setting) (environment : List (String × String)) : Setting :=
  let base := ((file.map (·.entries)).getD []).foldl
    (fun s (key, v) => s.overlayAt (PathStep.ofKey key) v) (.table [])
  Environment.overlay variableMark variableSeparator environment base

def ofMerged (s : Setting) : Except LoadError AppSettings :=
  match read? .lenient s with
  | none => .error .mistyped
  | some app =>
    match app.validate with
    | .ok () => .ok app
    | .error reason => .error (.invalid reason)

/-- Loads settings from the text of a file, if there is one, and the environment. -/
def load (file : Option String) (environment : List (String × String)) :
    Except LoadError AppSettings :=
  match file with
  | none => ofMerged (merge none environment)
  | some text =>
    match Toml.parseFile? text with
    | none => .error .malformed
    | some table => ofMerged (merge (some table) environment)

end AppSettings

end GraphSchema
