import GraphSchema.Compile.Link

/-! Compiling a catalog: from its definitions and a description of the roots to a
schema that answers requests, or to the first thing that is wrong.

A thunk may compile the catalog that is being compiled. The cell of that thunk is
taken while it runs, so each such compilation has one cell less that could start
another: compilations nest no deeper than the catalog has types. -/
namespace GraphSchema

variable {M C W : Type}

namespace Catalog

/-- Compiles, given how thunks compile. Nothing runs if the limits are not valid or the catalog
was misused. -/
def compileWith (c : Catalog M C W) (nested : Nested M C W) (d : Description) (s : Store M C W) :
    Except DefinitionError (Schema M C W) × Store M C W :=
  match d.limits.validate with
  | .error reason => (.error (.invalidConfig reason), s)
  | .ok () =>
    match c.misuses with
    | e :: _ => (.error e, s)
    | [] =>
      match Walk.start c d with
      | .error e => (.error e, s)
      | .ok w =>
        match w.run nested c c.size s with
        | (.error e, s) => (.error e, s)
        | (.ok w, s) => (Link.schema c d w, s)

/-- Compiles with at most `depth` compilations inside one another. -/
def compileAt (c : Catalog M C W) : Nat → Nested M C W
  | 0 => c.compileWith fun _ s => (.error (.undefinedType ""), s)
  | depth + 1 => c.compileWith (c.compileAt depth)

def compile (c : Catalog M C W) (d : Description) (s : Store M C W) :
    Except DefinitionError (Schema M C W) × Store M C W :=
  c.compileAt c.size d s

end Catalog

end GraphSchema
