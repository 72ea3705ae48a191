import GraphSchema.Text.Upper

/-! The exposed name of a member: `home_planet` becomes `homePlanet`.

An underscore is dropped and raises the character after it, unless nothing has
been written yet. A leading `r#`, the mark of an identifier that would otherwise
be a keyword, is not part of the name. -/
namespace GraphSchema.Text

/-- Drops every `r#` at the front. -/
def dropRawMark : List Char → List Char
  | 'r' :: '#' :: cs => dropRawMark cs
  | cs => cs

/-- `started` says that something has been written, `raised` that the next character
is to be a capital. -/
def humps (started raised : Bool) : List Char → List Char
  | [] => []
  | c :: cs =>
    if c = '_' then humps started started cs
    else (if raised then upper c else [c]) ++ humps true false cs

@[simp] theorem humps_nil (started raised : Bool) : humps started raised [] = [] := rfl

@[simp] theorem humps_underscore (started raised : Bool) (cs : List Char) :
    humps started raised ('_' :: cs) = humps started started cs := by
  simp [humps]

theorem humps_cons {c : Char} (h : c ≠ '_') (started raised : Bool) (cs : List Char) :
    humps started raised (c :: cs) =
      (if raised then upper c else [c]) ++ humps true false cs := by
  simp [humps, h]

def camelCase (ident : String) : String :=
  String.ofList (humps false false (dropRawMark ident.toList))

end GraphSchema.Text
