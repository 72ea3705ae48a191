/-! The grammar of names: a letter or underscore, then letters, digits and
underscores. Names that start with two underscores belong to introspection, so a
declared name may not. -/
namespace GraphSchema.Text

def isNameStart (c : Char) : Bool := c.isAlpha || c = '_'

def isNameContinue (c : Char) : Bool := c.isAlphanum || c = '_'

/-- A name by the grammar alone, reserved or not. -/
def isName : List Char → Bool
  | [] => false
  | c :: cs => isNameStart c && cs.all isNameContinue

/-- A name that a schema may declare. -/
def isDeclarable (name : String) : Bool :=
  isName name.toList && !(['_', '_'].isPrefixOf name.toList)

end GraphSchema.Text
