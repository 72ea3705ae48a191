import GraphSchema.Text.CamelCase
import GraphSchema.Types.Form

/-! Records as models: every field of a record is a property under the camel-case form of
its identifier. -/
namespace GraphSchema

/-- A field of the records in `R`, with what it yields. -/
structure RecordField (R M : Type) where
  ident : String
  shape : Shape
  read : R → Produced M

namespace RecordField

variable {R M : Type}

/-- A field that holds data of a form. -/
def ofForm (ident : String) (form : Form) (get : R → form.Data) : RecordField R M :=
  ⟨ident, form.shape, fun r => form.produce (get r)⟩

/-- The name that the field is exposed under. -/
def name (f : RecordField R M) : String := Text.camelCase f.ident

def property (f : RecordField R M) : Property := ⟨f.name, f.shape⟩

end RecordField

/-- The fields of a record, in the order of their declaration. -/
abbrev RecordFields (R M : Type) := List (RecordField R M)

namespace RecordFields

variable {R M : Type}

def properties (fs : RecordFields R M) : List Property := fs.map (·.property)

/-- Reads a property by the name it is exposed under. -/
def read? (fs : RecordFields R M) (r : R) (name : String) : Option (Produced M) :=
  (fs.find? (·.name == name)).map (·.read r)

theorem read?_isSome_iff (fs : RecordFields R M) (r : R) (name : String) :
    (fs.read? r name).isSome ↔ name ∈ fs.properties.map (·.name) := by
  simp only [read?, properties, Option.isSome_map, List.find?_isSome, beq_iff_eq, List.mem_map,
    RecordField.property]
  constructor
  · rintro ⟨f, hf, rfl⟩
    exact ⟨⟨f.name, f.shape⟩, ⟨f, hf, rfl⟩, rfl⟩
  · rintro ⟨_, ⟨f, hf, rfl⟩, rfl⟩
    exact ⟨f, hf, rfl⟩

end RecordFields

end GraphSchema
