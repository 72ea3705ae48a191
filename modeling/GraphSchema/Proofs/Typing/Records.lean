import Mathlib.Data.List.Find
import Mathlib.Data.List.Nodup
import GraphSchema.Proofs.Text.CamelCase
import GraphSchema.Types.Record

/-! Which field of a record a property reads.

A property is read by name and the first field of that name answers. Fields whose
identifiers differ by more than an underscore before a digit have names of their own, and
each is read under its name. Of fields that differ by nothing else all but the first are
hidden: they are listed, under a name that reads the first (`records_exposed`). -/
namespace GraphSchema.RecordFields

open Text

variable {R M : Type} {fs : RecordFields R M}

/-- The identifiers differ by more than underscores before digits. -/
def Apart (fs : RecordFields R M) : Prop :=
  ∀ f ∈ fs, ∀ g ∈ fs, runIn f.ident.toList = runIn g.ident.toList → f.ident = g.ident

instance (fs : RecordFields R M) : Decidable fs.Apart :=
  inferInstanceAs (Decidable (∀ f ∈ fs, ∀ g ∈ fs,
    runIn f.ident.toList = runIn g.ident.toList → f.ident = g.ident))

/-- The field that answers for the identifier: the first one with it, up to underscores before
digits. -/
def answering (fs : RecordFields R M) (ident : String) : Option (RecordField R M) :=
  fs.find? fun g => runIn g.ident.toList == runIn ident.toList

theorem find?_name (hsnake : ∀ f ∈ fs, SnakeCase f.ident.toList) {ident : String}
    (hident : SnakeCase ident.toList) :
    fs.find? (·.name == camelCase ident) = fs.answering ident := by
  refine List.find?_congr fun g hg => ?_
  rw [Bool.eq_iff_iff, beq_iff_eq, beq_iff_eq]
  exact camelCase_eq_iff (hsnake g hg) hident

theorem find?_properties (fs : RecordFields R M) (name : String) :
    fs.properties.find? (·.name == name) = (fs.find? (·.name == name)).map (·.property) := by
  rw [properties, List.find?_map]
  rfl

theorem name_eq_iff (hsnake : ∀ f ∈ fs, SnakeCase f.ident.toList) {f g : RecordField R M}
    (hf : f ∈ fs) (hg : g ∈ fs) :
    f.name = g.name ↔ runIn f.ident.toList = runIn g.ident.toList :=
  camelCase_eq_iff (hsnake f hf) (hsnake g hg)

/-- Every field has one that answers for it. -/
theorem exists_answering {f : RecordField R M} (hf : f ∈ fs) :
    ∃ g ∈ fs, fs.answering f.ident = some g ∧ runIn g.ident.toList = runIn f.ident.toList := by
  have hsome : (fs.answering f.ident).isSome = true :=
    List.find?_isSome.mpr ⟨f, hf, by simp⟩
  obtain ⟨g, hg⟩ := Option.isSome_iff_exists.mp hsome
  exact ⟨g, List.mem_of_find?_eq_some hg, hg, by simpa using List.find?_some hg⟩

theorem nodup_names_iff (hsnake : ∀ f ∈ fs, SnakeCase f.ident.toList)
    (hdistinct : (fs.map (·.ident)).Nodup) : (fs.map (·.name)).Nodup ↔ fs.Apart := by
  have hown : ∀ f ∈ fs, ∀ g ∈ fs, f.ident = g.ident → f = g := fun f hf g hg h =>
    List.inj_on_of_nodup_map hdistinct hf hg h
  refine ⟨fun hnodup f hf g hg h => ?_, fun hapart => ?_⟩
  · have hname := (name_eq_iff hsnake hf hg).mpr h
    exact congrArg _ (List.inj_on_of_nodup_map hnodup hf hg hname)
  · refine List.Nodup.map_on (fun f hf g hg h => ?_) (List.Nodup.of_map _ hdistinct)
    exact hown f hf g hg (hapart f hf g hg ((name_eq_iff hsnake hf hg).mp h))

/-- **How far the fields of a record are exposed.** The identifiers are distinct, of small letters,
digits and single underscores between them. Then every name may be declared. Reading the name of a
field gives the value of the first field whose identifier differs from its own by underscores
before digits at most, and that one's shape is listed for the name. So the names are distinct, and
each field is read and listed under its own, exactly if no two identifiers are that close. -/
theorem records_exposed (hsnake : ∀ f ∈ fs, SnakeCase f.ident.toList)
    (hdistinct : (fs.map (·.ident)).Nodup) :
    (∀ f ∈ fs, Declarable (camelCase f.ident)) ∧
    (∀ f ∈ fs, ∃ g ∈ fs, fs.answering f.ident = some g ∧
      runIn g.ident.toList = runIn f.ident.toList ∧
      fs.properties.find? (·.name == camelCase f.ident) = some ⟨camelCase f.ident, g.shape⟩ ∧
      ∀ r, fs.read? r (camelCase f.ident) = some (g.read r)) ∧
    ((fs.properties.map (·.name)).Nodup ↔ fs.Apart) ∧
    (fs.Apart → ∀ f ∈ fs,
      fs.properties.find? (·.name == camelCase f.ident) = some ⟨camelCase f.ident, f.shape⟩ ∧
      ∀ r, fs.read? r (camelCase f.ident) = some (f.read r)) := by
  have hread : ∀ f ∈ fs, ∀ g ∈ fs, fs.answering f.ident = some g →
      fs.properties.find? (·.name == camelCase f.ident) = some ⟨camelCase f.ident, g.shape⟩ ∧
      ∀ r, fs.read? r (camelCase f.ident) = some (g.read r) := by
    intro f hf g hg hanswers
    have hfind := (find?_name hsnake (hsnake f hf)).trans hanswers
    have hname : g.name = camelCase f.ident := by simpa using List.find?_some hfind
    refine ⟨?_, fun r => by rw [read?, hfind, Option.map_some]⟩
    rw [find?_properties, hfind, Option.map_some, RecordField.property, hname]
  refine ⟨fun f hf => declarable_camelCase (hsnake f hf), fun f hf => ?_, ?_,
    fun hapart f hf => ?_⟩
  · obtain ⟨g, hg, hanswers, hclose⟩ := exists_answering hf
    exact ⟨g, hg, hanswers, hclose, hread f hf g hg hanswers⟩
  · rw [← nodup_names_iff hsnake hdistinct, properties, List.map_map]
    rfl
  · obtain ⟨g, hg, hanswers, hclose⟩ := exists_answering hf
    have hsame : g = f := List.inj_on_of_nodup_map hdistinct hg hf (hapart g hg f hf hclose)
    exact hread f hf f hf (hsame ▸ hanswers)

/-- A record of numbers. -/
def hull : RecordFields (Int × Int × Int) Unit :=
  [.ofForm "crew_size" .int (·.1), .ofForm "deck_2" .int (·.2.1)]

/-- The same with a field that has nearly the identifier of another one. -/
def decks : RecordFields (Int × Int × Int) Unit := hull ++ [.ofForm "deck2" .int (·.2.2)]

/-- The fields of the one record are apart and each is read under its own name. In the other the
last field is hidden behind the one before it. -/
theorem records_exposed_decks :
    (hull.Apart ∧ ∀ f ∈ hull, ∀ r, hull.read? r (camelCase f.ident) = some (f.read r)) ∧
      ¬ (decks.properties.map (·.name)).Nodup ∧
      ∃ g ∈ decks, g.ident = "deck_2" ∧
        ∀ r, decks.read? r (camelCase "deck2") = some (g.read r) := by
  have hhull : ∀ f ∈ hull, SnakeCase f.ident.toList := by decide +kernel
  have hdecks : ∀ f ∈ decks, SnakeCase f.ident.toList := by decide +kernel
  have hapart : hull.Apart := by decide +kernel
  obtain ⟨-, -, -, hown⟩ := records_exposed hhull (by decide +kernel)
  obtain ⟨-, hread, hnames, -⟩ := records_exposed hdecks (by decide +kernel)
  refine ⟨⟨hapart, fun f hf => (hown hapart f hf).2⟩, hnames.not.mpr (by decide +kernel), ?_⟩
  obtain ⟨g, hmem, hanswers, -, -, hg⟩ := hread (.ofForm "deck2" .int (·.2.2)) (by simp [decks])
  cases hanswers
  exact ⟨_, hmem, rfl, hg⟩

end GraphSchema.RecordFields
