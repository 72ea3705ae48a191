import GraphSchema.Compile.Checks
import GraphSchema.Proofs.Success

/-! What a definition is like that has passed the checks.

Each check is matched by a property that says outright what it looks for: names by
the ranges of their characters, wrappers by the types that stand within a type, one
type standing in for another by rules. A list is checked member by member against the
names before it, so its names are its members' own (`nodup_of_walk`). -/
namespace GraphSchema

variable {M C W : Type}

namespace Text

/-! ### Names -/

def IsLetter (c : Char) : Prop := ('A' ≤ c ∧ c ≤ 'Z') ∨ ('a' ≤ c ∧ c ≤ 'z')

def IsDigit (c : Char) : Prop := '0' ≤ c ∧ c ≤ '9'

/-- A letter or underscore and then letters, digits and underscores, but no two underscores in
front. -/
structure Declarable (name : String) : Prop where
  grammar : ∃ c cs, name.toList = c :: cs ∧ (IsLetter c ∨ c = '_') ∧
    ∀ x ∈ cs, IsLetter x ∨ IsDigit x ∨ x = '_'
  unreserved : ¬ ['_', '_'] <+: name.toList

theorem isAlpha_iff (c : Char) : c.isAlpha = true ↔ IsLetter c := by
  change (decide ('A' ≤ c ∧ c ≤ 'Z') || (decide ('a' ≤ c) && decide (c ≤ 'z'))) = true ↔ _
  simp only [IsLetter, Bool.or_eq_true, Bool.and_eq_true, decide_eq_true_eq]

theorem isDigit_iff (c : Char) : c.isDigit = true ↔ IsDigit c := by
  simp [Char.isDigit, IsDigit, Char.le_def, UInt32.le_iff_toNat_le]

theorem isNameStart_iff (c : Char) : isNameStart c = true ↔ IsLetter c ∨ c = '_' := by
  simp [isNameStart, isAlpha_iff]

theorem isNameContinue_iff (c : Char) :
    isNameContinue c = true ↔ IsLetter c ∨ IsDigit c ∨ c = '_' := by
  simp [isNameContinue, Char.isAlphanum, isAlpha_iff, isDigit_iff, or_assoc]

theorem isDeclarable_iff (name : String) : isDeclarable name = true ↔ Declarable name := by
  have hname : isName name.toList = true ↔ ∃ c cs, name.toList = c :: cs ∧
      (IsLetter c ∨ c = '_') ∧ ∀ x ∈ cs, IsLetter x ∨ IsDigit x ∨ x = '_' := by
    cases name.toList with
    | nil => simp [isName]
    | cons c cs =>
      simp only [isName, Bool.and_eq_true, isNameStart_iff, List.all_eq_true, isNameContinue_iff]
      constructor
      · intro h
        exact ⟨c, cs, rfl, h⟩
      · rintro ⟨_, _, heq, h⟩
        cases heq
        exact h
  rw [isDeclarable, Bool.and_eq_true, hname, Bool.not_eq_true', Bool.eq_false_iff, Ne,
    List.isPrefixOf_iff_prefix]
  exact ⟨fun ⟨hgrammar, hfree⟩ => ⟨hgrammar, hfree⟩, fun h => ⟨h.grammar, h.unreserved⟩⟩

end Text

namespace TypeExpr

/-! ### Wrappers -/

/-- The type stands within the other one, under any number of wrappers. -/
inductive Part (x : TypeExpr) : TypeExpr → Prop where
  | self : Part x x
  | list {inner : TypeExpr} (h : Part x inner) : Part x (.list inner)
  | nonNull {inner : TypeExpr} (h : Part x inner) : Part x (.nonNull inner)

/-- Nowhere in the type does a non-null stand directly around another one. -/
def Proper (ty : TypeExpr) : Prop := ∀ inner, ¬ Part (.nonNull (.nonNull inner)) ty

theorem proper_of_hasNestedNonNull {ty : TypeExpr} (h : ty.hasNestedNonNull = false) :
    ty.Proper := by
  intro x hpart
  induction hpart with
  | self => cases h
  | list _ ih => exact ih h
  | nonNull _ ih =>
    rw [hasNestedNonNull, Bool.or_eq_false_iff] at h
    exact ih h.2

end TypeExpr

namespace Catalog

/-! ### Subtypes -/

/-- A field of the first type may stand in for one of the second. -/
inductive Subtype (c : Catalog M C W) : TypeExpr → TypeExpr → Prop where
  | refl (ty : TypeExpr) : Subtype c ty ty
  | nonNull {a b : TypeExpr} (h : Subtype c a b) : Subtype c (.nonNull a) b
  | nonNulls {a b : TypeExpr} (h : Subtype c a b) : Subtype c (.nonNull a) (.nonNull b)
  | list {a b : TypeExpr} (h : Subtype c a b) : Subtype c (.list a) (.list b)
  | interface {x i : Handle} {o : ObjectDef M C W} (ho : c.object? x = some o)
    (hi : i ∈ o.interfaces) : Subtype c (.object x) (.interface i)
  | union {x h : Handle} {u : UnionDef M} (hu : c.union? h = some u) (hx : x ∈ u.members) :
    Subtype c (.object x) (.union h)

theorem subtype_of_isSubtype {c : Catalog M C W} {sub sup : TypeExpr}
    (h : c.isSubtype sub sup = true) : c.Subtype sub sup := by
  induction sub, sup using isSubtype.induct (c := c) with
  | case1 a b ih =>
    rw [isSubtype] at h
    exact .nonNulls (ih h)
  | case2 a b ih =>
    rw [isSubtype] at h
    exact .list (ih h)
  | case3 a b _ ih =>
    rw [isSubtype] at h
    · exact .nonNull (ih h)
    · assumption
  | case4 x i =>
    rw [isSubtype, implements] at h
    split at h
    · next o ho => exact .interface ho (by simpa using h)
    · cases h
  | case5 x u def_ hu =>
    rw [isSubtype, hu] at h
    exact .union hu (by simpa using h)
  | case6 x u hu =>
    rw [isSubtype, hu] at h
    cases h
  | case7 a b =>
    rw [isSubtype] at h
    · rw [eq_of_beq h]
      exact .refl b
    all_goals assumption

end Catalog

/-! ### Fields and arguments -/

structure Argument.Checked (a : Argument) : Prop where
  name : Text.Declarable a.name
  proper : a.type.Proper
  input : a.type.isInput = true

structure Field.Checked (f : Field M C W) : Prop where
  name : Text.Declarable f.name
  proper : f.type.Proper
  nodup : (f.arguments.map (·.name)).Nodup
  arguments : ∀ a ∈ f.arguments, a.Checked

structure FieldsChecked (fs : List (Field M C W)) : Prop where
  nonempty : fs ≠ []
  nodup : (fs.map (·.name)).Nodup
  each : ∀ f ∈ fs, f.Checked

structure EnumValuesChecked (vs : EnumValues) : Prop where
  nonempty : vs ≠ []
  nodup : (vs.map (·.name)).Nodup
  each : ∀ v ∈ vs, Text.Declarable v.name ∧ v.name ∉ ["true", "false", "null"]

namespace Check

/-- A walk over a list that lets each member pass if its name is not among those before it. -/
theorem nodup_of_walk {α : Type} {name : α → String} {P : α → Prop}
    {walk : List String → List α → Except DefinitionError Unit}
    (hcons : ∀ seen a as, walk seen (a :: as) = .ok () →
      (P a ∧ name a ∉ seen) ∧ walk (name a :: seen) as = .ok ())
    {seen : List String} {as : List α} (h : walk seen as = .ok ()) :
    (as.map name).Nodup ∧ ∀ a ∈ as, P a ∧ name a ∉ seen := by
  induction as generalizing seen with
  | nil => exact ⟨List.nodup_nil, nofun⟩
  | cons a as ih =>
    obtain ⟨ha, hrest⟩ := hcons seen a as h
    obtain ⟨hnodup, hall⟩ := ih hrest
    refine ⟨List.nodup_cons.mpr ⟨fun hmem => ?_, hnodup⟩, fun x hx => ?_⟩
    · obtain ⟨b, hb, hname⟩ := List.mem_map.mp hmem
      exact (hall b hb).2 (hname ▸ List.mem_cons_self ..)
    · rcases List.mem_cons.mp hx with rfl | hx
      · exact ha
      · exact ⟨(hall x hx).1, fun hmem => (hall x hx).2 (List.mem_cons_of_mem _ hmem)⟩

variable {c : Catalog M C W}

theorem argument_ok {typeName field : String} {seen : List String} {a : Argument}
    (h : argument c typeName field seen a = .ok ()) : a.Checked ∧ a.name ∉ seen := by
  unfold argument at h
  obtain ⟨hname, h⟩ := Except.of_ite_eq_ok h
  obtain ⟨hnew, h⟩ := Except.of_ite_eq_ok h
  obtain ⟨hproper, h⟩ := Except.of_ite_eq_ok h
  obtain ⟨hinput, -⟩ := Except.of_ite_eq_ok h
  exact ⟨⟨(Text.isDeclarable_iff _).mp (by simpa using hname),
    TypeExpr.proper_of_hasNestedNonNull hproper, by simpa using hinput⟩, by simpa using hnew⟩

theorem arguments_ok {typeName field : String} {seen : List String} {as : List Argument}
    (h : arguments c typeName field seen as = .ok ()) :
    (as.map (·.name)).Nodup ∧ ∀ a ∈ as, a.Checked := by
  have hcons : ∀ seen a as, arguments c typeName field seen (a :: as) = .ok () →
      (a.Checked ∧ a.name ∉ seen) ∧ arguments c typeName field (a.name :: seen) as = .ok () := by
    intro seen a as h
    rw [arguments] at h
    cases ha : argument c typeName field seen a with
    | error e => simp [ha] at h
    | ok _ =>
      rw [ha] at h
      exact ⟨argument_ok ha, h⟩
  obtain ⟨hnodup, hall⟩ := nodup_of_walk hcons h
  exact ⟨hnodup, fun a ha => (hall a ha).1⟩

theorem field_ok {typeName : String} {seen : List String} {f : Field M C W}
    (h : field c typeName seen f = .ok ()) : f.Checked ∧ f.name ∉ seen := by
  unfold field at h
  obtain ⟨hname, h⟩ := Except.of_ite_eq_ok h
  obtain ⟨hnew, h⟩ := Except.of_ite_eq_ok h
  obtain ⟨hproper, h⟩ := Except.of_ite_eq_ok h
  obtain ⟨hnodup, harguments⟩ := arguments_ok h
  exact ⟨⟨(Text.isDeclarable_iff _).mp (by simpa using hname),
    TypeExpr.proper_of_hasNestedNonNull hproper, hnodup, harguments⟩, by simpa using hnew⟩

theorem fields_ok {typeName : String} {fs : List (Field M C W)}
    (h : fields c typeName fs = .ok ()) : FieldsChecked fs := by
  unfold fields at h
  obtain ⟨hsome, h⟩ := Except.of_ite_eq_ok h
  have hcons : ∀ seen f fs, fieldsFrom c typeName seen (f :: fs) = .ok () →
      (f.Checked ∧ f.name ∉ seen) ∧ fieldsFrom c typeName (f.name :: seen) fs = .ok () := by
    intro seen f fs h
    rw [fieldsFrom] at h
    cases hf : field c typeName seen f with
    | error e => simp [hf] at h
    | ok _ =>
      rw [hf] at h
      exact ⟨field_ok hf, h⟩
  obtain ⟨hnodup, hall⟩ := nodup_of_walk hcons h
  exact ⟨by simpa using hsome, hnodup, fun f hf => (hall f hf).1⟩

theorem not_mem_of_isValueWord {name : String} (h : isValueWord name = false) :
    name ∉ ["true", "false", "null"] := by
  simpa [isValueWord, and_assoc] using h

theorem enumValues_ok {typeName : String} {vs : EnumValues}
    (h : enumValues typeName vs = .ok ()) : EnumValuesChecked vs := by
  unfold enumValues at h
  obtain ⟨hsome, h⟩ := Except.of_ite_eq_ok h
  have hcons : ∀ seen v vs, enumValuesFrom typeName seen (v :: vs) = .ok () →
      ((Text.Declarable v.name ∧ v.name ∉ ["true", "false", "null"]) ∧ v.name ∉ seen) ∧
        enumValuesFrom typeName (v.name :: seen) vs = .ok () := by
    intro seen v vs h
    rw [enumValuesFrom] at h
    obtain ⟨hname, h⟩ := Except.of_ite_eq_ok h
    obtain ⟨hnew, h⟩ := Except.of_ite_eq_ok h
    obtain ⟨hdeclarable, hword⟩ := Bool.or_eq_false_iff.mp hname
    exact ⟨⟨⟨(Text.isDeclarable_iff _).mp (by simpa using hdeclarable),
      not_mem_of_isValueWord hword⟩, by simpa using hnew⟩, h⟩
  obtain ⟨hnodup, hall⟩ := nodup_of_walk hcons h
  exact ⟨by simpa using hsome, hnodup, fun v hv => (hall v hv).1⟩

/-! ### Promises -/

theorem argument_of_promisedArguments {interface object field : String}
    {found expected : List Argument}
    (h : promisedArguments c interface object field found expected = .ok ()) {x : Argument}
    (hx : x ∈ expected) :
    ∃ a, found.find? (·.name == x.name) = some a ∧ a.type = x.type := by
  induction expected with
  | nil => cases hx
  | cons y ys ih =>
    rw [promisedArguments] at h
    cases hfind : found.find? (·.name == y.name) with
    | none => simp [hfind] at h
    | some a =>
      rw [hfind] at h
      dsimp only at h
      split at h
      · cases h
      · next htype =>
        rcases List.mem_cons.mp hx with rfl | hx
        · exact ⟨a, hfind, Classical.not_not.mp htype⟩
        · exact ih h hx

theorem field_of_implementation {interface object : String} {found expected : List (Field M C W)}
    (h : implementation c interface object found expected = .ok ()) {x : Field M C W}
    (hx : x ∈ expected) :
    ∃ f, found.find? (·.name == x.name) = some f ∧ c.isSubtype f.type x.type = true ∧
      promisedArguments c interface object x.name f.arguments x.arguments = .ok () := by
  induction expected with
  | nil => cases hx
  | cons y ys ih =>
    rw [implementation] at h
    cases hfind : found.find? (·.name == y.name) with
    | none => simp [hfind] at h
    | some f =>
      rw [hfind] at h
      obtain ⟨hsubtype, h⟩ := Except.of_ite_eq_ok h
      cases hpromised : promisedArguments c interface object y.name f.arguments y.arguments with
      | error e => simp [hpromised] at h
      | ok u =>
        rw [hpromised] at h
        rcases List.mem_cons.mp hx with rfl | hx
        · exact ⟨f, hfind, by simpa using hsubtype, hpromised⟩
        · exact ih h hx

end Check

end GraphSchema
