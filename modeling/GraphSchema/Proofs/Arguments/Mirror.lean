import GraphSchema.Proofs.Compile.Accepted
import GraphSchema.Proofs.Query.Screen

/-! Data that mirrors the values of an argument.

A resolver reads an argument in a form of data. The form mirrors the type of the
argument if it is an option exactly where a null may stand, a list for each list and
the scalar or the internal value at the core (`Mirrors`). What the resolver then has
is the value in its normal form: nothing stands for a list that is not one, an ID is
text, and an enum value goes by its first name (`normalise`). -/
namespace GraphSchema

open Link

variable {M C W : Type}

namespace TypeExpr

/-- The type below the lists and non-nulls. -/
def bare : TypeExpr → TypeExpr
  | list inner | nonNull inner => inner.bare
  | ty => ty

/-- Whether the integers of the value are of 32 bits wherever the type expects an `Int`. -/
def intsFit : TypeExpr → Value → Bool
  | scalar .int, .number n => n.int32?.isSome
  | list inner, .list items => items.all inner.intsFit
  | list inner, v => inner.intsFit v
  | nonNull inner, v => inner.intsFit v
  | _, _ => true

end TypeExpr

namespace Catalog

/-- The internal values of the enum are all of its own backing, as a typed builder gives them. -/
def HasEnum (c : Catalog M C W) (h : Handle) (e : EnumDef) : Prop :=
  c.enum? h = some e ∧ ∀ v ∈ e.values, v.value.backing = e.leaf

/-- What may stand at the core of a type whose values come back unchanged. -/
inductive Exchanges (c : Catalog M C W) : TypeExpr → Prop where
  | string : Exchanges c (.scalar .string)
  | boolean : Exchanges c (.scalar .boolean)
  | int : Exchanges c (.scalar .int)
  | id : Exchanges c (.scalar .id)
  | enum {h e} (has : c.HasEnum h e) : Exchanges c (.enum h)

/-- The form of the values of a type other than null. -/
inductive Carries (c : Catalog M C W) : TypeExpr → Form → Prop where
  | string : Carries c (.scalar .string) .string
  | boolean : Carries c (.scalar .boolean) .boolean
  | int : Carries c (.scalar .int) .int
  | id : Carries c (.scalar .id) .id
  | enum {h e} (has : c.HasEnum h e) : Carries c (.enum h) (.leaf e.leaf)
  | list {inner form} (items : Carries c inner form) :
      Carries c (.list inner) (.list (.option form))
  | listOfNonNull {inner form} (items : Carries c inner form) :
      Carries c (.list (.nonNull inner)) (.list form)

/-- The form of the values of a type, null among them where the type admits it. -/
inductive Mirrors (c : Catalog M C W) : TypeExpr → Form → Prop where
  | nullable {ty form} (carries : Carries c ty form) : Mirrors c ty (.option form)
  | nonNull {ty form} (carries : Carries c ty form) : Mirrors c (.nonNull ty) form

variable {c : Catalog M C W}

theorem carries_of_exchanges {ty : TypeExpr} (h : c.Exchanges ty) : ∃ form, c.Carries ty form := by
  cases h with
  | string => exact ⟨_, .string⟩
  | boolean => exact ⟨_, .boolean⟩
  | int => exact ⟨_, .int⟩
  | id => exact ⟨_, .id⟩
  | enum has => exact ⟨_, .enum has⟩

theorem Mirrors.list {ty : TypeExpr} {form : Form} (h : c.Mirrors ty form) :
    c.Carries (.list ty) (.list form) := by
  cases h with
  | nullable carries => exact .list carries
  | nonNull carries => exact .listOfNonNull carries

/-- A type without a non-null around another one has a form. -/
theorem exists_mirrors {ty : TypeExpr} (hcore : c.Exchanges ty.bare)
    (hnested : ty.hasNestedNonNull = false) : ∃ form, c.Mirrors ty form := by
  -- what stands below a non-null is carried, so the induction gives both
  suffices (ty.isNonNull = false → ∃ form, c.Carries ty form) ∧ ∃ form, c.Mirrors ty form from
    this.2
  induction ty with
  | list inner ih =>
    obtain ⟨-, form, hform⟩ := ih hcore hnested
    exact ⟨fun _ => ⟨_, hform.list⟩, _, .nullable hform.list⟩
  | nonNull inner ih =>
    obtain ⟨hloose, hinner⟩ : inner.isNonNull = false ∧ inner.hasNestedNonNull = false := by
      simpa [TypeExpr.hasNestedNonNull] using hnested
    obtain ⟨hcarries, -⟩ := ih hcore hinner
    obtain ⟨form, hform⟩ := hcarries hloose
    exact ⟨fun h => (by cases h), form, .nonNull hform⟩
  | scalar k =>
    obtain ⟨form, hform⟩ := carries_of_exchanges hcore
    exact ⟨fun _ => ⟨form, hform⟩, _, .nullable hform⟩
  | enum h =>
    obtain ⟨form, hform⟩ := carries_of_exchanges hcore
    exact ⟨fun _ => ⟨form, hform⟩, _, .nullable hform⟩
  | object h | interface h | union h => cases hcore

end Catalog

/-! ### Normal forms -/

/-- The first declared name whose internal value equals that of the named value. -/
def EnumDef.canonical (e : EnumDef) (name : String) : String :=
  match e.values.find? (·.name == name) with
  | some named => ((e.values.find? (e.same ·.value named.value)).map (·.name)).getD name
  | none => name

/-- The value as a resolver has it: nulls stay where they are, and so do the items of lists. -/
def normalise (c : Catalog M C W) : TypeExpr → Value → Value
  | .nonNull inner, v => normalise c inner v
  | .list inner, v =>
    match v with
    | .null => .null
    | .list items => .list (items.map (normalise c inner))
    | single => .list [normalise c inner single]
  | .scalar .id, .number n => .string n.text
  | .enum h, .enum name | .enum h, .string name =>
    .enum (((c.enum? h).map fun e => e.canonical name).getD name)
  | _, v => v

/-! ### The equality of an enum -/

namespace EnumDef

/-- Each internal value of the enum equals itself. The type of the values has to see to that: a
float that is no number does not. -/
def Reflexive (e : EnumDef) : Prop := ∀ v ∈ e.values, e.equal v.value.value v.value.value = true

instance (e : EnumDef) : Decidable e.Reflexive :=
  inferInstanceAs (Decidable (∀ v ∈ e.values, e.equal v.value.value v.value.value = true))

variable {e : EnumDef} {name : String} {leaf : Leaf}

theorem same_self (hown : ∀ v ∈ e.values, v.value.backing = e.leaf) (hreflexive : e.Reflexive)
    {v : EnumValue} (hv : v ∈ e.values) : e.same v.value v.value = true := by
  simp [same, hown v hv, hreflexive v hv]

/-- A value that is named has a name again, if it equals itself. -/
theorem nameOf_of_parse (hself : ∀ v ∈ e.values, e.same v.value v.value = true)
    (h : e.values.parse name = some leaf) : e.nameOf leaf = some (e.canonical name) := by
  obtain ⟨named, hfind, rfl⟩ := Option.map_eq_some_iff.mp h
  have hmem := List.mem_of_find?_eq_some hfind
  have hsome : (e.values.find? (e.same ·.value named.value)).isSome = true :=
    List.find?_isSome.mpr ⟨named, hmem, hself named hmem⟩
  obtain ⟨first, hfirst⟩ := Option.isSome_iff_exists.mp hsome
  simp [canonical, nameOf, hfind, hfirst]

/-- Where no two names share an internal value, each is the first of its value. -/
theorem canonical_of_distinct
    (h : ∀ x ∈ e.values, ∀ y ∈ e.values, e.same x.value y.value = true → x.name = y.name)
    (hname : name ∈ e.values.map (·.name)) : e.canonical name = name := by
  obtain ⟨x, hx, hxname⟩ := List.mem_map.mp hname
  have hsome : (e.values.find? (·.name == name)).isSome = true :=
    List.find?_isSome.mpr ⟨x, hx, by simpa using hxname⟩
  obtain ⟨named, hnamed⟩ := Option.isSome_iff_exists.mp hsome
  have hnamedName : named.name = name := by simpa using List.find?_some hnamed
  cases hfirst : e.values.find? (e.same ·.value named.value) with
  | none => simp [canonical, hnamed, hfirst]
  | some first =>
    have hsame : e.same first.value named.value = true := by simpa using List.find?_some hfirst
    have hfirstName := h first (List.mem_of_find?_eq_some hfirst) named
      (List.mem_of_find?_eq_some hnamed) hsame
    simp [canonical, hnamed, hfirst, hfirstName, hnamedName]

end EnumDef

end GraphSchema
