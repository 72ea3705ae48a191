import GraphSchema.Proofs.Compile.Dispatch
import GraphSchema.Proofs.Run.Made

/-! What a completed value is like.

`ValueOf` says of a rendered value that it is one of a type and was made from a produced
value, at every depth: which scalars and enum values there are, under which name and with
which anchor an object stands, and that a list has an item for each that was produced.
What stands in the slot of an item is another such value or a null, and a null has a cause
(`InSlot`). None of a value that conforms is null in a position that may not be
(`loose_of_nullAt`). -/
namespace GraphSchema

variable {M C W : Type}

/-- The nearest position that may be null, at the path of the type or above it. -/
def TypeExpr.anchor (ty : TypeExpr) (path anchor : Path) : Path :=
  if ty.isNonNull then anchor else path

/-- The interface or union that the type is taken for, outside of lists and non-nulls. -/
def TypeExpr.abstract? : TypeExpr → Option Handle
  | .interface h | .union h => some h
  | .scalar _ | .enum _ | .object _ | .list _ | .nonNull _ => none

/-- How a value of the scalar is shown. A whole number of 64 bits is shown for an ID as the text of
its digits, and everything else as it is. -/
inductive Scalar.Shows : Scalar → Value → Value → Prop where
  | string (t : String) : Shows .string (.string t) (.string t)
  | boolean (b : Bool) : Shows .boolean (.boolean b) (.boolean b)
  | float (n : Number) : Shows .float (.number n) (.number n)
  | int {i : Int} (lower : -0x80000000 ≤ i) (upper : i < 0x80000000) :
    Shows .int (.number (.int i)) (.number (.int i))
  | id (t : String) : Shows .id (.string t) (.string t)
  | digits {i : Int} (lower : -0x8000000000000000 ≤ i) (upper : i < 0x10000000000000000) :
    Shows .id (.number (.int i)) (.string (toString i))

namespace Catalog

/-- What a null item of the type is rendered as in its place, until it is overwritten. -/
inductive StandsIn (c : Catalog M C W) : TypeExpr → Rendered M → Prop where
  | enum {h : Handle} {e : EnumDef} {v : EnumValue} {rest : EnumValues} (get : c.enum? h = some e)
    (first : e.values = v :: rest) : StandsIn c (.enum h) (.value (.enum v.name))
  | object (h : Handle) : StandsIn c (.object h) (.hole none)
  | abstract {ty : TypeExpr} {h x : Handle} {t : TypeDef M C W}
    {resolveType : Option (M → Option String)} {rest : List Handle} (tag : ty.abstract? = some h)
    (get : c.get? h = some t) (possible : c.Possible h t resolveType (x :: rest)) :
    StandsIn c ty (.hole (some (c.nameOf x)))
  | list (inner : TypeExpr) : StandsIn c (.list inner) (.list [])

/-- Why a position is null: a null was produced for it, or a failure at or below it was
absorbed. -/
def Lost (absorbed : List Located) (path : Path) (p : Produced M) : Prop :=
  p = .null ∨ ∃ e ∈ absorbed, path <+: e.path

mutual

/-- The rendered value is one of the type, made from the produced one at the path. `anchor` is the
path of the nearest position at or above it that may be null. -/
inductive ValueOf (c : Catalog M C W) (absorbed : List Located) (nulled : List Path) :
    TypeExpr → Path → Path → Produced M → Rendered M → Prop where
  | scalar {s : Scalar} {path anchor : Path} {v shown : Value} (shows : s.Shows v shown) :
    ValueOf c absorbed nulled (.scalar s) path anchor (.value v) (.value shown)
  | enum {h : Handle} {path anchor : Path} {p : Produced M} {e : EnumDef} {v : EnumValue}
    (get : c.enum? h = some e) (declared : v ∈ e.values)
    (stands : p = .value (.enum v.name) ∨ ∃ l, p = .leaf l ∧ e.same v.value l = true) :
    ValueOf c absorbed nulled (.enum h) path anchor p (.value (.enum v.name))
  | object {h : Handle} {path anchor : Path} {m : M} {t : TypeDef M C W} (get : c.get? h = some t)
    (recognised : ∀ p, Link.predicate c h = some p → p m = true) :
    ValueOf c absorbed nulled (.object h) path anchor (.model m) (.object m anchor none)
  | abstract {ty : TypeExpr} {h x : Handle} {path anchor : Path} {m : M} {t : TypeDef M C W}
    {resolveType : Option (M → Option String)} {possible : List Handle}
    (tag : ty.abstract? = some h) (get : c.get? h = some t)
    (types : c.Possible h t resolveType possible) (mem : x ∈ possible)
    (dispatched : c.Dispatches t.name resolveType possible m (.ok (c.nameOf x))) :
    ValueOf c absorbed nulled ty path anchor (.model m) (.object m anchor (some (c.nameOf x)))
  | list {inner : TypeExpr} {path anchor : Path} {ps : List (Produced M)} {rs : List (Rendered M)}
    (length : rs.length = ps.length)
    (items : ∀ i p r, ps[i]? = some p → rs[i]? = some r →
      InSlot c absorbed nulled inner (path ++ [.index i]) anchor p r) :
    ValueOf c absorbed nulled (.list inner) path anchor (.list ps) (.list rs)
  | nonNull {inner : TypeExpr} {path anchor : Path} {p : Produced M} {r : Rendered M}
    (h : ValueOf c absorbed nulled inner path anchor p r) :
    ValueOf c absorbed nulled (.nonNull inner) path anchor p r

/-- What stands in the slot of an item: a value, which stays, or a null. -/
inductive InSlot (c : Catalog M C W) (absorbed : List Located) (nulled : List Path) :
    TypeExpr → Path → Path → Produced M → Rendered M → Prop where
  | value {ty : TypeExpr} {path anchor : Path} {p : Produced M} {r : Rendered M}
    (h : ValueOf c absorbed nulled ty path (ty.anchor path anchor) p r) (kept : path ∉ nulled) :
    InSlot c absorbed nulled ty path anchor p r
  /-- A null of a type that is rendered as such. -/
  | null {ty : TypeExpr} {path anchor : Path} {p : Produced M} (loose : ty.isNonNull = false)
    (lost : Lost absorbed path p) (bare : ∀ r, ¬ c.StandsIn ty r) :
    InSlot c absorbed nulled ty path anchor p .null
  /-- A null of any other type has a stand-in, and its path is kept. -/
  | standIn {ty : TypeExpr} {path anchor : Path} {p : Produced M} {r : Rendered M}
    (loose : ty.isNonNull = false) (lost : Lost absorbed path p) (stands : c.StandsIn ty r)
    (recorded : path ∈ nulled) : InSlot c absorbed nulled ty path anchor p r

end

/-- The slot of the type at the path `q`, in a list somewhere within the value at `path`, is null:
it holds the null itself or its path was kept. -/
inductive NullAt (nulled : List Path) :
    Rendered M → TypeExpr → (path : Path) → (q : Path) → TypeExpr → Prop where
  | item {inner : TypeExpr} {path : Path} {rs : List (Rendered M)} {i : Nat} {r : Rendered M}
    (get : rs[i]? = some r) (null : r = .null ∨ path ++ [.index i] ∈ nulled) :
    NullAt nulled (.list rs) (.list inner) path (path ++ [.index i]) inner
  | within {inner ty : TypeExpr} {path q : Path} {rs : List (Rendered M)} {i : Nat}
    {r : Rendered M} (get : rs[i]? = some r)
    (h : NullAt nulled r inner (path ++ [.index i]) q ty) :
    NullAt nulled (.list rs) (.list inner) path q ty
  | nonNull {inner ty : TypeExpr} {path q : Path} {r : Rendered M}
    (h : NullAt nulled r inner path q ty) : NullAt nulled r (.nonNull inner) path q ty

/-- The produced value belongs in the slot of the type at the path `q`, in a list somewhere within
the one at `path`. -/
inductive ItemAt :
    Produced M → TypeExpr → (path : Path) → Produced M → (q : Path) → TypeExpr → Prop where
  | item {inner : TypeExpr} {path : Path} {ps : List (Produced M)} {i : Nat} {p : Produced M}
    (get : ps[i]? = some p) : ItemAt (.list ps) (.list inner) path p (path ++ [.index i]) inner
  | within {inner ty : TypeExpr} {path q : Path} {ps : List (Produced M)} {i : Nat}
    {p p' : Produced M} (get : ps[i]? = some p)
    (h : ItemAt p inner (path ++ [.index i]) p' q ty) :
    ItemAt (.list ps) (.list inner) path p' q ty
  | nonNull {inner ty : TypeExpr} {path q : Path} {p p' : Produced M}
    (h : ItemAt p inner path p' q ty) : ItemAt p (.nonNull inner) path p' q ty

variable {c : Catalog M C W} {absorbed absorbed' : List Located} {nulled nulled' : List Path}
  {ty : TypeExpr} {path anchor : Path} {p : Produced M} {r : Rendered M}

/-! ### Nulls of a value that conforms -/

theorem ValueOf.ne_null (h : ValueOf c absorbed nulled ty path anchor p r) : r ≠ .null := by
  induction ty with
  | nonNull inner ih =>
    cases h with
    | abstract tag => cases tag
    | nonNull h => exact ih h
  | _ => cases h <;> nofun

/-- A stand-in has no items. -/
theorem StandsIn.not_nullAt (h : c.StandsIn ty r) {q : Path} {ty' : TypeExpr} :
    ¬ NullAt nulled r ty path q ty' := by
  intro hnull
  cases hnull with
  | item get null =>
    cases h
    cases get
  | within get hnull =>
    cases h
    cases get
  | nonNull hnull =>
    cases h with
    | abstract tag => cases tag

/-- The slot of an item is null only if the item may be. -/
theorem InSlot.loose_of_null (h : InSlot c absorbed nulled ty path anchor p r)
    (hnull : r = .null ∨ path ∈ nulled) : ty.isNonNull = false := by
  cases h with
  | value h kept => exact absurd hnull (not_or.mpr ⟨h.ne_null, kept⟩)
  | null loose => exact loose
  | standIn loose => exact loose

/-- **In a value that conforms no position is null that may not be.** -/
theorem ValueOf.loose_of_nullAt (h : ValueOf c absorbed nulled ty path anchor p r) {q : Path}
    {ty' : TypeExpr} (hnull : NullAt nulled r ty path q ty') : ty'.isNonNull = false := by
  induction hnull generalizing anchor p with
  | @item inner path rs i r get null =>
    cases h with
    | list length items =>
      obtain ⟨hi, -⟩ := List.getElem?_eq_some_iff.mp get
      exact (items i _ r (List.getElem?_eq_getElem (length ▸ hi)) get).loose_of_null null
  | @within inner ty' path q rs i r get hnull ih =>
    cases h with
    | list length items =>
      obtain ⟨hi, -⟩ := List.getElem?_eq_some_iff.mp get
      cases items i _ r (List.getElem?_eq_getElem (length ▸ hi)) get with
      | value h kept => exact ih h
      | null loose => cases hnull with
        | nonNull hnull => cases loose
      | standIn loose lost stands => exact absurd hnull stands.not_nullAt
  | nonNull hnull ih =>
    cases h with
    | abstract tag => cases tag
    | nonNull h => exact ih h

/-! ### More failures and stand-ins elsewhere -/

theorem Lost.mono (h : Lost absorbed path p) (habsorbed : ∀ e ∈ absorbed, e ∈ absorbed') :
    Lost absorbed' path p := by
  rcases h with rfl | ⟨e, he, hpath⟩
  · exact .inl rfl
  · exact .inr ⟨e, habsorbed e he, hpath⟩

theorem InSlot.mono_of_value (h : InSlot c absorbed nulled ty path anchor p r)
    (hvalue : ValueOf c absorbed nulled ty path (ty.anchor path anchor) p r →
      ValueOf c absorbed' nulled' ty path (ty.anchor path anchor) p r)
    (habsorbed : ∀ e ∈ absorbed, e ∈ absorbed') (hnulled : path ∈ nulled' ↔ path ∈ nulled) :
    InSlot c absorbed' nulled' ty path anchor p r := by
  cases h with
  | value h kept => exact .value (hvalue h) (mt hnulled.mp kept)
  | null loose lost bare => exact .null loose (lost.mono habsorbed) bare
  | standIn loose lost stands recorded =>
    exact .standIn loose (lost.mono habsorbed) stands (hnulled.mpr recorded)

/-- What is nulled elsewhere and what else has failed are no matter to a value. -/
theorem ValueOf.mono (h : ValueOf c absorbed nulled ty path anchor p r)
    (habsorbed : ∀ e ∈ absorbed, e ∈ absorbed')
    (hnulled : ∀ q, path <+: q → (q ∈ nulled' ↔ q ∈ nulled)) :
    ValueOf c absorbed' nulled' ty path anchor p r := by
  induction ty generalizing path anchor p r with
  | list inner ih =>
    cases h with
    | abstract tag => cases tag
    | list length items =>
      refine .list length fun i p r hp hr => ?_
      have hbelow : ∀ q, path ++ [.index i] <+: q → (q ∈ nulled' ↔ q ∈ nulled) :=
        fun q hq => hnulled q (Path.prefix_of_snoc hq)
      exact (items i p r hp hr).mono_of_value (fun h => ih h hbelow) habsorbed
        (hbelow _ (List.prefix_refl _))
  | nonNull inner ih =>
    cases h with
    | abstract tag => cases tag
    | nonNull h => exact .nonNull (ih h hnulled)
  | scalar s =>
    cases h with
    | abstract tag => cases tag
    | scalar shows => exact .scalar shows
  | enum h =>
    cases h with
    | abstract tag => cases tag
    | enum get declared stands => exact .enum get declared stands
  | object h =>
    cases h with
    | abstract tag => cases tag
    | object get recognised => exact .object get recognised
  | interface h | union h =>
    cases h with
    | abstract tag get types mem dispatched => exact .abstract tag get types mem dispatched

theorem InSlot.mono (h : InSlot c absorbed nulled ty path anchor p r)
    (habsorbed : ∀ e ∈ absorbed, e ∈ absorbed')
    (hnulled : ∀ q, path <+: q → (q ∈ nulled' ↔ q ∈ nulled)) :
    InSlot c absorbed' nulled' ty path anchor p r :=
  h.mono_of_value (fun h => h.mono habsorbed hnulled) habsorbed (hnulled _ (List.prefix_refl _))

theorem NullAt.mono {q : Path} {ty' : TypeExpr} (h : NullAt nulled r ty path q ty')
    (hnulled : ∀ q ∈ nulled, q ∈ nulled') : NullAt nulled' r ty path q ty' := by
  induction h with
  | item get null => exact .item get (null.imp_right (hnulled _))
  | within get _ ih => exact .within get ih
  | nonNull _ ih => exact .nonNull ih

end Catalog

end GraphSchema
