import GraphSchema.Proofs.Arguments.Mirror
import GraphSchema.Proofs.Direct.Completion
import GraphSchema.Proofs.Direct.Mending

/-! Arguments that come back.

A value that a caller may send is decoded, read in the form that mirrors its type,
produced again and completed, each by a recursion of its own over the type. At every
position they agree: nothing fails on the way, and what is rendered is the value in
its normal form, once the nulls that stand-ins were recorded for are written
(`argument_round_trip`). -/
namespace GraphSchema

open Completion Execution Link Mending GraphSchema.Path

variable {M C W : Type} {c : Catalog M C W} {s : Schema M C W}

namespace RoundTrip

/-! ### One value -/

/-- Rendering comes to the value once the nulls are written, and leaves no trace. -/
def Shows (s : Schema M C W) (declared : String) (path : Path) (nulled : List Path)
    (r : Rendered M) (u : Value) : Prop :=
  ∀ select position tr, ∃ y, Execution.render s select declared position r path tr = (.ok y, tr) ∧
    Settles path path nulled y (some u)

/-- The value, sent for an argument and handed back, is `u`. It is not null, and neither is anything
that it becomes on the way. -/
def Returns (s : Schema M C W) (declared : String) (form : Form) (input : InputPlan)
    (output : OutputPlan M) (v u : Value) : Prop :=
  ∃ supplied x, input.decode v = .ok supplied ∧ supplied ≠ .null ∧ form.read supplied = .ok x ∧
    (form.produce x : Produced M).isNull = false ∧
    ∀ site path anchor, ∃ r nulled,
      value site output path anchor (form.produce x) = ⟨.ok (some r), [], nulled⟩ ∧
        Shows s declared path nulled r u

/-- The same at a position of the type, where the value may be null. -/
def ReturnsAt (s : Schema M C W) (declared : String) (form : Form) (input : InputPlan)
    (output : OutputPlan M) (v u : Value) : Prop :=
  ∃ supplied x, input.decode v = .ok supplied ∧ form.read supplied = .ok x ∧
    ∀ site path anchor, ∃ rendered nulled,
      complete site output path anchor (form.produce x) = ⟨.ok rendered, [], nulled⟩ ∧
        ∀ select position tr, ∃ y,
          renderField s select declared position path (some rendered) tr = (.ok y, tr) ∧
            Settles path path nulled y (some u)

variable {declared : String} {form : Form} {input : InputPlan} {output : OutputPlan M}
  {v u : Value} {path : Path} {nulled : List Path}

theorem shows_value (s : Schema M C W) (declared : String) (path : Path) (v : Value) :
    Shows s declared path [] (.value v) v :=
  fun _ _ _ => ⟨v, rfl, settles_clean v⟩

@[simp] theorem decode_null (input : InputPlan) : input.decode .null = .ok .null := by
  cases input <;> rfl

theorem read_option (form : Form) {supplied : Supplied} (h : supplied ≠ .null) :
    (Form.option form).read supplied = (form.read supplied).map some := by
  cases supplied <;> first | rfl | exact absurd rfl h

/-! ### At a position -/

/-- A null comes back at a position that may be null. -/
theorem returnsAt_null (hloose : output.isNonNull = false) :
    ReturnsAt s declared (.option form) input output .null .null := by
  refine ⟨.null, none, decode_null input, rfl, fun site path anchor => ⟨none, [], ?_, ?_⟩⟩
  · rw [complete_loose hloose, Form.produce, value_null]
    rfl
  · exact fun select position tr => ⟨.null, rfl, settles_null (by simp)⟩

theorem returnsAt_of_returns (h : Returns s declared form input output v u)
    (hloose : output.isNonNull = false) :
    ReturnsAt s declared (.option form) input output v u := by
  obtain ⟨supplied, x, hdecode, hsupplied, hread, -, hvalue⟩ := h
  refine ⟨supplied, some x, hdecode, by rw [read_option form hsupplied, hread]; rfl, ?_⟩
  intro site path anchor
  obtain ⟨r, nulled, hr, hshows⟩ := hvalue site path path
  exact ⟨some r, nulled, (complete_loose hloose path anchor _).trans hr, hshows⟩

theorem returnsAt_nonNull (h : Returns s declared form input output v u) :
    ReturnsAt s declared form input (.nonNull output) v u := by
  obtain ⟨supplied, x, hdecode, -, hread, -, hvalue⟩ := h
  refine ⟨supplied, x, hdecode, hread, fun site path anchor => ?_⟩
  obtain ⟨r, nulled, hr, hshows⟩ := hvalue site path anchor
  exact ⟨some r, nulled, by rw [complete, hr]; rfl, hshows⟩

/-! ### Items -/

/-- What a plan puts in the place of a null item can be rendered. -/
def Absent (s : Schema M C W) (declared : String) (output : OutputPlan M) : Prop :=
  ∀ select position path tr, ∃ y,
    Execution.render s select declared position output.nullItem.1 path tr = (.ok y, tr) ∧
      (output.nullItem.2 = false → y = .null)

theorem shows_nullItem (h : Absent s declared output) (hbelow : ∀ q ∈ nulled, path <+: q) :
    Shows s declared path (nullsOf output path nulled) output.nullItem.1 .null := by
  intro select position tr
  obtain ⟨y, hrender, hnull⟩ := h select position path tr
  refine ⟨y, hrender, ?_⟩
  unfold nullsOf
  split
  · exact settles_standIn hbelow y
  · rename_i hstand
    rw [hnull (by simpa using hstand)]
    exact settles_null hbelow

/-- The value comes back as an item of a list. -/
def ReturnsItem (s : Schema M C W) (declared : String) (form : Form) (input : InputPlan)
    (output : OutputPlan M) (v u : Value) : Prop :=
  ∃ supplied x, input.decode v = .ok supplied ∧ form.read supplied = .ok x ∧
    ∀ site path anchor i, ∃ r nulled,
      item site output path anchor i (form.produce x) = ⟨.ok r, [], nulled⟩ ∧
        Shows s declared (path ++ [.index i]) nulled r u

theorem returnsItem_of_returnsAt (h : ReturnsAt s declared form input output v u)
    (habsent : output.isNonNull = false → Absent s declared output) :
    ReturnsItem s declared form input output v u := by
  obtain ⟨supplied, x, hdecode, hread, hcomplete⟩ := h
  refine ⟨supplied, x, hdecode, hread, fun site path anchor i => ?_⟩
  obtain ⟨rendered, nulled, hc, hshows⟩ := hcomplete site (path ++ [.index i]) anchor
  cases rendered with
  | some r => exact ⟨r, nulled, by rw [item, hc]; exact slot_some rfl, hshows⟩
  | none =>
    -- the field shows a null, so the item does, in whatever stands for it
    have hloose : output.isNonNull = false := by
      have hagrees := complete_agrees site output (path ++ [.index i]) anchor
        (form.produce x : Produced M)
      rw [hc] at hagrees
      exact isNonNull_of_agrees_none hagrees
    refine ⟨output.nullItem.1, nullsOf output _ nulled, by rw [item, hc]; exact slot_none rfl, ?_⟩
    intro select position tr
    obtain ⟨_, hnull, hsettles⟩ := hshows select position tr
    cases hnull
    rw [← hsettles.2, Value.nullAll_null]
    exact shows_nullItem (habsent hloose) hsettles.1 select position tr

/-! ### Lists -/

/-- Items that come back one by one come back as a list. -/
theorem items_return {f : Value → Value} {vs : List Value}
    (h : ∀ v ∈ vs, ReturnsItem s declared form input output v (f v)) :
    ∃ supplied xs, vs.mapM input.decode = .ok supplied ∧ supplied.mapM form.read = .ok xs ∧
      ∀ site path anchor i, ∃ rs nulled,
        items (item site output path anchor) i (xs.map form.produce) = ⟨.ok rs, [], nulled⟩ ∧
          ∀ select position tr, ∃ ys,
            renderItems s select declared position i rs path tr = (.ok ys, tr) ∧
              SettlesItems path path i nulled ys (some (vs.map f)) := by
  induction vs with
  | nil =>
    refine ⟨[], [], rfl, rfl, fun site path anchor i => ⟨[], [], rfl, fun select position tr => ?_⟩⟩
    exact ⟨[], rfl, settlesItems_nil i⟩
  | cons v vs ih =>
    obtain ⟨head, x, hdecode, hread, hhead⟩ := h v (List.mem_cons_self ..)
    obtain ⟨tail, xs, hdecodes, hreads, htail⟩ := ih fun u hu => h u (List.mem_cons_of_mem _ hu)
    refine ⟨head :: tail, x :: xs, ?_, ?_, fun site path anchor i => ?_⟩
    · rw [List.mapM_cons, hdecode, hdecodes]
      rfl
    · rw [List.mapM_cons, hread, hreads]
      rfl
    obtain ⟨r, nulled, hr, hshows⟩ := hhead site path anchor i
    obtain ⟨rs, nulls, hrs, hrenders⟩ := htail site path anchor (i + 1)
    refine ⟨r :: rs, nulled ++ nulls, ?_, fun select position tr => ?_⟩
    · rw [List.map_cons, items, hr, hrs]
      rfl
    obtain ⟨y, hy, hsettles⟩ := hshows select position tr
    obtain ⟨ys, hys, hsettle⟩ := hrenders select position tr
    refine ⟨y :: ys, by rw [renderItems, hy]; simp only [hys], ?_⟩
    -- nothing is recorded while the items are rendered
    have hv : Settles (path ++ [.index i]) path (nulled ++ []) y (some (f v)) := by
      rw [List.append_nil]
      exact hsettles
    have hvs : SettlesItems path path (i + 1) (nulls ++ []) ys (some (vs.map f)) := by
      rw [List.append_nil]
      exact hsettle
    have hcons := settlesItems_cons hv hvs
    rwa [interleave, List.append_nil, List.append_nil] at hcons

theorem returns_list {f : Value → Value} {vs : List Value}
    (h : ∀ x ∈ vs, ReturnsItem s declared form input output x (f x))
    (hv : (InputPlan.list input).decode v = (vs.mapM input.decode).map .list) :
    Returns s declared (.list form) (.list input) (.list output) v (.list (vs.map f)) := by
  obtain ⟨supplied, xs, hdecode, hread, hitems⟩ := items_return h
  refine ⟨.list supplied, xs, by rw [hv, hdecode]; rfl, nofun, hread, rfl, ?_⟩
  intro site path anchor
  obtain ⟨rs, nulled, hrs, hrenders⟩ := hitems site path anchor 0
  refine ⟨.list rs, nulled, ?_, fun select position tr => ?_⟩
  · rw [Form.produce, value_items, hrs]
    rfl
  · obtain ⟨ys, hys, hsettles⟩ := hrenders select position tr
    exact ⟨.list ys, by rw [Execution.render, hys], settles_list hsettles⟩

/-- The items that a value other than null has where a list is expected. -/
def asList : Value → List Value
  | .list items => items
  | single => [single]

theorem decode_list (hv : v.isNull = false) :
    (InputPlan.list input).decode v = ((asList v).mapM input.decode).map .list := by
  cases v with
  | null => cases hv
  | list items => rfl
  | _ =>
    simp only [InputPlan.decode, asList, List.mapM_cons, List.mapM_nil]
    cases input.decode _ <;> rfl

theorem admits_list {types : Query.Types} {ref : TypeRef} (hv : v.isNull = false)
    (h : Query.admits types (.list ref) v = true) :
    ∀ x ∈ asList v, Query.admits types ref x = true := by
  cases v with
  | null => cases hv
  | list items => simpa [Query.admits, asList] using h
  | _ => simpa [Query.admits, asList] using h

theorem intsFit_list {inner : TypeExpr} (h : (TypeExpr.list inner).intsFit v = true) :
    ∀ x ∈ asList v, inner.intsFit x = true := by
  cases v with
  | list items => simpa [TypeExpr.intsFit, asList] using h
  | _ => simpa [TypeExpr.intsFit, asList] using h

theorem normalise_list {inner : TypeExpr} (hv : v.isNull = false) :
    normalise c (.list inner) v = .list ((asList v).map (normalise c inner)) := by
  cases v with
  | null => cases hv
  | _ => rfl

/-! ### Scalars -/

theorem absent_scalar {k : Scalar} (hk : s.type? k.name = none) :
    Absent s k.name (.scalar k : OutputPlan M) := by
  refine fun select position path tr => ⟨.null, ?_, fun _ => rfl⟩
  simp [OutputPlan.nullItem, Execution.render, renderNull, hk]

/-- A scalar comes back as what the resolver hands out, if that is a value of the scalar. -/
theorem returns_scalar {k : Scalar} {x : form.Data} {y : Value} (hv : v.isNull = false)
    (hread : form.read (.value v) = .ok x) (hproduce : (form.produce x : Produced M) = .value y)
    (hholds : k.holds y = true) :
    Returns s declared form .scalar (.scalar k) v (scalarValue k y) := by
  refine ⟨.value v, x, by simp [InputPlan.decode, hv], nofun, hread, by rw [hproduce]; rfl, ?_⟩
  intro site path anchor
  refine ⟨.value (scalarValue k y), [], ?_, shows_value s declared path _⟩
  rw [hproduce, value, scalar, if_pos hholds]
  rfl

/-! ### Enum values -/

theorem absent_enum {e : EnumDef} (h : e.values ≠ []) :
    Absent s declared (.enum e : OutputPlan M) := by
  obtain ⟨first, rest, hvalues⟩ := List.exists_cons_of_ne_nil h
  have hitem : (OutputPlan.enum e : OutputPlan M).nullItem = (.value (.enum first.name), true) := by
    simp only [OutputPlan.nullItem, hvalues]
  intro select position path tr
  rw [hitem]
  exact ⟨_, rfl, Bool.noConfusion⟩

theorem decode_enum {values : EnumValues} {name : String} {leaf : Leaf}
    (hleaf : values.parse name = some leaf) (hv : v = .enum name ∨ v = .string name) :
    (InputPlan.enum values).decode v = .ok (.leaf leaf) := by
  rcases hv with rfl | rfl <;> simp [InputPlan.decode, InputPlan.decodeEnum, Value.isNull, hleaf]

theorem returns_enum {e : EnumDef} {name : String}
    (hown : ∀ x ∈ e.values, x.value.backing = e.leaf) (hreflexive : e.Reflexive)
    (hname : name ∈ e.values.map (·.name)) (hv : v = .enum name ∨ v = .string name) :
    Returns s declared (.leaf e.leaf) (.enum e.values) (.enum e) v (.enum (e.canonical name)) := by
  obtain ⟨x, hx, hxname⟩ := List.mem_map.mp hname
  obtain ⟨leaf, hleaf⟩ : ∃ leaf, e.values.parse name = some leaf := by
    rw [← Option.isSome_iff_exists, EnumValues.parse, Option.isSome_map]
    exact List.find?_isSome.mpr ⟨x, hx, by simpa using hxname⟩
  have hbacking : leaf.backing = e.leaf := by
    obtain ⟨named, hfind, rfl⟩ := Option.map_eq_some_iff.mp hleaf
    exact hown named (List.mem_of_find?_eq_some hfind)
  refine ⟨.leaf leaf, leaf.value, decode_enum hleaf hv, nofun, by simp [Form.read, hbacking], rfl,
    ?_⟩
  intro site path anchor
  refine ⟨.value (.enum (e.canonical name)), [], ?_, shows_value s declared path _⟩
  have hproduced : (⟨e.leaf, leaf.value⟩ : Leaf) = leaf := by rw [← hbacking]
  have hself : ∀ x ∈ e.values, e.same x.value x.value = true :=
    fun x hx => EnumDef.same_self hown hreflexive hx
  rw [Form.produce, hproduced, value, EnumDef.nameOf_of_parse hself hleaf]
  rfl

/-- A name comes back only if some internal value equals the one that it stands for: if not even
that value itself does, the name is decoded but completing the value fails. -/
theorem complete_nameless {e : EnumDef} {name : String} {leaf : Leaf}
    (hleaf : e.values.parse name = some leaf)
    (hdiffers : ∀ x ∈ e.values, e.same x.value leaf = false)
    (hv : v = .enum name ∨ v = .string name) :
    (InputPlan.enum e.values).decode v = .ok (.leaf leaf) ∧
      ∀ site path anchor,
        complete site (.enum e : OutputPlan M) path anchor (.leaf leaf) =
          .fail path (.namelessEnumValue site) := by
  refine ⟨decode_enum hleaf hv, fun site path anchor => ?_⟩
  have hnone : e.nameOf leaf = none := by
    rw [EnumDef.nameOf, Option.map_eq_none_iff, List.find?_eq_none]
    exact fun x hx => by simp [hdiffers x hx]
  show value site (.enum e) path path (.leaf leaf) = _
  simp only [value, hnone]

/-! ### Types -/

/-- Values of a type other than null come back in their normal form. -/
structure Echoes (c : Catalog M C W) (s : Schema M C W) (ty : TypeExpr) (form : Form)
    (input : InputPlan) (output : OutputPlan M) : Prop where
  input_eq : inputPlan c ty = .ok input
  output_eq : ∀ w, outputPlan c w ty = .ok output
  loose : output.isNonNull = false
  absent : Absent s (typeRef c ty).core output
  returns : ∀ v, v.isNull = false → Query.admits s.named? (typeRef c ty) v = true →
    ty.intsFit v = true → Returns s (typeRef c ty).core form input output v (normalise c ty v)

/-- Values of a type come back in their normal form, null among them where the type admits it. -/
structure EchoesAt (c : Catalog M C W) (s : Schema M C W) (ty : TypeExpr) (form : Form)
    (input : InputPlan) (output : OutputPlan M) : Prop where
  input_eq : inputPlan c ty = .ok input
  output_eq : ∀ w, outputPlan c w ty = .ok output
  absent : output.isNonNull = false → Absent s (typeRef c ty).core output
  returns : ∀ v, Query.admits s.named? (typeRef c ty) v = true → ty.intsFit v = true →
    ReturnsAt s (typeRef c ty).core form input output v (normalise c ty v)

variable {ty : TypeExpr} {d : Description} {w : Walk M C W} {st : Store M C W}

theorem normalise_null (c : Catalog M C W) (ty : TypeExpr) : normalise c ty .null = .null := by
  induction ty with
  | nonNull inner ih => exact ih
  | scalar k => cases k <;> rfl
  | _ => rfl

theorem Echoes.nullable (h : Echoes c s ty form input output) :
    EchoesAt c s ty (.option form) input output := by
  refine ⟨h.input_eq, h.output_eq, fun _ => h.absent, fun v hadmits hfits => ?_⟩
  cases hv : v.isNull with
  | true =>
    cases v with
    | null =>
      rw [normalise_null]
      exact returnsAt_null h.loose
    | _ => cases hv
  | false => exact returnsAt_of_returns (h.returns v hv hadmits hfits) h.loose

theorem Echoes.nonNull (h : Echoes c s ty form input output) :
    EchoesAt c s (.nonNull ty) form input (.nonNull output) := by
  refine ⟨h.input_eq, fun w => by rw [outputPlan, h.output_eq]; rfl, nofun, ?_⟩
  intro v hadmits hfits
  obtain ⟨hv, hinner⟩ : v.isNull = false ∧ Query.admits s.named? (typeRef c ty) v = true := by
    simpa [typeRef, Query.admits] using hadmits
  exact returnsAt_nonNull (h.returns v hv hinner hfits)

theorem EchoesAt.list (h : EchoesAt c s ty form input output) :
    Echoes c s (.list ty) (.list form) (.list input) (.list output) := by
  refine ⟨by rw [inputPlan, h.input_eq]; rfl, fun w => by rw [outputPlan, h.output_eq]; rfl, rfl,
    fun select position path tr => ⟨.list [], rfl, nofun⟩, ?_⟩
  intro v hv hadmits hfits
  rw [normalise_list hv]
  refine returns_list (fun x hx => ?_) (decode_list hv)
  exact returnsItem_of_returnsAt
    (h.returns x (admits_list hv hadmits x hx) (intsFit_list hfits x hx)) h.absent

/-! ### Types without lists -/

theorem returns_of_carries {k : Scalar} (h : c.Carries (.scalar k) form) (hv : v.isNull = false)
    (hadmits : k.admits v = true) (hfits : (TypeExpr.scalar k).intsFit v = true) :
    Returns s k.name form .scalar (.scalar k) v (normalise c (.scalar k) v) := by
  cases h with
  | string =>
    cases v with
    | string text => exact returns_scalar rfl rfl rfl rfl
    | _ => cases hadmits
  | boolean =>
    cases v with
    | boolean b => exact returns_scalar rfl rfl rfl rfl
    | _ => cases hadmits
  | int =>
    cases v with
    | number n =>
      obtain ⟨i, hi⟩ := Option.isSome_iff_exists.mp (show n.int32?.isSome = true from hfits)
      have hn : n = .int i := by
        cases n with
        | int j => simpa [Number.int32?] using (Option.ite_none_right_eq_some.mp hi).2
        | float x => cases hi
      subst hn
      exact returns_scalar (x := i) rfl (by simp [Form.read, hi]) rfl hfits
    | _ => cases hadmits
  | id =>
    cases v with
    | string text => exact returns_scalar (y := .string text) rfl rfl rfl rfl
    | number n => exact returns_scalar (y := .string n.text) rfl rfl rfl rfl
    | _ => cases hadmits

theorem echoes_scalar (hs : Linking c d w st s) {k : Scalar} (h : c.Carries (.scalar k) form) :
    Echoes c s (.scalar k) form .scalar (.scalar k) where
  input_eq := rfl
  output_eq _ := rfl
  loose := rfl
  absent := absent_scalar (hs.type?_scalar k)
  returns _ hv hadmits hfits := by
    have hnamed := Schema.named?_scalar (hs.type?_scalar k)
    exact returns_of_carries h hv (Query.admits_scalar hnamed rfl hv hadmits) hfits

theorem admits_enum {name : String} {t : EnumType} (ht : s.type? name = some (.enum t))
    (hv : v.isNull = false) (h : Query.admits s.named? (.named name) v = true) :
    ∃ n ∈ t.values.map (·.name), v = .enum n ∨ v = .string n := by
  have hnamed : s.named? name = some (s.info (.enum t)) := Schema.named?_of_type? ht
  have hadmits : Query.admitsNamed s.named? name v = true := by
    simpa [Query.admits, hv] using h
  cases v with
  | enum n => exact ⟨n, by simpa [Query.admitsNamed, hnamed, Schema.info] using hadmits, .inl rfl⟩
  | string n => exact ⟨n, by simpa [Query.admitsNamed, hnamed, Schema.info] using hadmits, .inr rfl⟩
  | _ => simp [Query.admitsNamed, hnamed, Schema.info] at hadmits

theorem echoes_enum (hs : Linking c d w st s) {h : Handle} {e : EnumDef} (has : c.HasEnum h e)
    (hreflexive : e.Reflexive) (hh : h ∈ w.visited) :
    Echoes c s (.enum h) (.leaf e.leaf) (.enum e.values) (.enum e) := by
  obtain ⟨henum, hown⟩ := has
  obtain ⟨t, hget, hkind⟩ := Catalog.enum?_eq_some.mp henum
  have hof := enumOf_eq_ok.mpr henum
  have htype : s.type? (c.nameOf h) = some (.enum ⟨t.name, t.description, e.values⟩) :=
    hs.type?_eq hh (by simp only [finish, hget, hkind])
  refine ⟨by rw [inputPlan, hof]; rfl, fun w => by rw [outputPlan, hof]; rfl, rfl,
    absent_enum (hs.fits_enum hh hget hkind), fun v hv hadmits _ => ?_⟩
  obtain ⟨name, hname, hnamed⟩ := admits_enum htype hv hadmits
  have hnormal : normalise c (.enum h) v = .enum (e.canonical name) := by
    rcases hnamed with rfl | rfl <;> simp [normalise, henum]
  rw [hnormal]
  exact returns_enum hown hreflexive hname hnamed

theorem exists_echoes (hs : Linking c d w st s) (h : c.Carries ty form) (hvisited : Visited w ty)
    (hreflexive : ∀ h e, ty.named = some h → c.enum? h = some e → e.Reflexive) :
    ∃ input output, Echoes c s ty form input output := by
  induction h with
  | string => exact ⟨_, _, echoes_scalar hs .string⟩
  | boolean => exact ⟨_, _, echoes_scalar hs .boolean⟩
  | int => exact ⟨_, _, echoes_scalar hs .int⟩
  | id => exact ⟨_, _, echoes_scalar hs .id⟩
  | enum has => exact ⟨_, _, echoes_enum hs has (hreflexive _ _ rfl has.1) (hvisited _ rfl)⟩
  | list items ih =>
    obtain ⟨_, _, hitems⟩ := ih hvisited hreflexive
    exact ⟨_, _, hitems.nullable.list⟩
  | listOfNonNull items ih =>
    obtain ⟨_, _, hitems⟩ := ih hvisited hreflexive
    exact ⟨_, _, hitems.nonNull.list⟩

theorem exists_echoesAt (hs : Linking c d w st s) (h : c.Mirrors ty form)
    (hvisited : Visited w ty)
    (hreflexive : ∀ h e, ty.named = some h → c.enum? h = some e → e.Reflexive) :
    ∃ input output, EchoesAt c s ty form input output := by
  cases h with
  | nullable carries =>
    obtain ⟨_, _, h⟩ := exists_echoes hs carries hvisited hreflexive
    exact ⟨_, _, h.nullable⟩
  | nonNull carries =>
    obtain ⟨_, _, h⟩ := exists_echoes hs carries hvisited hreflexive
    exact ⟨_, _, h.nonNull⟩

end RoundTrip

namespace Catalog

open RoundTrip

end Catalog

end GraphSchema
