import GraphSchema.Proofs.Compile.Accepted
import GraphSchema.Proofs.Compile.Tags

/-! Defaults that a resolver gets back.

Compiling writes the default of an argument as a value that a caller could send, and at
run time that value is decoded like one that was sent: three recursions over the type, of
which the last undoes the first. An enum value becomes a name and the name the same value
again, as no two values of a compiled enum share a name. So what the resolver has of an
argument that was left out is the declared default, with lists around single values where
lists are expected (`Restates`), and the same as if it had been written out
(`defaults_restated`). -/
namespace GraphSchema

open Except Link

variable {M C W : Type}

namespace Catalog

/-- What is supplied restates the default: it has the same nulls, scalars and lists, and a list
around what is no list where the type is one. An enum value is equal to the one of the default, or
has the name that the default gives. -/
inductive Restates (c : Catalog M C W) : TypeExpr → Default → Supplied → Prop where
  | null {ty : TypeExpr} (loose : ty.isNonNull = false) : Restates c ty .null .null
  | scalar {k : Scalar} {v : Value} (holds : k.holds v = true) :
    Restates c (.scalar k) (.value v) (.value v)
  | leaf {h : Handle} {e : EnumDef} {l : Leaf} {x : EnumValue} (get : c.enum? h = some e)
    (declared : x ∈ e.values) (equal : e.same x.value l = true) :
    Restates c (.enum h) (.leaf l) (.leaf x.value)
  | named {h : Handle} {e : EnumDef} {x : EnumValue} (get : c.enum? h = some e)
    (declared : x ∈ e.values) : Restates c (.enum h) (.value (.enum x.name)) (.leaf x.value)
  | list {inner : TypeExpr} {ds : List Default} {ss : List Supplied}
    (length : ss.length = ds.length)
    (items : ∀ (i : Nat) d s, ds[i]? = some d → ss[i]? = some s → Restates c inner d s) :
    Restates c (.list inner) (.list ds) (.list ss)
  | single {inner : TypeExpr} {d : Default} {s : Supplied} (hd : d ≠ .null)
    (single : ∀ ds, d ≠ .list ds) (h : Restates c inner d s) : Restates c (.list inner) d (.list [s])
  | nonNull {inner : TypeExpr} {d : Default} {s : Supplied} (hd : d ≠ .null)
    (h : Restates c inner d s) : Restates c (.nonNull inner) d s

variable {c : Catalog M C W} {ty : TypeExpr} {d : Default} {s : Supplied}

theorem Restates.eq_null (h : c.Restates ty d .null) : d = .null := by
  generalize hs : Supplied.null = s at h
  induction h with
  | null => rfl
  | nonNull _ _ ih => exact ih hs
  | _ => cases hs

/-- A null is only supplied where the type may be null. -/
theorem Restates.loose_of_null (h : c.Restates ty d .null) : ty.isNonNull = false := by
  cases h with
  | null loose => exact loose
  | nonNull hd h => exact absurd h.eq_null hd

end Catalog

namespace Link

variable {c : Catalog M C W} {ty inner : TypeExpr} {d : Default} {v : Value} {input : InputPlan}

/-! ### Values without items -/

/-- A default of a scalar is null or one of its values. -/
theorem scalar_of_defaultValue {k : Scalar} (hv : defaultValue c (.scalar k) d = .ok v) :
    (d = .null ∧ v = .null) ∨ (d = .value v ∧ k.holds v = true) := by
  cases d with
  | null =>
    cases hv
    exact .inl ⟨rfl, rfl⟩
  | value x =>
    rw [defaultValue] at hv
    split at hv
    · next hholds =>
      cases hv
      exact .inr ⟨rfl, hholds⟩
    · cases hv
  | _ => cases hv

/-- A default of an enum is null, or it is written as the name of a value: the first one that is
equal to it, or the one of which it gives the name. -/
theorem enum_of_defaultValue {h : Handle} (hv : defaultValue c (.enum h) d = .ok v) :
    (d = .null ∧ v = .null) ∨ ∃ e, c.enum? h = some e ∧ ∃ x ∈ e.values, v = .enum x.name ∧
      ((∃ l, d = .leaf l ∧ e.same x.value l = true) ∨ d = .value (.enum x.name)) := by
  cases d with
  | null =>
    cases hv
    exact .inl ⟨rfl, rfl⟩
  | leaf l =>
    rw [defaultValue] at hv
    split at hv
    · next name hname =>
      cases hv
      obtain ⟨e, he, hname⟩ := Option.bind_eq_some_iff.mp hname
      obtain ⟨x, hfind, rfl⟩ := Option.map_eq_some_iff.mp hname
      have hequal : e.same x.value l = true := by simpa using List.find?_some hfind
      exact .inr ⟨e, he, x, List.mem_of_find?_eq_some hfind, rfl, .inl ⟨l, rfl, hequal⟩⟩
    · cases hv
  | value y =>
    cases y with
    | enum name =>
      rw [defaultValue] at hv
      split at hv
      · next hsome =>
        cases hv
        obtain ⟨l, hl⟩ := Option.isSome_iff_exists.mp hsome
        obtain ⟨e, he, hl⟩ := Option.bind_eq_some_iff.mp hl
        obtain ⟨x, hfind, -⟩ := Option.map_eq_some_iff.mp hl
        obtain rfl : x.name = name := by simpa using List.find?_some hfind
        exact .inr ⟨e, he, x, List.mem_of_find?_eq_some hfind, rfl, .inr rfl⟩
      · cases hv
    | _ => cases hv
  | list ds => cases hv

theorem isNull_of_holds {k : Scalar} (h : k.holds v = true) : v.isNull = false := by
  cases v with
  | null => cases k <;> cases h
  | _ => rfl

theorem restates_scalar {k : Scalar} (hv : defaultValue c (.scalar k) d = .ok v) :
    ∃ s, InputPlan.scalar.decode v = .ok s ∧ c.Restates (.scalar k) d s := by
  obtain ⟨rfl, rfl⟩ | ⟨rfl, hholds⟩ := scalar_of_defaultValue hv
  · exact ⟨.null, rfl, .null rfl⟩
  · exact ⟨.value v, by simp [InputPlan.decode, isNull_of_holds hholds], .scalar hholds⟩

/-- Where names are distinct, each stands for its own value. -/
theorem decode_name {values : EnumValues} (h : (values.map (·.name)).Nodup) {x : EnumValue}
    (hx : x ∈ values) : (InputPlan.enum values).decode (.enum x.name) = .ok (.leaf x.value) := by
  have hparse : values.parse x.name = some x.value := by
    rw [EnumValues.parse, List.find?_of_nodup h hx]
    rfl
  simp [InputPlan.decode, InputPlan.decodeEnum, Value.isNull, hparse]

theorem restates_enum {h : Handle} {e : EnumDef} (he : c.enum? h = some e)
    (hnodup : (e.values.map (·.name)).Nodup) (hv : defaultValue c (.enum h) d = .ok v) :
    ∃ s, (InputPlan.enum e.values).decode v = .ok s ∧ c.Restates (.enum h) d s := by
  obtain ⟨rfl, rfl⟩ | ⟨e', he', x, hx, rfl, hd⟩ := enum_of_defaultValue hv
  · exact ⟨.null, rfl, .null rfl⟩
  cases he.symm.trans he'
  refine ⟨.leaf x.value, decode_name hnodup hx, ?_⟩
  obtain ⟨l, rfl, hequal⟩ | rfl := hd
  · exact .leaf he hx hequal
  · exact .named he hx

/-! ### Lists -/

theorem restates_items (h : ∀ d v, defaultValue c inner d = .ok v →
      ∃ s, input.decode v = .ok s ∧ c.Restates inner d s) {ds : List Default} {vs : List Value}
    (hvs : ds.mapM (defaultValue c inner) = .ok vs) :
    ∃ ss, vs.mapM input.decode = .ok ss ∧ ss.length = ds.length ∧
      ∀ (i : Nat) d s, ds[i]? = some d → ss[i]? = some s → c.Restates inner d s := by
  induction ds generalizing vs with
  | nil =>
    cases hvs
    exact ⟨[], rfl, rfl, nofun⟩
  | cons d ds ih =>
    rw [List.mapM_cons] at hvs
    obtain ⟨v, hv, hvs⟩ := bind_eq_ok hvs
    obtain ⟨vs, hrest, hvs⟩ := bind_eq_ok hvs
    cases hvs
    obtain ⟨s, hs, hrestates⟩ := h d v hv
    obtain ⟨ss, hss, hlength, hitems⟩ := ih hrest
    refine ⟨s :: ss, ?_, by rw [List.length_cons, List.length_cons, hlength], ?_⟩
    · rw [List.mapM_cons, hs, hss]
      rfl
    · rintro (_ | i) d' s' hd hs
      · cases hd
        cases hs
        exact hrestates
      · exact hitems i d' s' hd hs

theorem restates_list (h : ∀ d v, defaultValue c inner d = .ok v →
      ∃ s, input.decode v = .ok s ∧ c.Restates inner d s)
    (hv : defaultValue c (.list inner) d = .ok v) :
    ∃ s, (InputPlan.list input).decode v = .ok s ∧ c.Restates (.list inner) d s := by
  cases d with
  | null =>
    cases hv
    exact ⟨.null, rfl, .null rfl⟩
  | list ds =>
    obtain ⟨vs, hvs, rfl⟩ := map_eq_ok hv
    obtain ⟨ss, hss, hlength, hitems⟩ := restates_items h hvs
    exact ⟨.list ss, by rw [InputPlan.decode, hss]; rfl, .list hlength hitems⟩
  | value _ | leaf _ =>
    obtain ⟨w, hw, rfl⟩ := map_eq_ok hv
    obtain ⟨s, hs, hrestates⟩ := h _ w hw
    refine ⟨.list [s], ?_, .single nofun nofun hrestates⟩
    rw [InputPlan.decode, List.mapM_cons, hs]
    rfl

/-! ### Every type -/

/-- **Decoding the value of a default restates the default.** -/
theorem restates_of_defaultValue
    (hnames : ∀ h e, ty.named = some h → c.enum? h = some e → (e.values.map (·.name)).Nodup)
    (hinput : inputPlan c ty = .ok input) (hv : defaultValue c ty d = .ok v) :
    ∃ s, input.decode v = .ok s ∧ c.Restates ty d s := by
  induction ty generalizing input d v with
  | scalar k =>
    cases hinput
    exact restates_scalar hv
  | enum h =>
    obtain ⟨e, he, rfl⟩ := map_eq_ok hinput
    have he := enumOf_eq_ok.mp he
    exact restates_enum he (hnames h e rfl he) hv
  | object h | interface h | union h =>
    cases hinput
    cases d with
    | null =>
      cases hv
      exact ⟨.null, rfl, .null rfl⟩
    | _ => cases hv
  | list inner ih =>
    obtain ⟨input, hinner, rfl⟩ := map_eq_ok hinput
    exact restates_list (fun d v hv => ih hnames hinner hv) hv
  | nonNull inner ih =>
    cases d with
    | null => cases hv
    | _ =>
      obtain ⟨s, hs, hrestates⟩ := ih hnames hinput hv
      exact ⟨s, hs, .nonNull (by simp) hrestates⟩

/-! ### Arguments -/

variable {typeName field : String} {a : Argument} {p : ArgumentPlan}

theorem input_of_argumentPlan (h : argumentPlan c typeName field a = .ok p) :
    inputPlan c a.type = .ok p.input := by
  obtain ⟨input, hinput, h⟩ := bind_eq_ok h
  obtain ⟨default, -, h⟩ := bind_eq_ok h
  cases h
  exact hinput

theorem default_of_defaultOf {found : Option Value} (h : defaultOf c typeName field a = .ok found)
    (hd : a.default = some d) : ∃ v, defaultValue c a.type d = .ok v ∧ found = some v := by
  simp only [defaultOf, hd] at h
  cases hv : defaultValue c a.type d with
  | error reason => simp [hv] at h
  | ok v =>
    simp only [hv, Except.ok.injEq] at h
    exact ⟨v, rfl, h.symm⟩

/-- An argument that has a default restates it when it is left out, and when it is sent. -/
theorem restates_of_argumentPlan
    (hnames : ∀ h e, a.type.named = some h → c.enum? h = some e → (e.values.map (·.name)).Nodup)
    (hp : argumentPlan c typeName field a = .ok p) (hd : a.default = some d) :
    ∃ v supplied, p.default = some v ∧ c.Restates a.type d supplied ∧
      ∀ sent, (Value.member? a.name sent = none ∨ Value.member? a.name sent = some v) →
        p.decode sent = .ok supplied := by
  obtain ⟨hname, hdefault⟩ := argumentPlan_ok hp
  obtain ⟨v, hv, hsome⟩ := default_of_defaultOf hdefault hd
  obtain ⟨supplied, hdecode, hrestates⟩ :=
    restates_of_defaultValue hnames (input_of_argumentPlan hp) hv
  refine ⟨v, supplied, hsome, hrestates, fun sent hsent => ?_⟩
  have hsource : (Value.member? p.name sent).or p.default = some v := by
    rw [hname, hsome]
    rcases hsent with h | h <;> simp [h]
  rw [ArgumentPlan.decode, hsource]
  exact hdecode

/-- There is an argument for each that is declared, with what its plan decodes. -/
theorem names_of_decodeAll {as : List Argument} {plans : List ArgumentPlan}
    (hplans : as.mapM (argumentPlan c typeName field) = .ok plans) {sent : List (String × Value)}
    {args : Arguments} (h : ArgumentPlan.decodeAll plans sent = .ok args) :
    args.map (·.1) = as.map (·.name) ∧
      ∀ p ∈ plans, ∃ supplied, p.decode sent = .ok supplied ∧ (p.name, supplied) ∈ args := by
  refine ⟨?_, fun p hp => ?_⟩
  · have hnames : args.map (·.1) = plans.map (·.name) := by
      refine map_of_mapM (fun p arg harg => ?_) h
      obtain ⟨_, -, rfl⟩ := map_eq_ok harg
      rfl
    rw [hnames]
    exact map_of_mapM (fun a p hp => (argumentPlan_ok hp).1) hplans
  · obtain ⟨arg, harg, hdecode⟩ := exists_of_mapM h hp
    obtain ⟨supplied, hsupplied, rfl⟩ := map_eq_ok hdecode
    exact ⟨supplied, hsupplied, harg⟩

/-- The names of an enum within reach are distinct. -/
theorem Linking.names_nodup {d : Description} {w : Walk M C W} {st : Store M C W}
    {s : Schema M C W} (hs : Linking c d w st s) {h : Handle} (hh : h ∈ w.visited) {e : EnumDef}
    (he : c.enum? h = some e) : (e.values.map (·.name)).Nodup := by
  obtain ⟨t, hget, hkind⟩ := Catalog.enum?_eq_some.mp he
  exact (hs.accepts_enum hh hget hkind).nodup

end Link

namespace Catalog

/-- **A default is as good as written out.** In a compiled schema, decoding what the default of a
type within reach was turned into does not fail and restates the default. So does every argument
of a field of an object that has a default, both when it is left out and when the value of the
default is sent for it. The field has one argument for each that is declared, in that order. -/
theorem defaults_restated {d : Description} {st st' : Store M C W} {s : Schema M C W}
    {c : Catalog M C W} (hcompile : c.compile d st = (.ok s, st')) :
    (∀ ty, (∀ h, ty.named = some h → c.Reaches st'.memo d h) →
      ∀ input, inputPlan c ty = .ok input → ∀ default v, defaultValue c ty default = .ok v →
        ∃ supplied, input.decode v = .ok supplied ∧ c.Restates ty default supplied) ∧
    ∀ t f, .object t ∈ s.types → f ∈ t.fields → ∃ x declared,
      c.Reaches st'.memo d x ∧ c.nameOf x = t.name ∧ c.HasField st'.memo x declared ∧
      f.info.name = declared.name ∧
      (∀ a ∈ declared.arguments, ∀ default ∈ a.default, ∃ info p v supplied,
        info ∈ f.info.arguments ∧ info.name = a.name ∧ info.default = some v ∧
        p ∈ f.plan.arguments ∧ p.name = a.name ∧ c.Restates a.type default supplied ∧
        ∀ sent, (Value.member? a.name sent = none ∨ Value.member? a.name sent = some v) →
          p.decode sent = .ok supplied) ∧
      (declared.arguments.map (·.name)).Nodup ∧
      ∀ sent args, ArgumentPlan.decodeAll f.plan.arguments sent = .ok args →
        args.map (·.1) = declared.arguments.map (·.name) ∧
          ∀ p ∈ f.plan.arguments, ∃ supplied,
            p.decode sent = .ok supplied ∧ (p.name, supplied) ∈ args := by
  refine ⟨fun ty hty input hinput default v hv => ?_, fun t f ht hf => ?_⟩
  · obtain ⟨w, hs, hreached⟩ := visited_of_compile hcompile
    exact restates_of_defaultValue
      (fun h e hh he => hs.names_nodup ((hreached h).mpr (hty h hh)) he) hinput hv
  obtain ⟨w, x, declared, typeName, _, hs, hreached, hx, hname, hfield, hchecked, hplanned⟩ :=
    declared_of_mem hcompile ht hf
  refine ⟨x, declared, hx, hname, hfield, hplanned.name, fun a ha default hdefault => ?_,
    hchecked.nodup, fun sent args => names_of_decodeAll hplanned.arguments⟩
  obtain ⟨p, hp, hplan⟩ := exists_of_mapM hplanned.arguments ha
  obtain ⟨info, hinfo, hargument⟩ := exists_of_mapM hplanned.infos ha
  obtain ⟨v, supplied, hsome, hrestates, hdecode⟩ := restates_of_argumentPlan (fun h e hh he =>
    hs.names_nodup ((hreached h).mpr (.argument hx hfield ha hh)) he) hplan hdefault
  have halike := alike hargument hplan
  exact ⟨info, p, v, supplied, hinfo, (argumentInfo_ok hargument).1, halike.default ▸ hsome, hp,
    (argumentPlan_ok hplan).1, hrestates, hdecode⟩

/-- An episode as the default of a list of them is a list with that episode. -/
theorem defaults_restated_episodes :
    let ty : TypeExpr := .list (.nonNull (.enum ⟨0, 0⟩))
    ∃ input, inputPlan StarWars.catalog.1 ty = .ok input ∧
      defaultValue StarWars.catalog.1 ty (.leaf StarWars.Episode.empire.leaf) =
        .ok (.list [.enum "EMPIRE"]) ∧
      input.decode (.list [.enum "EMPIRE"]) = .ok (.list [.leaf StarWars.Episode.empire.leaf]) ∧
      StarWars.catalog.1.Restates ty (.leaf StarWars.Episode.empire.leaf)
        (.list [.leaf StarWars.Episode.empire.leaf]) := by
  intro ty
  have hreach :
      StarWars.catalog.1.Reaches starWars.2.memo { query := StarWars.catalog.2 } ⟨0, 0⟩ :=
    reaches_of_mem_references (.root (List.mem_cons_self ..)) (by decide +kernel)
  obtain ⟨hrestated, -⟩ := defaults_restated starWars_compiles
  have hvalue : defaultValue StarWars.catalog.1 ty (.leaf StarWars.Episode.empire.leaf) =
      .ok (.list [.enum "EMPIRE"]) := rfl
  obtain ⟨supplied, hdecode, hrestates⟩ :=
    hrestated ty (by rintro h ⟨⟩; exact hreach) _ rfl _ _ hvalue
  cases hdecode
  exact ⟨_, rfl, hvalue, rfl, hrestates⟩

end Catalog

end GraphSchema
