import GraphSchema.Proofs.Compile.Accepted
import GraphSchema.Proofs.Compile.Tags
import GraphSchema.Proofs.Completion.Recheck

/-! Items that come to nothing.

A null item of a list is shown as such among scalars. Among all else a stand-in takes its
place, and its path is kept so that it is nulled in the end. Only an interface that nothing
implements has no stand-in (`Bare`): unions without members and enums without values do
not compile. So whether the path of an item that came to nothing was kept depends on its
type alone, at every depth (`vacancies_nulled`). -/
namespace GraphSchema

open Completion Link GraphSchema.Path

variable {M C W : Type}

namespace Completion

/-- At the path `q` an item of a list within the value is null or has failed. It is of the type,
and in its slot there is `item`. -/
inductive Vacancy (site : String) : TypeExpr → OutputPlan M → (path anchor : Path) →
    Produced M → Rendered M → TypeExpr → (q : Path) → (item : Rendered M) → Prop where
  | item {ty : TypeExpr} {plan : OutputPlan M} {path anchor : Path} {ps : List (Produced M)}
    {rs : List (Rendered M)} {i : Nat} {p : Produced M} {r : Rendered M}
    (produced : ps[i]? = some p) (rendered : rs[i]? = some r)
    (lost : ∀ r', (complete site plan (path ++ [.index i]) anchor p).result ≠ .ok (some r')) :
    Vacancy site (.list ty) (.list plan) path anchor (.list ps) (.list rs) ty (path ++ [.index i]) r
  | within {ty ty' : TypeExpr} {plan : OutputPlan M} {path anchor q : Path}
    {ps : List (Produced M)} {rs : List (Rendered M)} {i : Nat} {p : Produced M}
    {r item : Rendered M} (produced : ps[i]? = some p) (rendered : rs[i]? = some r)
    (h : Vacancy site ty plan (path ++ [.index i]) (ty.anchor (path ++ [.index i]) anchor) p r ty' q
      item) :
    Vacancy site (.list ty) (.list plan) path anchor (.list ps) (.list rs) ty' q item
  | nonNull {ty ty' : TypeExpr} {plan : OutputPlan M} {path anchor q : Path} {p : Produced M}
    {r item : Rendered M} (h : Vacancy site ty plan path anchor p r ty' q item) :
    Vacancy site (.nonNull ty) (.nonNull plan) path anchor p r ty' q item

variable {c : Catalog M C W} {w : Walk M C W} {site : String} {ty ty' : TypeExpr}
  {plan : OutputPlan M} {path anchor q : Path} {p : Produced M} {r item : Rendered M}

namespace Vacancy

theorem path_le (h : Vacancy site ty plan path anchor p r ty' q item) : path <+: q := by
  induction h with
  | item => exact List.prefix_append ..
  | within _ _ _ ih => exact prefix_of_snoc ih
  | nonNull _ ih => exact ih

theorem named_eq (h : Vacancy site ty plan path anchor p r ty' q item) : ty'.named = ty.named := by
  induction h with
  | item => rfl
  | within _ _ _ ih | nonNull _ ih => exact ih

theorem exists_items (h : Vacancy site ty plan path anchor p r ty' q item) :
    ∃ first rest, r = .list (first :: rest) := by
  induction h with
  | @item _ _ _ _ _ rs _ _ _ _ rendered | @within _ _ _ _ _ _ _ rs _ _ _ _ _ rendered =>
    cases rs with
    | nil => cases rendered
    | cons first rest => exact ⟨first, rest, rfl⟩
  | nonNull _ ih => exact ih

/-- There is no item in a null item or in what stands in for it. -/
theorem ne_nullItem (h : Vacancy site ty plan path anchor p r ty' q item) (plan' : OutputPlan M) :
    r ≠ plan'.nullItem.1 := by
  obtain ⟨first, rest, rfl⟩ := h.exists_items
  unfold OutputPlan.nullItem
  split <;> try split
  all_goals nofun

end Vacancy

/-! ### Items of a list -/

/-- In a list that is completed there is what each of its items came to, and of the paths at or
below an item just those are kept that the item itself keeps. -/
theorem items_getElem? {f : Nat → Produced M → Completed (Rendered M)}
    (hf : ∀ i p, ∀ q ∈ (f i p).nulled, path ++ [.index i] <+: q) {i : Nat}
    {ps : List (Produced M)} {rs : List (Rendered M)} (hrs : (items f i ps).result = .ok rs)
    {j : Nat} (hp : ps[j]? = some p) (hr : rs[j]? = some r) :
    (f (i + j) p).result = .ok r ∧
      ∀ q, path ++ [.index (i + j)] <+: q →
        (q ∈ (items f i ps).nulled ↔ q ∈ (f (i + j) p).nulled) := by
  induction ps generalizing i rs j with
  | nil => cases hp
  | cons p' ps ih =>
    obtain ⟨r', rest, hhead, hrest, rfl, hnulled⟩ := items_cons_ok hrs
    rw [hnulled]
    cases j with
    | zero =>
      cases hp
      cases hr
      exact ⟨hhead, fun q hq => mem_append_of_within (items_nulled_within hf (i + 1) ps) hq⟩
    | succ j =>
      obtain ⟨hresult, hkept⟩ := ih hrest hp hr
      rw [← Nat.add_assoc, Nat.add_right_comm]
      exact ⟨hresult, fun q hq => (mem_append_of_below (hf i p') hq).trans (hkept q hq)⟩

theorem item_of_list {ps : List (Produced M)} {rs : List (Rendered M)}
    (h : (value site (.list plan) path anchor (.list ps)).result = .ok (some (.list rs))) {i : Nat}
    (hp : ps[i]? = some p) (hr : rs[i]? = some r) :
    (Completion.item site plan path anchor i p).result = .ok r ∧
      ∀ q, path ++ [.index i] <+: q →
        (q ∈ (value site (.list plan) path anchor (.list ps)).nulled ↔
          q ∈ (Completion.item site plan path anchor i p).nulled) := by
  rw [value_items] at h ⊢
  obtain ⟨_, hrs, heq⟩ := Except.map_eq_ok h
  cases heq
  have hitem := items_getElem? (fun i p => slot_nulled_below
    (complete_nulled_below site plan (path ++ [.index i]) anchor p)) hrs hp hr
  rwa [Nat.zero_add] at hitem

/-- What stands in a slot is the completed value, or the null item of the plan where there is none.
The path of that is kept if it is a stand-in. -/
theorem slot_ok {done : Completed (Option (Rendered M))} (hbelow : path ∉ done.nulled)
    (hstrict : plan.isNonNull = true → done.result ≠ .ok none)
    (h : (slot plan path done).result = .ok r) :
    done.result = .ok (some r) ∧ (slot plan path done).nulled = done.nulled ∨
      (∀ r', done.result ≠ .ok (some r')) ∧ plan.isNonNull = false ∧ r = plan.nullItem.1 ∧
        (path ∈ (slot plan path done).nulled ↔ plan.nullItem.2 = true) := by
  have hkept : path ∈ nullsOf plan path done.nulled ↔ plan.nullItem.2 = true := by
    unfold nullsOf
    split
    · next hstand => simp [hstand]
    · next hbare => simp [hbare, hbelow]
  cases hdone : done.result with
  | ok found =>
    cases found with
    | some r' =>
      rw [slot_some hdone] at h ⊢
      cases h
      exact .inl ⟨rfl, rfl⟩
    | none =>
      rw [slot_none hdone] at h ⊢
      refine .inr ⟨nofun, Bool.eq_false_iff.mpr fun hs => hstrict hs hdone, ?_, hkept⟩
      exact (Except.ok.inj h).symm
  | error e =>
    cases hs : plan.isNonNull with
    | true =>
      rw [slot_strict_error hdone hs] at h
      cases h
    | false =>
      rw [slot_loose_error hdone hs] at h ⊢
      exact .inr ⟨nofun, rfl, (Except.ok.inj h).symm, hkept⟩

theorem item_ok (hplan : outputPlan c w ty = .ok plan) {i : Nat}
    (h : (Completion.item site plan path anchor i p).result = .ok r) :
    let here := path ++ [.index i]
    let done := complete site plan here anchor p
    done.result = .ok (some r) ∧ (Completion.item site plan path anchor i p).nulled = done.nulled ∨
      (∀ r', done.result ≠ .ok (some r')) ∧ plan.isNonNull = false ∧ r = plan.nullItem.1 ∧
        (here ∈ (Completion.item site plan path anchor i p).nulled ↔ plan.nullItem.2 = true) := by
  have hdone := rechecked_of_plan hplan site (path ++ [.index i]) anchor p
  refine slot_ok (fun hmem => ?_) complete_ne_none h
  obtain ⟨_, -, hbelow⟩ := hdone.nulled _ hmem
  exact not_snoc_prefix hbelow

/-- Where completing comes to a value, it is that of the plan with its own nullability aside. -/
theorem value_of_complete (hplan : outputPlan c w ty = .ok plan)
    (h : (complete site plan path anchor p).result = .ok (some r)) :
    (value site plan path (ty.anchor path anchor) p).result = .ok (some r) ∧
      (complete site plan path anchor p).nulled =
        (value site plan path (ty.anchor path anchor) p).nulled := by
  have hstrict := isNonNull_of_outputPlan hplan
  cases hs : plan.isNonNull with
  | false =>
    rw [complete_loose hs] at h ⊢
    rw [TypeExpr.anchor, ← hstrict, hs]
    exact ⟨h, rfl⟩
  | true =>
    cases plan with
    | nonNull inner =>
      rw [complete_nonNull] at h ⊢
      rw [TypeExpr.anchor, ← hstrict, hs, require_nulled]
      exact ⟨require_eq_ok h, rfl⟩
    | _ => cases hs

theorem value_of_nonNull (h : (value site (.nonNull plan) path anchor p).result = .ok (some r)) :
    (value site plan path anchor p).result = .ok (some r) ∧
      (value site (.nonNull plan) path anchor p).nulled = (value site plan path anchor p).nulled := by
  cases hp : p.isNull with
  | true =>
    rw [value, if_pos hp] at h
    cases h
  | false =>
    rw [value_nonNull hp] at h ⊢
    exact ⟨require_eq_ok h, require_nulled ..⟩

/-! ### Any depth -/

/-- **An item that came to nothing is the null item of its plan**, and its path is kept if that is
a stand-in, however deep in lists it is. -/
theorem nullItem_of_vacancy (h : Vacancy site ty plan path anchor p r ty' q item)
    (hplan : outputPlan c w ty = .ok plan)
    (hr : (value site plan path anchor p).result = .ok (some r)) :
    ∃ plan', outputPlan c w ty' = .ok plan' ∧ plan'.isNonNull = false ∧ item = plan'.nullItem.1 ∧
      (q ∈ (value site plan path anchor p).nulled ↔ plan'.nullItem.2 = true) := by
  induction h with
  | item produced rendered lost =>
    obtain ⟨_, hinner, heq⟩ := Except.map_eq_ok hplan
    cases heq
    obtain ⟨hitem, hkept⟩ := item_of_list hr produced rendered
    obtain ⟨hdone, -⟩ | ⟨-, hloose, hnull, hown⟩ := item_ok hinner hitem
    · exact absurd hdone (lost _)
    · exact ⟨_, hinner, hloose, hnull, (hkept _ (List.prefix_refl _)).trans hown⟩
  | within produced rendered h ih =>
    obtain ⟨_, hinner, heq⟩ := Except.map_eq_ok hplan
    cases heq
    obtain ⟨hitem, hkept⟩ := item_of_list hr produced rendered
    obtain ⟨hdone, hnulled⟩ | ⟨-, -, hnull, -⟩ := item_ok hinner hitem
    · obtain ⟨hvalue, hsame⟩ := value_of_complete hinner hdone
      obtain ⟨plan', hplan', hloose, hnull, hown⟩ := ih hinner hvalue
      refine ⟨plan', hplan', hloose, hnull, (hkept _ h.path_le).trans ?_⟩
      rw [hnulled, hsame, hown]
    · exact absurd hnull (h.ne_nullItem _)
  | nonNull h ih =>
    obtain ⟨_, hinner, heq⟩ := Except.map_eq_ok hplan
    cases heq
    obtain ⟨hvalue, hsame⟩ := value_of_nonNull hr
    rw [hsame]
    exact ih hinner hvalue

end Completion

namespace Catalog

/-- The type has nothing to stand in for a null: it is a scalar, or an interface that no object
implements. -/
inductive Bare (c : Catalog M C W) : TypeExpr → Prop where
  | scalar (s : Scalar) : Bare c (.scalar s)
  | interface {ty : TypeExpr} {h : Handle} (tag : ty.abstract? = some h) (is : c.IsInterface h)
    (unimplemented : ∀ x o, c.object? x = some o → h ∉ o.interfaces) : Bare c ty

variable {c : Catalog M C W} {d : Description} {w : Walk M C W} {st st' : Store M C W}
  {s : Schema M C W} {ty : TypeExpr} {plan : OutputPlan M} {r : Rendered M}

/-! ### Types with stand-ins -/

theorem StandsIn.ne_null (h : c.StandsIn ty r) : r ≠ .null := by
  cases h <;> nofun

theorem implements_of_possible {h x : Handle} {t : TypeDef M C W} {i : InterfaceDef M C W}
    (kind : t.kind = .interface i) {resolveType : Option (M → Option String)}
    {possible : List Handle} (hp : c.Possible h t resolveType possible) (hx : x ∈ possible) :
    ∃ o, c.object? x = some o ∧ h ∈ o.interfaces := by
  cases hp with
  | interface _ _ mem_iff => exact (mem_iff x).mp hx
  | union kind' => cases kind.symm.trans kind'

theorem StandsIn.not_bare (h : c.StandsIn ty r) : ¬ c.Bare ty := by
  intro hbare
  cases hbare with
  | scalar s =>
    cases h with
    | abstract tag => cases tag
  | interface tag is unimplemented =>
    cases h with
    | abstract tag' get possible =>
      cases tag.symm.trans tag'
      obtain ⟨t, i, get', kind⟩ := is
      cases get.symm.trans get'
      obtain ⟨o, ho, hmem⟩ := implements_of_possible kind possible (List.mem_cons_self ..)
      exact unimplemented _ o ho hmem
    | _ => cases tag

/-- A visited interface or union that nothing could stand in for is one that nothing implements. -/
theorem bare_of_abstract (hs : Linking c d w st s) {h : Handle} (tag : ty.abstract? = some h)
    (hh : h ∈ w.visited) {t : TypeDef M C W} (hget : c.get? h = some t)
    {resolveType : Option (M → Option String)} (hnone : c.Possible h t resolveType []) :
    c.Bare ty := by
  generalize hempty : ([] : List Handle) = possible at hnone
  cases hnone with
  | @interface i _ kind ordered mem_iff =>
    subst hempty
    refine .interface tag ⟨t, i, hget, kind⟩ fun x o ho hmem => ?_
    exact List.not_mem_nil ((mem_iff x).mpr ⟨o, ho, hmem⟩)
  | union kind => exact absurd hempty.symm (hs.accepts_union hh hget kind).1

/-- In a compiled schema a type that may be null either has a stand-in or is bare. -/
theorem nullItem_of_visited (hs : Linking c d w st s) (hvisited : Visited w ty)
    (hplan : outputPlan c w ty = .ok plan) (hloose : ty.isNonNull = false) :
    (plan.nullItem.2 = true ∧ c.StandsIn ty plan.nullItem.1) ∨
      (plan.nullItem = (.null, false) ∧ c.Bare ty) := by
  refine (nullItem_of_outputPlan hplan hloose).imp_right fun ⟨hnull, hnone⟩ => ⟨hnull, ?_⟩
  cases ty with
  | scalar s => exact .scalar s
  | object h => exact absurd (.object h) (hnone _)
  | list inner => exact absurd (.list inner) (hnone _)
  | nonNull inner => cases hloose
  | enum h =>
    obtain ⟨e, he, rfl⟩ := enum_of_outputPlan hplan
    obtain ⟨t, hget, hkind⟩ := enum?_eq_some.mp he
    obtain ⟨v, rest, hvalues⟩ := List.exists_cons_of_ne_nil
      (hs.fits_enum (hvisited h rfl) hget hkind)
    exact absurd (.enum he hvalues) (hnone _)
  | interface h | union h =>
    obtain ⟨t, resolveType, possible, hget, hpossible, rfl⟩ := dispatcher_of_outputPlan rfl hplan
    cases possible with
    | nil => exact bare_of_abstract hs rfl (hvisited h rfl) hget hpossible
    | cons x rest => exact absurd (.abstract rfl hget hpossible) (hnone _)

/-- **An item that came to nothing is nulled by its path, unless it is bare.** Take a field of an
object of a compiled schema and a value that it is completed to. An item of a list within it, at
any depth, that is null or has failed is of a type that may be null. What stands in for it is no
null and its path is kept, unless there is nothing to stand in for it: for scalars and for
interfaces that nothing implements there is a null in its place, and its path is not kept. -/
theorem vacancies_nulled (hcompile : c.compile d st = (.ok s, st')) {t : ObjectType M C W}
    (ht : .object t ∈ s.types) {f : PlannedField M C W} (hf : f ∈ t.fields) :
    ∃ x declared, c.Reaches st'.memo d x ∧ c.nameOf x = t.name ∧
      c.HasField st'.memo x declared ∧ f.info.name = declared.name ∧
      f.info.type = typeRef c declared.type ∧
      ∀ path anchor p r,
        (complete f.plan.site f.plan.output path anchor p).result = .ok (some r) →
        ∀ ty q item,
          Vacancy f.plan.site declared.type f.plan.output path (declared.type.anchor path anchor)
            p r ty q item →
          ty.isNonNull = false ∧
          (¬ c.Bare ty → c.StandsIn ty item ∧ item ≠ .null ∧
            q ∈ (complete f.plan.site f.plan.output path anchor p).nulled) ∧
          (c.Bare ty → item = .null ∧
            q ∉ (complete f.plan.site f.plan.output path anchor p).nulled) := by
  obtain ⟨w, x, declared, _, _, hs, hreached, hx, hname, hfield, -, hplanned⟩ :=
    declared_of_mem hcompile ht hf
  refine ⟨x, declared, hx, hname, hfield, hplanned.name, hplanned.type, ?_⟩
  intro path anchor p r hr ty q item hvacancy
  obtain ⟨hvalue, hnulled⟩ := value_of_complete hplanned.output hr
  obtain ⟨plan, hplan, hloose, rfl, hkept⟩ := nullItem_of_vacancy hvacancy hplanned.output hvalue
  rw [isNonNull_of_outputPlan hplan] at hloose
  have hvisited : Visited w ty := fun h hh =>
    (hreached h).mpr (.field hx hfield (hvacancy.named_eq ▸ hh))
  rw [hnulled, hkept]
  obtain ⟨hstand, hstands⟩ | ⟨hnull, hbare⟩ := nullItem_of_visited hs hvisited hplan hloose
  · exact ⟨hloose, fun _ => ⟨hstands, hstands.ne_null, hstand⟩,
      fun hbare => absurd hbare hstands.not_bare⟩
  · exact ⟨hloose, fun hno => absurd hbare hno, fun _ => by simp [hnull]⟩

/-- Lists of lists of an interface that no object implements. -/
def unimplemented : Catalog StarWars.Source Unit Unit where
  id := 0
  types := [
    { name := "Query"
      kind := .object {
        model := .unit StarWars.Source Unit
        fields := some (.done [⟨"lists", none, none, .list (.list (.interface ⟨0, 1⟩)), [],
          .resolver .dynamic fun _ _ _ w => (.ok (.list [.list [.null], .null]), w)⟩]) } },
    { name := "I"
      kind := .interface {
        backing := .unit
        fields := some (.done [⟨"name", none, none, .scalar .string, [], .abstract⟩]) } }]

theorem lists_of_typeRef {name : String} (h : typeRef c ty = .list (.list (.named name))) :
    ∃ inner, ty = .list (.list inner) := by
  match ty, h with
  | .list (.list inner), _ => exact ⟨inner, rfl⟩

/-- Of two nulls in such a list of lists the outer one has a stand-in and its path is kept. The inner
one is shown as a null, and its path is not. -/
theorem vacancies_nulled_unimplemented :
    ∃ s st', unimplemented.compile { query := ⟨0, 0⟩ } ⟨Memo.fresh, ()⟩ = (.ok s, st') ∧
      ∃ t f, .object t ∈ s.types ∧ f ∈ t.fields ∧ f.info.name = "lists" ∧ ∀ path anchor,
        let done := complete f.plan.site f.plan.output path anchor (.list [.list [.null], .null])
        done.result = .ok (some (.list [.list [.null], .list []])) ∧
          path ++ [.index 1] ∈ done.nulled ∧ path ++ [.index 0] ++ [.index 0] ∉ done.nulled := by
  have hcompile := Except.eq_ok_getD
    (x := unimplemented.compile { query := ⟨0, 0⟩ } ⟨Memo.fresh, ()⟩)
    (by decide +kernel) ⟨[], "", none, {}⟩
  refine ⟨_, _, hcompile, ?_⟩
  have hfield : (((unimplemented.compile { query := ⟨0, 0⟩ } ⟨Memo.fresh, ()⟩).1.toOption.getD
      ⟨[], "", none, {}⟩).object? "Query").any (fun t => t.fields.any fun f =>
        f.info.name == "lists" && f.info.type == .list (.list (.named "I")) &&
          (match f.plan.output with
            | .list (.list (.abstract d)) => d.candidates.isEmpty
            | _ => false)) = true := by
    decide +kernel
  obtain ⟨t, ht, hfield⟩ := (Option.any_eq_true _ _).mp hfield
  obtain ⟨f, hf, hshape⟩ := List.any_eq_true.mp hfield
  rw [Bool.and_eq_true, Bool.and_eq_true, beq_iff_eq, beq_iff_eq] at hshape
  obtain ⟨⟨hname, htype⟩, hplan⟩ := hshape
  have ht := Direct.mem_types_of_object? ht
  refine ⟨t, f, ht, hf, hname, fun path anchor => ?_⟩
  obtain ⟨_, declared, -, -, -, -, hdeclared, hnulled⟩ := vacancies_nulled hcompile ht hf
  obtain ⟨inner, hinner⟩ := lists_of_typeRef (htype.symm.trans hdeclared).symm
  rw [hinner] at hnulled
  split at hplan
  · next d houtput =>
    obtain ⟨name, resolveType, candidates⟩ := d
    cases List.isEmpty_iff.mp hplan
    rw [houtput] at hnulled ⊢
    obtain ⟨-, houter, -⟩ := hnulled path anchor (.list [.list [.null], .null]) _ rfl _ _ _
      (.item (i := 1) rfl rfl fun _ h => by cases h)
    obtain ⟨-, hstands, hbare⟩ := hnulled path anchor (.list [.list [.null], .null]) _ rfl _ _ _
      (.within (i := 0) rfl rfl (.item (i := 0) rfl rfl fun _ h => by cases h))
    refine ⟨rfl, (houter (StandsIn.list inner).not_bare).2.2, (hbare ?_).2⟩
    exact Classical.not_not.mp fun hno => (hstands hno).2.1 rfl
  · cases hplan

end Catalog

end GraphSchema
