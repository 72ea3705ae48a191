import GraphSchema.Blueprint.Session
import GraphSchema.Proofs.Compile.Tags

/-! All that a catalog is used for before it is compiled.

A client declares types and defines them. A definition is started, goes through steps and
may end with a list of fields; one that ends without can be taken up again. Uses come in
any order, with any handles, and a step may be one that the kind of type knows nothing of.
Whatever they are, each place of the catalog keeps its type: its name, its kind and its
backing are those it was declared with, and a list of fields stays (`continues_after`).
A session uses its catalogs in no other ways (`exists_after_build`). -/
namespace GraphSchema

variable {M C W : Type}

/-! ### Uses -/

/-- One step of a definition, short of its fields. -/
inductive Draft.Step (M : Type) where
  | description (text : String)
  | implement (interface : Handle)
  | isTypeOf (backing : Backing) (p : M → Bool)
  | resolveType (backing : Backing) (f : M → Option String)
  | member (object : Handle)
  | value (name : String) (leaf : Leaf)
  | describe (name text : String)
  | markDeprecated (name reason : String)

namespace Draft

def take [Backed M] (d : Draft M C W) : Step M → Draft M C W
  | .description text => d.description text
  | .implement interface => d.implement interface
  | .isTypeOf backing p => d.isTypeOf backing p
  | .resolveType backing f => d.resolveType backing f
  | .member object => d.member object
  | .value name leaf => d.value name leaf
  | .describe name text => d.describe name text
  | .markDeprecated name reason => d.markDeprecated name reason

/-- The fields end the definition of an object or interface. Unions and enums have none. -/
def finish (d : Draft M C W) (thunk : Thunk M C W) : Tag → Draft M C W
  | .object => d.objectFields thunk
  | .interface => d.interfaceFields thunk
  | .union | .enum => d

end Draft

/-- How a definition is started: of a new type, or of one that has been declared. -/
inductive Catalog.Start (M W : Type) where
  | object (name : String) (model : Model M W)
  | interface (name : String) (backing : Backing)
  | union (name : String) (backing : Backing)
  | enum (name leaf : String) (equal : Int → Int → Bool)
  | query
  | mutation
  | defineObject (h : Handle)
  | defineInterface (h : Handle)

namespace Catalog.Start

/-- The kind of type that is defined. -/
def tag : Start M W → Tag
  | object _ _ | query | mutation | defineObject _ => .object
  | interface _ _ | defineInterface _ => .interface
  | union _ _ => .union
  | enum _ _ _ => .enum

/-- The new type, as it is before the first step. -/
def created? : Start M W → Option (TypeDef M C W)
  | object name model => some { name, kind := .object { model } }
  | interface name backing => some { name, kind := .interface { backing } }
  | union name backing => some { name, kind := .union { backing } }
  | enum name leaf equal => some { name, kind := .enum { leaf, equal } }
  | query => some { name := "Query", kind := .object { model := Model.unit M W } }
  | mutation => some { name := "Mutation", kind := .object { model := Model.unit M W } }
  | defineObject _ | defineInterface _ => none

/-- The type that has been declared, and what the definition is of. -/
def target? : Start M W → Option (Handle × String)
  | defineObject h => some (h, "object")
  | defineInterface h => some (h, "interface")
  | _ => none

def draft (start : Start M W) (c : Catalog M C W) : Draft M C W :=
  match start with
  | object name model => c.object name model
  | interface name backing => c.interface name backing
  | union name backing => c.union name backing
  | enum name leaf equal => c.enum name leaf equal
  | query => c.query
  | mutation => c.mutation
  | defineObject h => c.defineObject h
  | defineInterface h => c.defineInterface h

/-- The definition with all its steps. -/
def definition [Backed M] (start : Start M W) (c : Catalog M C W) (steps : List (Draft.Step M))
    (fields : Option (Thunk M C W)) : Draft M C W :=
  let d := steps.foldl Draft.take (start.draft c)
  match fields with
  | some thunk => d.finish thunk start.tag
  | none => d

end Catalog.Start

/-- A declaration, or a definition from its start to its end. The fields of a definition are what
ends it. -/
inductive Catalog.Use (M C W : Type) where
  | declareObject (name : String) (model : Model M W)
  | declareInterface (name : String) (backing : Backing)
  | define (start : Catalog.Start M W) (steps : List (Draft.Step M)) (fields : Option (Thunk M C W))

/-- The type that is added to the catalog, as it is declared. -/
def Catalog.Use.created? : Use M C W → Option (TypeDef M C W)
  | declareObject name model => some { name, kind := .object { model } }
  | declareInterface name backing => some { name, kind := .interface { backing } }
  | define start _ _ => start.created?

namespace Catalog

section Uses

variable [Backed M]

/-- The catalog after the use, and the handle that the client is given. -/
def perform (c : Catalog M C W) : Use M C W → Catalog M C W × Handle
  | .declareObject name model => c.declareObject name model
  | .declareInterface name backing => c.declareInterface name backing
  | .define start steps fields =>
    let d := start.definition c steps fields
    (d.catalog, d.handle)

def after (c : Catalog M C W) (uses : List (Use M C W)) : Catalog M C W :=
  uses.foldl (fun c u => (c.perform u).1) c

@[simp] theorem after_cons (c : Catalog M C W) (u : Use M C W) (uses : List (Use M C W)) :
    c.after (u :: uses) = (c.perform u).1.after uses := rfl

theorem after_append (c : Catalog M C W) (before uses : List (Use M C W)) :
    c.after (before ++ uses) = (c.after before).after uses := List.foldl_append

end Uses

end Catalog

/-! ### Types that go on -/

/-- The model that an object was declared over. -/
def Kind.model? : Kind M C W → Option (Model M W)
  | object o => some o.model
  | interface _ | union _ | enum _ => none

/-- What was said when the type was declared is the same. -/
structure TypeDef.SameDeclaration (t t' : TypeDef M C W) : Prop where
  name : t'.name = t.name
  tag : t'.kind.tag = t.kind.tag
  backing : t'.kind.backing = t.kind.backing
  model : t'.kind.model? = t.kind.model?

/-- The later type is the earlier one, of which more may have been defined. -/
structure TypeDef.Continues (t t' : TypeDef M C W) : Prop extends t.SameDeclaration t' where
  fields : ∀ thunk, t.kind.fields? = some thunk → t'.kind.fields? = some thunk

namespace TypeDef

variable {t t' t'' : TypeDef M C W}

theorem SameDeclaration.refl (t : TypeDef M C W) : t.SameDeclaration t := ⟨rfl, rfl, rfl, rfl⟩

theorem Continues.refl (t : TypeDef M C W) : t.Continues t := ⟨.refl t, fun _ => id⟩

theorem Continues.trans (h : t.Continues t') (h' : t'.Continues t'') : t.Continues t'' where
  name := h'.name.trans h.name
  tag := h'.tag.trans h.tag
  backing := h'.backing.trans h.backing
  model := h'.model.trans h.model
  fields thunk ht := h'.fields thunk (h.fields thunk ht)

end TypeDef

namespace Catalog

variable {c c' c'' : Catalog M C W}

/-- Every place keeps its type. -/
structure Continues (c c' : Catalog M C W) : Prop where
  id : c'.id = c.id
  types : ∀ (i : Nat) (t : TypeDef M C W), c.types[i]? = some t →
    ∃ t', c'.types[i]? = some t' ∧ t.Continues t'

theorem Continues.refl (c : Catalog M C W) : c.Continues c :=
  ⟨rfl, fun _ t ht => ⟨t, ht, .refl t⟩⟩

theorem Continues.trans (h : c.Continues c') (h' : c'.Continues c'') : c.Continues c'' where
  id := h'.id.trans h.id
  types i t ht := by
    obtain ⟨t', ht', hcontinues⟩ := h.types i t ht
    obtain ⟨t'', ht'', hcontinues'⟩ := h'.types i t' ht'
    exact ⟨t'', ht'', hcontinues.trans hcontinues'⟩

/-- A handle goes on to name the type of its place. -/
theorem Continues.get? (h : c.Continues c') {x : Handle} {t : TypeDef M C W}
    (hget : c.get? x = some t) : ∃ t', c'.get? x = some t' ∧ t.Continues t' := by
  unfold Catalog.get? at hget ⊢
  split at hget
  · next hid =>
    rw [h.id, if_pos hid]
    exact h.types _ t hget
  · cases hget

/-- The catalog with another type. -/
def extend (c : Catalog M C W) (t : TypeDef M C W) : Catalog M C W :=
  { c with types := c.types ++ [t] }

theorem continues_extend (c : Catalog M C W) (t : TypeDef M C W) : c.Continues (c.extend t) where
  id := rfl
  types i u hu := by
    have hlt : i < c.types.length := (List.getElem?_eq_some_iff.mp hu).1
    exact ⟨u, by rw [extend, List.getElem?_append_left hlt, hu], .refl u⟩

theorem continues_modify {i : Nat} {f : TypeDef M C W → TypeDef M C W}
    (hf : ∀ t, c.types[i]? = some t → t.Continues (f t)) : c.Continues (c.modify i f) where
  id := rfl
  types j t ht := by
    simp only [modify, List.getElem?_modify, ht]
    by_cases hij : i = j
    · subst hij
      exact ⟨f t, by simp, hf t ht⟩
    · exact ⟨t, by simp [hij], .refl t⟩

theorem continues_recordMisuse (c : Catalog M C W) (e : DefinitionError) :
    c.Continues (c.recordMisuse e) :=
  ⟨rfl, fun _ t ht => ⟨t, ht, .refl t⟩⟩

end Catalog

/-! ### Steps of a definition -/

namespace Draft

variable {c : Catalog M C W} {d : Draft M C W}

@[simp] theorem edit_handle (d : Draft M C W) (f : TypeDef M C W → TypeDef M C W) :
    (d.edit f).handle = d.handle := by
  unfold edit
  split <;> rfl

@[simp] theorem edit_place (d : Draft M C W) (f : TypeDef M C W → TypeDef M C W) :
    (d.edit f).place = d.place := by
  unfold edit
  split <;> rfl

/-- What a step does to a type, which is neither to declare it anew nor to give it fields. -/
structure Step.Edits (f : TypeDef M C W → TypeDef M C W) : Prop where
  declaration : ∀ t, TypeDef.SameDeclaration t (f t)
  fields : ∀ t, (f t).kind.fields? = t.kind.fields?

theorem take_eq_edit [Backed M] (d : Draft M C W) (s : Step M) :
    ∃ f, d.take s = d.edit f ∧ Step.Edits f := by
  cases s with
  | description text =>
    exact ⟨_, rfl, fun t => ⟨rfl, rfl, rfl, rfl⟩, fun _ => rfl⟩
  | _ =>
    refine ⟨_, rfl, fun t => ?_, fun t => ?_⟩
    all_goals
      obtain ⟨name, description, kind⟩ := t
      cases kind <;> first | rfl | exact ⟨rfl, rfl, rfl, rfl⟩

/-- The fields go to the type that is defined, or nowhere. -/
theorem finish_cases (d : Draft M C W) (thunk : Thunk M C W) (tag : Tag) :
    d.finish thunk tag = d ∨
      ∃ f, d.finish thunk tag = d.edit f ∧ ∀ t, TypeDef.SameDeclaration t (f t) := by
  cases tag with
  | object | interface =>
    refine .inr ⟨_, rfl, fun t => ?_⟩
    obtain ⟨name, description, kind⟩ := t
    cases kind <;> exact ⟨rfl, rfl, rfl, rfl⟩
  | union | enum => exact .inl rfl

/-- What each edit of the type leaves true the steps leave true. -/
theorem steps_induction [Backed M] {P : Draft M C W → Prop} (hedit : ∀ d f, P d → P (d.edit f))
    (hd : P d) (steps : List (Step M)) : P (steps.foldl take d) := by
  induction steps generalizing d with
  | nil => exact hd
  | cons s rest ih =>
    obtain ⟨f, heq, -⟩ := d.take_eq_edit s
    exact ih (heq ▸ hedit d f hd)

/-- The definition is of a type of the catalog that has no fields so far. -/
structure Open (c : Catalog M C W) (d : Draft M C W) : Prop where
  continues : c.Continues d.catalog
  vacant : ∀ i ∈ d.place, ∀ t ∈ d.catalog.types[i]?, t.kind.fields? = none

namespace Open

/-- As there are no fields so far none can be lost. -/
theorem edit (h : Open c d) {f : TypeDef M C W → TypeDef M C W}
    (hf : ∀ t, TypeDef.SameDeclaration t (f t)) : c.Continues (d.edit f).catalog := by
  unfold Draft.edit
  split
  · next i hplace =>
    refine h.continues.trans (Catalog.continues_modify fun t ht => ⟨hf t, fun thunk hthunk => ?_⟩)
    rw [h.vacant i hplace t ht] at hthunk
    cases hthunk
  · exact h.continues

theorem take [Backed M] (h : Open c d) (s : Step M) : Open c (d.take s) := by
  obtain ⟨f, heq, hf⟩ := take_eq_edit d s
  rw [heq]
  refine ⟨h.edit hf.declaration, fun i hi t ht => ?_⟩
  rw [edit_place] at hi
  obtain ⟨u, hu, rfl⟩ : ∃ u, d.catalog.types[i]? = some u ∧ f u = t := by
    simpa [Draft.edit, Option.mem_def.mp hi, Catalog.modify, List.getElem?_modify] using ht
  rw [hf.fields]
  exact h.vacant i hi u hu

theorem steps [Backed M] (h : Open c d) (steps : List (Step M)) :
    Open c (steps.foldl Draft.take d) := by
  induction steps generalizing d with
  | nil => exact h
  | cons s rest ih => exact ih (h.take s)

theorem finish (h : Open c d) (thunk : Thunk M C W) (tag : Tag) :
    c.Continues (d.finish thunk tag).catalog := by
  obtain heq | ⟨f, heq, hf⟩ := d.finish_cases thunk tag
  · rw [heq]
    exact h.continues
  · rw [heq]
    exact h.edit hf

end Open

end Draft

/-! ### Starts of a definition -/

namespace Catalog

/-- The type may not be defined: it is another catalog's, or has its fields already. -/
inductive Refused (c : Catalog M C W) (h : Handle) (what : String) : DefinitionError → Prop where
  | foreign (hforeign : h.catalog ≠ c.id) :
    Refused c h what (.foreignHandle (what ++ " definition"))
  | defined {t : TypeDef M C W} {thunk : Thunk M C W} (hget : c.get? h = some t)
    (hfields : t.kind.fields? = some thunk) : Refused c h what (.duplicateTypeName t.name)

theorem get?_of_catalog {c : Catalog M C W} {h : Handle} (hid : h.catalog = c.id) :
    c.get? h = c.types[h.index]? := if_pos hid

theorem catalog_of_get? {c : Catalog M C W} {h : Handle} {t : TypeDef M C W}
    (hget : c.get? h = some t) : h.catalog = c.id := by
  by_contra hforeign
  simp [get?, hforeign] at hget

theorem claim_of_refused {c : Catalog M C W} {h : Handle} {what : String} {e : DefinitionError}
    (hrefused : c.Refused h what e) : c.claim h what = (c.recordMisuse e, none) := by
  cases hrefused with
  | foreign hforeign => exact if_pos hforeign
  | defined hget hfields =>
    have hid := catalog_of_get? hget
    rw [get?_of_catalog hid] at hget
    simp [claim, hid, hget, hfields]

/-- A claim is refused, or finds a place without fields, or finds no place. -/
theorem claim_cases (c : Catalog M C W) (h : Handle) (what : String) :
    (∃ e, c.Refused h what e) ∨
    (∃ t, c.get? h = some t ∧ t.kind.fields? = none ∧ c.claim h what = (c, some h.index)) ∨
    c.claim h what = (c, none) := by
  by_cases hid : h.catalog = c.id
  · cases hget : c.get? h with
    | none =>
      rw [get?_of_catalog hid] at hget
      exact .inr (.inr (by simp [claim, hid, hget]))
    | some t =>
      cases hfields : t.kind.fields? with
      | some thunk => exact .inl ⟨_, .defined hget hfields⟩
      | none =>
        rw [get?_of_catalog hid] at hget
        exact .inr (.inl ⟨t, rfl, hfields, by simp [claim, hid, hget, hfields]⟩)
  · exact .inl ⟨_, .foreign hid⟩

theorem push_eq (c : Catalog M C W) (name : String) (kind : Kind M C W) :
    c.push name kind = (c.extend { name, kind }, c.handle c.size) := rfl

/-- The next handle names nothing yet. -/
theorem get?_size (c : Catalog M C W) : c.get? (c.handle c.size) = none := by
  simp [get?, handle, size]

theorem get?_extend_size (c : Catalog M C W) (t : TypeDef M C W) :
    (c.extend t).get? (c.handle c.size) = some t := by
  simp [get?, handle, size, extend]

theorem claim_extend (c : Catalog M C W) {t : TypeDef M C W} (hfields : t.kind.fields? = none)
    (what : String) :
    (c.extend t).claim (c.handle c.size) what = (c.extend t, some c.size) := by
  simp [claim, handle, size, extend, hfields]

end Catalog

namespace Catalog.Start

variable {start : Start M W} {c : Catalog M C W} {t : TypeDef M C W} {h : Handle} {what : String}

theorem fields?_of_created (hcreated : start.created? = some t) : t.kind.fields? = none := by
  cases start <;> cases hcreated <;> rfl

/-- A new type takes the next place. -/
theorem draft_of_created (hcreated : start.created? = some t) :
    start.draft c = ⟨c.extend t, c.handle c.size, some c.size⟩ := by
  have hclaim := c.claim_extend (fields?_of_created hcreated)
  cases start with
  | defineObject h | defineInterface h => cases hcreated
  | union name backing | enum name leaf =>
    cases hcreated
    rfl
  | _ =>
    cases hcreated
    simp only [draft, Catalog.query, Catalog.mutation, Catalog.object, Catalog.declareObject,
      Catalog.defineObject, Catalog.interface, Catalog.declareInterface, Catalog.defineInterface,
      Catalog.push_eq, hclaim]

theorem draft_of_target (htarget : start.target? = some (h, what)) :
    start.draft c = ⟨(c.claim h what).1, h, (c.claim h what).2⟩ := by
  cases start <;> cases htarget <;> rfl

theorem created_or_target (C : Type) (start : Start M W) :
    (∃ t : TypeDef M C W, start.created? = some t) ∨ ∃ h what, start.target? = some (h, what) := by
  cases start with
  | defineObject h | defineInterface h => exact .inr ⟨h, _, rfl⟩
  | _ => exact .inl ⟨_, rfl⟩

/-- Of a type that is added, the definition goes on from its declaration. -/
theorem open_of_created (hcreated : start.created? = some t) :
    Draft.Open (c.extend t) (start.draft c) := by
  rw [draft_of_created hcreated]
  refine ⟨.refl _, ?_⟩
  rintro i ⟨⟩ u hu
  obtain rfl : t = u := by simpa [Catalog.extend, Catalog.size] using hu
  exact fields?_of_created hcreated

theorem open_draft (start : Start M W) (c : Catalog M C W) : Draft.Open c (start.draft c) := by
  obtain ⟨t, hcreated⟩ | ⟨h, what, htarget⟩ := start.created_or_target C
  · obtain ⟨hcontinues, hvacant⟩ := open_of_created (c := c) hcreated
    exact ⟨(c.continues_extend t).trans hcontinues, hvacant⟩
  · rw [draft_of_target htarget]
    obtain ⟨e, hrefused⟩ | ⟨t, hget, hfields, hclaim⟩ | hclaim := c.claim_cases h what
    · rw [Catalog.claim_of_refused hrefused]
      exact ⟨c.continues_recordMisuse e, nofun⟩
    · rw [hclaim]
      refine ⟨.refl c, ?_⟩
      rintro i ⟨⟩ u hu
      rw [Catalog.get?_of_catalog (Catalog.catalog_of_get? hget)] at hget
      cases Option.some.inj (hget.symm.trans hu)
      exact hfields
    · rw [hclaim]
      exact ⟨.refl c, nofun⟩

variable [Backed M]

/-- What each edit of the type leaves true the definition leaves true. -/
theorem definition_induction {P : Draft M C W → Prop} (hedit : ∀ d f, P d → P (d.edit f))
    (hstart : P (start.draft c)) (steps : List (Draft.Step M)) (fields : Option (Thunk M C W)) :
    P (start.definition c steps fields) := by
  have hsteps := Draft.steps_induction hedit hstart steps
  cases fields with
  | none => exact hsteps
  | some thunk =>
    change P (Draft.finish _ thunk start.tag)
    obtain heq | ⟨f, heq, -⟩ := Draft.finish_cases _ thunk start.tag
    · rwa [heq]
    · rw [heq]
      exact hedit _ f hsteps

theorem handle_definition (start : Start M W) (c : Catalog M C W) (steps : List (Draft.Step M))
    (fields : Option (Thunk M C W)) :
    (start.definition c steps fields).handle = (start.draft c).handle :=
  definition_induction (fun d f hd => (d.edit_handle f).trans hd) rfl steps fields

theorem continues_definition {c₀ : Catalog M C W} (h : Draft.Open c₀ (start.draft c))
    (steps : List (Draft.Step M)) (fields : Option (Thunk M C W)) :
    c₀.Continues (start.definition c steps fields).catalog := by
  have hsteps := h.steps steps
  cases fields with
  | none => exact hsteps.continues
  | some thunk => exact hsteps.finish thunk start.tag

end Catalog.Start

/-! ### Histories -/

namespace Catalog

variable [Backed M] {c : Catalog M C W} {u : Use M C W} {t : TypeDef M C W}

theorem continues_perform (c : Catalog M C W) (u : Use M C W) :
    c.Continues (c.perform u).1 := by
  cases u with
  | declareObject name model | declareInterface name backing => exact c.continues_extend _
  | define start steps fields =>
    exact Start.continues_definition (start.open_draft c) steps fields

theorem perform_of_created (hcreated : u.created? = some t) :
    (c.perform u).2 = c.handle c.size ∧ (c.extend t).Continues (c.perform u).1 := by
  cases u with
  | declareObject name model | declareInterface name backing =>
    cases hcreated
    exact ⟨rfl, .refl _⟩
  | define start steps fields =>
    have hhandle := start.handle_definition c steps fields
    rw [Start.draft_of_created hcreated] at hhandle
    exact ⟨hhandle, Start.continues_definition (Start.open_of_created hcreated) steps fields⟩

/-- The handle of a type that is added has named nothing before, and names the type. -/
theorem get?_of_created (hcreated : u.created? = some t) :
    c.get? (c.perform u).2 = none ∧
      ∃ t', (c.perform u).1.get? (c.perform u).2 = some t' ∧ t.Continues t' := by
  obtain ⟨hhandle, hcontinues⟩ := perform_of_created (c := c) hcreated
  rw [hhandle]
  exact ⟨c.get?_size, hcontinues.get? (c.get?_extend_size t)⟩

/-- **Whatever is done to a catalog, each place keeps its type.** -/
theorem continues_after (c : Catalog M C W) (uses : List (Use M C W)) :
    c.Continues (c.after uses) := by
  induction uses generalizing c with
  | nil => exact .refl c
  | cons u rest ih => exact (c.continues_perform u).trans (ih _)

end Catalog

/-! ### Sessions -/

namespace Draft

variable [Backed M] {d d' : Draft M C W}

/-- Steps lead from the one to the other. -/
def Leads (d d' : Draft M C W) : Prop := ∃ steps : List (Step M), steps.foldl take d = d'

theorem Leads.refl (d : Draft M C W) : d.Leads d := ⟨[], rfl⟩

theorem Leads.take (h : d.Leads d') (s : Step M) : d.Leads (d'.take s) := by
  obtain ⟨steps, rfl⟩ := h
  exact ⟨steps ++ [s], by rw [List.foldl_append]; rfl⟩

theorem Leads.foldl {α : Type} {f : Draft M C W → α → Draft M C W} (h : d.Leads d')
    (hf : ∀ d a, ∃ s : Step M, f d a = d.take s) (as : List α) : d.Leads (as.foldl f d') := by
  induction as generalizing d' with
  | nil => exact h
  | cons a rest ih =>
    obtain ⟨s, hs⟩ := hf d' a
    exact ih (hs ▸ h.take s)

end Draft

namespace Blueprint.Session

open Draft (Leads)

variable {d d' : Sketch}

theorem leads_describeDraft (h : d.Leads d') (description : Option String) :
    d.Leads (describeDraft description d') := by
  cases description with
  | none => exact h
  | some text => exact h.take (.description text)

theorem leads_chooseDraft (h : d.Leads d') (model : String) (choice : Option Choice) :
    d.Leads (chooseDraft model choice d') := by
  cases choice with
  | none => exact h
  | some c => exact h.take (.resolveType (.model model) c.name?)

theorem leads_fillObject (key : String) (spec : ObjectSpec) (interfaces : List Handle)
    (d : Sketch) :
    ∃ d' thunk, d.Leads d' ∧ fillObject key spec interfaces d = d'.finish thunk .object := by
  have hdescribed := leads_describeDraft (.refl d) spec.description
  have hinterfaces := hdescribed.foldl (fun d i => ⟨.implement i, rfl⟩) interfaces
  refine ⟨_, _, ?_, rfl⟩
  cases spec.isTypeOf with
  | none => exact hinterfaces
  | some p => exact hinterfaces.take (.isTypeOf (.model spec.model) p.holds)

theorem leads_fillInterface (key : String) (spec : InterfaceSpec) (d : Sketch) :
    ∃ d' thunk, d.Leads d' ∧ fillInterface key spec d = d'.finish thunk .interface :=
  ⟨_, _, leads_chooseDraft (leads_describeDraft (.refl d) _) _ _, rfl⟩

theorem leads_fillUnion (spec : UnionSpec) (members : List Handle) (d : Sketch) :
    d.Leads (fillUnion spec members d) :=
  (leads_chooseDraft (leads_describeDraft (.refl d) _) _ _).foldl (fun _ x => ⟨.member x, rfl⟩) _

theorem leads_fillEnum (leaf : String) (edits : List EnumEdit) (d : Sketch) :
    d.Leads (fillEnum leaf edits d) := by
  refine (Leads.refl d).foldl (fun d e => ?_) edits
  cases e with
  | value name n => exact ⟨.value name ⟨leaf, n⟩, rfl⟩
  | describe name text => exact ⟨.describe name text, rfl⟩
  | markDeprecated name reason => exact ⟨.markDeprecated name reason, rfl⟩
  | description text => exact ⟨.description text, rfl⟩

variable (c : Catalog Instance String World) (start : Catalog.Start Instance World)

theorem exists_define (h : (start.draft c).Leads d) : ∃ uses, d.catalog = c.after uses := by
  obtain ⟨steps, rfl⟩ := h
  exact ⟨[.define start steps none], rfl⟩

theorem exists_define_finish
    (h : ∃ d' thunk, (start.draft c).Leads d' ∧ d = d'.finish thunk start.tag) :
    ∃ uses, d.catalog = c.after uses := by
  obtain ⟨d', thunk, ⟨steps, rfl⟩, rfl⟩ := h
  exact ⟨[.define start steps (some thunk)], rfl⟩

/-- What a session does to a catalog for a definition is a list of uses. -/
theorem exists_after_build (s : Session) {key : String} {definition : Definition}
    {built : Catalog Instance String World × Option TypeExpr}
    (h : s.build c key definition = .ok built) : ∃ uses, built.1 = c.after uses := by
  cases definition with
  | declareObject name model =>
    cases h
    exact ⟨[.declareObject name (s.model model)], rfl⟩
  | declareInterface name model =>
    cases h
    exact ⟨[.declareInterface name (.model model)], rfl⟩
  | object name spec =>
    obtain ⟨interfaces, -, h⟩ := Except.bind_eq_ok h
    cases h
    exact exists_define_finish c (.object name (s.model spec.model))
      (leads_fillObject key spec interfaces _)
  | interface name spec =>
    cases h
    exact exists_define_finish c (.interface name (.model spec.model))
      (leads_fillInterface key spec _)
  | query description fields =>
    cases h
    exact exists_define_finish c .query (leads_fillObject key _ _ _)
  | mutation description fields =>
    cases h
    exact exists_define_finish c .mutation (leads_fillObject key _ _ _)
  | union name spec =>
    obtain ⟨members, -, h⟩ := Except.bind_eq_ok h
    cases h
    exact exists_define c (.union name (.model spec.model)) (leads_fillUnion spec members _)
  | enum name leaf edits =>
    cases h
    exact exists_define c (.enum name leaf (· == ·)) (leads_fillEnum leaf edits _)
  | defineObject spec =>
    obtain ⟨x, -, h⟩ := Except.bind_eq_ok h
    obtain ⟨interfaces, -, h⟩ := Except.bind_eq_ok h
    cases h
    exact exists_define_finish c (.defineObject x) (leads_fillObject key spec interfaces _)
  | defineInterface spec =>
    obtain ⟨x, -, h⟩ := Except.bind_eq_ok h
    cases h
    exact exists_define_finish c (.defineInterface x) (leads_fillInterface key spec _)

end Blueprint.Session

end GraphSchema
