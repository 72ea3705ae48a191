/-! Computations that succeed: what their parts came to, and what is found in what they
yield. And those that do not: which part it was that failed. -/
namespace Except

variable {ε α β : Type}

/-- A check that was passed. -/
theorem of_ite_eq_ok {b : Bool} {e : ε} {x : Except ε α} {a : α}
    (h : (if b then .error e else x) = .ok a) : b = false ∧ x = .ok a := by
  cases b with
  | true => cases h
  | false => exact ⟨rfl, h⟩

theorem eq_ok_getD {σ : Type} {x : Except ε α × σ} (h : x.1.isOk = true) (default : α) :
    x = (.ok (x.1.toOption.getD default), x.2) := by
  obtain ⟨result, st⟩ := x
  cases result with
  | error e => cases h
  | ok a => rfl

theorem exists_of_isOk {x : Except ε α} (h : x.isOk = true) : ∃ a, x = .ok a := by
  cases x with
  | error e => cases h
  | ok a => exact ⟨a, rfl⟩

theorem bind_eq_ok {x : Except ε α} {f : α → Except ε β} {b : β} (h : x >>= f = .ok b) :
    ∃ a, x = .ok a ∧ f a = .ok b := by
  cases x with
  | error e => cases h
  | ok a => exact ⟨a, rfl, h⟩

theorem map_eq_ok {x : Except ε α} {f : α → β} {b : β} (h : x.map f = .ok b) :
    ∃ a, x = .ok a ∧ f a = b := by
  cases x with
  | error e => cases h
  | ok a => exact ⟨a, rfl, Except.ok.inj h⟩

theorem bind_eq_error {x : Except ε α} {f : α → Except ε β} {e : ε} (h : x >>= f = .error e) :
    x = .error e ∨ ∃ a, x = .ok a ∧ f a = .error e := by
  cases x with
  | error e' => exact .inl (congrArg _ (Except.error.inj h))
  | ok a => exact .inr ⟨a, rfl, h⟩

theorem map_eq_error {x : Except ε α} {f : α → β} {e : ε} (h : x.map f = .error e) :
    x = .error e := by
  cases x with
  | error e' => exact congrArg _ (Except.error.inj h)
  | ok a => cases h

/-- What a traversal yields is what the function yields on the members. -/
theorem mem_of_mapM {f : α → Except ε β} {as : List α} {bs : List β} (h : as.mapM f = .ok bs)
    (b : β) : b ∈ bs ↔ ∃ a ∈ as, f a = .ok b := by
  induction as generalizing bs with
  | nil =>
    cases h
    simp
  | cons a as ih =>
    rw [List.mapM_cons] at h
    obtain ⟨b', hb', h⟩ := bind_eq_ok h
    obtain ⟨bs', hbs', h⟩ := bind_eq_ok h
    cases h
    rw [List.mem_cons, ih hbs']
    constructor
    · rintro (rfl | ⟨x, hx, hfx⟩)
      · exact ⟨a, List.mem_cons_self .., hb'⟩
      · exact ⟨x, List.mem_cons_of_mem _ hx, hfx⟩
    · rintro ⟨x, hx, hfx⟩
      rcases List.mem_cons.mp hx with rfl | hx
      · rw [hb'] at hfx
        exact .inl (Except.ok.inj hfx).symm
      · exact .inr ⟨x, hx, hfx⟩

theorem exists_of_mapM {f : α → Except ε β} {as : List α} {bs : List β}
    (h : as.mapM f = .ok bs) {a : α} (ha : a ∈ as) : ∃ b ∈ bs, f a = .ok b := by
  induction as generalizing bs with
  | nil => cases ha
  | cons x as ih =>
    rw [List.mapM_cons] at h
    obtain ⟨b, hb, h⟩ := bind_eq_ok h
    obtain ⟨bs', hbs', h⟩ := bind_eq_ok h
    cases h
    rcases List.mem_cons.mp ha with rfl | ha
    · exact ⟨b, List.mem_cons_self .., hb⟩
    · obtain ⟨y, hy, hfy⟩ := ih hbs' ha
      exact ⟨y, List.mem_cons_of_mem _ hy, hfy⟩

/-- What a traversal keeps of each member it keeps of the list. -/
theorem map_of_mapM {κ : Type} {f : α → Except ε β} {p : α → κ} {q : β → κ}
    (hpq : ∀ a b, f a = .ok b → q b = p a) {as : List α} {bs : List β}
    (h : as.mapM f = .ok bs) : bs.map q = as.map p := by
  induction as generalizing bs with
  | nil =>
    cases h
    rfl
  | cons a as ih =>
    rw [List.mapM_cons] at h
    obtain ⟨b, hb, h⟩ := bind_eq_ok h
    obtain ⟨bs', hbs', h⟩ := bind_eq_ok h
    cases h
    rw [List.map_cons, List.map_cons, hpq a b hb, ih hbs']

/-- Looking for a member before a traversal and after it. -/
theorem find?_of_mapM {f : α → Except ε β} {p : α → Bool} {q : β → Bool}
    (hpq : ∀ a b, f a = .ok b → q b = p a) {as : List α} {bs : List β}
    (h : as.mapM f = .ok bs) :
    (as.find? p = none ∧ bs.find? q = none) ∨
      ∃ a b, as.find? p = some a ∧ bs.find? q = some b ∧ f a = .ok b := by
  induction as generalizing bs with
  | nil =>
    cases h
    exact .inl ⟨rfl, rfl⟩
  | cons a as ih =>
    rw [List.mapM_cons] at h
    obtain ⟨b, hb, h⟩ := bind_eq_ok h
    obtain ⟨bs', hbs', h⟩ := bind_eq_ok h
    cases h
    rw [List.find?_cons, List.find?_cons, hpq a b hb]
    cases p a with
    | true => exact .inr ⟨a, b, rfl, rfl, hb⟩
    | false => exact ih hbs'

end Except

/-- Members with keys of their own are found by them. -/
theorem List.find?_of_nodup {α : Type} {key : α → String} {as : List α}
    (h : (as.map key).Nodup) {a : α} (ha : a ∈ as) : as.find? (key · == key a) = some a := by
  induction as with
  | nil => cases ha
  | cons x xs ih =>
    obtain ⟨hnew, hnodup⟩ := List.nodup_cons.mp h
    rw [List.find?_cons]
    rcases List.mem_cons.mp ha with rfl | ha
    · simp
    · have hne : (key x == key a) = false := by
        simp only [beq_eq_false_iff_ne]
        exact fun heq => hnew (heq ▸ List.mem_map_of_mem ha)
      rw [hne]
      exact ih hnodup ha

/-- An optional traversal yields what each member comes to. -/
theorem List.map_eq_of_mapM {α β : Type} {f : α → Option β} {as : List α} {bs : List β}
    (h : as.mapM f = some bs) : as.map f = bs.map some := by
  induction as generalizing bs with
  | nil =>
    cases h
    rfl
  | cons a as ih =>
    simp only [List.mapM_cons, Option.bind_eq_bind, Option.bind_eq_some_iff, Option.pure_def,
      Option.some.injEq] at h
    obtain ⟨b, hb, bs', hbs', rfl⟩ := h
    rw [List.map_cons, List.map_cons, hb, ih hbs']
