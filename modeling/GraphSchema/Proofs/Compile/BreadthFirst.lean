import Mathlib.Logic.Function.Iterate

/-! Breadth-first order, twice.

`levels` says it outright: the roots are the first level, and the next level is what
a level mentions, in the order of the first mention, but for what is in a level
already. `turn` is one turn of a queue: its first member is done, and what that one
mentions queues behind the others. A queue that is turned until it is empty has gone
through the levels one after another (`done_eq_levels`). -/
namespace GraphSchema.BreadthFirst

variable {α : Type} [DecidableEq α]

/-! ### First occurrences -/

/-- What of a list has not been seen, each where it first stands. -/
def firsts (seen : List α) : List α → List α
  | [] => []
  | x :: xs => if x ∈ seen then firsts seen xs else x :: firsts (seen ++ [x]) xs

theorem firsts_append (seen xs ys : List α) :
    firsts seen (xs ++ ys) = firsts seen xs ++ firsts (seen ++ firsts seen xs) ys := by
  induction xs generalizing seen with
  | nil => simp [firsts]
  | cons x xs ih =>
    rw [List.cons_append, firsts, firsts]
    by_cases hx : x ∈ seen
    · rw [if_pos hx, if_pos hx, ih]
    · rw [if_neg hx, if_neg hx, ih, List.cons_append, List.append_assoc, List.singleton_append]

theorem firsts_cons_of_mem {seen : List α} {x : α} (h : x ∈ seen) (xs : List α) :
    firsts seen (x :: xs) = firsts seen xs :=
  if_pos h

theorem firsts_cons_of_not_mem {seen : List α} {x : α} (h : x ∉ seen) (xs : List α) :
    firsts seen (x :: xs) = x :: firsts (seen ++ [x]) xs :=
  if_neg h

theorem mem_of_mem_firsts {seen xs : List α} {x : α} (h : x ∈ firsts seen xs) : x ∈ xs := by
  induction xs generalizing seen with
  | nil => exact h
  | cons y ys ih =>
    by_cases hy : y ∈ seen
    · rw [firsts_cons_of_mem hy] at h
      exact List.mem_cons_of_mem _ (ih h)
    · rw [firsts_cons_of_not_mem hy] at h
      rcases List.mem_cons.mp h with rfl | h
      · exact List.mem_cons_self ..
      · exact List.mem_cons_of_mem _ (ih h)

/-! ### Levels and turns -/

/-- The first levels, one after another, when those before them and what they mention are given. -/
def levels (next : α → List α) : Nat → List α → List α → List α
  | 0, _, _ => []
  | n + 1, seen, mentioned =>
    let level := firsts seen mentioned
    level ++ levels next n (seen ++ level) (level.flatMap next)

/-- The levels from the roots on, up to that depth. -/
def order (next : α → List α) (depth : Nat) (roots : List α) : List α := levels next depth [] roots

/-- What is done, and the queue. -/
abbrev Queue (α : Type) := List α × List α

def turn (next : α → List α) : Queue α → Queue α
  | (done, []) => (done, [])
  | (done, x :: rest) => (done ++ [x], rest ++ firsts (done ++ x :: rest) (next x))

variable {next : α → List α}

theorem turn_iterate_nil (n : Nat) (done : List α) : (turn next)^[n] (done, []) = (done, []) :=
  Function.iterate_fixed rfl n

/-- As many turns as there are members in the first part of the queue. -/
theorem turn_iterate_append (next : α → List α) (first : List α) (done rest : List α) :
    (turn next)^[first.length] (done, first ++ rest) =
      (done ++ first, rest ++ firsts (done ++ first ++ rest) (first.flatMap next)) := by
  induction first generalizing done rest with
  | nil => simp [firsts]
  | cons x first ih =>
    rw [List.length_cons, Function.iterate_succ_apply, List.cons_append, turn,
      List.append_assoc first, ih, List.flatMap_cons, firsts_append]
    simp only [List.append_assoc, List.cons_append, List.nil_append]

/-- The queue goes through the levels. A level takes a turn at least, unless nothing is left. -/
theorem turn_iterate_levels (next : α → List α) (n : Nat) (done mentioned : List α) :
    ∃ k rest, (turn next)^[k] (done, firsts done mentioned) =
      (done ++ levels next n done mentioned, rest) ∧ (n ≤ k ∨ rest = []) := by
  induction n generalizing done mentioned with
  | zero => exact ⟨0, firsts done mentioned, by simp [levels], .inl (Nat.le_refl 0)⟩
  | succ n ih =>
    have hlevel := turn_iterate_append next (firsts done mentioned) done []
    simp only [List.append_nil, List.nil_append] at hlevel
    obtain ⟨k, rest, hk, hdone⟩ :=
      ih (done ++ firsts done mentioned) ((firsts done mentioned).flatMap next)
    refine ⟨k + (firsts done mentioned).length, rest, ?_, ?_⟩
    · rw [Function.iterate_add_apply, hlevel, hk, levels, List.append_assoc]
    · rcases hdone with hle | hempty
      · cases hfirst : firsts done mentioned with
        | nil =>
          refine .inr ?_
          rw [hfirst] at hk
          simp only [List.flatMap_nil, firsts, turn_iterate_nil, Prod.mk.injEq] at hk
          exact hk.2.symm
        | cons x xs =>
          refine .inl ?_
          rw [List.length_cons]
          omega
      · exact .inr hempty

/-- **An emptied queue has gone through the levels**, however many more of them are asked for. -/
theorem done_eq_levels {turns depth : Nat} {done mentioned all : List α}
    (h : (turn next)^[turns] (done, firsts done mentioned) = (all, [])) (hdepth : turns ≤ depth) :
    all = done ++ levels next depth done mentioned := by
  obtain ⟨k, rest, hk, hlong⟩ := turn_iterate_levels next depth done mentioned
  -- whichever of the two stopped first was empty by then, and more turns leave it so
  have hjoin : ∀ {a b : Nat} {q : Queue α}, (turn next)^[a] q = (all, []) → a ≤ b →
      (turn next)^[b] q = (all, []) := by
    intro a b q ha hab
    obtain ⟨extra, rfl⟩ := Nat.exists_eq_add_of_le' hab
    rw [Function.iterate_add_apply, ha, turn_iterate_nil]
  by_cases hle : turns ≤ k
  · have hall := hjoin h hle
    rw [hk] at hall
    exact (congrArg Prod.fst hall).symm
  · have hempty : rest = [] := hlong.resolve_left (by omega)
    obtain ⟨extra, rfl⟩ := Nat.exists_eq_add_of_le' (Nat.le_of_not_le hle)
    rw [Function.iterate_add_apply, hk, hempty, turn_iterate_nil] at h
    exact (congrArg Prod.fst h).symm

/-- What holds of the roots and of all that is mentioned holds of all that is done or queued. -/
theorem forall_mem_turn_iterate {P : α → Prop} (next : α → List α)
    (hnext : ∀ x, P x → ∀ y ∈ next x, P y) (n : Nat) {q : Queue α} (hq : ∀ x ∈ q.1 ++ q.2, P x) :
    ∀ x ∈ ((turn next)^[n] q).1 ++ ((turn next)^[n] q).2, P x := by
  induction n generalizing q with
  | zero => exact hq
  | succ n ih =>
    rw [Function.iterate_succ_apply]
    refine ih fun x hx => ?_
    obtain ⟨done, _ | ⟨y, rest⟩⟩ := q
    · exact hq x hx
    · rw [turn] at hx
      simp only [List.append_assoc, List.singleton_append] at hx
      rw [← List.cons_append, ← List.append_assoc] at hx
      rcases List.mem_append.mp hx with hx | hx
      · exact hq x hx
      · exact hnext y (hq y (by simp)) x (mem_of_mem_firsts hx)

end GraphSchema.BreadthFirst
