/-! Cells that are computed when they are first needed, at most once. While a cell is
being computed it belongs to the thread that computes it; afterwards it holds its
value for good, or is poisoned for good if the computation broke off. -/
namespace GraphSchema

inductive Cell (α : Type) where
  | pending
  | resolving (owner : Nat)
  | ready (a : α)
  | poisoned
  deriving DecidableEq, Repr

inductive ForceError where
  /-- The cell was asked for by the computation of the cell itself. -/
  | reentrant
  | poisoned
  deriving DecidableEq, Repr

namespace Cell

variable {α : Type}

def isReady : Cell α → Bool
  | ready _ => true
  | _ => false

/-- Nothing happens to the cell any more. -/
def isSettled : Cell α → Bool
  | ready _ | poisoned => true
  | pending | resolving _ => false

def state : Cell α → String
  | pending => "pending"
  | resolving _ => "resolving"
  | ready _ => "ready"
  | poisoned => "poisoned"

def inspect (c : Cell α) : String := "Deferred \x7b state: \"" ++ c.state ++ "\" \x7d"

/-- What a finished computation leaves: its value, or poison. -/
def ofOutcome : Option α → Cell α
  | some a => ready a
  | none => poisoned

/-- The answer of a settled cell. -/
def answer? : Cell α → Option (Except ForceError α)
  | ready a => some (.ok a)
  | poisoned => some (.error .poisoned)
  | pending | resolving _ => none

end Cell

/-- The cells of a catalog, by the place of the type. -/
abbrev Memo (α : Type) := Nat → Cell α

namespace Memo

variable {α : Type}

def fresh : Memo α := fun _ => .pending

def set (m : Memo α) (i : Nat) (c : Cell α) : Memo α := fun j => if j = i then c else m j

@[simp] theorem set_self (m : Memo α) (i : Nat) (c : Cell α) : m.set i c i = c := by
  simp [set]

theorem set_of_ne (m : Memo α) {i j : Nat} (c : Cell α) (h : j ≠ i) : m.set i c j = m j := by
  simp [set, h]

end Memo

end GraphSchema
