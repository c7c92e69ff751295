import Mathlib.Logic.Function.Basic

/-!
# Transaction-scoped exclusive locks

A lock table says which owner holds each key.  A key that nobody else holds can be
taken (again, by its own holder), and an owner gives back everything it holds at once,
when its transaction ends.
-/

namespace SummitFlow

/-- Who holds which key. -/
abbrev LockTable (κ : Type) := κ → Option Nat

namespace LockTable

variable {κ : Type} (locks : LockTable κ)

/-- Whether `owner` can take `key` without waiting. -/
def available (owner : Nat) (key : κ) : Bool :=
  locks key = none || locks key = some owner

/-- Give `key` to `owner`. -/
def take [DecidableEq κ] (owner : Nat) (key : κ) : LockTable κ :=
  Function.update locks key (some owner)

/-- End of the owner's transaction. -/
def releaseAll (owner : Nat) : LockTable κ :=
  fun key => if locks key = some owner then none else locks key

variable {locks}

@[simp] theorem take_self [DecidableEq κ] (owner : Nat) (key : κ) :
    locks.take owner key key = some owner := by simp [take]

/-- Taking an available key takes nothing from anybody. -/
theorem take_of_held [DecidableEq κ] {owner holder : Nat} {key k : κ}
    (havail : locks.available owner key) (h : locks k = some holder) :
    locks.take owner key k = some holder := by
  by_cases hk : k = key
  · subst hk
    simp only [available, h, reduceCtorEq, decide_false, Bool.false_or, decide_eq_true_eq,
      Option.some.injEq] at havail
    rw [take_self, havail]
  · rw [take, Function.update_of_ne hk, h]

/-- An owner that ends keeps nobody else from what it holds. -/
theorem releaseAll_of_held {owner holder : Nat} {k : κ} (hne : holder ≠ owner)
    (h : locks k = some holder) : locks.releaseAll owner k = some holder := by
  simp [releaseAll, h, hne]

end LockTable

end SummitFlow
