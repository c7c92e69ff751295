import Mathlib.Order.WellFounded

/-!
# Recursion and loops that descend

The body of a recursive function gets the function itself for its calls.  When every call is on
a smaller argument, unfolding the body as often as the size of the argument says gives the
function, and nothing below that depth is asked for.  A loop whose rounds make its state smaller
ends.
-/

namespace SummitFlow

/-! ## Recursion -/

section Recursion

variable {α β : Type}

/-- A body asks for the values at its calls only, and these are smaller than its argument. -/
structure Descends (body : (α → β) → α → β) (calls : α → α → Prop) (size : α → Nat) : Prop where
  only : ∀ f g x, (∀ y, calls x y → f y = g y) → body f x = body g x
  smaller : ∀ x y, calls x y → size y < size x

/-- A body unfolded to a depth; `stop` answers the calls below it. -/
def unfolded (body : (α → β) → α → β) (stop : α → β) : Nat → α → β
  | 0 => stop
  | depth + 1 => body (unfolded body stop depth)

variable {body : (α → β) → α → β} {calls : α → α → Prop} {size : α → Nat}

/-- Depth beyond the size of the argument gives the function the body is for, whatever answers
    below that depth. -/
theorem Descends.unfolded_eq (h : Descends body calls size) {f : α → β}
    (hf : ∀ x, f x = body f x) (stop : α → β) {depth : Nat} {x : α} (hdepth : size x < depth) :
    unfolded body stop depth x = f x := by
  induction depth generalizing x with
  | zero => omega
  | succ depth ih =>
    rw [unfolded, hf x]
    apply h.only
    intro y hy
    have hsmaller := h.smaller x y hy
    exact ih (by omega)

/-- Below the depth nothing is asked for. -/
theorem Descends.unfolded_enough (h : Descends body calls size) (stop stop' : α → β)
    {depth depth' : Nat} {x : α} (hdepth : size x < depth) (hdepth' : size x < depth') :
    unfolded body stop depth x = unfolded body stop' depth' x := by
  induction depth generalizing depth' x with
  | zero => omega
  | succ depth ih =>
    obtain ⟨rest, rfl⟩ : ∃ rest, depth' = rest + 1 := ⟨depth' - 1, by omega⟩
    rw [unfolded, unfolded]
    apply h.only
    intro y hy
    have hsmaller := h.smaller x y hy
    exact ih (by omega) (by omega)

/-- Unfolded beyond the size of its argument, the body satisfies its own equation. -/
theorem Descends.unfolded_self (h : Descends body calls size) (stop : α → β) (x : α) :
    unfolded body stop (size x + 1) x =
      body (fun y => unfolded body stop (size y + 1) y) x := by
  rw [unfolded]
  apply h.only
  intro y hy
  have hsmaller := h.smaller x y hy
  exact h.unfolded_enough stop stop (by omega) (by omega)

/-- No chain of calls goes on forever. -/
theorem wellFounded_of_smaller (hsmaller : ∀ x y, calls x y → size y < size x) :
    WellFounded fun y x => calls x y :=
  Subrelation.wf (fun {y x} hy => hsmaller x y hy) (measure size).wf

end Recursion

/-! ## Loops -/

section Loops

variable {σ : Type}

/-- So many rounds of a loop, or fewer; a round that gives nothing ends it. -/
def runRounds (round : σ → Option σ) : Nat → σ → σ
  | 0, s => s
  | n + 1, s =>
    match round s with
    | some s' => runRounds round n s'
    | none => s

/-- Round by round the loop comes from one state to another, and ends there. -/
inductive Finishes (round : σ → Option σ) : σ → σ → Prop
  | last {s : σ} (h : round s = none) : Finishes round s s
  | more {s s' last : σ} (h : round s = some s') (rest : Finishes round s' last) :
      Finishes round s last

variable {round : σ → Option σ} {size : σ → Nat}

/-- As many rounds as the size of the state are enough when every round makes it smaller. -/
theorem finishes_runRounds (hshort : ∀ s s', round s = some s' → size s' < size s) {n : Nat} {s : σ}
    (hn : size s ≤ n) : Finishes round s (runRounds round n s) := by
  induction n generalizing s with
  | zero =>
    apply Finishes.last
    cases hround : round s with
    | none => rfl
    | some s' =>
      have hsmaller := hshort s s' hround
      omega
  | succ n ih =>
    rw [runRounds]
    cases hround : round s with
    | none => exact .last hround
    | some s' =>
      have hsmaller := hshort s s' hround
      exact .more hround (ih (by omega))

end Loops

end SummitFlow
