import Mathlib.Data.List.Basic
import Mathlib.Data.List.GetD

/-!
# Bisection

In a list in order, the place after the elements that are not above a value.
-/

namespace SummitFlow.Bisect

/-- `bisect_right` between two places, in at most so many rounds. -/
def between (as : List Int) (x : Int) : Nat → Nat → Nat → Nat
  | 0, lo, _ => lo
  | rounds + 1, lo, hi =>
    if lo < hi then
      let mid := (lo + hi) / 2
      if x < as.getD mid 0 then between as x rounds lo mid else between as x rounds (mid + 1) hi
    else lo

/-- `bisect.bisect_right`; each round at least takes one place away. -/
def right (as : List Int) (x : Int) : Nat := between as x as.length 0 as.length

variable {as : List Int} {x : Int}

/-- What is before the place is not above the value, and what is after it is. -/
theorem between_spec (hsorted : as.Pairwise (· ≤ ·)) {rounds lo hi : Nat} (hle : lo ≤ hi)
    (hrounds : hi ≤ lo + rounds) (hhi : hi ≤ as.length) (hlow : ∀ i < lo, as.getD i 0 ≤ x)
    (hhigh : ∀ i, hi ≤ i → i < as.length → x < as.getD i 0) :
    between as x rounds lo hi ≤ as.length ∧ (∀ i < between as x rounds lo hi, as.getD i 0 ≤ x) ∧
      ∀ i, between as x rounds lo hi ≤ i → i < as.length → x < as.getD i 0 := by
  have hmono : ∀ i j, i < j → j < as.length → as.getD i 0 ≤ as.getD j 0 := by
    intro i j hij hj
    rw [List.getD_eq_getElem _ _ hj, List.getD_eq_getElem _ _ (by omega)]
    exact List.pairwise_iff_getElem.mp hsorted i j (by omega) hj hij
  induction rounds generalizing lo hi with
  | zero => exact ⟨by show lo ≤ _; omega, hlow, fun i hi' => hhigh i (by change lo ≤ i at hi'; omega)⟩
  | succ rounds ih =>
    rw [between]
    by_cases hlt : lo < hi
    · rw [if_pos hlt]
      dsimp only
      by_cases hx : x < as.getD ((lo + hi) / 2) 0
      · rw [if_pos hx]
        apply ih (by omega) (by omega) (by omega) hlow
        intro i hi' hlength
        rcases Nat.lt_or_eq_of_le hi' with hlt' | rfl
        · exact Int.lt_of_lt_of_le hx (hmono _ i hlt' hlength)
        · exact hx
      · rw [if_neg hx]
        have hmid : as.getD ((lo + hi) / 2) 0 ≤ x := Int.not_lt.mp hx
        apply ih (by omega) (by omega) hhi _ hhigh
        intro i hi'
        rcases Nat.lt_or_eq_of_le (Nat.le_of_lt_succ hi') with hlt' | rfl
        · exact Int.le_trans (hmono i _ hlt' (by omega)) hmid
        · exact hmid
    · rw [if_neg hlt]
      exact ⟨by omega, hlow, fun i hi' => hhigh i (by omega)⟩

theorem right_spec (hsorted : as.Pairwise (· ≤ ·)) :
    right as x ≤ as.length ∧ (∀ i < right as x, as.getD i 0 ≤ x) ∧
      ∀ i, right as x ≤ i → i < as.length → x < as.getD i 0 :=
  between_spec hsorted (Nat.zero_le _) (by omega) (Nat.le_refl _) (fun _ hi => absurd hi (Nat.not_lt_zero _))
    (fun _ hi hlength => absurd hlength (Nat.not_lt.mpr hi))

/-- Only one place is right. -/
theorem right_eq (hsorted : as.Pairwise (· ≤ ·)) {k : Nat} (hk : k ≤ as.length)
    (hlow : ∀ i < k, as.getD i 0 ≤ x) (hhigh : k < as.length → x < as.getD k 0) :
    right as x = k := by
  obtain ⟨hlength, hbefore, hafter⟩ := @right_spec as x hsorted
  rcases Nat.lt_trichotomy (right as x) k with hlt | heq | hgt
  · have hle := hlow _ hlt
    have hlt' := hafter _ (Nat.le_refl _) (by omega)
    omega
  · exact heq
  · have hle := hbefore k hgt
    have hlt' := hhigh (by omega)
    omega

/-- The first element alone, and the place in the rest. -/
theorem right_cons (a : Int) (hsorted : (a :: as).Pairwise (· ≤ ·)) :
    right (a :: as) x = if x < a then 0 else right as x + 1 := by
  obtain ⟨hlength, hbefore, hafter⟩ := @right_spec as x (List.pairwise_cons.mp hsorted).2
  split
  · next hx => exact right_eq hsorted (Nat.zero_le _) (fun _ hi => absurd hi (Nat.not_lt_zero _)) fun _ => hx
  · next hx =>
    apply right_eq hsorted (Nat.succ_le_succ hlength)
    · intro i hi
      cases i with
      | zero => exact Int.not_lt.mp hx
      | succ i => exact hbefore i (Nat.lt_of_succ_lt_succ hi)
    · intro hi
      exact hafter _ (Nat.le_refl _) (Nat.lt_of_succ_lt_succ hi)

end SummitFlow.Bisect
