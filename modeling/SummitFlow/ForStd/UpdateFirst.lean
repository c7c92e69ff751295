import Mathlib.Data.List.Forall2

/-!
# Changing the first element that satisfies a test

The lemma splits the list at that element, so that a proof about the change is a
proof about one element between two untouched parts.
-/

namespace SummitFlow

variable {α : Type}

/-- Apply `f` to the first element that satisfies `p`. -/
def updateFirst (p : α → Bool) (f : α → α) : List α → List α
  | [] => []
  | x :: xs => if p x then f x :: xs else x :: updateFirst p f xs

/-- Where `find?` finds an element, the update changes that element alone. -/
theorem updateFirst_of_find {p : α → Bool} {xs : List α} {x : α} (f : α → α)
    (h : xs.find? p = some x) :
    ∃ pre post, xs = pre ++ x :: post ∧ p x = true ∧ (∀ y ∈ pre, p y = false) ∧
      updateFirst p f xs = pre ++ f x :: post := by
  induction xs with
  | nil => simp at h
  | cons y xs ih =>
    rw [List.find?_cons] at h
    cases hy : p y with
    | true =>
      have hxy : y = x := by simpa [hy] using h
      subst hxy
      exact ⟨[], xs, rfl, hy, by simp, by simp [updateFirst, hy]⟩
    | false =>
      have htail : xs.find? p = some x := by simpa [hy] using h
      obtain ⟨pre, post, hxs, hx, hpre, hupd⟩ := ih htail
      refine ⟨y :: pre, post, by rw [hxs, List.cons_append], hx, ?_, ?_⟩
      · intro z hz
        rcases List.mem_cons.mp hz with rfl | hz
        · exact hy
        · exact hpre z hz
      · simp [updateFirst, hy, hupd]

/-- Every element is still there, as it was or changed. -/
theorem mem_updateFirst_of_mem {p : α → Bool} {f : α → α} {xs : List α} {x : α} (h : x ∈ xs) :
    x ∈ updateFirst p f xs ∨ p x = true ∧ f x ∈ updateFirst p f xs := by
  induction xs with
  | nil => simp at h
  | cons y xs ih =>
    unfold updateFirst
    split
    · next hy =>
      rcases List.mem_cons.mp h with rfl | h
      · exact .inr ⟨hy, List.mem_cons_self⟩
      · exact .inl (List.mem_cons_of_mem _ h)
    · rcases List.mem_cons.mp h with rfl | h
      · exact .inl List.mem_cons_self
      · rcases ih h with h | ⟨hp, h⟩
        · exact .inl (List.mem_cons_of_mem _ h)
        · exact .inr ⟨hp, List.mem_cons_of_mem _ h⟩

/-- An update changes elements one by one. -/
theorem forall₂_updateFirst {T : α → α → Prop} (hrefl : ∀ x, T x x) {p : α → Bool} {f : α → α}
    (hf : ∀ x, T x (f x)) (xs : List α) : List.Forall₂ T xs (updateFirst p f xs) := by
  induction xs with
  | nil => exact .nil
  | cons x xs ih =>
    unfold updateFirst
    split
    · exact .cons (hf x) (List.forall₂_same.mpr fun y _ => hrefl y)
    · exact .cons (hrefl x) ih

theorem exists_of_forall₂ {β : Type} {T : α → β → Prop} {xs : List α} {ys : List β}
    (hall : List.Forall₂ T xs ys) {y : β} (hy : y ∈ ys) : ∃ x ∈ xs, T x y := by
  induction hall with
  | nil => cases hy
  | @cons x x' xs xs' hx hxs ih =>
    rcases List.mem_cons.mp hy with rfl | hy
    · exact ⟨x, List.mem_cons_self, hx⟩
    · obtain ⟨z, hz, hzy⟩ := ih hy
      exact ⟨z, List.mem_cons_of_mem _ hz, hzy⟩

/-- What holds between any two elements holds between their images. -/
theorem pairwise_of_forall₂ {β : Type} {R : α → α → Prop} {S : β → β → Prop} {T : α → β → Prop}
    (hT : ∀ {x y x' y'}, T x x' → T y y' → R x y → S x' y') {xs : List α} {ys : List β}
    (hall : List.Forall₂ T xs ys) (h : xs.Pairwise R) : ys.Pairwise S := by
  induction hall with
  | nil => exact .nil
  | @cons x x' xs xs' hx hxs ih =>
    rw [List.pairwise_cons] at h
    refine .cons ?_ (ih h.2)
    intro y' hy'
    obtain ⟨y, hy, hyy'⟩ := exists_of_forall₂ hxs hy'
    exact hT hx hyy' (h.1 y hy)

end SummitFlow
