import Mathlib.Logic.Relation

/-!
# Acyclic relations

A relation without a directed cycle of any length.  Fewer edges keep it so, and so does an
edge that closes no path, which is what a check before every insertion rests on.
-/

namespace SummitFlow

variable {α : Type} {r s : α → α → Prop} {a b : α}

/-- No element reaches itself. -/
def Acyclic (r : α → α → Prop) : Prop := ∀ x, ¬ Relation.TransGen r x x

theorem Acyclic.mono (h : Acyclic s) (hsub : ∀ x y, r x y → s x y) : Acyclic r :=
  fun x hx => h x (Relation.TransGen.mono hsub x x hx)

/-- The relation with one more edge. -/
def withEdge (r : α → α → Prop) (a b : α) : α → α → Prop := fun x y => r x y ∨ x = a ∧ y = b

/-- A path with one more edge is one without, or goes to the edge and on from it. -/
theorem path_withEdge {x y : α} (h : Relation.TransGen (withEdge r a b) x y) :
    Relation.TransGen r x y ∨ Relation.ReflTransGen r x a ∧ Relation.ReflTransGen r b y := by
  induction h with
  | single hxy =>
    rcases hxy with hold | ⟨rfl, rfl⟩
    · exact .inl (.single hold)
    · exact .inr ⟨.refl, .refl⟩
  | tail _ hstep ih =>
    rcases hstep with hold | ⟨rfl, rfl⟩
    · rcases ih with hpath | ⟨hto, hfrom⟩
      · exact .inl (hpath.tail hold)
      · exact .inr ⟨hto, hfrom.tail hold⟩
    · rcases ih with hpath | ⟨hto, -⟩
      · exact .inr ⟨hpath.to_reflTransGen, .refl⟩
      · exact .inr ⟨hto, .refl⟩

/-- An edge that closes no path closes no cycle. -/
theorem Acyclic.withEdge (h : Acyclic r) (hopen : ¬ Relation.ReflTransGen r b a) :
    Acyclic (withEdge r a b) := by
  intro x hx
  rcases path_withEdge hx with hold | ⟨hto, hfrom⟩
  · exact h x hold
  · exact hopen (hfrom.trans hto)

/-- A path of so many edges. -/
inductive PathOf (r : α → α → Prop) : Nat → α → α → Prop
  | refl (x : α) : PathOf r 0 x x
  | head {n : Nat} {x y z : α} : r x y → PathOf r n y z → PathOf r (n + 1) x z

theorem PathOf.reflTransGen {n : Nat} {x y : α} (h : PathOf r n x y) :
    Relation.ReflTransGen r x y := by
  induction h with
  | refl => exact .refl
  | head hstep _ ih => exact .head hstep ih

theorem PathOf.mono {n : Nat} {x y : α} (h : PathOf r n x y) (hsub : ∀ x y, r x y → s x y) :
    PathOf s n x y := by
  induction h with
  | refl => exact .refl _
  | head hstep _ ih => exact .head (hsub _ _ hstep) ih

end SummitFlow
