import Mathlib.Data.List.Dedup
import Mathlib.Logic.Relation

/-!
# Graphs whose edges lead down

Every edge leads to a lower rank, so walking as deep as the rank of the start finds all that
it leads to, and the question whether one node leads to another is decided.
-/

namespace SummitFlow

/-- A graph with the edges out of each node, every one of them down. -/
structure RankedGraph (α : Type) where
  next : α → List α
  rank : α → Nat
  down : ∀ a, ∀ b ∈ next a, rank b < rank a

namespace RankedGraph

variable {α : Type} (graph : RankedGraph α)

/-- There is a path, perhaps of no edges. -/
def Leads : α → α → Prop := Relation.ReflTransGen fun a b => b ∈ graph.next a

/-- What a path of at most so many edges leads to. -/
def walk : Nat → α → List α
  | 0, a => [a]
  | depth + 1, a => a :: (graph.next a).flatMap (walk depth)

variable {graph}

theorem Leads.refl (a : α) : graph.Leads a a := Relation.ReflTransGen.refl

theorem Leads.trans {a b c : α} (h : graph.Leads a b) (h' : graph.Leads b c) : graph.Leads a c :=
  Relation.ReflTransGen.trans h h'

theorem leads_of_mem_walk {depth : Nat} {a b : α} (h : b ∈ graph.walk depth a) :
    graph.Leads a b := by
  induction depth generalizing a with
  | zero =>
    obtain rfl := List.mem_singleton.mp h
    exact .refl b
  | succ depth ih =>
    rw [walk, List.mem_cons] at h
    cases h with
    | inl heq =>
      rw [heq]
      exact .refl a
    | inr hmem =>
      obtain ⟨next, hnext, hwalk⟩ := List.mem_flatMap.mp hmem
      exact Relation.ReflTransGen.head hnext (ih hwalk)

/-- A path is no longer than the rank of its start. -/
theorem mem_walk_of_leads {a b : α} (h : graph.Leads a b) {depth : Nat}
    (hdepth : graph.rank a ≤ depth) : b ∈ graph.walk depth a := by
  induction h using Relation.ReflTransGen.head_induction_on generalizing depth with
  | refl => cases depth <;> simp [walk]
  | @head a next hnext _ ih =>
    have hdown := graph.down a next hnext
    obtain ⟨rest, rfl⟩ : ∃ rest, depth = rest + 1 := ⟨depth - 1, by omega⟩
    rw [walk, List.mem_cons]
    right
    exact List.mem_flatMap.mpr ⟨next, hnext, ih (by omega)⟩

variable (graph)

/-- All that a node leads to. -/
def reached (a : α) : List α := graph.walk (graph.rank a) a

@[simp] theorem mem_reached {a b : α} : b ∈ graph.reached a ↔ graph.Leads a b := by
  constructor
  · exact leads_of_mem_walk
  · intro h
    exact mem_walk_of_leads h (Nat.le_refl _)

instance [DecidableEq α] (a b : α) : Decidable (graph.Leads a b) :=
  decidable_of_iff (b ∈ graph.reached a) graph.mem_reached

end RankedGraph

end SummitFlow
