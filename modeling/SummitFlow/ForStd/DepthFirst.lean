import Mathlib

/-!
# Visiting a forest with a stack

A node is visited when it is first taken from the stack, and its children go on top of
the stack then.  The loop is bounded by a number of turns; `visit_of_potential` says
which number is enough.  Whatever the children are, no node is visited twice, and a
visit from every node leaves none out.
-/

namespace SummitFlow.DepthFirst

open scoped List

variable {α : Type} [DecidableEq α] (children : α → List α)

/-- The nodes in the order they are visited, each with its depth; `pending` is the stack,
    its top first. -/
def visit : Nat → List (α × Nat) → List (α × Nat) → List (α × Nat)
  | 0, _, visited => visited
  | _ + 1, [], visited => visited
  | turns + 1, (current, depth) :: pending, visited =>
    if current ∈ visited.map Prod.fst then visit turns pending visited
    else visit turns ((children current).map (·, depth + 1) ++ pending)
      (visited ++ [(current, depth)])

variable {children}

theorem visit_extends (turns : Nat) (pending visited : List (α × Nat)) :
    visited <+: visit children turns pending visited := by
  induction turns generalizing pending visited with
  | zero => exact List.prefix_rfl
  | succ turns ih =>
    cases pending with
    | nil => exact List.prefix_rfl
    | cons node pending =>
      rw [visit]
      split
      · exact ih _ _
      · exact (List.prefix_append _ _).trans (ih _ _)

theorem nodup_visit {turns : Nat} {pending visited : List (α × Nat)}
    (h : (visited.map Prod.fst).Nodup) :
    ((visit children turns pending visited).map Prod.fst).Nodup := by
  induction turns generalizing pending visited with
  | zero => exact h
  | succ turns ih =>
    cases pending with
    | nil => exact h
    | cons node pending =>
      rw [visit]
      split
      · exact ih h
      · rename_i hnew
        apply ih
        rw [List.map_append]
        exact h.append (List.nodup_singleton _) (List.disjoint_singleton.mpr hnew)

/-- Only nodes are visited. -/
theorem mem_of_mem_visit {P : α → Prop} (hchildren : ∀ a, P a → ∀ b ∈ children a, P b)
    {turns : Nat} {pending visited : List (α × Nat)} (hpending : ∀ e ∈ pending, P e.1)
    (hvisited : ∀ e ∈ visited, P e.1) : ∀ e ∈ visit children turns pending visited, P e.1 := by
  induction turns generalizing pending visited with
  | zero => exact hvisited
  | succ turns ih =>
    cases pending with
    | nil => exact hvisited
    | cons node pending =>
      have hnode : P node.1 := hpending node List.mem_cons_self
      have hrest : ∀ e ∈ pending, P e.1 := fun e he => hpending e (List.mem_cons_of_mem _ he)
      rw [visit]
      split
      · exact ih hrest hvisited
      · apply ih
        · intro e he
          rcases List.mem_append.mp he with hchild | hold
          · obtain ⟨b, hb, rfl⟩ := List.mem_map.mp hchild
            exact hchildren _ hnode b hb
          · exact hrest e hold
        · intro e he
          rcases List.mem_append.mp he with hold | hnew
          · exact hvisited e hold
          · obtain rfl := List.mem_singleton.mp hnew
            exact hnode

/-- The node on top of the stack is visited. -/
theorem mem_visit_top {turns : Nat} (hturns : 0 < turns) (node : α × Nat)
    (pending visited : List (α × Nat)) :
    node.1 ∈ (visit children turns (node :: pending) visited).map Prod.fst := by
  cases turns with
  | zero => cases hturns
  | succ turns =>
    rw [visit]
    split
    · rename_i hold
      exact ((visit_extends _ _ _).map Prod.fst).subset hold
    · apply ((visit_extends _ _ _).map Prod.fst).subset
      rw [List.map_append]
      exact List.mem_append_right _ (List.mem_singleton_self _)

/-! ## How many turns are enough -/

/-- The turns that are left at most: one for each entry of the stack, and one for each
    child of a node that is not visited yet. -/
def potential (children : α → List α) (nodes : List α) (pending visited : List (α × Nat)) : Nat :=
  pending.length +
    ((nodes.filter (· ∉ visited.map Prod.fst)).map fun a => (children a).length).sum

theorem potential_visit_lt (children : α → List α) {nodes : List α} (hnodes : nodes.Nodup)
    {current : α} (depth : Nat) (pending : List (α × Nat)) {visited : List (α × Nat)}
    (hcurrent : current ∈ nodes) (hnew : current ∉ visited.map Prod.fst) :
    potential children nodes ((children current).map (·, depth + 1) ++ pending)
        (visited ++ [(current, depth)]) <
      potential children nodes ((current, depth) :: pending) visited := by
  have hperm : (nodes.filter (· ∉ visited.map Prod.fst)).Perm
      (current :: nodes.filter (· ∉ (visited ++ [(current, depth)]).map Prod.fst)) := by
    apply (List.perm_ext_iff_of_nodup (hnodes.filter _) _).mpr
    · intro a
      simp only [List.mem_filter, List.mem_cons, List.map_append, List.mem_append,
        List.map_cons, List.map_nil, List.not_mem_nil, or_false, decide_eq_true_eq, not_or]
      constructor
      · rintro ⟨ha, hnot⟩
        by_cases heq : a = current
        · exact .inl heq
        · exact .inr ⟨ha, hnot, heq⟩
      · rintro (rfl | ⟨ha, hnot, -⟩)
        · exact ⟨hcurrent, hnew⟩
        · exact ⟨ha, hnot⟩
    · refine List.nodup_cons.mpr ⟨?_, hnodes.filter _⟩
      simp
  unfold potential
  rw [(hperm.map fun a => (children a).length).sum_eq, List.map_cons, List.sum_cons,
    List.length_append, List.length_map, List.length_cons]
  omega

/-- More turns than the potential change nothing: the stack is empty then. -/
theorem visit_of_potential {nodes : List α} (hnodes : nodes.Nodup)
    (hchildren : ∀ a ∈ nodes, ∀ b ∈ children a, b ∈ nodes) {turns : Nat} (more : Nat)
    {pending visited : List (α × Nat)} (hpending : ∀ e ∈ pending, e.1 ∈ nodes)
    (h : potential children nodes pending visited ≤ turns) :
    visit children (turns + more) pending visited = visit children turns pending visited := by
  induction turns generalizing pending visited with
  | zero =>
    have hempty : pending = [] := by
      apply List.length_eq_zero_iff.mp
      unfold potential at h
      omega
    subst hempty
    cases more <;> rfl
  | succ turns ih =>
    cases pending with
    | nil =>
      rw [show turns + 1 + more = turns + more + 1 by omega]
      rfl
    | cons node pending =>
      obtain ⟨current, depth⟩ := node
      have hrest : ∀ e ∈ pending, e.1 ∈ nodes := fun e he => hpending e (List.mem_cons_of_mem _ he)
      have hcurrent : current ∈ nodes := hpending _ List.mem_cons_self
      rw [show turns + 1 + more = turns + more + 1 by omega, visit, visit]
      split
      · apply ih hrest
        unfold potential at h ⊢
        rw [List.length_cons] at h
        omega
      · rename_i hnew
        apply ih
        · intro e he
          rcases List.mem_append.mp he with hchild | hold
          · obtain ⟨b, hb, rfl⟩ := List.mem_map.mp hchild
            exact hchildren current hcurrent b hb
          · exact hrest e hold
        · have hless := potential_visit_lt children hnodes depth pending hcurrent hnew
          omega

/-! ## What is left out -/

/-- The children of the visited nodes are visited. -/
def Closed (children : α → List α) (visited : List (α × Nat)) : Prop :=
  ∀ a ∈ visited.map Prod.fst, ∀ b ∈ children a, b ∈ visited.map Prod.fst

/-- When the turns are enough, a visit leaves no child out that was not on the stack. -/
theorem closed_visit {nodes : List α} (hnodes : nodes.Nodup)
    (hchildren : ∀ a ∈ nodes, ∀ b ∈ children a, b ∈ nodes) {turns : Nat}
    {pending visited : List (α × Nat)} (hpending : ∀ e ∈ pending, e.1 ∈ nodes)
    (hturns : potential children nodes pending visited ≤ turns)
    (h : ∀ a ∈ visited.map Prod.fst, ∀ b ∈ children a,
      b ∈ visited.map Prod.fst ∨ b ∈ pending.map Prod.fst) :
    Closed children (visit children turns pending visited) := by
  induction turns generalizing pending visited with
  | zero =>
    have hempty : pending = [] := by
      apply List.length_eq_zero_iff.mp
      unfold potential at hturns
      omega
    subst hempty
    exact fun a ha b hb => (h a ha b hb).resolve_right (List.not_mem_nil)
  | succ turns ih =>
    cases pending with
    | nil => exact fun a ha b hb => (h a ha b hb).resolve_right (List.not_mem_nil)
    | cons node pending =>
      obtain ⟨current, depth⟩ := node
      have hrest : ∀ e ∈ pending, e.1 ∈ nodes := fun e he => hpending e (List.mem_cons_of_mem _ he)
      have hcurrent : current ∈ nodes := hpending _ List.mem_cons_self
      rw [visit]
      split
      · rename_i hold
        apply ih hrest
        · unfold potential at hturns ⊢
          rw [List.length_cons] at hturns
          omega
        · intro a ha b hb
          rcases h a ha b hb with hvisited | hstack
          · exact .inl hvisited
          · rcases List.mem_cons.mp hstack with rfl | hstack
            · exact .inl hold
            · exact .inr hstack
      · rename_i hnew
        apply ih
        · intro e he
          rcases List.mem_append.mp he with hchild | hold
          · obtain ⟨b, hb, rfl⟩ := List.mem_map.mp hchild
            exact hchildren current hcurrent b hb
          · exact hrest e hold
        · have hless := potential_visit_lt children hnodes depth pending hcurrent hnew
          omega
        · intro a ha b hb
          rw [List.map_append, List.map_append, List.map_map]
          rw [List.map_append] at ha
          rcases List.mem_append.mp ha with hold | hlast
          · rcases h a hold b hb with hvisited | hstack
            · exact .inl (List.mem_append_left _ hvisited)
            · rcases List.mem_cons.mp hstack with rfl | hstack
              · exact .inl (List.mem_append_right _ (List.mem_singleton_self _))
              · exact .inr (List.mem_append_right _ hstack)
          · -- its children are on the stack now
            obtain rfl := List.mem_singleton.mp hlast
            exact .inr (List.mem_append_left _ (List.mem_map_of_mem hb))

/-! ## Where a node comes -/

/-- An entry is a start, or one deeper than a visited parent. -/
def Fits (children : α → List α) (start : α → Prop) (visited : List (α × Nat)) (e : α × Nat) : Prop :=
  start e.1 ∧ e.2 = 0 ∨ ∃ e' ∈ visited, e.1 ∈ children e'.1 ∧ e.2 = e'.2 + 1

/-- A visited node is a start, or comes after its parent, one deeper. -/
def Nested (children : α → List α) (start : α → Prop) (visited : List (α × Nat)) : Prop :=
  ∀ e ∈ visited, start e.1 ∧ e.2 = 0 ∨
    ∃ e', [e', e] <+ visited ∧ e.1 ∈ children e'.1 ∧ e.2 = e'.2 + 1

omit [DecidableEq α] in
theorem Nested.mono {start start' : α → Prop} {visited : List (α × Nat)}
    (h : Nested children start visited) (hstart : ∀ a, start a → start' a) :
    Nested children start' visited :=
  fun e he => (h e he).imp (And.imp_left (hstart _)) id

theorem nested_visit {start : α → Prop} {turns : Nat} {pending visited : List (α × Nat)}
    (hpending : ∀ e ∈ pending, Fits children start visited e) (h : Nested children start visited) :
    Nested children start (visit children turns pending visited) := by
  induction turns generalizing pending visited with
  | zero => exact h
  | succ turns ih =>
    cases pending with
    | nil => exact h
    | cons node pending =>
      have hrest : ∀ e ∈ pending, Fits children start visited e :=
        fun e he => hpending e (List.mem_cons_of_mem _ he)
      rw [visit]
      split
      · exact ih hrest h
      · apply ih
        · intro e he
          rcases List.mem_append.mp he with hchild | hold
          · obtain ⟨b, hb, rfl⟩ := List.mem_map.mp hchild
            exact .inr ⟨node, List.mem_append_right _ (List.mem_singleton_self _), hb, rfl⟩
          · rcases hrest e hold with htop | ⟨e', he', hparent⟩
            · exact .inl htop
            · exact .inr ⟨e', List.mem_append_left _ he', hparent⟩
        · intro e he
          rcases List.mem_append.mp he with hold | hlast
          · rcases h e hold with htop | ⟨e', hbefore, hparent⟩
            · exact .inl htop
            · exact .inr ⟨e', hbefore.trans (List.sublist_append_left _ _), hparent⟩
          · obtain rfl := List.mem_singleton.mp hlast
            rcases hpending node List.mem_cons_self with htop | ⟨e', he', hparent⟩
            · exact .inl htop
            · exact .inr ⟨e', (List.singleton_sublist.mpr he').append (List.Sublist.refl _), hparent⟩

end SummitFlow.DepthFirst
