import Mathlib.Data.List.Nodup
import Mathlib.Data.List.Perm.Subperm
import Mathlib.Logic.Function.Basic
import SummitFlow.ForStd.Acyclic
import SummitFlow.ForStd.ParentChains

/-!
# Kahn's algorithm

Nodes that wait for nothing are taken from a queue, and each one taken lowers the degrees of
the nodes that wait for it, once for each edge; a node whose degree comes to zero is queued.

An edge is a node and a node that it waits for.  What is done comes after all that it waited
for, and a node that is never done waits for another such node, so it is on a cycle or waits
for one.
-/

namespace SummitFlow.Kahn

open Relation
open scoped List

variable {α : Type} [DecidableEq α]

/-- The nodes that wait for a node, one for each edge. -/
def dependents (edges : List (α × α)) (node : α) : List α :=
  (edges.filter fun e => e.2 = node).map Prod.fst

/-- Lower the degrees of some nodes one after the other, and queue those that come to zero. -/
def release (degree : α → Int) (queue : List α) : List α → (α → Int) × List α
  | [] => (degree, queue)
  | node :: nodes =>
    let degree := Function.update degree node (degree node - 1)
    release degree (if degree node = 0 then queue ++ [node] else queue) nodes

/-- Work off the queue, for so many nodes at most. -/
def loop (waiting : α → List α) : Nat → List α → (α → Int) → List α → Option (List α × (α → Int))
  | _, [], degree, done => some (done, degree)
  | 0, _ :: _, _, _ => none
  | fuel + 1, node :: queue, degree, done =>
    let (degree, queue) := release degree queue (waiting node)
    loop waiting fuel queue degree (done ++ [node])

/-! ## One round -/

theorem count_dependents (edges : List (α × α)) (node s : α) :
    (dependents edges node).count s = edges.countP fun e => e.1 = s ∧ e.2 = node := by
  induction edges with
  | nil => rfl
  | cons e edges ih =>
    unfold dependents at ih ⊢
    by_cases hnode : e.2 = node
    · rw [List.filter_cons_of_pos (by simpa using hnode), List.map_cons, List.count_cons,
        List.countP_cons, ih]
      simp [hnode]
    · rw [List.filter_cons_of_neg (by simpa using hnode), List.countP_cons, ih]
      simp [hnode]

theorem mem_dependents {edges : List (α × α)} {node s : α} :
    s ∈ dependents edges node ↔ (s, node) ∈ edges := by
  unfold dependents
  rw [List.mem_map]
  constructor
  · rintro ⟨e, he, rfl⟩
    obtain ⟨hmem, hnode⟩ := List.mem_filter.mp he
    rw [← of_decide_eq_true hnode]
    exact hmem
  · intro h
    exact ⟨(s, node), List.mem_filter.mpr ⟨h, decide_eq_true rfl⟩, rfl⟩

/-- What a round does: every degree is lowered by as many edges as there are, and those nodes
    are queued that had no others. -/
theorem release_spec {degree : α → Int} {queue nodes : List α}
    (h : ∀ s, (nodes.count s : Int) ≤ degree s) :
    ∃ new : List α, release degree queue nodes =
        (fun s => degree s - nodes.count s, queue ++ new) ∧
      new.Nodup ∧ ∀ s, s ∈ new ↔ s ∈ nodes ∧ degree s = nodes.count s := by
  induction nodes generalizing degree queue with
  | nil => exact ⟨[], by simp [release], List.nodup_nil, fun s => by simp⟩
  | cons node nodes ih =>
    have hlower : ∀ s, Function.update degree node (degree node - 1) s - (nodes.count s : Int) =
        degree s - ((node :: nodes).count s : Int) := by
      intro s
      rw [List.count_cons]
      by_cases hs : s = node
      · subst hs
        rw [Function.update_self]
        simp only [beq_self_eq_true, if_true]
        omega
      · have hne : (node == s) = false := beq_eq_false_iff_ne.mpr (Ne.symm hs)
        rw [Function.update_of_ne hs, hne]
        simp
    obtain ⟨new, hrelease, hnodup, hmem⟩ := @ih (Function.update degree node (degree node - 1))
      (if Function.update degree node (degree node - 1) node = 0 then queue ++ [node] else queue) (by
        intro s
        have hs := h s
        have hlow := hlower s
        omega)
    rw [release, hrelease]
    have hvalue : Function.update degree node (degree node - 1) node = degree node - 1 :=
      Function.update_self ..
    by_cases hzero : degree node - 1 = 0
    · -- its last edge: the node is queued here, and not again
      have hlast : nodes.count node = 0 := by
        have hnode := h node
        rw [List.count_cons_self] at hnode
        omega
      have hout : node ∉ nodes := List.count_eq_zero.mp hlast
      refine ⟨node :: new, ?_, ?_, ?_⟩
      · rw [hvalue, if_pos hzero, List.append_assoc]
        exact Prod.ext (funext hlower) rfl
      · exact List.nodup_cons.mpr ⟨fun hnew => hout ((hmem node).mp hnew).1, hnodup⟩
      · intro s
        rw [List.mem_cons, hmem, List.mem_cons]
        by_cases hs : s = node
        · subst hs
          rw [List.count_cons_self, hlast]
          refine iff_of_true (.inl rfl) ⟨.inl rfl, ?_⟩
          omega
        · have hlow := hlower s
          rw [Function.update_of_ne hs] at hlow ⊢
          simp only [hs, false_or]
          refine and_congr_right fun _ => ?_
          omega
    · refine ⟨new, ?_, hnodup, ?_⟩
      · rw [hvalue, if_neg hzero]
        exact Prod.ext (funext hlower) rfl
      · intro s
        rw [hmem, List.mem_cons]
        by_cases hs : s = node
        · subst hs
          have hs' := h s
          rw [List.count_cons_self] at hs' ⊢
          rw [Function.update_self]
          constructor
          · rintro ⟨hin, heq⟩
            exact ⟨.inl rfl, by omega⟩
          · rintro ⟨-, heq⟩
            have hpos : 0 < nodes.count s := by omega
            exact ⟨List.count_pos_iff.mp hpos, by omega⟩
        · have hlow := hlower s
          rw [Function.update_of_ne hs] at hlow ⊢
          simp only [hs, false_or]
          refine and_congr_right fun _ => ?_
          omega

/-! ## The invariant -/

/-- The edges of a node that are still open. -/
def pending (edges : List (α × α)) (done : List α) (s : α) : Nat :=
  edges.countP fun e => e.1 = s ∧ e.2 ∉ done

structure Inv (edges : List (α × α)) (nodes queue : List α) (degree : α → Int) (done : List α) :
    Prop where
  nodup : (done ++ queue).Nodup
  degrees : ∀ s, degree s = pending edges done s
  ready : ∀ s, s ∈ done ++ queue ↔ s ∈ nodes ∧ degree s = 0
  ordered : ∀ before s after, done = before ++ s :: after → ∀ d, (s, d) ∈ edges → d ∈ before

variable {edges : List (α × α)} {nodes queue done : List α} {degree : α → Int}

theorem pending_pos {s : α} : 0 < pending edges done s ↔ ∃ d, (s, d) ∈ edges ∧ d ∉ done := by
  unfold pending
  rw [List.countP_pos_iff]
  constructor
  · rintro ⟨⟨s', d⟩, he, h⟩
    obtain ⟨rfl, hd⟩ := of_decide_eq_true h
    exact ⟨d, he, hd⟩
  · rintro ⟨d, he, hd⟩
    exact ⟨(s, d), he, decide_eq_true ⟨rfl, hd⟩⟩

theorem pending_concat {node : α} (hnode : node ∉ done) (s : α) :
    pending edges done s = (dependents edges node).count s + pending edges (done ++ [node]) s := by
  rw [count_dependents]
  unfold pending
  induction edges with
  | nil => rfl
  | cons e edges ih =>
    rw [List.countP_cons, List.countP_cons, List.countP_cons, ih]
    by_cases hs : e.1 = s
    · by_cases hd : e.2 = node
      · simp [hs, hd, hnode]
        omega
      · by_cases hdone : e.2 ∈ done
        · simp [hs, hd, hdone]
        · simp [hs, hd, hdone]
          omega
    · simp [hs]

/-- A node is taken from the queue. -/
theorem Inv.step {node : α} (h : Inv edges nodes (node :: queue) degree done)
    (hedges : ∀ e ∈ edges, e.1 ∈ nodes) :
    ∃ degree' queue', release degree queue (dependents edges node) = (degree', queue') ∧
      Inv edges nodes queue' degree' (done ++ [node]) := by
  have hnew : node ∉ done := by
    intro hin
    exact List.disjoint_of_nodup_append h.nodup hin List.mem_cons_self
  have hcount : ∀ s, ((dependents edges node).count s : Int) ≤ degree s := by
    intro s
    have hsum := @pending_concat _ _ edges _ _ hnew s
    rw [h.degrees]
    omega
  obtain ⟨new, hrelease, hnodup, hmem⟩ := @release_spec _ _ degree queue _ hcount
  refine ⟨_, _, hrelease, ?_, ?_, ?_, ?_⟩
  · -- what is queued now had edges, and what was there had none
    have hold : (done ++ [node] ++ queue).Nodup := by
      rw [List.append_assoc]
      exact h.nodup
    rw [← List.append_assoc]
    refine List.Nodup.append hold hnodup ?_
    intro s hs hsnew
    rw [List.append_assoc] at hs
    obtain ⟨hin, heq⟩ := (hmem s).mp hsnew
    have hzero := ((h.ready s).mp hs).2
    have hpos := List.count_pos_iff.mpr hin
    omega
  · intro s
    have hsum := @pending_concat _ _ edges _ _ hnew s
    rw [h.degrees]
    omega
  · intro s
    rw [← List.append_assoc, List.mem_append, List.append_assoc]
    show (s ∈ done ++ node :: queue ∨ s ∈ new) ↔ _
    rw [h.ready, hmem]
    have hs := hcount s
    constructor
    · rintro (⟨hin, hzero⟩ | ⟨hin, heq⟩)
      · exact ⟨hin, by omega⟩
      · exact ⟨hedges _ (mem_dependents.mp hin), by omega⟩
    · rintro ⟨hin, hzero⟩
      by_cases hfree : degree s = 0
      · exact .inl ⟨hin, hfree⟩
      · have hpos : 0 < (dependents edges node).count s := by omega
        exact .inr ⟨List.count_pos_iff.mp hpos, by omega⟩
  · intro before s after heq d hd
    rcases List.eq_nil_or_concat after with rfl | ⟨after, last, rfl⟩
    · -- the node itself: it has no open edge
      obtain ⟨rfl, hlast⟩ := List.append_inj' heq rfl
      obtain rfl := (List.cons.inj hlast).1
      have hzero := ((h.ready node).mp (List.mem_append_right _ List.mem_cons_self)).2
      by_contra hout
      have hpos := pending_pos.mpr ⟨d, hd, hout⟩
      rw [h.degrees] at hzero
      omega
    · rw [List.concat_eq_append, ← List.cons_append, ← List.append_assoc] at heq
      exact h.ordered before s after (List.append_inj' heq rfl).1 d hd

/-- The queue comes to an end, within as many rounds as there are nodes. -/
theorem Inv.loop {fuel : Nat} (h : Inv edges nodes queue degree done)
    (hedges : ∀ e ∈ edges, e.1 ∈ nodes) (hfuel : nodes.length ≤ fuel + done.length) :
    ∃ done' degree', Kahn.loop (dependents edges) fuel queue degree done = some (done', degree') ∧
      Inv edges nodes [] degree' done' := by
  induction fuel generalizing queue degree done with
  | zero =>
    cases queue with
    | nil => exact ⟨done, degree, rfl, h⟩
    | cons node queue =>
      have hsub : done ++ node :: queue ⊆ nodes := fun s hs => ((h.ready s).mp hs).1
      have hlength := (h.nodup.subperm hsub).length_le
      rw [List.length_append, List.length_cons] at hlength
      omega
  | succ fuel ih =>
    cases queue with
    | nil => exact ⟨done, degree, rfl, h⟩
    | cons node queue =>
      obtain ⟨degree', queue', hrelease, hnext⟩ := h.step hedges
      obtain ⟨done'', degree'', hloop, hend⟩ := ih hnext (by
        rw [List.length_append, List.length_singleton]
        omega)
      refine ⟨done'', degree'', ?_, hend⟩
      rw [Kahn.loop, hrelease]
      exact hloop

/-! ## The end -/

/-- One node waits for another. -/
def Waits (edges : List (α × α)) (s d : α) : Prop := (s, d) ∈ edges

section

variable (h : Inv edges nodes [] degree done)

include h

theorem Inv.mem_done {s : α} : s ∈ done ↔ s ∈ nodes ∧ degree s = 0 := by
  rw [← h.ready, List.append_nil]

/-- What a node that is done waits for is done before it. -/
theorem Inv.before {s d : α} (hs : s ∈ done) (hd : Waits edges s d) : [d, s] <+ done := by
  obtain ⟨before, after, rfl⟩ := List.append_of_mem hs
  have hd' := h.ordered before s after rfl d hd
  exact (List.singleton_sublist.mpr hd').append (List.singleton_sublist.mpr List.mem_cons_self)

/-- A node on a cycle is never done. -/
theorem Inv.not_done_of_cycle {s : α} (hs : TransGen (Waits edges) s s) : s ∉ done := by
  have hnodup : done.Nodup := (List.append_nil done) ▸ h.nodup
  have hpath : ∀ {x y : α}, TransGen (Waits edges) x y → x ∈ done →
      y ∈ done ∧ done.idxOf y < done.idxOf x := by
    have hstep : ∀ {x y : α}, Waits edges x y → x ∈ done →
        y ∈ done ∧ done.idxOf y < done.idxOf x := by
      intro x y hxy hx
      obtain ⟨before, after, heq⟩ := List.append_of_mem hx
      have hy := h.ordered before x after heq y hxy
      have hxb : x ∉ before := by
        intro hin
        rw [heq] at hnodup
        exact List.disjoint_of_nodup_append hnodup hin List.mem_cons_self
      refine ⟨heq ▸ List.mem_append_left _ hy, ?_⟩
      rw [heq, List.idxOf_append_of_mem hy, List.idxOf_append_of_notMem hxb, List.idxOf_cons_self]
      have hlt := List.idxOf_lt_length_iff.mpr hy
      omega
    intro x y hxy hx
    induction hxy with
    | single hxy => exact hstep hxy hx
    | tail _ hyz ih =>
      obtain ⟨hy, hlt⟩ := ih
      obtain ⟨hz, hlt'⟩ := hstep hyz hy
      exact ⟨hz, Nat.lt_trans hlt' hlt⟩
  intro hin
  exact Nat.lt_irrefl _ (hpath hs hin).2

/-- A node that is never done is on a cycle or waits for one. -/
theorem Inv.waits_for_cycle (hedges : ∀ e ∈ edges, e.2 ∈ nodes) {s : α} (hs : s ∈ nodes)
    (hout : s ∉ done) :
    ∃ c, ReflTransGen (Waits edges) s c ∧ TransGen (Waits edges) c c := by
  let blocked : α → α → Prop := fun x y => Waits edges x y ∧ y ∈ nodes ∧ y ∉ done
  have hnext : ∀ x ∈ nodes, x ∉ done → ∃ y, blocked x y := by
    intro x hx hxout
    have hdegree : degree x ≠ 0 := fun hzero => hxout (h.mem_done.mpr ⟨hx, hzero⟩)
    have hpos : 0 < pending edges done x := by
      rw [h.degrees] at hdegree
      omega
    obtain ⟨d, hd, hdout⟩ := pending_pos.mp hpos
    exact ⟨d, hd, hedges _ hd, hdout⟩
  have hstays : ∀ x, ReflTransGen blocked s x → x ∈ nodes ∧ x ∉ done := by
    intro x hx
    rcases ReflTransGen.cases_tail hx with rfl | ⟨y, -, hstep⟩
    · exact ⟨hs, hout⟩
    · exact hstep.2
  have hrootless : ParentChains.Rootless blocked s := fun x hx =>
    hnext x (hstays x hx).1 (hstays x hx).2
  obtain ⟨c, hc, hcycle⟩ := hrootless.leads_to_cycle fun x hx => (hstays x hx).1
  exact ⟨c, ReflTransGen.mono (fun _ _ hxy => hxy.1) _ _ hc,
    TransGen.mono (fun _ _ hxy => hxy.1) _ _ hcycle⟩

end

end SummitFlow.Kahn
