import SummitFlow.Storage.SubtaskOrder

/-!
# The order of subtasks is right

The graph holds the dependencies between the subtasks, one for each pair, and the sort is
Kahn's algorithm on them: without a cycle every subtask comes after what it depends on, and
otherwise the error names the subtasks on cycles and those that depend on them.
-/

namespace SummitFlow.SubtaskOrder

open Relation
open scoped List

variable {allSubtasks : List String} {dependencies : List (String × String)}

/-- The dependencies on subtasks of the list. -/
def inList (allSubtasks : List String) (dependencies : List (String × String)) :
    List (String × String) :=
  dependencies.filter fun dependency => dependency.2 ∈ allSubtasks

/-- One subtask of the list depends on another. -/
def DependsOn (allSubtasks : List String) (dependencies : List (String × String))
    (subtask dependency : String) : Prop :=
  (subtask, dependency) ∈ dependencies ∧ dependency ∈ allSubtasks

theorem waits_iff {subtask dependency : String} :
    Kahn.Waits (inList allSubtasks dependencies) subtask dependency ↔
      DependsOn allSubtasks dependencies subtask dependency := by
  unfold Kahn.Waits inList DependsOn
  rw [List.mem_filter, decide_eq_true_eq]

/-- The graph of some edges. -/
def graphOf (edges : List (String × String)) : Graph where
  inDegree := fun s => Kahn.pending edges [] s
  dependents := Kahn.dependents edges

theorem addEdge_graphOf (edges : List (String × String)) {edge : String × String}
    (h : edge.1 ∈ allSubtasks) :
    addEdge allSubtasks (graphOf edges) edge =
      .ok (graphOf (edges ++ inList allSubtasks [edge])) := by
  obtain ⟨subtask, dependency⟩ := edge
  unfold addEdge
  dsimp only
  by_cases hdependency : dependency ∈ allSubtasks
  · have hkept : inList allSubtasks [(subtask, dependency)] = [(subtask, dependency)] := by
      simp [inList, hdependency]
    rw [if_pos hdependency, if_pos h, hkept]
    congr 1
    unfold graphOf
    congr 1
    · -- one more edge of the subtask
      funext s
      unfold Kahn.pending
      rw [List.countP_append, List.countP_singleton]
      by_cases hs : s = subtask
      · subst hs
        simp
      · rw [Function.update_of_ne hs]
        simp [Ne.symm hs]
    · funext d
      unfold Kahn.dependents
      rw [List.filter_append, List.map_append]
      by_cases hd : d = dependency
      · subst hd
        simp
      · rw [Function.update_of_ne hd]
        simp [Ne.symm hd]
  · have hleft : inList allSubtasks [(subtask, dependency)] = [] := by
      simp [inList, hdependency]
    rw [if_neg hdependency, hleft, List.append_nil]

theorem buildGraph_ok (h : ∀ dependency ∈ dependencies, dependency.1 ∈ allSubtasks) :
    buildGraph allSubtasks dependencies = .ok (graphOf (inList allSubtasks dependencies)) := by
  have hall : ∀ edges, dependencies.foldlM (addEdge allSubtasks) (graphOf edges) =
      .ok (graphOf (edges ++ inList allSubtasks dependencies)) := by
    induction dependencies with
    | nil =>
      intro edges
      rw [inList, List.filter_nil, List.append_nil]
      rfl
    | cons first rest ih =>
      intro edges
      rw [List.foldlM_cons, addEdge_graphOf edges (h first List.mem_cons_self)]
      show rest.foldlM (addEdge allSubtasks) (graphOf (edges ++ inList allSubtasks [first])) = _
      rw [ih fun d hd => h d (List.mem_cons_of_mem _ hd), List.append_assoc]
      unfold inList
      rw [← List.filter_append, List.singleton_append]
  exact hall []

/-- The loop starts with what waits for nothing. -/
theorem inv_start (hnodup : allSubtasks.Nodup) (edges : List (String × String)) :
    Kahn.Inv edges allSubtasks
      (allSubtasks.filter fun s => ((Kahn.pending edges [] s : Nat) : Int) = 0)
      (fun s => Kahn.pending edges [] s) [] := by
  refine ⟨?_, fun s => rfl, ?_, ?_⟩
  · rw [List.nil_append]
    exact hnodup.filter _
  · intro s
    rw [List.nil_append, List.mem_filter, decide_eq_true_eq]
  · intro before s after heq
    have hlength := congrArg List.length heq
    simp at hlength

/-- How the sort ends. -/
theorem kahnSort_eq (hnodup : allSubtasks.Nodup)
    (h : ∀ dependency ∈ dependencies, dependency.1 ∈ allSubtasks) (taskId : String) :
    ∃ result inDegree, Kahn.Inv (inList allSubtasks dependencies) allSubtasks [] inDegree result ∧
      ∃ message, kahnSort allSubtasks (graphOf (inList allSubtasks dependencies)) taskId =
        some (if result.length ≠ allSubtasks.length then
            .error ⟨message, allSubtasks.filter fun s => inDegree s > 0⟩
          else .ok result) := by
  have hedges : ∀ e ∈ inList allSubtasks dependencies, e.1 ∈ allSubtasks :=
    fun e he => h e (List.mem_of_mem_filter he)
  obtain ⟨result, inDegree, hloop, hinv⟩ :=
    (inv_start hnodup (inList allSubtasks dependencies)).loop hedges
      (by rw [List.length_nil]; exact Nat.le_refl _)
  refine ⟨result, inDegree, hinv, "Cycle detected in task " ++ taskId ++ ": processed " ++
    (toString result.length ++ "/" ++ toString allSubtasks.length) ++ " subtasks", ?_⟩
  unfold kahnSort graphOf
  dsimp only
  rw [hloop]
  dsimp only [Option.bind_eq_bind, Option.bind_some]
  split
  · rfl
  · rfl

/-- Without a cycle the subtasks are put in order, and otherwise the error names those on a
    cycle, and only those on one or after one. -/
theorem kahnSort_correct (hnodup : allSubtasks.Nodup)
    (h : ∀ dependency ∈ dependencies, dependency.1 ∈ allSubtasks) (taskId : String) :
    ∃ graph, buildGraph allSubtasks dependencies = .ok graph ∧
      (Acyclic (DependsOn allSubtasks dependencies) →
        ∃ result, kahnSort allSubtasks graph taskId = some (.ok result) ∧ result ~ allSubtasks ∧
          ∀ s d, DependsOn allSubtasks dependencies s d → [d, s] <+ result) ∧
      (¬ Acyclic (DependsOn allSubtasks dependencies) →
        ∃ e, kahnSort allSubtasks graph taskId = some (.error e) ∧
          (∀ s, TransGen (DependsOn allSubtasks dependencies) s s → s ∈ e.cyclePath) ∧
          ∀ s ∈ e.cyclePath, s ∈ allSubtasks ∧
            ∃ c, ReflTransGen (DependsOn allSubtasks dependencies) s c ∧
              TransGen (DependsOn allSubtasks dependencies) c c) := by
  obtain ⟨result, inDegree, hinv, message, hsort⟩ := kahnSort_eq hnodup h taskId
  have hwaits : Kahn.Waits (inList allSubtasks dependencies) =
      DependsOn allSubtasks dependencies := by
    funext s d
    exact propext waits_iff
  have hdependency : ∀ e ∈ inList allSubtasks dependencies, e.2 ∈ allSubtasks :=
    fun e he => of_decide_eq_true (List.mem_filter.mp he).2
  have hresult : result.Nodup := (List.append_nil result) ▸ hinv.nodup
  have hsub : result ⊆ allSubtasks := fun s hs => (hinv.mem_done.mp hs).1
  refine ⟨_, buildGraph_ok h, ?_, ?_⟩
  · intro hacyclic
    have hall : allSubtasks ⊆ result := by
      intro s hs
      by_contra hout
      obtain ⟨c, -, hc⟩ := hinv.waits_for_cycle hdependency hs hout
      rw [hwaits] at hc
      exact hacyclic c hc
    have hperm : result ~ allSubtasks := (List.perm_ext_iff_of_nodup hresult hnodup).mpr
      fun s => ⟨fun hs => hsub hs, fun hs => hall hs⟩
    refine ⟨result, ?_, hperm, ?_⟩
    · rw [hsort, if_neg (not_not.mpr hperm.length_eq)]
    · intro s d hsd
      have hs : s ∈ result := hall (h _ hsd.1)
      rw [← hwaits] at hsd
      exact hinv.before hs hsd
  · intro hcyclic
    have hblocked : ∀ s, s ∈ (allSubtasks.filter fun s => inDegree s > 0) ↔
        s ∈ allSubtasks ∧ s ∉ result := by
      intro s
      rw [List.mem_filter, decide_eq_true_eq, hinv.mem_done]
      have hdegree := hinv.degrees s
      refine and_congr_right fun hs => ?_
      constructor
      · rintro hpos ⟨-, hzero⟩
        omega
      · intro hnot
        have hne : inDegree s ≠ 0 := fun hzero => hnot ⟨hs, hzero⟩
        omega
    have hcycle : ∀ s, TransGen (DependsOn allSubtasks dependencies) s s →
        s ∈ allSubtasks ∧ s ∉ result := by
      intro s hs
      obtain ⟨d, hd, -⟩ := TransGen.head'_iff.mp hs
      refine ⟨h _ hd.1, ?_⟩
      rw [← hwaits] at hs
      exact hinv.not_done_of_cycle hs
    have hshort : result.length ≠ allSubtasks.length := by
      intro hlength
      have hperm : result ~ allSubtasks :=
        List.Subperm.perm_of_length_le (hresult.subperm hsub) (Nat.le_of_eq hlength.symm)
      apply hcyclic
      intro s hs
      obtain ⟨hin, hout⟩ := hcycle s hs
      exact hout (hperm.mem_iff.mpr hin)
    refine ⟨⟨message, allSubtasks.filter fun s => inDegree s > 0⟩, ?_, ?_, ?_⟩
    · rw [hsort, if_pos hshort]
    · exact fun s hs => (hblocked s).mpr (hcycle s hs)
    · intro s hs
      obtain ⟨hin, hout⟩ := (hblocked s).mp hs
      refine ⟨hin, ?_⟩
      rw [← hwaits]
      exact hinv.waits_for_cycle hdependency hin hout

theorem kahnSort_pair : ∃ graph, buildGraph ["a", "b"] [("a", "b"), ("a", "b"), ("b", "x")] =
    .ok graph ∧
    (Acyclic (DependsOn ["a", "b"] [("a", "b"), ("a", "b"), ("b", "x")]) →
      ∃ result, kahnSort ["a", "b"] graph "t" = some (.ok result) ∧ result ~ ["a", "b"] ∧
        ∀ s d, DependsOn ["a", "b"] [("a", "b"), ("a", "b"), ("b", "x")] s d → [d, s] <+ result) := by
  obtain ⟨graph, hgraph, hsorted, -⟩ := @kahnSort_correct ["a", "b"]
    [("a", "b"), ("a", "b"), ("b", "x")] (by decide) (by decide) "t"
  exact ⟨graph, hgraph, hsorted⟩

end SummitFlow.SubtaskOrder
