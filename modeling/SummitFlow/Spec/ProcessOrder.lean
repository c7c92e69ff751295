import SummitFlow.ForStd.Dict
import SummitFlow.MonitorReader.Processes
import SummitFlow.Spec.ReaderPages

/-!
# The order of the processes of a sample

Whatever the view and the sort, the pages go through the selected processes of a sample
in an order that has each of them once.  The order of a tree is that of its visits.
-/

namespace SummitFlow.Monitor

variable {N : Type}

/-! ## Trees -/

theorem mem_of_mem_childrenOf {parents : List (Nat × Option Nat)} {i j : Nat}
    (h : j ∈ childrenOf parents i) : j ∈ parents.map Prod.fst := by
  obtain ⟨p, hp, rfl⟩ := List.mem_map.mp h
  exact List.mem_map_of_mem (List.mem_of_mem_filter hp)

/-- Each process is the child of one other at most. -/
theorem sum_length_childrenOf_le (parents : List (Nat × Option Nat)) {nodes : List Nat}
    (hnodes : nodes.Nodup) :
    (nodes.map fun i => (childrenOf parents i).length).sum ≤ parents.length := by
  induction parents with
  | nil =>
    show (nodes.map fun _ => 0).sum ≤ 0
    simp
  | cons p parents ih =>
    have hone : (nodes.map fun i => if p.2 = some i then 1 else 0).sum ≤ 1 := by
      clear ih
      induction nodes with
      | nil => exact Nat.zero_le 1
      | cons i nodes ih =>
        obtain ⟨hnew, hnodes⟩ := List.nodup_cons.mp hnodes
        rw [List.map_cons, List.sum_cons]
        by_cases hp : p.2 = some i
        · -- no other node is the parent
          have hzero : (nodes.map fun j => if p.2 = some j then 1 else 0) =
              List.replicate nodes.length 0 := by
            apply List.map_eq_replicate_iff.mpr
            intro j hj
            rw [if_neg]
            intro hj'
            have hij : i = j := Option.some.inj (hp.symm.trans hj')
            exact hnew (hij ▸ hj)
          rw [if_pos hp, hzero, List.sum_replicate]
          exact Nat.le_refl 1
        · rw [if_neg hp, Nat.zero_add]
          exact ih hnodes
    have hcons : ∀ i, (childrenOf (p :: parents) i).length =
        (if p.2 = some i then 1 else 0) + (childrenOf parents i).length := by
      intro i
      unfold childrenOf
      rw [List.filter_cons]
      by_cases hp : p.2 = some i
      · rw [if_pos (beq_iff_eq.mpr hp), if_pos hp, List.map_cons, List.length_cons]
        omega
      · rw [if_neg (fun h => hp (beq_iff_eq.mp h)), if_neg hp, Nat.zero_add]
    simp only [hcons]
    rw [List.sum_map_add, List.length_cons]
    omega

/-- What a visit from one process needs at most. -/
theorem potential_childrenOf_le {parents : List (Nat × Option Nat)}
    (hparents : (parents.map Prod.fst).Nodup) (e : Nat × Nat) (visited : List (Nat × Nat)) :
    DepthFirst.potential (childrenOf parents) (parents.map Prod.fst) [e] visited ≤
      parents.length + 1 := by
  have hsum := sum_length_childrenOf_le parents (hparents.filter (· ∉ visited.map Prod.fst))
  unfold DepthFirst.potential
  rw [List.length_singleton]
  omega

/-- The turns of a visit are enough. -/
theorem visit_turns {parents : List (Nat × Option Nat)} (hparents : (parents.map Prod.fst).Nodup)
    {i : Nat} (hi : i ∈ parents.map Prod.fst) (visited : List (Nat × Nat)) (more : Nat) :
    DepthFirst.visit (childrenOf parents) (parents.length + 1 + more) [(i, 0)] visited =
      DepthFirst.visit (childrenOf parents) (parents.length + 1) [(i, 0)] visited := by
  apply DepthFirst.visit_of_potential hparents
  · intro a _ b hb
    exact mem_of_mem_childrenOf hb
  · intro e he
    obtain rfl := List.mem_singleton.mp he
    exact hi
  · exact potential_childrenOf_le hparents _ visited

/-- Nodes of the tree, each visited once. -/
def Visits (parents : List (Nat × Option Nat)) (visited : List (Nat × Nat)) : Prop :=
  (visited.map Prod.fst).Nodup ∧ ∀ e ∈ visited, e.1 ∈ parents.map Prod.fst

theorem Visits.visit {parents : List (Nat × Option Nat)} {visited : List (Nat × Nat)}
    (h : Visits parents visited) {p : Nat × Option Nat} (hp : p ∈ parents) (turns : Nat) :
    Visits parents (DepthFirst.visit (childrenOf parents) turns [(p.1, 0)] visited) := by
  refine ⟨DepthFirst.nodup_visit h.1, DepthFirst.mem_of_mem_visit ?_ ?_ h.2⟩
  · intro a _ b hb
    exact mem_of_mem_childrenOf hb
  · intro e he
    obtain rfl := List.mem_singleton.mp he
    exact List.mem_map_of_mem hp

/-- The visits from the roots. -/
theorem visits_roots {parents rest : List (Nat × Option Nat)} (hrest : ∀ p ∈ rest, p ∈ parents)
    {visited : List (Nat × Nat)} (h : Visits parents visited) (turns : Nat) :
    Visits parents (rest.foldl (fun visited p => if p.2.isNone then
      DepthFirst.visit (childrenOf parents) turns [(p.1, 0)] visited else visited) visited) := by
  induction rest generalizing visited with
  | nil => exact h
  | cons p rest ih =>
    rw [List.foldl_cons]
    apply ih fun p' hp' => hrest p' (List.mem_cons_of_mem _ hp')
    split
    · exact h.visit (hrest p List.mem_cons_self) turns
    · exact h

/-- The visits from what is left: they leave nothing out. -/
theorem visits_rest {parents rest : List (Nat × Option Nat)} (hrest : ∀ p ∈ rest, p ∈ parents)
    {acc : List (Nat × Nat) × List Nat} (h : Visits parents acc.1) (turns : Nat) :
    let result := rest.foldl (fun acc p => if p.1 ∈ acc.1.map Prod.fst then acc
      else (DepthFirst.visit (childrenOf parents) (turns + 1) [(p.1, 0)] acc.1, acc.2 ++ [p.1])) acc
    Visits parents result.1 ∧ acc.1 <+: result.1 ∧ ∀ p ∈ rest, p.1 ∈ result.1.map Prod.fst := by
  induction rest generalizing acc with
  | nil => exact ⟨h, List.prefix_rfl, nofun⟩
  | cons p rest ih =>
    have hp := hrest p List.mem_cons_self
    have hrest' : ∀ p' ∈ rest, p' ∈ parents := fun p' hp' => hrest p' (List.mem_cons_of_mem _ hp')
    dsimp only
    rw [List.foldl_cons]
    by_cases hold : p.1 ∈ acc.1.map Prod.fst
    · rw [if_pos hold]
      obtain ⟨hvisits, hinitial, hall⟩ := ih hrest' h
      refine ⟨hvisits, hinitial, ?_⟩
      intro p' hp'
      rcases List.mem_cons.mp hp' with rfl | hp'
      · exact (hinitial.map Prod.fst).subset hold
      · exact hall p' hp'
    · rw [if_neg hold]
      have hnext := h.visit hp (turns + 1)
      have hmore : acc.1 <+: DepthFirst.visit (childrenOf parents) (turns + 1) [(p.1, 0)] acc.1 :=
        DepthFirst.visit_extends _ _ _
      have htop : p.1 ∈ (DepthFirst.visit (childrenOf parents) (turns + 1) [(p.1, 0)] acc.1).map _ :=
        DepthFirst.mem_visit_top (Nat.succ_pos turns) (p.1, 0) [] acc.1
      generalize DepthFirst.visit (childrenOf parents) (turns + 1) [(p.1, 0)] acc.1 = visited at *
      obtain ⟨hvisits, hinitial, hall⟩ := @ih hrest' (visited, acc.2 ++ [p.1]) hnext
      refine ⟨hvisits, hmore.trans hinitial, ?_⟩
      intro p' hp'
      rcases List.mem_cons.mp hp' with rfl | hp'
      · exact (hinitial.map Prod.fst).subset htop
      · exact hall p' hp'

/-- The tree has every process once. -/
theorem perm_treeOrder {parents : List (Nat × Option Nat)} (hparents : (parents.map Prod.fst).Nodup) :
    ((treeOrder parents).1.map Prod.fst).Perm (parents.map Prod.fst) := by
  have hroots : Visits parents _ := visits_roots (fun p hp => hp)
    (show Visits parents [] from ⟨List.nodup_nil, nofun⟩) (parents.length + 1)
  obtain ⟨⟨hnodup, hnodes⟩, -, hall⟩ := visits_rest (fun p hp => hp)
    (show Visits parents (_, ([] : List Nat)).1 from hroots) parents.length
  apply (List.perm_ext_iff_of_nodup hnodup hparents).mpr
  intro i
  constructor
  · intro hi
    obtain ⟨e, he, rfl⟩ := List.mem_map.mp hi
    exact hnodes e he
  · intro hi
    obtain ⟨p, hp, rfl⟩ := List.mem_map.mp hi
    exact hall p hp

/-! ## Both views -/

theorem nodup_numbered (processes : List (Json N)) : ((numbered processes).map Prod.fst).Nodup := by
  have hplaces : processes.zipIdx.Pairwise fun a b => a.2 ≠ b.2 := by
    rw [← List.pairwise_map, List.zipIdx_map_snd]
    exact List.nodup_range'
  rw [List.Nodup, List.pairwise_map]
  apply hplaces.filterMap
  rintro ⟨value, i⟩ ⟨value', i'⟩ hne p hp p' hp'
  cases value <;> cases hp
  cases value' <;> cases hp'
  exact hne

theorem nodup_selectProcesses (nums : ProcessNumbers N) (q : ProcessFilters)
    (processes : List (Json N)) : ((selectProcesses nums q processes).map Prod.fst).Nodup :=
  (nodup_numbered processes).sublist (List.filter_sublist.map Prod.fst)

/-- The entries at the places of a permutation, with their places. -/
theorem perm_of_lookup_place {α : Type} {entries : List (Nat × α)}
    (hentries : (entries.map Prod.fst).Nodup) {places : List Nat}
    (h : places.Perm (entries.map Prod.fst)) :
    (places.filterMap fun i => (entries.lookup i).map (Prod.mk i)).Perm entries := by
  have hself : (entries.map Prod.fst).filterMap (fun i => (entries.lookup i).map (Prod.mk i)) =
      entries := by
    rw [List.filterMap_map]
    refine (List.filterMap_congr fun e he => ?_).trans List.filterMap_some
    show (entries.lookup e.1).map (Prod.mk e.1) = some e
    rw [Dict.lookup_of_mem hentries he]
    rfl
  have hperm := h.filterMap fun i => (entries.lookup i).map (Prod.mk i)
  rwa [hself] at hperm

/-- The order of the pages needs the samples before. -/
def ordersByRates (q : ProcessFilters) : Prop := q.view = .list ∧ q.sort ≠ .rss

theorem orderedProcesses_congr (nums : ProcessNumbers N) {q : ProcessFilters}
    (hq : ¬ ordersByRates q) (row : ProcessRow N) (prior prior' : List (Int × Process N))
    (processes : List (Json N)) :
    orderedProcesses nums q row prior processes = orderedProcesses nums q row prior' processes := by
  unfold orderedProcesses
  cases hview : q.view with
  | tree => rfl
  | list =>
    have hsort : q.sort = .rss := by
      by_contra hsort
      exact hq ⟨hview, hsort⟩
    unfold listOrder
    rw [hsort]
    rfl

/-! ## Pages -/

/-- Where an answer with processes comes from. -/
theorem processAnswer_ok {nums : ProcessNumbers N} {q : ProcessFilters} {reading : ProcessReading N}
    {previous : List (ProcessRow N)} {answer : ProcessAnswer N}
    (h : processAnswer nums q reading previous = .ok answer) (hanswer : answer.2.2 ≠ []) :
    ∃ row processes latest prior, reading.row = some row ∧ row.blob = .ok processes ∧
      priorProcesses nums previous = .ok prior ∧
      answer = observedAnswer nums q reading row processes latest prior := by
  have hnone : ∀ coverage code message,
      (.ok (noProcesses coverage code message) : Except PyError (ProcessAnswer N)) ≠ .ok answer := by
    intro coverage code message heq
    exact hanswer (by rw [← Except.ok.inj heq]; rfl)
  unfold processAnswer at h
  cases hrow : reading.row with
  | none =>
    rw [hrow] at h
    exact absurd h (hnone _ _ _)
  | some row =>
    rw [hrow] at h
    dsimp only at h
    split at h
    · exact absurd h (hnone _ _ _)
    obtain ⟨processes, hblob, h⟩ := bind_ok h
    split at h
    · exact absurd h (hnone _ _ _)
    split at h
    · exact absurd h (hnone _ _ _)
    split at h
    · exact absurd h (hnone _ _ _)
    obtain ⟨prior, hprior, h⟩ := bind_ok h
    exact ⟨row, processes, _, prior, rfl, hblob, hprior, (Except.ok.inj h).symm⟩

/-- The candidates of an answer: the processes from the offset on, one more than the page
    can hold, each with the position after it. -/
theorem observedAnswer_candidates (nums : ProcessNumbers N) (q : ProcessFilters)
    (reading : ProcessReading N) (row : ProcessRow N) (processes : List (Json N)) (latest : Int)
    (prior : List (Int × Process N)) {offset : Nat}
    (hoffset : reading.position.elim 0 (·.offset) = offset) :
    let page := ((orderedProcesses nums q row prior processes).drop offset).take (reading.limit + 1)
    let candidates := (observedAnswer nums q reading row processes latest prior).2.2
    candidates.map Prod.fst = page.map (processItem nums q reading.now reading.atNs row prior) ∧
      ∀ (i : Nat) c, candidates[i]? = some c → c.2 = processPosition q row (offset + i + 1) := by
  dsimp only
  unfold observedAnswer
  dsimp only
  rw [hoffset]
  constructor
  · rw [List.map_map]
    conv_rhs => rw [← List.zipIdx_map_fst 0 (List.take _ _), List.map_map]
    rfl
  · intro i c hc
    rw [List.getElem?_map, List.getElem?_zipIdx] at hc
    obtain ⟨p, hp, rfl⟩ := Option.map_eq_some_iff.mp hc
    obtain ⟨process, -, rfl⟩ := Option.map_eq_some_iff.mp hp
    dsimp only
    rw [Nat.zero_add]

/-- A page with processes: those of its sample from the offset on, and a cursor after
    them. -/
theorem finishProcesses_ok {nums : ProcessNumbers N} {size : ProcessPage N → Nat}
    {q : ProcessFilters} {reading : ProcessReading N} {rows : List (ProcessRow N)} {page : ProcessPage N}
    (h : finishProcesses nums size q reading rows = .ok page) (hitems : page.items ≠ []) :
    ∃ row processes prior, reading.row = some row ∧ row.blob = .ok processes ∧
      priorProcesses nums (selectPrevious q row rows) = .ok prior ∧
      page.items = (((orderedProcesses nums q row prior processes).drop
        (reading.position.elim 0 (·.offset))).take page.items.length).map
          (processItem nums q reading.now reading.atNs row prior) ∧
      ∀ cursor, page.nextCursor = some cursor → cursor =
        ⟨q, processPosition q row (reading.position.elim 0 (·.offset) + page.items.length)⟩ := by
  unfold finishProcesses at h
  dsimp only at h
  obtain ⟨answer, hanswer, hpack⟩ := bind_ok h
  obtain ⟨k, hlimit, hk, hpage, hcursor, -⟩ := pack_ok rfl hpack
  have hne : answer.2.2 ≠ [] := by
    intro hnil
    rw [hnil, List.take_nil] at hpage
    exact hitems hpage
  obtain ⟨row, processes, latest, prior, hrow, hblob, hprior, rfl⟩ := processAnswer_ok hanswer hne
  rw [hrow] at hprior
  obtain ⟨hcandidates, hpositions⟩ :=
    observedAnswer_candidates nums q reading row processes latest prior rfl
  have hlength : page.items.length = k := by
    rw [hpage, List.length_map, List.length_take]
    omega
  refine ⟨row, processes, prior, hrow, hblob, hprior, ?_, ?_⟩
  · rw [hlength, hpage, List.map_take, hcandidates, ← List.map_take, List.take_take,
      Nat.min_eq_left (by omega)]
  · intro cursor hnext
    obtain ⟨hpos, hlast⟩ := hcursor cursor hnext
    obtain ⟨last, hget, rfl⟩ := Option.map_eq_some_iff.mp hlast
    have hposition := hpositions (k - 1) last hget
    rw [hlength, hposition, show reading.position.elim 0 (·.offset) + (k - 1) + 1 =
      reading.position.elim 0 (·.offset) + k by omega]

end SummitFlow.Monitor
