import SummitFlow.ForStd.ParentChains
import SummitFlow.Spec.ProcessPages

/-!
# The tree of the processes of a sample

The tree has every selected process once, and a linked process comes after its parent, one
deeper.  The parents of a malformed sample can form cycles.  What no visit from a root comes
to is entered at whichever process is first, and that one is labelled `invalid_cycle`: so
every cycle has a process with this label, but a process that hangs off a cycle gets it too
when it comes before the cycle.
-/

namespace SummitFlow.Monitor

open ParentChains Relation
open scoped List

variable {N : Type}

/-! ## Visits -/

section

variable {parents : List (Nat × Option Nat)} {start : Nat → Prop} {visited : List (Nat × Nat)}

/-- The second process is the linked parent of the first. -/
def Up (parents : List (Nat × Option Nat)) (i j : Nat) : Prop := (i, some j) ∈ parents

theorem mem_childrenOf {i j : Nat} : j ∈ childrenOf parents i ↔ Up parents j i := by
  unfold childrenOf Up
  rw [List.mem_map]
  constructor
  · rintro ⟨⟨k, parent⟩, hp, rfl⟩
    obtain ⟨hmem, hparent⟩ := List.mem_filter.mp hp
    exact beq_iff_eq.mp hparent ▸ hmem
  · intro hmem
    exact ⟨(j, some i), List.mem_filter.mpr ⟨hmem, beq_iff_eq.mpr rfl⟩, rfl⟩

theorem up_unique (hparents : (parents.map Prod.fst).Nodup) : Relator.RightUnique (Up parents) := by
  intro i j k hj hk
  have hsame := List.inj_on_of_nodup_map hparents hj hk rfl
  exact Option.some.inj (congrArg Prod.snd hsame)

/-- Visits from some starts, each of which went to its end. -/
structure Forest (parents : List (Nat × Option Nat)) (start : Nat → Prop)
    (visited : List (Nat × Nat)) : Prop where
  closed : DepthFirst.Closed (childrenOf parents) visited
  nested : DepthFirst.Nested (childrenOf parents) start visited
  sourced : ∀ e ∈ visited, ∃ s, start s ∧ ReflTransGen (Up parents) e.1 s

theorem forest_nil (start : Nat → Prop) : Forest parents start [] where
  closed := fun _ ha => by cases ha
  nested := fun _ he => by cases he
  sourced := fun _ he => by cases he

theorem Forest.mono {start' : Nat → Prop} (h : Forest parents start visited)
    (hstart : ∀ s, start s → start' s) : Forest parents start' visited where
  closed := h.closed
  nested := h.nested.mono hstart
  sourced := by
    intro e he
    obtain ⟨s, hs, hleads⟩ := h.sourced e he
    exact ⟨s, hstart s hs, hleads⟩

/-- Whatever leads to a visited process is visited. -/
theorem Forest.mem_of_leads (h : Forest parents start visited) {i j : Nat}
    (hleads : ReflTransGen (Up parents) i j) (hj : j ∈ visited.map Prod.fst) :
    i ∈ visited.map Prod.fst := by
  induction hleads using ReflTransGen.head_induction_on with
  | refl => exact hj
  | head hstep _ ih => exact h.closed _ ih _ (mem_childrenOf.mpr hstep)

theorem Forest.visit (h : Forest parents start visited) (hparents : (parents.map Prod.fst).Nodup)
    {i : Nat} (hi : i ∈ parents.map Prod.fst) (hstart : start i) :
    Forest parents start
      (DepthFirst.visit (childrenOf parents) (parents.length + 1) [(i, 0)] visited) where
  closed := by
    apply DepthFirst.closed_visit hparents
    · intro a _ b hb
      exact mem_of_mem_childrenOf hb
    · intro e he
      obtain rfl := List.mem_singleton.mp he
      exact hi
    · exact potential_childrenOf_le hparents _ visited
    · exact fun a ha b hb => .inl (h.closed a ha b hb)
  nested := by
    apply DepthFirst.nested_visit _ h.nested
    intro e he
    obtain rfl := List.mem_singleton.mp he
    exact .inl ⟨hstart, rfl⟩
  sourced := by
    apply DepthFirst.mem_of_mem_visit (P := fun a => ∃ s, start s ∧ ReflTransGen (Up parents) a s)
      _ _ h.sourced
    · rintro a ⟨s, hs, hleads⟩ b hb
      exact ⟨s, hs, hleads.head (mem_childrenOf.mp hb)⟩
    · intro e he
      obtain rfl := List.mem_singleton.mp he
      exact ⟨i, hstart, .refl⟩

/-- The process has no linked parent. -/
def Root (parents : List (Nat × Option Nat)) (i : Nat) : Prop := (i, none) ∈ parents

/-- The visits from the roots. -/
theorem forest_roots (hparents : (parents.map Prod.fst).Nodup)
    {rest : List (Nat × Option Nat)} (hrest : ∀ p ∈ rest, p ∈ parents)
    (h : Forest parents (Root parents) visited) :
    let result := rest.foldl (fun visited p => if p.2.isNone then
      DepthFirst.visit (childrenOf parents) (parents.length + 1) [(p.1, 0)] visited else visited) visited
    Forest parents (Root parents) result ∧ visited <+: result ∧
      ∀ p ∈ rest, p.2 = none → p.1 ∈ result.map Prod.fst := by
  induction rest generalizing visited with
  | nil => exact ⟨h, List.prefix_rfl, nofun⟩
  | cons p rest ih =>
    have hp := hrest p List.mem_cons_self
    have hrest' : ∀ p' ∈ rest, p' ∈ parents := fun p' hp' => hrest p' (List.mem_cons_of_mem _ hp')
    dsimp only
    rw [List.foldl_cons]
    by_cases hroot : p.2 = none
    · have hmem : p.1 ∈ parents.map Prod.fst := List.mem_map_of_mem hp
      have hstart : Root parents p.1 := by
        unfold Root
        rw [← hroot]
        exact hp
      rw [hroot, Option.isNone_none, if_pos rfl]
      have htop : p.1 ∈ (DepthFirst.visit (childrenOf parents) (parents.length + 1) [(p.1, 0)]
          visited).map Prod.fst := DepthFirst.mem_visit_top (Nat.succ_pos _) (p.1, 0) [] visited
      obtain ⟨hforest, hinitial, hall⟩ := ih hrest' (h.visit hparents hmem hstart)
      refine ⟨hforest, (DepthFirst.visit_extends _ _ _).trans hinitial, fun p' hp' hnone => ?_⟩
      rcases List.mem_cons.mp hp' with rfl | hp'
      · exact (hinitial.map Prod.fst).subset htop
      · exact hall p' hp' hnone
    · have hsome : ¬ p.2.isNone = true := fun hnone => hroot (Option.isNone_iff_eq_none.mp hnone)
      rw [if_neg hsome]
      obtain ⟨hforest, hinitial, hall⟩ := ih hrest' h
      refine ⟨hforest, hinitial, fun p' hp' hnone => ?_⟩
      rcases List.mem_cons.mp hp' with rfl | hp'
      · exact absurd hnone hroot
      · exact hall p' hp' hnone

theorem not_root_of_up (hparents : (parents.map Prod.fst).Nodup) {i j : Nat}
    (h : Up parents i j) : ¬ Root parents i := by
  intro hroot
  have hsame := List.inj_on_of_nodup_map hparents h hroot rfl
  cases congrArg Prod.snd hsame

/-! ## What is left -/

/-- The walk through what is left has come past these processes, and has entered what it had
    to enter. -/
structure Walked (parents : List (Nat × Option Nat)) (past : List Nat)
    (acc : List (Nat × Nat) × List Nat) : Prop where
  forest : Forest parents (fun s => Root parents s ∨ s ∈ acc.2) acc.1
  roots : ∀ r, Root parents r → r ∈ acc.1.map Prod.fst
  walked : ∀ i ∈ past, i ∈ acc.1.map Prod.fst
  entered : ∀ i, i ∈ acc.2 ↔ Entered (Up parents) past i

section

variable {past : List Nat} {acc : List (Nat × Nat) × List Nat} {i : Nat}

/-- A visited process is not entered. -/
theorem Walked.skip (h : Walked parents past acc) (hparents : (parents.map Prod.fst).Nodup)
    (hnew : i ∉ past) (hvisited : i ∈ acc.1.map Prod.fst) : Walked parents (past ++ [i]) acc where
  forest := h.forest
  roots := h.roots
  walked := by
    intro k hk
    rcases List.mem_append.mp hk with hold | hlast
    · exact h.walked k hold
    · exact List.mem_singleton.mp hlast ▸ hvisited
  entered := by
    intro k
    rw [h.entered, entered_concat hnew]
    refine (or_iff_left ?_).symm
    rintro ⟨rfl, hrootless, hfirst⟩
    obtain ⟨e, he, rfl⟩ := List.mem_map.mp hvisited
    obtain ⟨s, hs, hleads⟩ := h.forest.sourced e he
    rcases hs with hroot | hentered
    · obtain ⟨y, hy⟩ := hrootless s hleads
      exact not_root_of_up hparents hy hroot
    · exact hfirst s ((h.entered s).mp hentered).mem hleads

/-- A process that is not visited yet is entered. -/
theorem Walked.enter (h : Walked parents past acc) (hparents : (parents.map Prod.fst).Nodup)
    (hclosed : ∀ x y, Up parents x y → y ∈ parents.map Prod.fst) (hi : i ∈ parents.map Prod.fst)
    (hnew : i ∉ past) (hvisited : i ∉ acc.1.map Prod.fst) :
    Walked parents (past ++ [i])
      (DepthFirst.visit (childrenOf parents) (parents.length + 1) [(i, 0)] acc.1, acc.2 ++ [i]) where
  forest := by
    apply Forest.visit _ hparents hi (.inr (List.mem_append_right _ (List.mem_singleton_self i)))
    exact h.forest.mono fun s hs => hs.imp id fun hs => List.mem_append_left _ hs
  roots := by
    intro r hr
    exact ((DepthFirst.visit_extends _ _ _).map Prod.fst).subset (h.roots r hr)
  walked := by
    intro k hk
    rcases List.mem_append.mp hk with hold | hlast
    · exact ((DepthFirst.visit_extends _ _ _).map Prod.fst).subset (h.walked k hold)
    · obtain rfl := List.mem_singleton.mp hlast
      exact DepthFirst.mem_visit_top (Nat.succ_pos _) (k, 0) [] acc.1
  entered := by
    intro k
    rw [entered_concat hnew, List.mem_append, h.entered, List.mem_singleton]
    refine or_congr Iff.rfl ⟨?_, fun hk => hk.1⟩
    rintro rfl
    refine ⟨rfl, fun x hx => ?_, fun m hm hleads => ?_⟩
    · -- a root above it would be visited, and it with it
      obtain ⟨⟨y, parent⟩, hy, rfl⟩ := List.mem_map.mp (mem_of_leads hclosed hi hx)
      cases parent with
      | none => exact absurd (h.forest.mem_of_leads hx (h.roots y hy)) hvisited
      | some parent => exact ⟨parent, hy⟩
    · exact hvisited (h.forest.mem_of_leads hleads (h.walked m hm))

end

theorem walked_rest (hparents : (parents.map Prod.fst).Nodup)
    (hclosed : ∀ x y, Up parents x y → y ∈ parents.map Prod.fst)
    {past rest : List (Nat × Option Nat)} (hrest : past ++ rest = parents)
    {acc : List (Nat × Nat) × List Nat} (h : Walked parents (past.map Prod.fst) acc) :
    Walked parents (parents.map Prod.fst) (rest.foldl (fun acc p => if p.1 ∈ acc.1.map Prod.fst
      then acc else (DepthFirst.visit (childrenOf parents) (parents.length + 1) [(p.1, 0)] acc.1,
        acc.2 ++ [p.1])) acc) := by
  induction rest generalizing past acc with
  | nil =>
    rw [List.append_nil] at hrest
    exact hrest ▸ h
  | cons p rest ih =>
    rw [List.foldl_cons]
    have hp : p.1 ∈ parents.map Prod.fst :=
      List.mem_map_of_mem (hrest ▸ List.mem_append_right _ List.mem_cons_self)
    have hnew : p.1 ∉ past.map Prod.fst := by
      rw [← hrest, List.map_append, List.map_cons] at hparents
      intro hold
      exact List.disjoint_of_nodup_append hparents hold List.mem_cons_self
    have hnext : (past ++ [p]) ++ rest = parents := by
      rw [List.append_assoc]
      exact hrest
    apply ih hnext
    rw [List.map_append, List.map_singleton]
    by_cases hvisited : p.1 ∈ acc.1.map Prod.fst
    · rw [if_pos hvisited]
      exact h.skip hparents hnew hvisited
    · rw [if_neg hvisited]
      exact h.enter hparents hclosed hp hnew hvisited

/-- The tree is a forest of visits from the roots and from what it enters. -/
theorem walked_treeOrder (hparents : (parents.map Prod.fst).Nodup)
    (hclosed : ∀ x y, Up parents x y → y ∈ parents.map Prod.fst) :
    Walked parents (parents.map Prod.fst) (treeOrder parents) := by
  obtain ⟨hforest, -, hroots⟩ :=
    forest_roots hparents (fun p hp => hp) (forest_nil (Root parents))
  apply walked_rest hparents hclosed (List.nil_append parents)
  constructor
  · exact hforest.mono fun s hs => .inl hs
  · exact fun r hr => hroots (r, none) hr rfl
  · exact fun i hi => by cases hi
  · intro i
    exact ⟨fun hi => (by cases hi), fun hi => (by cases hi.mem)⟩

end

/-! ## Rows -/

section

variable (nums : ProcessNumbers N) (row : ProcessRow N) (processes : List (Json N))
  (selected : List (Nat × Process N))

/-- The second process is the linked parent of the first: the only process of the sample with
    its `ppid`, which is selected, did not start later and was observed at the same time. -/
def LinkedTo (i j : Nat) : Prop :=
  ∃ process, (i, process) ∈ selected ∧
    (parentLink nums row processes selected process).2.2 = some j

/-- The linked parents of the selected processes. -/
def treeParents : List (Nat × Option Nat) :=
  selected.map fun p => (p.1, (parentLink nums row processes selected p.2).2.2)

/-- What the tree says of the process at a place. -/
def treeMetadata (i depth : Nat) (process : Process N) : TreeMetadata where
  depth := depth
  children := (childrenOf (treeParents nums row processes selected) i).length
  parentLink := if i ∈ (treeOrder (treeParents nums row processes selected)).2 then .invalidCycle
    else (parentLink nums row processes selected process).1
  parentIdentity := (parentLink nums row processes selected process).2.1

/-- The rows of the tree, with the place of each process in the sample. -/
def treeRows : List (Nat × Process N × TreeMetadata) :=
  (treeOrder (treeParents nums row processes selected)).1.filterMap fun (i, depth) =>
    (selected.lookup i).map fun process =>
      (i, process, treeMetadata nums row processes selected i depth process)

theorem treeProcesses_eq_map :
    treeProcesses nums row processes selected =
      (treeRows nums row processes selected).map Prod.snd := by
  unfold treeProcesses treeRows
  dsimp only
  rw [List.map_filterMap, List.map_map]
  have hparents : selected.map ((fun link : Nat × ParentLink × Option (String × Int × Int) × Option Nat =>
      (link.1, link.2.2.2)) ∘ fun p => (p.1, parentLink nums row processes selected p.2)) =
      treeParents nums row processes selected := rfl
  rw [hparents]
  unfold treeMetadata
  generalize treeOrder (treeParents nums row processes selected) = order
  obtain ⟨ordered, cycles⟩ := order
  apply List.filterMap_congr
  rintro ⟨i, depth⟩ -
  dsimp only
  rw [Dict.lookup_map_value (parentLink nums row processes selected) i selected]
  cases selected.lookup i <;> rfl

/-- A process is labelled as linked exactly when it has a linked parent. -/
theorem parentLink_cases (process : Process N) :
    let link := parentLink nums row processes selected process
    (∃ j ∈ selected.map Prod.fst, link.1 = .linked ∧ link.2.2 = some j) ∨
      link.1 ≠ .linked ∧ link.1 ≠ .invalidCycle ∧ link.2.2 = none := by
  dsimp only
  unfold parentLink
  split
  · exact .inr ⟨nofun, nofun, rfl⟩
  split
  · exact .inr ⟨nofun, nofun, rfl⟩
  · split
    · split
      · dsimp only
        split
        · next hmem => exact .inl ⟨_, hmem, rfl, rfl⟩
        · exact .inr ⟨nofun, nofun, rfl⟩
      · exact .inr ⟨nofun, nofun, rfl⟩
    · exact .inr ⟨nofun, nofun, rfl⟩
  · exact .inr ⟨nofun, nofun, rfl⟩

variable {nums row processes selected}

theorem up_treeParents_iff {i j : Nat} :
    Up (treeParents nums row processes selected) i j ↔
      LinkedTo nums row processes selected i j := by
  unfold Up treeParents LinkedTo
  rw [List.mem_map]
  constructor
  · rintro ⟨p, hp, heq⟩
    obtain ⟨rfl, hparent⟩ := Prod.mk.inj heq
    exact ⟨p.2, hp, hparent⟩
  · rintro ⟨process, hp, hparent⟩
    exact ⟨(i, process), hp, Prod.ext rfl hparent⟩

theorem up_treeParents :
    Up (treeParents nums row processes selected) = LinkedTo nums row processes selected := by
  funext i j
  exact propext up_treeParents_iff

theorem treeParents_places :
    (treeParents nums row processes selected).map Prod.fst = selected.map Prod.fst := by
  unfold treeParents
  rw [List.map_map]
  rfl

theorem mem_of_linkedTo {i j : Nat} (h : LinkedTo nums row processes selected i j) :
    j ∈ selected.map Prod.fst := by
  obtain ⟨process, -, hparent⟩ := h
  rcases parentLink_cases nums row processes selected process with ⟨k, hk, -, hsome⟩ | ⟨-, -, hnone⟩
  · exact Option.some.inj (hsome.symm.trans hparent) ▸ hk
  · rw [hnone] at hparent
    cases hparent

theorem mem_treeRows {r : Nat × Process N × TreeMetadata} :
    r ∈ treeRows nums row processes selected ↔
      ∃ depth, (r.1, depth) ∈ (treeOrder (treeParents nums row processes selected)).1 ∧
        selected.lookup r.1 = some r.2.1 ∧
        r.2.2 = treeMetadata nums row processes selected r.1 depth r.2.1 := by
  unfold treeRows
  rw [List.mem_filterMap]
  constructor
  · rintro ⟨⟨i, depth⟩, he, hr⟩
    obtain ⟨process, hprocess, rfl⟩ := Option.map_eq_some_iff.mp hr
    exact ⟨depth, he, hprocess, rfl⟩
  · rintro ⟨depth, he, hprocess, hmetadata⟩
    exact ⟨(r.1, depth), he, Option.map_eq_some_iff.mpr ⟨r.2.1, hprocess,
      Prod.ext rfl (Prod.ext rfl hmetadata.symm)⟩⟩

/-- A row is labelled as a cycle exactly when its process is one that was entered. -/
theorem parentLink_eq_invalidCycle_iff {i depth : Nat} {process : Process N} :
    (treeMetadata nums row processes selected i depth process).parentLink = .invalidCycle ↔
      i ∈ (treeOrder (treeParents nums row processes selected)).2 := by
  unfold treeMetadata
  dsimp only
  split
  · next hentered => exact ⟨fun _ => hentered, fun _ => rfl⟩
  · next hentered =>
    refine iff_of_false (fun heq => ?_) hentered
    rcases parentLink_cases nums row processes selected process with ⟨j, -, hlinked, -⟩ | ⟨-, hne, -⟩
    · rw [hlinked] at heq
      cases heq
    · exact hne heq

/-- A row that is labelled as linked has a linked parent, and was not entered. -/
theorem of_parentLink_eq_linked {i depth : Nat} {process : Process N}
    (h : (treeMetadata nums row processes selected i depth process).parentLink = .linked) :
    i ∉ (treeOrder (treeParents nums row processes selected)).2 ∧
      ∃ j, (parentLink nums row processes selected process).2.2 = some j := by
  unfold treeMetadata at h
  dsimp only at h
  split at h
  · cases h
  · next hentered =>
    rcases parentLink_cases nums row processes selected process with ⟨j, -, -, hj⟩ | ⟨hne, -, -⟩
    · exact ⟨hentered, j, hj⟩
    · exact absurd h hne

section

variable (hselected : (selected.map Prod.fst).Nodup)

include hselected

theorem walked_treeParents :
    Walked (treeParents nums row processes selected) (selected.map Prod.fst)
      (treeOrder (treeParents nums row processes selected)) := by
  have hplaces : (treeParents nums row processes selected).map Prod.fst = selected.map Prod.fst :=
    treeParents_places
  rw [← hplaces]
  apply walked_treeOrder (hplaces ▸ hselected)
  intro x y hxy
  rw [hplaces]
  exact mem_of_linkedTo (up_treeParents_iff.mp hxy)

theorem linkedTo_unique : Relator.RightUnique (LinkedTo nums row processes selected) :=
  up_treeParents ▸ up_unique (treeParents_places ▸ hselected)

theorem entered_iff {i : Nat} :
    i ∈ (treeOrder (treeParents nums row processes selected)).2 ↔
      Entered (LinkedTo nums row processes selected) (selected.map Prod.fst) i :=
  up_treeParents ▸ (walked_treeParents hselected).entered i

/-- Every selected process has a row. -/
theorem exists_row {i : Nat} (hi : i ∈ selected.map Prod.fst) :
    ∃ depth process,
      (i, process, treeMetadata nums row processes selected i depth process) ∈
        treeRows nums row processes selected := by
  obtain ⟨⟨j, depth⟩, he, rfl⟩ := List.mem_map.mp ((walked_treeParents hselected).walked i hi)
  obtain ⟨⟨k, process⟩, hp, rfl⟩ := List.mem_map.mp hi
  exact ⟨depth, process, mem_treeRows.mpr ⟨depth, he, Dict.lookup_of_mem hselected hp, rfl⟩⟩

/-- The tree has every selected process once. -/
theorem perm_treeRows :
    ((treeRows nums row processes selected).map fun r => (r.1, r.2.1)).Perm selected := by
  have hplaces : (treeParents nums row processes selected).map Prod.fst = selected.map Prod.fst :=
    treeParents_places
  have hperm := perm_treeOrder (hplaces ▸ hselected)
  rw [hplaces] at hperm
  have hentries := perm_of_lookup_place hselected hperm
  unfold treeRows
  rw [List.map_filterMap]
  rw [List.filterMap_map] at hentries
  apply List.Perm.trans (List.Perm.of_eq _) hentries
  apply List.filterMap_congr
  rintro ⟨i, depth⟩ -
  show ((selected.lookup i).map _).map _ = (selected.lookup i).map (Prod.mk i)
  cases selected.lookup i <;> rfl

/-- A linked process comes after its parent, one deeper. -/
theorem nested_treeRows {r : Nat × Process N × TreeMetadata}
    (hr : r ∈ treeRows nums row processes selected) (hlinked : r.2.2.parentLink = .linked) :
    ∃ r', [r', r] <+ treeRows nums row processes selected ∧
      LinkedTo nums row processes selected r.1 r'.1 ∧ r.2.2.depth = r'.2.2.depth + 1 := by
  obtain ⟨i, process, metadata⟩ := r
  obtain ⟨depth, he, hprocess, hmetadata⟩ := mem_treeRows.mp hr
  dsimp only at he hprocess hmetadata
  subst hmetadata
  obtain ⟨hentered, j, hj⟩ := of_parentLink_eq_linked hlinked
  have hup : Up (treeParents nums row processes selected) i j :=
    up_treeParents_iff.mpr ⟨process, Dict.mem_of_lookup hprocess, hj⟩
  have hparents : ((treeParents nums row processes selected).map Prod.fst).Nodup :=
    treeParents_places ▸ hselected
  rcases (walked_treeParents hselected).forest.nested _ he with
    ⟨hstart, -⟩ | ⟨⟨k, depth'⟩, hbefore, hchild, hdepth⟩
  · rcases hstart with hroot | hcycle
    · exact absurd hroot (not_root_of_up hparents hup)
    · exact absurd hcycle hentered
  · have hparent := up_treeParents_iff.mp (mem_childrenOf.mp hchild)
    obtain ⟨⟨k', process'⟩, hp', rfl⟩ := List.mem_map.mp (mem_of_linkedTo hparent)
    have hprocess' := Dict.lookup_of_mem hselected hp'
    refine ⟨(k', process', treeMetadata nums row processes selected k' depth' process'),
      ?_, hparent, hdepth⟩
    have hrows := hbefore.filterMap fun (i, depth) => (selected.lookup i).map fun process =>
      (i, process, treeMetadata nums row processes selected i depth process)
    dsimp only [List.filterMap_cons, List.filterMap_nil] at hrows
    rw [hprocess', hprocess] at hrows
    exact hrows

/-- Every cycle has a row that says so. -/
theorem cycle_treeRows {i : Nat} (hi : OnCycle (LinkedTo nums row processes selected) i) :
    ∃ r ∈ treeRows nums row processes selected, r.2.2.parentLink = .invalidCycle ∧
      ReflTransGen (LinkedTo nums row processes selected) i r.1 ∧
      ReflTransGen (LinkedTo nums row processes selected) r.1 i := by
  have hup : Relator.RightUnique (LinkedTo nums row processes selected) := linkedTo_unique hselected
  have hmem : i ∈ selected.map Prod.fst := by
    obtain ⟨j, ⟨process, hp, -⟩, -⟩ := TransGen.head'_iff.mp hi
    exact List.mem_map_of_mem hp
  obtain ⟨x, hx, hleads, -⟩ :=
    exists_entered hselected hmem (rootless_of_leads_to_cycle hup .refl hi)
  obtain ⟨depth, process, hrow⟩ := @exists_row _ nums row processes _ hselected _ hx.mem
  exact ⟨_, hrow, parentLink_eq_invalidCycle_iff.mpr ((entered_iff hselected).mpr hx), hleads,
    leads_back hup hi hleads⟩

/-- Only cycles are labelled so exactly when what hangs off a cycle comes after it. -/
theorem labelled_treeRows_iff :
    (∀ r ∈ treeRows nums row processes selected, r.2.2.parentLink = .invalidCycle →
        OnCycle (LinkedTo nums row processes selected) r.1) ↔
      ∀ i, Entered (LinkedTo nums row processes selected) (selected.map Prod.fst) i →
        OnCycle (LinkedTo nums row processes selected) i := by
  constructor
  · intro hlabelled i hi
    obtain ⟨depth, process, hrow⟩ := @exists_row _ nums row processes _ hselected _ hi.mem
    exact hlabelled _ hrow (parentLink_eq_invalidCycle_iff.mpr ((entered_iff hselected).mpr hi))
  · intro hentered r hr hlabel
    obtain ⟨depth, -, -, hmetadata⟩ := mem_treeRows.mp hr
    rw [hmetadata] at hlabel
    exact hentered _ ((entered_iff hselected).mp (parentLink_eq_invalidCycle_iff.mp hlabel))

end

end

/-! ## What the tree view promises -/

/-- The rows of a tree of the selected processes hide nothing and are in order. -/
structure HonestTree (up : Nat → Nat → Prop) (selected : List (Nat × Process N))
    (rows : List (Nat × Process N × TreeMetadata)) : Prop where
  once : (rows.map fun r => (r.1, r.2.1)).Perm selected
  labelled : ∀ r ∈ rows, r.2.2.parentLink = .invalidCycle → OnCycle up r.1
  cycles : ∀ i, OnCycle up i → ∃ r ∈ rows, r.2.2.parentLink = .invalidCycle ∧
    ReflTransGen up i r.1 ∧ ReflTransGen up r.1 i
  linked : ∀ r ∈ rows, r.2.2.parentLink = .linked →
    ∃ r', [r', r] <+ rows ∧ up r.1 r'.1 ∧ r.2.2.depth = r'.2.2.depth + 1

/-- What hangs off a cycle comes after some process of it. -/
def CyclesFirst (up : Nat → Nat → Prop) (places : List Nat) : Prop :=
  ∀ i ∈ places, ¬ OnCycle up i → ∀ c, ReflTransGen up i c → OnCycle up c →
    ∃ m, [m, i] <+ places ∧ OnCycle up m ∧ ReflTransGen up i m

/-- The tree view keeps what it promises exactly when, in the order of its roots and
    siblings, no process that hangs off a cycle comes before the cycle. -/
theorem tree_honest_iff (nums : ProcessNumbers N) {q : ProcessFilters} (hview : q.view = .tree)
    (row : ProcessRow N) (prior : List (Int × Process N)) (processes : List (Json N)) :
    let selected := siblingOrder nums (selectProcesses nums q processes)
    let rows := treeRows nums row processes selected
    orderedProcesses nums q row prior processes = rows.map (fun r => (r.2.1, some r.2.2)) ∧
      (HonestTree (LinkedTo nums row processes selected) selected rows ↔
        CyclesFirst (LinkedTo nums row processes selected) (selected.map Prod.fst)) := by
  dsimp only
  generalize hsorted : siblingOrder nums (selectProcesses nums q processes) = selected
  have hselected : (selected.map Prod.fst).Nodup := by
    have hsiblings : (siblingOrder nums (selectProcesses nums q processes)).Perm _ :=
      List.perm_insertionSort _ _
    rw [← hsorted]
    exact (hsiblings.map Prod.fst).nodup_iff.mpr (nodup_selectProcesses nums q processes)
  have hlabelled : (∀ r ∈ treeRows nums row processes selected,
      r.2.2.parentLink = .invalidCycle → OnCycle (LinkedTo nums row processes selected) r.1) ↔
        CyclesFirst (LinkedTo nums row processes selected) (selected.map Prod.fst) :=
    (labelled_treeRows_iff hselected).trans
      (entered_onCycle_iff (linkedTo_unique hselected) hselected fun _ _ h => mem_of_linkedTo h)
  constructor
  · unfold orderedProcesses
    rw [hview]
    dsimp only
    rw [hsorted, treeProcesses_eq_map, List.map_map]
    rfl
  · constructor
    · exact fun h => hlabelled.mp h.labelled
    · intro hfirst
      exact ⟨perm_treeRows hselected, hlabelled.mpr hfirst, fun i hi => cycle_treeRows hselected hi,
        fun r hr hlinked => nested_treeRows hselected hr hlinked⟩

/-! ## A cycle with a child -/

def childOf (pid ppid : ℚ) : Json ℚ :=
  .obj [("pid", .num pid), ("ppid", .num ppid), ("start_ticks", .num 1)]

/-- The tree of all processes. -/
def wholeTree : ProcessFilters := ⟨none, none, none, none, .cpu, .tree⟩

/-- The processes of a tree, each with its place. -/
def treeSelection (processes : List (Json ℚ)) : List (Nat × Process ℚ) :=
  siblingOrder exactProcessNumbers (selectProcesses exactProcessNumbers wholeTree processes)

/-- Two processes that are each other's parents, and a child that comes after them. -/
def childLast : List (Json ℚ) := [childOf 2 3, childOf 3 2, childOf 4 2]

/-- The child comes before them. -/
def childFirst : List (Json ℚ) := [childOf 1 2, childOf 2 3, childOf 3 2]

theorem tree_honest_childLast :
    HonestTree (LinkedTo exactProcessNumbers (detailRow 1 0 childLast) childLast (treeSelection childLast))
      (treeSelection childLast)
      (treeRows exactProcessNumbers (detailRow 1 0 childLast) childLast (treeSelection childLast)) := by
  have hparents : treeParents exactProcessNumbers (detailRow 1 0 childLast) childLast
      (treeSelection childLast) = [(0, some 1), (1, some 0), (2, some 0)] := by
    decide +kernel
  have hplaces : (treeSelection childLast).map Prod.fst = [0, 1, 2] := by decide +kernel
  have hlinked : ∀ i j, (i, some j) ∈ [(0, some 1), (1, some 0), (2, some 0)] →
      LinkedTo exactProcessNumbers (detailRow 1 0 childLast) childLast (treeSelection childLast) i j := by
    intro i j h
    exact up_treeParents_iff.mp (by rw [Up, hparents]; exact h)
  have hcycle := TransGen.tail (TransGen.single (hlinked 0 1 (by decide))) (hlinked 1 0 (by decide))
  have hcycle' := TransGen.tail (TransGen.single (hlinked 1 0 (by decide))) (hlinked 0 1 (by decide))
  apply (tree_honest_iff exactProcessNumbers (q := wholeTree) rfl (detailRow 1 0 childLast) []
    childLast).2.mpr
  intro i hi hoff c _ _
  have hcases : i = 0 ∨ i = 1 ∨ i = 2 := by
    have hmem : i ∈ [0, 1, 2] := hplaces ▸ hi
    simpa using hmem
  rcases hcases with rfl | rfl | rfl
  · exact absurd hcycle hoff
  · exact absurd hcycle' hoff
  · refine ⟨0, ?_, hcycle, .single (hlinked 2 0 (by decide))⟩
    show [0, 2] <+ (treeSelection childLast).map Prod.fst
    rw [hplaces]
    decide

/-- The first child is labelled as a cycle, and nothing leads to it. -/
theorem tree_not_honest :
    ¬ ∀ (q : ProcessFilters) (row : ProcessRow ℚ) (processes : List (Json ℚ)), q.view = .tree →
      let selected := siblingOrder exactProcessNumbers (selectProcesses exactProcessNumbers q processes)
      HonestTree (LinkedTo exactProcessNumbers row processes selected) selected
        (treeRows exactProcessNumbers row processes selected) := by
  intro hall
  have hhonest := hall wholeTree (detailRow 1 0 childFirst) childFirst rfl
  have hlabel : (treeRows exactProcessNumbers (detailRow 1 0 childFirst) childFirst
      (treeSelection childFirst)).any (fun r => r.1 == 0 && r.2.2.parentLink == .invalidCycle) = true := by
    decide +kernel
  have hnone : (treeParents exactProcessNumbers (detailRow 1 0 childFirst) childFirst
      (treeSelection childFirst)).all (fun p => p.2 != some 0) = true := by
    decide +kernel
  obtain ⟨r, hr, hcondition⟩ := List.any_eq_true.mp hlabel
  obtain ⟨hplace, hcycle⟩ := Bool.and_eq_true_iff.mp hcondition
  have hon := hhonest.labelled r hr (beq_iff_eq.mp hcycle)
  rw [beq_iff_eq.mp hplace] at hon
  obtain ⟨k, -, hstep⟩ := TransGen.tail'_iff.mp hon
  have hmem := List.all_eq_true.mp hnone (k, some 0) (up_treeParents_iff.mpr hstep)
  exact absurd rfl (bne_iff_ne.mp hmem)

end SummitFlow.Monitor
