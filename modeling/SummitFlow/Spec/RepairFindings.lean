import Mathlib
import SummitFlow.ForStd.KeepBest
import SummitFlow.Storage.PublicationRepair

/-!
# Recording publication findings

Two questions about `record_finding`: whether a new failure reaches the canonical
repair task, and whether an old success can clear a newer defect.

* `_merge_duplicate_finding` keeps the finding that ranks higher, an open one above
  a resolved one and then by time (`mergeDuplicateFinding_eq`).
* After `_consolidate_duplicates` the project has one open repair task
  (`SoleRepair`), holding the merged findings.
* The compare-and-swap of a failure succeeds iff the finding that was read is the
  one the merge left there, so a failure recorded while unmerged duplicates exist
  is lost exactly when no duplicate is pending and the merge changed the category.
* On one canonical task `record_finding` refines `findingStep`, a machine on the
  single retained finding; along its runs the retained time dominates the time of
  every failure delivered (`Dominates`).
-/

namespace SummitFlow.Repair

variable {J : Type}

/-! ## Merging -/

/-- The time of a finding; an unreadable one ranks lowest. -/
def timeRank (f : Finding J) : WithBot Int := findingTime f

/-- Findings rank by openness, then by time. -/
def findingRank (f : Finding J) : Bool ×ₗ WithBot Int := toLex (f.isOpen, timeRank f)

theorem findingRank_lt_iff {f g : Finding J} :
    findingRank f < findingRank g ↔
      f.isOpen < g.isOpen ∨ f.isOpen = g.isOpen ∧ timeRank f < timeRank g :=
  Prod.Lex.toLex_lt_toLex

theorem timeRank_lt_iff {f g : Finding J} :
    timeRank f < timeRank g ↔ ∃ u, findingTime g = some u ∧ ∀ t ∈ findingTime f, t < u := by
  rw [timeRank, timeRank]
  cases hf : findingTime f with
  | none =>
    cases hg : findingTime g with
    | none => exact iff_of_false (lt_irrefl _) (by simp)
    | some u => exact iff_of_true (WithBot.bot_lt_coe u) ⟨u, rfl, by simp⟩
  | some t =>
    cases hg : findingTime g with
    | none => exact iff_of_false (not_lt_bot (a := ((t : Int) : WithBot Int))) (by simp)
    | some u =>
      refine (WithBot.coe_lt_coe (a := t) (b := u)).trans ?_
      simp

/-- Merging keeps the finding of higher rank, the kept one among equals. -/
theorem mergeDuplicateFinding_eq (kept : Option (Finding J)) (other : Finding J) :
    some (mergeDuplicateFinding kept other) = keepBest findingRank kept other := by
  cases kept with
  | none => rfl
  | some kept =>
    simp only [mergeDuplicateFinding, keepBest, findingRank_lt_iff, timeRank_lt_iff]
    by_cases hopen : kept.isOpen = other.isOpen
    · simp only [hopen, bne_self_eq_false, Bool.false_eq_true, if_false, lt_self_iff_false,
        false_or, true_and]
      cases findingTime kept <;> cases findingTime other <;> simp
      split <;> rfl
    · cases hk : kept.isOpen <;> cases ho : other.isOpen <;> simp_all

/-- The findings of one category in the merged dictionary are the fold of that
    category's findings alone. -/
theorem lookup_mergedFindings (findings : List (String × Finding J)) (duplicates : List (Task J))
    (category : String) :
    (mergedFindings findings duplicates).lookup category =
      (((duplicates.flatMap Task.findings).filter (·.1 == category)).map Prod.snd).foldl
        (keepBest findingRank) (findings.lookup category) := by
  have key : ∀ (entries : List (String × Finding J)) (merged : List (String × Finding J)),
      (entries.foldl (fun merged entry =>
        Dict.set entry.1 (mergeDuplicateFinding (merged.lookup entry.1) entry.2) merged)
          merged).lookup category =
        ((entries.filter (·.1 == category)).map Prod.snd).foldl (keepBest findingRank)
          (merged.lookup category) := by
    intro entries
    induction entries with
    | nil => intro merged; rfl
    | cons entry entries ih =>
      intro merged
      rw [List.foldl_cons, ih, List.filter_cons]
      by_cases h : entry.1 = category
      · subst h
        simp [mergeDuplicateFinding_eq]
      · rw [Dict.lookup_set_of_ne (Ne.symm h)]
        simp [h]
  rw [← key, List.foldl_flatMap]
  rfl

/-! ## The open repair tasks of a project -/

section

variable {table : TaskTable J} {projectId : String}

theorem mem_openRepairs {t : Task J} :
    t ∈ table.openRepairs projectId ↔ t ∈ table.rows ∧ t.isOpenRepair projectId := by
  simp [TaskTable.openRepairs]

theorem nodup_openRepairs (table : TaskTable J) (projectId : String) :
    ((table.openRepairs projectId).map Task.id).Nodup := by
  have hsub : ((table.rows.filter (Task.isOpenRepair projectId)).map Task.id).Nodup :=
    table.nodup.sublist (List.filter_sublist.map _)
  exact (((List.perm_insertionSort _ _).map Task.id).nodup_iff).mpr hsub

/-- Rows with one id are one row. -/
theorem TaskTable.eq_of_id {s t : Task J} (hs : s ∈ table.rows) (ht : t ∈ table.rows)
    (h : s.id = t.id) : s = t :=
  List.inj_on_of_nodup_map table.nodup hs ht h

/-- The duplicates `_consolidate_duplicates` selects are the open repair tasks after
    the canonical one. -/
theorem duplicatesOf_eq {task : Task J} {duplicates : List (Task J)}
    (h : table.openRepairs projectId = task :: duplicates) :
    duplicatesOf table projectId task = duplicates := by
  have hnodup := nodup_openRepairs table projectId
  rw [h, List.map_cons, List.nodup_cons] at hnodup
  rw [duplicatesOf, h, List.filter_cons]
  simp only [bne_self_eq_false, Bool.false_eq_true, if_false, List.filter_eq_self, bne_iff_ne]
  intro t ht heq
  exact hnodup.1 (heq ▸ List.mem_map_of_mem ht)

/-- `task` is the only open repair task of the project. -/
structure SoleRepair (table : TaskTable J) (projectId : String) (task : Task J) : Prop where
  mem : task ∈ table.rows
  isOpen : task.isOpenRepair projectId
  unique : ∀ t ∈ table.rows, t.isOpenRepair projectId → t = task

theorem SoleRepair.getRepairTask {task : Task J} (h : SoleRepair table projectId task) :
    getRepairTask table projectId = some task := by
  have hmem : task ∈ table.openRepairs projectId := mem_openRepairs.mpr ⟨h.mem, h.isOpen⟩
  rw [Repair.getRepairTask]
  cases hl : table.openRepairs projectId with
  | nil => simp [hl] at hmem
  | cons t ts =>
    have ht : t ∈ table.openRepairs projectId := by simp [hl]
    rw [List.head?_cons, h.unique t (mem_openRepairs.mp ht).1 (mem_openRepairs.mp ht).2]

theorem SoleRepair.openRepairs {task : Task J} (h : SoleRepair table projectId task) :
    table.openRepairs projectId = [task] := by
  have hhead := h.getRepairTask
  rw [Repair.getRepairTask] at hhead
  cases hl : table.openRepairs projectId with
  | nil => simp [hl] at hhead
  | cons t ts =>
    obtain rfl : t = task := by simpa [hl] using hhead
    cases ts with
    | nil => rfl
    | cons s ts =>
      have hs : s ∈ table.openRepairs projectId := by simp [hl]
      have hnodup := nodup_openRepairs table projectId
      have heq := h.unique s (mem_openRepairs.mp hs).1 (mem_openRepairs.mp hs).2
      simp [hl, heq] at hnodup

theorem soleRepair_of_openRepairs {task : Task J} (h : table.openRepairs projectId = [task]) :
    SoleRepair table projectId task where
  mem := (mem_openRepairs.mp (h ▸ List.mem_singleton_self task)).1
  isOpen := (mem_openRepairs.mp (h ▸ List.mem_singleton_self task)).2
  unique t ht hopen := by
    have := mem_openRepairs.mpr ⟨ht, hopen⟩
    rwa [h, List.mem_singleton] at this

/-- Rewriting the sole open repair task keeps it sole, as long as it stays open. -/
theorem SoleRepair.update_self {task : Task J} (h : SoleRepair table projectId task)
    {f : Task J → Task J} {hf : ∀ t, (f t).id = t.id} (hopen : (f task).isOpenRepair projectId) :
    SoleRepair (table.update task.id f hf) projectId (f task) where
  mem := List.mem_map.mpr ⟨task, h.mem, by simp⟩
  isOpen := hopen
  unique t ht htopen := by
    obtain ⟨s, hs, rfl⟩ := List.mem_map.mp ht
    by_cases hid : s.id = task.id
    · rw [if_pos hid, table.eq_of_id hs h.mem hid]
    · simp only [if_neg hid] at htopen ⊢
      exact absurd (congrArg Task.id (h.unique s hs htopen)) hid

/-- Rewriting another row keeps the sole open repair task, as long as the rewriting
    opens nothing. -/
theorem SoleRepair.update_other {task : Task J} (h : SoleRepair table projectId task)
    {id : String} (hid : id ≠ task.id) {f : Task J → Task J} {hf : ∀ t, (f t).id = t.id}
    (hclosed : ∀ t, (f t).isOpenRepair projectId → t.isOpenRepair projectId) :
    SoleRepair (table.update id f hf) projectId task where
  mem := List.mem_map.mpr ⟨task, h.mem, by simp [Ne.symm hid]⟩
  isOpen := h.isOpen
  unique t ht htopen := by
    obtain ⟨s, hs, rfl⟩ := List.mem_map.mp ht
    by_cases hs' : s.id = id
    · rw [if_pos hs'] at htopen
      exact absurd (hs'.symm.trans (congrArg Task.id (h.unique s hs (hclosed s htopen)))) hid
    · simp only [if_neg hs'] at htopen ⊢
      exact h.unique s hs htopen

/-- Cancelling other tasks keeps the sole open repair task. -/
theorem SoleRepair.cancelTasks {task : Task J} (h : SoleRepair table projectId task)
    {ids : List String} (hids : task.id ∉ ids) :
    SoleRepair (ids.foldl cancelTask table) projectId task := by
  induction ids generalizing table with
  | nil => exact h
  | cons id ids ih =>
    rw [List.mem_cons, not_or] at hids
    rw [List.foldl_cons]
    refine ih (h.update_other (Ne.symm hids.1) ?_) hids.2
    simp [Task.isOpenRepair]

end

/-! ## Consolidation -/

/-- Rewriting the rows of a list of tasks, one after the other, rewrites each row
    once when the rewriting is idempotent. -/
theorem rows_foldl_update {f : Task J → Task J} {hf : ∀ t, (f t).id = t.id}
    (hidem : ∀ t, f (f t) = f t) (tasks : List (Task J)) (table : TaskTable J) :
    (tasks.foldl (fun table task => table.update task.id f hf) table).rows =
      table.rows.map fun t => if t.id ∈ tasks.map Task.id then f t else t := by
  induction tasks generalizing table with
  | nil => simp
  | cons task tasks ih =>
    rw [List.foldl_cons, ih]
    simp only [TaskTable.update, List.map_map]
    refine List.map_congr_left fun t _ => ?_
    by_cases h₁ : t.id = task.id <;> by_cases h₂ : t.id ∈ tasks.map Task.id <;>
      simp_all

/-- The canonical task after the fold. -/
def consolidated (task : Task J) (duplicates : List (Task J)) : Task J :=
  { task with publicationRepair := some (mergedFindings task.findings duplicates) }

/-- With duplicates, consolidation leaves the canonical task as the only open repair
    task, with the merged findings. -/
theorem consolidateDuplicates_sole {table : TaskTable J} {projectId : String} {task : Task J}
    {duplicates : List (Task J)} (h : table.openRepairs projectId = task :: duplicates)
    (hne : duplicates ≠ []) :
    SoleRepair (consolidateDuplicates table projectId task).1 projectId
      (consolidated task duplicates) := by
  have htask : task ∈ table.rows ∧ task.isOpenRepair projectId :=
    mem_openRepairs.mp (h ▸ List.mem_cons_self)
  have hnodup := nodup_openRepairs table projectId
  rw [h, List.map_cons, List.nodup_cons] at hnodup
  have hempty : duplicates.isEmpty = false := by simpa using hne
  simp only [consolidateDuplicates, duplicatesOf_eq h, hempty, Bool.false_eq_true, if_false]
  set strip : Task J → Task J := fun t =>
    { t with publicationRepair := none, labels := t.labels.filter (· != repairLabel) }
  have hidem : ∀ t, strip (strip t) = strip t := fun t => by simp [strip]
  constructor
  · rw [rows_foldl_update hidem]
    refine List.mem_map.mpr ⟨consolidated task duplicates, ?_, ?_⟩
    · exact List.mem_map.mpr ⟨task, htask.1, by simp [consolidated]⟩
    · exact if_neg hnodup.1
  · exact htask.2
  · rw [rows_foldl_update hidem]
    intro t ht hopen
    obtain ⟨s, hs, rfl⟩ := List.mem_map.mp ht
    obtain ⟨u, hu, rfl⟩ := List.mem_map.mp hs
    by_cases hid : u.id = task.id
    · obtain rfl : u = task := table.eq_of_id hu htask.1 hid
      simp [hnodup.1, consolidated]
    · simp only [if_neg hid] at hopen ⊢
      split at hopen
      · simp [Task.isOpenRepair, strip] at hopen
      · next hdup =>
        -- an open row is the canonical task or one of the duplicates
        have hmem : u ∈ table.openRepairs projectId := mem_openRepairs.mpr ⟨hu, hopen⟩
        rw [h, List.mem_cons] at hmem
        rcases hmem with rfl | hmem
        · exact absurd rfl hid
        · exact absurd (List.mem_map_of_mem hmem) hdup

theorem consolidateDuplicates_cancel {table : TaskTable J} {projectId : String} {task : Task J}
    {duplicates : List (Task J)} (h : table.openRepairs projectId = task :: duplicates) :
    (consolidateDuplicates table projectId task).2 =
      (duplicates.filter (·.status == .pending)).map Task.id := by
  simp only [consolidateDuplicates, duplicatesOf_eq h]
  cases duplicates with
  | nil => rfl
  | cons d ds => rfl

theorem consolidateDuplicates_nil {table : TaskTable J} {projectId : String} {task : Task J}
    (h : table.openRepairs projectId = [task]) :
    consolidateDuplicates table projectId task = (table, []) := by
  simp [consolidateDuplicates, duplicatesOf_eq h]

/-! ## Recording on the sole repair task -/

section

variable [DecidableEq J] {table : TaskTable J} {projectId category : String} {task : Task J}

/-- The compare-and-swap touches neither the label nor the status. -/
theorem Task.swap_isOpenRepair (previous : Option (Finding J)) (finding : Finding J) :
    (task.swap projectId category previous finding).isOpenRepair projectId =
      task.isOpenRepair projectId := by
  unfold Task.swap
  split <;> rfl

/-- What the compare-and-swap leaves on the sole repair task. -/
theorem SoleRepair.swapFinding (h : SoleRepair table projectId task) (category : String)
    (previous : Option (Finding J)) (finding : Finding J) :
    ∃ task', SoleRepair (swapFinding table projectId task.id category previous finding)
        projectId task' ∧ task'.id = task.id ∧
      (task'.finding category =
        if task.finding category = previous then some finding else task.finding category) ∧
      ∀ other, other ≠ category → task'.finding other = task.finding other := by
  have hproject : task.projectId = projectId := by
    have hopen := h.isOpen
    simp only [Task.isOpenRepair, Bool.and_eq_true, beq_iff_eq] at hopen
    exact hopen.1.1.1
  refine ⟨task.swap projectId category previous finding, h.update_self ?_, by simp, ?_, ?_⟩
  · rw [Task.swap_isOpenRepair]
    exact h.isOpen
  · by_cases hprev : task.finding category = previous
    · rw [if_pos hprev, Task.swap, if_pos ⟨hproject, hprev⟩]
      simp [Task.finding, Task.findings]
    · rw [if_neg hprev, Task.swap, if_neg fun hc => hprev hc.2]
  · intro other hother
    rw [Task.swap]
    split
    · exact Dict.lookup_set_of_ne hother finding task.findings
    · rfl

end

/-- The retained finding is absent, without a time, or not newer than `timestamp`. -/
def NotNewer (timestamp : Int) (f : Finding J) : Prop :=
  f.observedAt = none ∨ ∃ t, f.observedAt = some (.aware t) ∧ t ≤ timestamp

/-- A failure that is not older than the finding it meets is never ignored. -/
theorem ignored_failure {env : Env} {category : String} {r : Recording J} {timestamp : Int}
    {previous : Option (Finding J)} (hres : r.resolved = false)
    (hprev : ∀ f, previous = some f → NotNewer timestamp f) :
    ignored env category r timestamp previous = .ok false := by
  cases previous with
  | none => simp [ignored, hres, previousTime, bind, Except.bind, pure, Except.pure]
  | some f =>
    rcases hprev f rfl with ht | ⟨t, ht, hle⟩
    · simp [ignored, hres, previousTime, ht, bind, Except.bind, pure, Except.pure]
    · simp [ignored, hres, previousTime, ht, bind, Except.bind, pure, Except.pure,
        Int.not_lt.mpr hle]

/-! ## New failures -/

/-- The findings of one category that duplicates retain. -/
private theorem mem_categoryFindings {entries : List (String × Finding J)} {category : String}
    {f : Finding J} :
    f ∈ (entries.filter (·.1 == category)).map Prod.snd ↔ (category, f) ∈ entries := by
  simp

/-- A failure ranks above a finding that is not newer, unless that one is open with
    the same time. -/
theorem findingRank_lt_failure_iff {f top : Finding J} {timestamp : Int}
    (hopen : top.isOpen) (htime : findingTime top = some timestamp) (hf : NotNewer timestamp f) :
    findingRank f < findingRank top ↔ ¬ (f.isOpen ∧ findingTime f = some timestamp) := by
  rw [findingRank_lt_iff, timeRank_lt_iff, hopen, htime]
  rcases hf with ht | ⟨t, ht, hle⟩
  · cases f.isOpen <;> simp [findingTime, ht]
  · have ht' : findingTime f = some t := by simp [findingTime, ht]
    cases f.isOpen <;> simp [ht']
    omega

theorem findingRank_le_failure {f top : Finding J} {timestamp : Int}
    (hopen : top.isOpen) (htime : findingTime top = some timestamp) (hf : NotNewer timestamp f) :
    findingRank f ≤ findingRank top := by
  by_contra hlt
  rw [not_le, findingRank_lt_iff, timeRank_lt_iff, hopen, htime] at hlt
  rcases hlt with hlt | ⟨_, u, hu, hlt⟩
  · exact absurd hlt (not_lt.mpr le_top)
  · have hlt : timestamp < u := hlt timestamp rfl
    rcases hf with ht | ⟨t, ht, hle⟩
    · simp [findingTime, ht] at hu
    · obtain rfl : t = u := by simpa [findingTime, ht] using hu
      omega

/-- The fold of the duplicates leaves the canonical finding in place, or ends in the
    failure itself, exactly when one of the last two conditions of `RecordedWhen`
    holds. -/
theorem foldl_category_iff {category : String} {top : Finding J} {timestamp : Int}
    {previous : Option (Finding J)} {entries : List (String × Finding J)}
    (hopen : top.isOpen) (htime : findingTime top = some timestamp)
    (hprev : ∀ f, previous = some f → NotNewer timestamp f)
    (hentries : ∀ f, (category, f) ∈ entries → NotNewer timestamp f) :
    let merged := ((entries.filter (·.1 == category)).map Prod.snd).foldl
      (keepBest findingRank) previous
    (merged = previous ∨ merged = some top) ↔
      (∀ f, (category, f) ∈ entries → some (mergeDuplicateFinding previous f) = previous) ∨
      ((∀ f, previous = some f → ¬ (f.isOpen ∧ findingTime f = some timestamp)) ∧
        ∃ pre post, entries = pre ++ (category, top) :: post ∧
          ∀ f, (category, f) ∈ pre → ¬ (f.isOpen ∧ findingTime f = some timestamp)) := by
  intro merged
  have hkeep : merged = previous ↔
      ∀ f, (category, f) ∈ entries → some (mergeDuplicateFinding previous f) = previous := by
    simp only [merged, foldl_keepBest_eq_self_iff, mem_categoryFindings, mergeDuplicateFinding_eq]
  have hbelow : bestRank findingRank previous < findingRank top ↔
      ∀ f, previous = some f → ¬ (f.isOpen ∧ findingTime f = some timestamp) := by
    cases previous with
    | none => exact iff_of_true (WithBot.bot_lt_coe _) (by simp)
    | some g =>
      refine WithBot.coe_lt_coe.trans ?_
      rw [findingRank_lt_failure_iff hopen htime (hprev g rfl)]
      simp
  by_cases hlt : bestRank findingRank previous < findingRank top
  · rw [hkeep]
    refine or_congr_right ?_
    rw [foldl_keepBest_eq_top_iff hlt fun f hf => findingRank_le_failure hopen htime
      (hentries f (mem_categoryFindings.mp hf))]
    rw [iff_true_intro (hbelow.mp hlt), true_and]
    constructor
    · rintro ⟨pre, post, hsplit, hpre⟩
      obtain ⟨a, b, hab, ha, hb⟩ := List.map_eq_append_iff.mp hsplit
      obtain ⟨e, b', rfl, he, -⟩ := List.map_eq_cons_iff.mp hb
      obtain ⟨l₁, l₂, rfl, hl₁, hl₂⟩ := List.filter_eq_append_iff.mp hab
      obtain ⟨m₁, m₂, rfl, hm₁, he₁, -⟩ := List.filter_eq_cons_iff.mp hl₂
      obtain rfl : e = (category, top) := Prod.ext (by simpa using he₁) he
      refine ⟨l₁ ++ m₁, m₂, by simp, fun f hf => ?_⟩
      rcases List.mem_append.mp hf with hf | hf
      · have hmem : f ∈ pre := ha ▸ hl₁ ▸ mem_categoryFindings.mpr hf
        exact (findingRank_lt_failure_iff hopen htime
          (hentries f (List.mem_append_left _ hf))).mp (hpre f hmem)
      · simpa using hm₁ _ hf
    · rintro ⟨pre, post, rfl, hpre⟩
      refine ⟨(pre.filter (·.1 == category)).map Prod.snd,
        (post.filter (·.1 == category)).map Prod.snd, by simp, fun f hf => ?_⟩
      have hf := mem_categoryFindings.mp hf
      exact (findingRank_lt_failure_iff hopen htime
        (hentries f (List.mem_append_left _ hf))).mpr (hpre f hf)
  · -- the canonical finding already has the highest rank, so nothing replaces it
    have hall : ∀ f, (category, f) ∈ entries →
        some (mergeDuplicateFinding previous f) = previous := by
      intro f hf
      rw [mergeDuplicateFinding_eq]
      refine keepBest_of_not_lt fun hlt' => hlt (hlt'.trans_le ?_)
      exact WithBot.coe_le_coe.mpr (findingRank_le_failure hopen htime (hentries f hf))
    exact iff_of_true (.inl (hkeep.mpr hall)) (.inl hall)

/-- `create_task` of a fresh repair task, when the project has none, makes it sole. -/
theorem createTask_sole {env : Env} {table : TaskTable J} {projectId : String}
    (hnone : table.openRepairs projectId = [])
    (hfresh : env.newId ∉ table.rows.map Task.id) :
    ∃ table', createTask table (newRepairTask env projectId) = .ok table' ∧
      SoleRepair table' projectId (newRepairTask env projectId) := by
  refine ⟨_, dif_neg hfresh, by simp, by simp [newRepairTask, Task.isOpenRepair], ?_⟩
  intro t ht hopen
  rcases List.mem_append.mp ht with ht | ht
  · have hmem := mem_openRepairs.mpr ⟨ht, hopen⟩
    simp [hnone] at hmem
  · exact List.mem_singleton.mp ht

/-- The finding the fold leaves on the canonical task is one that some open repair
    task retained. -/
theorem finding_consolidated {task : Task J} {duplicates : List (Task J)} {category : String}
    {f : Finding J} (h : (consolidated task duplicates).finding category = some f) :
    ∃ t ∈ task :: duplicates, (category, f) ∈ t.findings := by
  have hlookup : (mergedFindings task.findings duplicates).lookup category = some f := h
  rw [lookup_mergedFindings] at hlookup
  rcases mem_of_foldl_keepBest hlookup with hkept | hmem
  · exact ⟨task, List.mem_cons_self, Dict.mem_of_lookup hkept⟩
  · obtain ⟨t, ht, hf⟩ := List.mem_flatMap.mp (mem_categoryFindings.mp hmem)
    exact ⟨t, List.mem_cons_of_mem _ ht, hf⟩

/-- When a failure that is not older than the retained findings of its category
    reaches the canonical task: there is no other open repair task, or one of them is
    pending (the canonical task is then read again after the fold), or the fold
    leaves the canonical finding in place, or a duplicate already retains exactly
    this finding and no older task an open one of the same time. -/
def RecordedWhen (table : TaskTable J) (projectId category : String) (timestamp : Int)
    (finding : Finding J) : Prop :=
  match table.openRepairs projectId with
  | [] => True
  | task :: duplicates =>
    duplicates = [] ∨ (∃ d ∈ duplicates, d.status = .pending) ∨
    (∀ f, (category, f) ∈ duplicates.flatMap Task.findings →
      some (mergeDuplicateFinding (task.finding category) f) = task.finding category) ∨
    ((∀ f, task.finding category = some f → ¬ (f.isOpen ∧ findingTime f = some timestamp)) ∧
      ∃ pre post, duplicates.flatMap Task.findings = pre ++ (category, finding) :: post ∧
        ∀ f, (category, f) ∈ pre → ¬ (f.isOpen ∧ findingTime f = some timestamp))

section

variable [DecidableEq J]

/-- After recording on the sole repair task, the retained finding is the failure
    exactly when the finding read is the one stored, or it was the failure already. -/
theorem recordOn_failure_iff {env : Env} {table : TaskTable J} {projectId : String}
    {stored : Task J} {r : Recording J} {timestamp : Int} (category : String) (task : Task J)
    (ids : List String) (hres : r.resolved = false) (hts : r.timestamp env = .ok timestamp)
    (hsole : SoleRepair table projectId stored) (hid : stored.id = task.id)
    (hids : stored.id ∉ ids)
    (hprev : ∀ f, task.finding category = some f → NotNewer timestamp f) :
    (∃ table', recordOn env table projectId category task r = .ok table' ∧
      ∃ t, getRepairTask (ids.foldl cancelTask table') projectId = some t ∧
        t.finding category = some (r.finding timestamp)) ↔
      stored.finding category = task.finding category ∨
        stored.finding category = some (r.finding timestamp) := by
  have hrec : recordOn env table projectId category task r =
      .ok (swapFinding table projectId stored.id category (task.finding category)
        (r.finding timestamp)) := by
    simp [recordOn, hts, ignored_failure hres hprev, hid, bind, Except.bind, pure, Except.pure]
  obtain ⟨task', hsole', hid', hfinding, -⟩ :=
    hsole.swapFinding category (task.finding category) (r.finding timestamp)
  have hget : getRepairTask (ids.foldl cancelTask _) projectId = some task' :=
    (hsole'.cancelTasks (hid' ▸ hids)).getRepairTask
  constructor
  · rintro ⟨table', htable', t, ht, hf⟩
    obtain rfl := Except.ok.inj (hrec.symm.trans htable')
    obtain rfl := Option.some.inj (hget.symm.trans ht)
    by_cases heq : stored.finding category = task.finding category
    · exact .inl heq
    · rw [hfinding, if_neg heq] at hf
      exact .inr hf
  · intro h
    refine ⟨_, hrec, task', hget, ?_⟩
    rw [hfinding]
    split
    · rfl
    · next hne => exact h.resolve_left hne

/-- `record_finding` on a project with no open repair task creates one and records
    there. -/
theorem recordFinding_of_none {env : Env} {table table' : TaskTable J}
    {projectId category : String} {r : Recording J} (hnone : table.openRepairs projectId = [])
    (hres : r.resolved = false)
    (hcreate : createTask table (newRepairTask env projectId) = .ok table') :
    recordFinding env table projectId category r =
      (recordOn env table' projectId category (newRepairTask env projectId) r).map
        fun table'' => (table'', some env.newId) := by
  simp only [recordFinding, recordFindingTx, getRepairTask, hnone, List.head?_nil, hres, hcreate,
    bind, Except.bind, pure, Except.pure, List.isEmpty_nil, Bool.false_eq_true, if_true, if_false]
  cases recordOn env table' projectId category (newRepairTask env projectId) r <;> rfl

/-- `record_finding` on a project with open repair tasks: the duplicates are folded
    first, and the canonical task is read again only when one of them is to be
    cancelled. -/
theorem recordFinding_of_some {env : Env} {table : TaskTable J} {projectId category : String}
    {r : Recording J} {task reread : Task J} {duplicates : List (Task J)}
    (hopen : table.openRepairs projectId = task :: duplicates)
    (hreread : getRepairTask (consolidateDuplicates table projectId task).1 projectId =
      some reread) :
    let cancel := (duplicates.filter (·.status == .pending)).map Task.id
    recordFinding env table projectId category r =
      (recordOn env (consolidateDuplicates table projectId task).1 projectId category
        (if cancel = [] then task else reread) r).map fun table' =>
          (cancel.foldl cancelTask table',
            some (if cancel = [] then task else reread).id) := by
  intro cancel
  have hcancel : (consolidateDuplicates table projectId task).2 = cancel :=
    consolidateDuplicates_cancel hopen
  have hfound : getRepairTask table projectId = some task := by simp [getRepairTask, hopen]
  simp only [recordFinding, recordFindingTx, hfound, hcancel, hreread, List.isEmpty_iff, bind,
    Except.bind, pure, Except.pure]
  by_cases hnil : cancel = []
  · simp only [hnil, if_true]
    cases recordOn env _ projectId category task r <;> rfl
  · simp only [hnil, if_false]
    cases recordOn env _ projectId category reread r <;> rfl

/-- `record_finding` on the sole repair task has nothing to fold. -/
theorem SoleRepair.recordFinding {env : Env} {table : TaskTable J} {projectId category : String}
    {r : Recording J} {task : Task J} (h : SoleRepair table projectId task) :
    recordFinding env table projectId category r =
      (recordOn env table projectId category task r).map
        fun table' => (table', some task.id) := by
  have hnil := consolidateDuplicates_nil h.openRepairs
  have hreread : Repair.getRepairTask (consolidateDuplicates table projectId task).1 projectId =
      some task := by
    rw [hnil]
    exact h.getRepairTask
  rw [recordFinding_of_some h.openRepairs hreread, hnil]
  rfl

/-- What holds of the answer of a call that ends by pairing its result. -/
private theorem exists_map_ok_iff {α β γ : Type} {x : Except PyError α} {g : α → β} {c : γ}
    {P : β → Prop} :
    (∃ b c', (x.map fun a => (g a, c)) = .ok (b, c') ∧ P b) ↔ ∃ a, x = .ok a ∧ P (g a) := by
  cases x <;> simp [Except.map]

/-- A failure that is not older than any finding retained for its category ends up
    on the canonical repair task exactly under `RecordedWhen`. -/
theorem recordFinding_failure_iff {env : Env} {table : TaskTable J} {projectId category : String}
    {r : Recording J} {timestamp : Int} (hres : r.resolved = false)
    (hts : r.timestamp env = .ok timestamp) (hfresh : env.newId ∉ table.rows.map Task.id)
    (hold : ∀ t ∈ table.openRepairs projectId, ∀ f, (category, f) ∈ t.findings →
      NotNewer timestamp f) :
    (∃ table' id, recordFinding env table projectId category r = .ok (table', id) ∧
      ∃ t, getRepairTask table' projectId = some t ∧
        t.finding category = some (r.finding timestamp)) ↔
      RecordedWhen table projectId category timestamp (r.finding timestamp) := by
  rw [RecordedWhen]
  cases hopen : table.openRepairs projectId with
  | nil =>
    refine iff_of_true ?_ trivial
    obtain ⟨table', hcreate, hsole⟩ := createTask_sole hopen hfresh
    obtain ⟨table'', hrec, hget⟩ := (recordOn_failure_iff category
      (newRepairTask env projectId) [] hres hts hsole rfl (by simp)
      (by simp [newRepairTask, Task.finding, Task.findings])).mpr (.inl rfl)
    refine ⟨table'', some env.newId, ?_, hget⟩
    rw [recordFinding_of_none hopen hres hcreate, hrec]
    rfl
  | cons task duplicates =>
    dsimp only
    rw [hopen] at hold
    have hnodup := nodup_openRepairs table projectId
    rw [hopen, List.map_cons, List.nodup_cons] at hnodup
    have hids : task.id ∉ (duplicates.filter (·.status == .pending)).map Task.id :=
      fun hmem => hnodup.1 ((List.filter_sublist.map _).subset hmem)
    have hprev : ∀ f, task.finding category = some f → NotNewer timestamp f := fun f hf =>
      hold task List.mem_cons_self f (Dict.mem_of_lookup hf)
    have hmerged : ∀ f, (consolidated task duplicates).finding category = some f →
        NotNewer timestamp f := by
      intro f hf
      obtain ⟨t, ht, hmem⟩ := finding_consolidated hf
      exact hold t ht f hmem
    by_cases hdup : duplicates = []
    · subst hdup
      refine iff_of_true ?_ (.inl rfl)
      have hsole := soleRepair_of_openRepairs hopen
      obtain ⟨table', hrec, hget⟩ := (recordOn_failure_iff category task [] hres hts hsole
        rfl (by simp) hprev).mpr (.inl rfl)
      refine ⟨table', some task.id, ?_, hget⟩
      rw [hsole.recordFinding, hrec]
      rfl
    · have hsole := consolidateDuplicates_sole hopen hdup
      rw [recordFinding_of_some hopen hsole.getRepairTask, exists_map_ok_iff]
      by_cases hpending : ∃ d ∈ duplicates, d.status = .pending
      · -- the canonical task is read again, so the swap meets the merged finding
        refine iff_of_true ?_ (.inr (.inl hpending))
        have hne : (duplicates.filter (·.status == .pending)).map Task.id ≠ [] := by
          simpa [List.filter_eq_nil_iff] using hpending
        rw [if_neg hne]
        exact (recordOn_failure_iff category _ _ hres hts hsole rfl hids hmerged).mpr (.inl rfl)
      · -- the swap compares the merged finding with the one read before the fold
        have heq : (duplicates.filter (·.status == .pending)).map Task.id = [] := by
          simpa [List.filter_eq_nil_iff] using hpending
        rw [if_pos heq, recordOn_failure_iff category task _ hres hts hsole rfl hids hprev,
          or_iff_right hdup, or_iff_right hpending]
        have hmerge : (consolidated task duplicates).finding category =
            (((duplicates.flatMap Task.findings).filter (·.1 == category)).map Prod.snd).foldl
              (keepBest findingRank) (task.finding category) :=
          lookup_mergedFindings task.findings duplicates category
        rw [hmerge]
        refine foldl_category_iff ?_ rfl hprev fun f hf => ?_
        · simp [Finding.isOpen, Recording.finding, hres]
        · obtain ⟨d, hd, hmem⟩ := List.mem_flatMap.mp hf
          exact hold d (List.mem_cons_of_mem _ hd) f hmem

end

/-- An unresolved finding observed at `t`. -/
def failureAt (t : Int) : Finding Unit where
  state := some "unresolved"
  observedAt := some (.aware t)
  reason := some "ci_failed"
  sourceCommit := none
  rest := ()
  disposition := none

/-- A repair task of project `p`. -/
def repairTask (id : String) (createdAt : Nat) (status : TaskStatus)
    (findings : Option (List (String × Finding Unit))) : Task Unit where
  id := id
  projectId := "p"
  createdAt := createdAt
  status := status
  labels := [repairLabel]
  publicationRepair := findings

/-- A canonical task without findings, and a later repair task that retains a failure
    observed at 1. -/
def duplicated (status : TaskStatus) : TaskTable Unit where
  rows := [repairTask "task-1" 1 .pending none,
    repairTask "task-2" 2 status (some [("ci", failureAt 1)])]
  nodup := by simp [repairTask]

def quietEnv : Env where
  now := 5
  createdAt := 5
  newId := "task-3"
  git := ⟨none, fun _ => none⟩

/-- A failure observed at `t`. -/
def failure (t : Int) : Recording Unit where
  observation := failureAt t
  resolved := false
  resolutionReasons := none
  retainedReasons := []
  outgoingScanVerified := false

theorem openRepairs_duplicated (status : TaskStatus) (h : status ≠ .completed)
    (h' : status ≠ .cancelled) : (duplicated status).openRepairs "p" = (duplicated status).rows := by
  cases status <;> first | rfl | contradiction

theorem notNewer_duplicated {status : TaskStatus} :
    ∀ t ∈ (duplicated status).rows, ∀ f, ("ci", f) ∈ t.findings → NotNewer 2 f := by
  simp [duplicated, repairTask, Task.findings, NotNewer, failureAt]

/-- With the duplicate running nothing is to be cancelled, so the canonical task is
    not read again: the swap expects no finding, meets the merged one of time 1, and
    the failure of time 2 is dropped. -/
theorem recordFinding_failure_lost :
    (failure 2).resolved = false ∧ (failure 2).timestamp quietEnv = .ok 2 ∧
    quietEnv.newId ∉ (duplicated .running).rows.map Task.id ∧
    (∀ t ∈ (duplicated .running).openRepairs "p", ∀ f, ("ci", f) ∈ t.findings → NotNewer 2 f) ∧
    ¬ ∃ table' id, recordFinding quietEnv (duplicated .running) "p" "ci" (failure 2) =
        .ok (table', id) ∧
      ∃ t, getRepairTask table' "p" = some t ∧ t.finding "ci" = some ((failure 2).finding 2) := by
  refine ⟨rfl, rfl, by decide, ?_, ?_⟩
  · rw [openRepairs_duplicated .running (by decide) (by decide)]
    exact notNewer_duplicated
  · have hstale : (recordFinding quietEnv (duplicated .running) "p" "ci" (failure 2)).toOption.bind
        (fun answer => (getRepairTask answer.1 "p").bind (·.finding "ci")) =
        some (failureAt 1) := by decide
    rintro ⟨table', id, hrec, t, hget, hfinding⟩
    rw [hrec] at hstale
    simp [Except.toOption, hget, hfinding, Recording.finding, failureAt] at hstale

/-- With the duplicate pending the same failure is recorded. -/
theorem recordFinding_failure_recorded :
    ∃ table' id, recordFinding quietEnv (duplicated .pending) "p" "ci" (failure 2) =
        .ok (table', id) ∧
      ∃ t, getRepairTask table' "p" = some t ∧ t.finding "ci" = some ((failure 2).finding 2) := by
  have hopen := openRepairs_duplicated .pending (by decide) (by decide)
  refine (recordFinding_failure_iff rfl rfl (by decide) ?_).mpr ?_
  · rw [hopen]
    exact notNewer_duplicated
  · rw [RecordedWhen, hopen]
    exact .inr (.inl ⟨_, List.mem_singleton_self _, rfl⟩)

/-! ## Delivery in any order -/

section

variable [DecidableEq J]

/-- One `record_finding` call on a project. -/
structure Call (J : Type) where
  env : Env
  category : String
  recording : Recording J

/-- The table after a call; a call that raised changed nothing. -/
def serveStep (projectId : String) (table : TaskTable J) (call : Call J) : TaskTable J :=
  stateOr table (recordFinding call.env table projectId call.category call.recording)

end

/-- What a call makes of the one finding its category retains. -/
def findingStep (previous : Option (Finding J)) (call : Call J) : Option (Finding J) :=
  match call.recording.timestamp call.env with
  | .error _ => previous
  | .ok timestamp =>
    match ignored call.env call.category call.recording timestamp previous with
    | .ok false => some (call.recording.finding timestamp)
    | _ => previous

section

variable [DecidableEq J] {table : TaskTable J} {projectId : String} {task : Task J}

/-- Recording on the sole repair task is one step of the finding of the call's
    category; the other categories keep theirs. -/
theorem SoleRepair.serveStep (h : SoleRepair table projectId task) (category : String)
    (call : Call J) :
    ∃ task', SoleRepair (serveStep projectId table call) projectId task' ∧
      task'.finding category =
        if call.category = category then findingStep (task.finding category) call
        else task.finding category := by
  simp only [Repair.serveStep, h.recordFinding, recordOn, findingStep, bind, Except.bind, pure, Except.pure]
  cases hts : call.recording.timestamp call.env with
  | error e => exact ⟨task, by simpa [Except.map] using h, by simp⟩
  | ok timestamp =>
    dsimp only
    by_cases hcat : call.category = category
    · subst hcat
      rw [if_pos rfl]
      cases hign : ignored call.env call.category call.recording timestamp
          (task.finding call.category) with
      | error e => exact ⟨task, by simpa [Except.map] using h, by simp⟩
      | ok skip =>
        cases skip with
        | true => exact ⟨task, by simpa [Except.map] using h, by simp⟩
        | false =>
          obtain ⟨task', hsole', -, hfinding, -⟩ := h.swapFinding call.category
            (task.finding call.category) (call.recording.finding timestamp)
          exact ⟨task', by simpa [Except.map] using hsole', by simpa using hfinding⟩
    · rw [if_neg hcat]
      cases ignored call.env call.category call.recording timestamp
          (task.finding call.category) with
      | error e => exact ⟨task, by simpa [Except.map] using h, rfl⟩
      | ok skip =>
        cases skip with
        | true => exact ⟨task, by simpa [Except.map] using h, rfl⟩
        | false =>
          obtain ⟨task', hsole', -, -, hother⟩ := h.swapFinding call.category
            (task.finding call.category) (call.recording.finding timestamp)
          exact ⟨task', by simpa [Except.map] using hsole', hother category (Ne.symm hcat)⟩

end

/-! ### The retained time -/

/-- The times `record_finding` can read back: none at all, or an aware one. -/
def Stamped (f : Finding J) : Prop :=
  f.observedAt = none ∨ ∃ t, f.observedAt = some (.aware t)

theorem findingTime_eq_some {f : Finding J} {t : Int} :
    findingTime f = some t ↔ f.observedAt = some (.aware t) := by
  unfold findingTime
  split <;> simp_all

/-- An observation that replaces a finding is not older, and a resolution that
    replaces an open one is newer. -/
theorem not_ignored {env : Env} {category : String} {r : Recording J} {timestamp t : Int}
    {previous : Finding J} (h : ignored env category r timestamp (some previous) = .ok false)
    (ht : findingTime previous = some t) :
    t ≤ timestamp ∧ (r.resolved → previous.isOpen → t < timestamp) := by
  have hprev : previousTime (some previous) = .ok (some t) := by
    simp [previousTime, findingTime_eq_some.mp ht]
  simp only [ignored, hprev, bind, Except.bind, pure, Except.pure, Option.any_some] at h
  split at h
  · simp at h
  split at h
  · simp at h
  split at h
  · simp at h
  · next hnot =>
    rw [not_or, not_lt] at hnot
    refine ⟨hnot.1, fun hres hopen => lt_of_le_of_ne hnot.1 ?_⟩
    rintro rfl
    exact hnot.2 ⟨rfl, hres, hopen⟩

/-- A failure is ignored only when it is older than the retained finding. -/
theorem ignored_failure_older {env : Env} {category : String} {r : Recording J} {timestamp : Int}
    {previous : Option (Finding J)} (hres : r.resolved = false)
    (h : ignored env category r timestamp previous = .ok true) :
    ∃ f t, previous = some f ∧ findingTime f = some t ∧ timestamp < t := by
  cases previous with
  | none => simp [ignored, hres, previousTime, bind, Except.bind, pure, Except.pure] at h
  | some f =>
    cases hat : f.observedAt with
    | none => simp [ignored, hres, previousTime, hat, bind, Except.bind, pure, Except.pure] at h
    | some stamp =>
      cases stamp with
      | aware t =>
        refine ⟨f, t, rfl, findingTime_eq_some.mpr hat, ?_⟩
        by_contra hle
        simp [ignored, hres, previousTime, hat, bind, Except.bind, pure, Except.pure, hle] at h
      | naive => simp [ignored, hres, previousTime, hat, bind, Except.bind] at h
      | malformed => simp [ignored, hres, previousTime, hat, bind, Except.bind] at h

/-- A finding with a readable time never makes a call raise. -/
theorem ignored_ok {previous : Option (Finding J)} (env : Env) (category : String)
    (r : Recording J) (timestamp : Int) (h : ∀ f, previous = some f → Stamped f) :
    ∃ skip, ignored env category r timestamp previous = .ok skip := by
  have hprev : ∃ t, previousTime previous = .ok t := by
    cases previous with
    | none => exact ⟨none, rfl⟩
    | some f =>
      rcases h f rfl with ht | ⟨t, ht⟩
      · exact ⟨none, by simp [previousTime, ht]⟩
      · exact ⟨some t, by simp [previousTime, ht]⟩
  obtain ⟨t, ht⟩ := hprev
  simp only [ignored, ht, bind, Except.bind, pure, Except.pure]
  repeat' split
  all_goals exact ⟨_, rfl⟩

/-- The retained finding of a category after the calls `calls`: its time is one
    `record_finding` can read, and it is not older than any failure delivered, newer
    when the category is resolved. -/
structure Dominates (category : String) (calls : List (Call J)) (retained : Option (Finding J)) :
    Prop where
  stamped : ∀ f, retained = some f → Stamped f
  failures : ∀ call ∈ calls, call.category = category → call.recording.resolved = false →
    ∀ timestamp, call.recording.timestamp call.env = .ok timestamp →
      ∃ f t, retained = some f ∧ findingTime f = some t ∧ timestamp ≤ t ∧
        (f.isOpen = false → timestamp < t)

/-- A call on the category keeps the retained time dominant. -/
theorem Dominates.step {category : String} {calls : List (Call J)}
    {retained : Option (Finding J)} (h : Dominates category calls retained) {call : Call J}
    (hcat : call.category = category) :
    Dominates category (calls ++ [call]) (findingStep retained call) := by
  unfold findingStep
  cases hts : call.recording.timestamp call.env with
  | error e =>
    refine ⟨h.stamped, fun c hc hc' hres t ht => ?_⟩
    rcases List.mem_append.mp hc with hc | hc
    · exact h.failures c hc hc' hres t ht
    · obtain rfl := List.mem_singleton.mp hc
      simp [hts] at ht
  | ok timestamp =>
    obtain ⟨skip, hign⟩ := ignored_ok call.env call.category call.recording timestamp h.stamped
    dsimp only
    rw [hign]
    cases skip with
    | true =>
      refine ⟨h.stamped, fun c hc hc' hres t ht => ?_⟩
      rcases List.mem_append.mp hc with hc | hc
      · exact h.failures c hc hc' hres t ht
      · obtain rfl := List.mem_singleton.mp hc
        obtain rfl : timestamp = t := by simpa [hts] using ht
        obtain ⟨f, u, hf, hu, hlt⟩ := ignored_failure_older hres hign
        exact ⟨f, u, hf, hu, hlt.le, fun _ => hlt⟩
    | false =>
      refine ⟨?_, fun c hc hc' hres t ht => ?_⟩
      · rintro f ⟨⟩
        exact .inr ⟨timestamp, rfl⟩
      refine ⟨_, timestamp, rfl, rfl, ?_⟩
      rcases List.mem_append.mp hc with hc | hc
      · obtain ⟨f, u, hf, hu, hle, hlt⟩ := h.failures c hc hc' hres t ht
        subst hf
        obtain ⟨hle', hlt'⟩ := not_ignored hign hu
        refine ⟨hle.trans hle', fun hclosed => ?_⟩
        -- the new finding is a resolution: it is newer than an open finding, and a
        -- resolved one was already newer than the failure
        have hresolved : call.recording.resolved = true := by
          by_contra hne
          simp [Finding.isOpen, Recording.finding, hne] at hclosed
        by_cases hopen : f.isOpen
        · exact hle.trans_lt (hlt' hresolved hopen)
        · exact (hlt (by simpa using hopen)).trans_le hle'
      · obtain rfl := List.mem_singleton.mp hc
        obtain rfl : timestamp = t := by simpa [hts] using ht
        refine ⟨le_rfl, fun hclosed => ?_⟩
        simp [Finding.isOpen, Recording.finding, hres] at hclosed

/-- A call on another category leaves the category and its obligations alone. -/
theorem Dominates.step_other {category : String} {calls : List (Call J)}
    {retained : Option (Finding J)} (h : Dominates category calls retained) {call : Call J}
    (hcat : call.category ≠ category) : Dominates category (calls ++ [call]) retained := by
  refine ⟨h.stamped, fun c hc hc' => ?_⟩
  rcases List.mem_append.mp hc with hc | hc
  · exact h.failures c hc hc'
  · obtain rfl := List.mem_singleton.mp hc
    exact absurd hc' hcat

section

variable [DecidableEq J]

/-- Along every run of calls on one canonical repair task, the retained finding
    dominates the failures delivered. -/
theorem run_dominates {table : TaskTable J} {projectId category : String} {task : Task J}
    (h : SoleRepair table projectId task)
    (hstamped : ∀ f, task.finding category = some f → Stamped f) (calls : List (Call J)) :
    ∃ task', SoleRepair (run (serveStep projectId) table calls) projectId task' ∧
      Dominates category calls (task'.finding category) := by
  refine run_history (P := fun calls (table : TaskTable J) =>
    ∃ task', SoleRepair table projectId task' ∧ Dominates category calls (task'.finding category))
    ?_ ⟨task, h, hstamped, by simp⟩ calls
  rintro calls table call ⟨task, hsole, hdom⟩
  obtain ⟨task', hsole', hfinding⟩ := hsole.serveStep category call
  refine ⟨task', hsole', hfinding ▸ ?_⟩
  split
  · next hcat => exact hdom.step hcat
  · next hcat => exact hdom.step_other hcat

/-- An old success never clears a newer defect: whatever the order of the calls on
    the sole repair task, and whatever reasons and ancestry answers they came with,
    a category that ends resolved is resolved by a time after every failure
    delivered. -/
theorem resolved_after_failures {table : TaskTable J} {projectId : String} {task : Task J}
    (h : SoleRepair table projectId task) (category : String)
    (hstamped : ∀ f, task.finding category = some f → Stamped f) (calls : List (Call J)) :
    ∃ final, getRepairTask (run (serveStep projectId) table calls) projectId = some final ∧
      ∀ s, final.finding category = some s → s.state = some "resolved" →
        ∀ call ∈ calls, call.category = category → call.recording.resolved = false →
          ∀ timestamp, call.recording.timestamp call.env = .ok timestamp →
            ∃ t, findingTime s = some t ∧ timestamp < t := by
  obtain ⟨final, hsole, hdom⟩ := run_dominates h hstamped calls
  refine ⟨final, hsole.getRepairTask, fun s hs hstate call hcall hcat hres timestamp hts => ?_⟩
  obtain ⟨f, t, hf, ht, -, hlt⟩ := hdom.failures call hcall hcat hres timestamp hts
  obtain rfl : s = f := by simpa [hs] using hf
  exact ⟨t, ht, hlt (by simp [Finding.isOpen, hstate])⟩

end

/-- A failure, a resolution of it from the same source, and the failure once more. -/
def redelivered : List (Call Unit) :=
  let source := some "0123456789abcdef0123456789abcdef01234567"
  let observation (t : Int) : Finding Unit := { failureAt t with sourceCommit := source }
  let failed := { failure 1 with observation := observation 1 }
  let passed := { failure 2 with observation := observation 2, resolved := true }
  [⟨quietEnv, "ci", failed⟩, ⟨quietEnv, "ci", passed⟩, ⟨quietEnv, "ci", failed⟩]

/-- One repair task, no finding yet. -/
def single : TaskTable Unit := ⟨[repairTask "task-1" 1 .pending none], by simp⟩

theorem resolved_after_redelivery :
    ∃ final s, getRepairTask (run (serveStep "p") single redelivered) "p" = some final ∧
      final.finding "ci" = some s ∧ s.state = some "resolved" ∧
      ∀ call ∈ redelivered, call.category = "ci" → call.recording.resolved = false →
        ∀ timestamp, call.recording.timestamp call.env = .ok timestamp →
          ∃ t, findingTime s = some t ∧ timestamp < t := by
  have hsole : SoleRepair single "p" (repairTask "task-1" 1 .pending none) :=
    soleRepair_of_openRepairs rfl
  obtain ⟨final, hfinal, hall⟩ := resolved_after_failures hsole "ci"
    (by simp [repairTask, Task.finding, Task.findings]) redelivered
  have hstate : (getRepairTask (run (serveStep "p") single redelivered) "p").bind
      (fun t => (t.finding "ci").bind (·.state)) = some "resolved" := by decide
  rw [hfinal, Option.bind_some] at hstate
  obtain ⟨s, hs, hstate⟩ := Option.bind_eq_some_iff.mp hstate
  exact ⟨final, s, hfinal, hs, hstate, hall s hs hstate⟩

end SummitFlow.Repair
