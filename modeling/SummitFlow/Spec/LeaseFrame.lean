import Mathlib.Data.List.Nodup
import SummitFlow.Spec.LeaseFence

/-!
# Leases of other sessions

A lease that is live and not the caller's own survives the caller's calls as it is.
The exceptions are the three calls made to remove other sessions' leases: `take`,
`release_task` and `release_mark`; they remove the leases they name and nothing else.

Ids decide which lease a call means, so the ids of a document are taken as distinct.
-/

namespace SummitFlow.Leases

/-- A live lease of the document that is not the caller's. -/
structure Foreign (env : Env) (doc : Doc) (l : Lease) : Prop where
  mem : l ∈ doc.leases
  live : l.isStale env = false
  other : env.owns l = false

variable {env : Env} {doc : Doc} {l : Lease}

theorem Foreign.mem_purgeStale (h : Foreign env doc l) : l ∈ purgeStale env doc.leases :=
  SummitFlow.Leases.mem_purgeStale.mpr ⟨h.mem, h.live⟩

/-- The scope `acquire` refreshes is the caller's own. -/
theorem owns_of_sameScope {globs : List String} (h : sameScope env globs l = true) :
    env.owns l = true := by
  have hagent : l.agentId = env.caller.agentId := by
    simp only [sameScope, Bool.and_eq_true, beq_iff_eq] at h
    exact h.1.1.2
  have hself : l.agentId ∈ env.caller.selfIds := by
    rw [hagent]
    exact List.mem_cons_self
  simp [Env.owns, isMine, hself]

/-- Of two leases with one id only one can be the caller's. -/
theorem Foreign.ne_id (h : Foreign env doc l) (hids : (doc.leases.map Lease.leaseId).Nodup)
    {own : Lease} (hmem : own ∈ doc.leases) (howns : env.owns own = true) :
    l.leaseId ≠ own.leaseId := by
  intro hid
  have heq : l = own := List.inj_on_of_nodup_map hids h.mem hmem hid
  rw [← heq, h.other] at howns
  cases howns

/-! ## Calls that keep every foreign lease -/

/-- The calls that are no business of other sessions' leases. -/
def keepsForeign : Op → Bool
  | .acquire .. | .claim .. | .heartbeat | .release .. | .releasePaths .. | .acquireMark ..
  | .recordWrites _ | .pruneWriters .. | .listActive _ => true
  | .releaseTask _ | .takeDrop .. | .takeAdopt .. | .releaseMark _ => false

theorem Foreign.mem_acquire (h : Foreign env doc l) (globs : List String)
    (taskId projectRoot : Option String) :
    l ∈ (acquire env globs taskId projectRoot doc).1.leases := by
  simp only [acquire]
  split
  · rcases mem_updateFirst_of_mem (f := refreshLease env taskId) h.mem_purgeStale with
      hmem | ⟨hscope, -⟩
    · exact hmem
    · have howns := owns_of_sameScope hscope
      rw [h.other] at howns
      cases howns
  · exact List.mem_append_left _ h.mem_purgeStale

theorem Foreign.mem_release (h : Foreign env doc l) (hids : (doc.leases.map Lease.leaseId).Nodup)
    (glob projectRoot : Option String) : l ∈ (release env glob projectRoot doc).1.leases := by
  cases glob with
  | none => exact List.mem_filter.mpr ⟨h.mem_purgeStale, by simp [h.other]⟩
  | some glob =>
    simp only [release]
    split
    · next hby =>
      -- the id is that of a lease of the caller, so it is not this one's
      obtain ⟨own, hown, hmatch⟩ := List.any_eq_true.mp hby
      simp only [Bool.and_eq_true, beq_iff_eq] at hmatch
      have hne := h.ne_id hids (SummitFlow.Leases.mem_purgeStale.mp hown).1 hmatch.2
      rw [hmatch.1.1] at hne
      exact List.mem_filter.mpr ⟨h.mem_purgeStale, by simpa using hne⟩
    · apply List.mem_filterMap.mpr
      exact ⟨l, h.mem_purgeStale, by simp [releaseGlob, h.other]⟩

/-- A call that keeps foreign leases leaves each of them in the document, unchanged. -/
theorem Foreign.mem_serveStep (h : Foreign env doc l)
    (hids : (doc.leases.map Lease.leaseId).Nodup) {op : Op} (hop : keepsForeign op = true) :
    l ∈ (serveStep doc (env, op)).leases := by
  cases op with
  | acquire globs taskId projectRoot => exact h.mem_acquire globs taskId projectRoot
  | listActive kinds =>
    show l ∈ (if _ then doc else _ : Doc).leases
    split
    · exact h.mem
    · exact h.mem_purgeStale
  | heartbeat => exact List.mem_map.mpr ⟨l, h.mem_purgeStale, by simp [h.other]⟩
  | release glob projectRoot => exact h.mem_release hids glob projectRoot
  | claim path projectRoot =>
    apply mem_claimOwn
    exact List.mem_map.mpr ⟨l, h.mem_purgeStale, by simp [h.other]⟩
  | recordWrites args => exact h.mem_purgeStale
  | pruneWriters root dirty =>
    simp only [serveStep, pruneWriters]
    split
    · exact h.mem
    · exact h.mem
  | releasePaths paths projectRoot =>
    exact List.mem_filter.mpr ⟨h.mem_purgeStale, by simp [h.other]⟩
  | acquireMark root kind purpose =>
    apply List.mem_append_left
    have hmine : isMine env.caller.selfIds (newMark env root kind purpose).anchor l = false :=
      h.other
    exact List.mem_filter.mpr ⟨h.mem_purgeStale, by simp [hmine]⟩
  | releaseTask taskId => cases hop
  | takeDrop path projectRoot => cases hop
  | takeAdopt path leaseId projectRoot => cases hop
  | releaseMark leaseId => cases hop

/-! ## Calls that remove leases of others -/

theorem Foreign.mem_releaseTask (h : Foreign env doc l) (taskId : String) :
    l ∈ (releaseTask env taskId doc).1.leases ↔ ¬ (taskId ≠ "" ∧ l.taskId = some taskId) := by
  unfold releaseTask
  split
  · next hempty => exact iff_of_true h.mem (by simp [hempty])
  · next htask =>
    show l ∈ (purgeStale env doc.leases).filter _ ↔ _
    simp [List.mem_filter, h.mem_purgeStale, htask]

theorem Foreign.mem_releaseMark (h : Foreign env doc l) (leaseId : String) :
    l ∈ (releaseMark env leaseId doc).leases ↔ l.leaseId ≠ leaseId := by
  show l ∈ doc.leases.filter _ ↔ _
  simp [List.mem_filter, h.mem]

theorem Foreign.mem_takeDrop (h : Foreign env doc l) (path : String)
    (projectRoot : Option String) :
    l ∈ (takeDrop env path projectRoot doc).leases ↔
      ¬ (l.kind ≠ .op ∧ l.matchesPath (projectPath path projectRoot) = true) := by
  show l ∈ (purgeStale env doc.leases).filter _ ↔ _
  simp [List.mem_filter, h.mem_purgeStale, h.other, or_iff_not_imp_left]

theorem takeDrop_subset {path : String} {projectRoot : Option String}
    (h : l ∈ (takeDrop env path projectRoot doc).leases) : l ∈ doc.leases :=
  (SummitFlow.Leases.mem_purgeStale.mp (List.mem_filter.mp h).1).1

/-- `acquire` changes the lease it answers with and drops stale ones, no more. -/
theorem mem_acquire_iff {globs : List String} {taskId projectRoot : Option String}
    (hne : l.leaseId ≠ (acquire env globs taskId projectRoot doc).2.leaseId) :
    l ∈ (acquire env globs taskId projectRoot doc).1.leases ↔ l ∈ purgeStale env doc.leases := by
  unfold acquire at hne ⊢
  dsimp only at hne ⊢
  split
  · next own hfind =>
    rw [hfind] at hne
    obtain ⟨pre, post, hsplit, -, -, hupdate⟩ :=
      updateFirst_of_find (refreshLease env taskId) hfind
    have hid : l.leaseId ≠ own.leaseId := hne
    have hown : l ≠ own := fun heq => hid (congrArg Lease.leaseId heq)
    have hrefreshed : l ≠ refreshLease env taskId own := by
      intro heq
      apply hid
      rw [heq]
      rfl
    show l ∈ updateFirst _ _ _ ↔ _
    rw [hupdate, hsplit]
    simp [hown, hrefreshed]
  · next hfind =>
    rw [hfind] at hne
    have hid : l.leaseId ≠ env.newId := hne
    have hnew : l ≠ newLease env (globs.map fun g => projectPath g projectRoot) taskId :=
      fun heq => hid (congrArg Lease.leaseId heq)
    show l ∈ _ ++ [_] ↔ _
    simp [hnew]

/-- The lease `acquire` answers with has a new id or that of a lease of the caller. -/
theorem acquire_leaseId (env : Env) (doc : Doc) (globs : List String)
    (taskId projectRoot : Option String) :
    (acquire env globs taskId projectRoot doc).2.leaseId = env.newId ∨
      ∃ own ∈ doc.leases, env.owns own = true ∧
        (acquire env globs taskId projectRoot doc).2.leaseId = own.leaseId := by
  unfold acquire
  dsimp only
  split
  · next own hfind =>
    have hmem := SummitFlow.Leases.mem_purgeStale.mp (List.mem_of_find?_eq_some hfind)
    exact .inr ⟨own, hmem.1, owns_of_sameScope (List.find?_some hfind), rfl⟩
  · exact .inl rfl

/-- The mark of a takeover is set on the leases with its id alone. -/
theorem mem_takeAdopt {path leaseId : String} {projectRoot : Option String}
    (hne : l.leaseId ≠ leaseId) :
    l ∈ (takeAdopt env path leaseId projectRoot doc).leases ↔ l ∈ doc.leases := by
  show l ∈ doc.leases.map _ ↔ _
  rw [List.mem_map]
  constructor
  · rintro ⟨x, hx, hxl⟩
    split at hxl
    · next hid =>
      rw [← hxl] at hne
      exact absurd hid hne
    · rw [← hxl]
      exact hx
  · intro hmem
    exact ⟨l, hmem, if_neg hne⟩

/-- `take` removes the foreign leases of the path that are no op leases. -/
theorem Foreign.mem_take (h : Foreign env doc l) (hids : (doc.leases.map Lease.leaseId).Nodup)
    {acquired adopt : Env} (hcaller : acquired.caller = env.caller)
    (hlive : l.isStale acquired = false) (hnew : ∀ x ∈ doc.leases, x.leaseId ≠ acquired.newId)
    (path : String) (projectRoot : Option String) :
    l ∈ (take env acquired adopt path projectRoot doc).1.leases ↔
      ¬ (l.kind ≠ .op ∧ l.matchesPath (projectPath path projectRoot) = true) := by
  have hne : l.leaseId ≠ (acquire acquired [projectPath path projectRoot] none none
      (takeDrop env path projectRoot doc)).2.leaseId := by
    rcases acquire_leaseId acquired (takeDrop env path projectRoot doc)
      [projectPath path projectRoot] none none with hid | ⟨own, hown, howns, hid⟩
    · rw [hid]
      exact hnew l h.mem
    · rw [hid]
      have howns' : env.owns own = true := by
        rw [← howns]
        simp only [Env.owns, hcaller]
      exact h.ne_id hids (takeDrop_subset hown) howns'
  calc l ∈ (take env acquired adopt path projectRoot doc).1.leases
      ↔ l ∈ (acquire acquired [projectPath path projectRoot] none none
          (takeDrop env path projectRoot doc)).1.leases := mem_takeAdopt hne
    _ ↔ l ∈ purgeStale acquired (takeDrop env path projectRoot doc).leases := mem_acquire_iff hne
    _ ↔ l ∈ (takeDrop env path projectRoot doc).leases := by
      rw [SummitFlow.Leases.mem_purgeStale]
      exact and_iff_left hlive
    _ ↔ _ := h.mem_takeDrop path projectRoot

/-! ## The frame -/

/-- A live lease of another session survives every call, unchanged, but for a `take` of
    a path it covers, a `release_task` of its task and a `release_mark` of its id; each
    of these removes exactly the leases it names. -/
theorem foreign_lease_frame (env : Env) (doc : Doc) (l : Lease)
    (hids : (doc.leases.map Lease.leaseId).Nodup) (h : Foreign env doc l) :
    (∀ op, keepsForeign op = true → l ∈ (serveStep doc (env, op)).leases) ∧
    (∀ taskId, l ∈ (releaseTask env taskId doc).1.leases ↔
      ¬ (taskId ≠ "" ∧ l.taskId = some taskId)) ∧
    (∀ leaseId, l ∈ (releaseMark env leaseId doc).leases ↔ l.leaseId ≠ leaseId) ∧
    ∀ acquired adopt path projectRoot, acquired.caller = env.caller →
      l.isStale acquired = false → (∀ x ∈ doc.leases, x.leaseId ≠ acquired.newId) →
      (l ∈ (take env acquired adopt path projectRoot doc).1.leases ↔
        ¬ (l.kind ≠ .op ∧ l.matchesPath (projectPath path projectRoot) = true)) := by
  refine ⟨?_, h.mem_releaseTask, h.mem_releaseMark, ?_⟩
  · intro op hop
    exact h.mem_serveStep hids hop
  · intro acquired adopt path projectRoot hcaller hlive hnew
    exact h.mem_take hids hcaller hlive hnew path projectRoot

/-- A lease of agent `a` on a file, in a document with a lease of agent `b`. -/
def sharedDoc : Doc :=
  (acquire (agentEnv "b" "id2" 1) ["/r/y.py"] none none
    (acquire (agentEnv "a" "id1" 0) ["/r/x.py"] none none ⟨[], [], none⟩).1).1

/-- Agent `b` releases everything it has and keeps the lease of `a`; its `take` of the
    file removes it. -/
theorem foreign_lease_frame_release :
    newLease (agentEnv "a" "id1" 0) ["/r/x.py"] none ∈
      (serveStep sharedDoc (agentEnv "b" "id3" 2, .release none none)).leases ∧
    newLease (agentEnv "a" "id1" 0) ["/r/x.py"] none ∉
      (take (agentEnv "b" "id3" 2) (agentEnv "b" "id3" 2) (agentEnv "b" "id3" 2) "/r/x.py" none
        sharedDoc).1.leases := by
  have hframe := foreign_lease_frame (agentEnv "b" "id3" 2) sharedDoc
    (newLease (agentEnv "a" "id1" 0) ["/r/x.py"] none) (by decide)
    ⟨by decide, by decide, by decide⟩
  constructor
  · exact hframe.1 _ rfl
  · have htake := hframe.2.2.2 (agentEnv "b" "id3" 2) (agentEnv "b" "id3" 2) "/r/x.py" none rfl
      (by decide) (by decide)
    rw [htake]
    simp only [not_not]
    decide

end SummitFlow.Leases
