import SummitFlow.Spec.TaskSteps

/-!
# Claims follow the lifecycle

A task that is not running should have no claim: its three claim columns are NULL, so
that a pending, paused or failed task can be claimed at once.  One call breaks this:
a status update from `running` to `pending`, whose SQL clears the columns for every
other status but running.  `claims_released` shows that it is the only one.
-/

namespace SummitFlow.Tasks

open Repair (TaskStatus)

/-- The claim columns are NULL. -/
structure Task.Free (t : Task) : Prop where
  claimedBy : t.claimedBy = none
  claimedAt : t.claimedAt = none
  lockExpiresAt : t.lockExpiresAt = none

/-- A task that does not run is free. -/
def FreeUnlessRunning (t : Task) : Prop := t.status ≠ .running → t.Free

/-- Any worker can claim the task now. -/
def ClaimableAtOnce (t : Task) : Prop :=
  ∀ now workerId minutes, ∃ t', claimTask now workerId minutes false t = some t' ∧
    t'.status = .running ∧ t'.claimedBy = some workerId

/-- A status update that takes a claimed running task to `pending`. -/
def leaksClaim (t : Task) (call : Int × Op) : Prop :=
  match call.2 with
  | .updateTaskStatus _ args =>
    args.status = "pending" ∧ args.expectedWorker = none ∧
      args.expectedCloseoutRequestId = none ∧ t.status = .running ∧ ¬ t.Free
  | _ => False

variable {t t' : Task} {now : Int}

theorem free_unclaimed (t : Task) : t.unclaimed.Free := ⟨rfl, rfl, rfl⟩

theorem FreeUnlessRunning.of_running (h : t.status = .running) : FreeUnlessRunning t :=
  fun hne => absurd h hne

/-- A free task can be claimed whenever its status is claimable. -/
theorem claimableAtOnce_of_free (hfree : t.Free) (hstatus : t.status ∈ claimableStatuses) :
    ClaimableAtOnce t := by
  intro now workerId minutes
  have hrunning : t.status ≠ .running := by
    intro heq
    rw [heq] at hstatus
    exact absurd hstatus (by decide)
  have hlock : hasValidLock now t = false := by simp [hasValidLock, hfree.claimedBy]
  refine ⟨claimed now workerId minutes t, ?_, rfl, rfl⟩
  simp [claimTask, hrunning, hstatus, hlock]

/-! ## Status updates -/

theorem statusName_injective {s s' : TaskStatus} (h : statusName s = statusName s') : s = s' := by
  cases s <;> cases s' <;> first | rfl | (exact absurd h (by decide))

/-- The only status that neither clears the claim nor runs is `pending`. -/
theorem eq_pending {status : TaskStatus} (hclears : clearsClaim status = false)
    (hrunning : status ≠ .running) : status = .pending := by
  cases status <;> first | rfl | (exact absurd rfl hrunning) | cases hclears

theorem free_updateSql {status : TaskStatus} {errorMessage : Option String}
    (h : clearsClaim status = true) : (updateSql now status errorMessage t).Free :=
  ⟨if_pos h, if_pos h, if_pos h⟩

theorem free_updateSql_iff {status : TaskStatus} {errorMessage : Option String}
    (h : clearsClaim status = false) : (updateSql now status errorMessage t).Free ↔ t.Free := by
  constructor
  · intro hfree
    have hby := hfree.claimedBy
    have hat := hfree.claimedAt
    have hlock := hfree.lockExpiresAt
    simp only [updateSql, h, Bool.false_eq_true, if_false] at hby hat hlock
    exact ⟨hby, hat, hlock⟩
  · intro hfree
    exact ⟨by simp [updateSql, h, hfree.claimedBy], by simp [updateSql, h, hfree.claimedAt],
      by simp [updateSql, h, hfree.lockExpiresAt]⟩

/-- An update of a running task to `pending` passes its guards when no owned claim and
    no closeout request is expected. -/
theorem updateTaskStatus_pending {facts : Facts} {args : StatusArgs}
    (hstatus : args.status = "pending") (hworker : args.expectedWorker = none)
    (hrequest : args.expectedCloseoutRequestId = none) (hrunning : t.status = .running) :
    updateTaskStatus now facts args t = .ok (updateSql now .pending args.errorMessage t) := by
  have hfind : validStatuses.find? (fun s => statusName s == args.status) = some .pending := by
    rw [hstatus]
    rfl
  have hcheck : checkTransition t.status .pending = .ok () := by
    rw [hrunning]
    rfl
  have howned : checkOwned now facts args .pending t = .ok () := by simp [checkOwned, hworker]
  have hcloseout : checkCloseout args .pending t = .ok () := by simp [checkCloseout, hrequest]
  have hterminal : checkTerminal facts .pending = .ok () := by simp [checkTerminal]
  simp only [updateTaskStatus, hfind, howned, hterminal, hcloseout, hcheck, bind, Except.bind]
  split <;> rfl

/-- An update to `pending` for an owned claim or a closeout request is refused. -/
theorem updateTaskStatus_pending_ok {facts : Facts} {args : StatusArgs}
    (hstatus : args.status = "pending") (h : updateTaskStatus now facts args t = .ok t') :
    args.expectedWorker = none ∧ args.expectedCloseoutRequestId = none := by
  have hfind : validStatuses.find? (fun s => statusName s == args.status) = some .pending := by
    rw [hstatus]
    rfl
  simp only [updateTaskStatus, hfind, bind, Except.bind] at h
  constructor
  · cases hworker : args.expectedWorker with
    | none => rfl
    | some worker => simp [checkOwned, hworker] at h
  · cases hrequest : args.expectedCloseoutRequestId with
    | none => rfl
    | some requestId =>
      simp only [checkCloseout, hrequest] at h
      split at h
      · cases h
      · split at h
        · cases h
        · simp at h

theorem updateTaskStatus_freeUnlessRunning {facts : Facts} {args : StatusArgs}
    (h : FreeUnlessRunning t) (hok : updateTaskStatus now facts args t = .ok t') :
    FreeUnlessRunning t' ↔ ¬ leaksClaim t (now, .updateTaskStatus facts args) := by
  obtain ⟨status, hname, rfl⟩ := updateTaskStatus_cases hok
  by_cases hrunning : status = .running
  · refine iff_of_true (.of_running hrunning) ?_
    rintro ⟨hpending, -⟩
    rw [← hname, hrunning] at hpending
    exact absurd hpending (by decide)
  · cases hclears : clearsClaim status with
    | true =>
      refine iff_of_true (fun _ => free_updateSql hclears) ?_
      rintro ⟨hpending, -⟩
      have heq : status = .pending := statusName_injective (hname.trans hpending)
      rw [heq] at hclears
      cases hclears
    | false =>
      obtain rfl := eq_pending hclears hrunning
      obtain ⟨hworker, hrequest⟩ := updateTaskStatus_pending_ok hname.symm hok
      have hiff : FreeUnlessRunning (updateSql now .pending args.errorMessage t) ↔ t.Free :=
        ⟨fun hfree => (free_updateSql_iff hclears).mp (hfree hrunning),
          fun hfree _ => (free_updateSql_iff hclears).mpr hfree⟩
      rw [hiff]
      constructor
      · rintro hfree ⟨-, -, -, -, hnot⟩
        exact hnot hfree
      · intro hleak
        by_cases hstatus : t.status = .running
        · by_contra hnot
          exact hleak ⟨hname.symm, hworker, hrequest, hstatus, hnot⟩
        · exact h hstatus

/-! ## Every call -/

theorem freeUnlessRunning_written {call : Int × Op} (h : FreeUnlessRunning t)
    (hwritten : written t call = some t') :
    FreeUnlessRunning t' ↔ ¬ leaksClaim t call := by
  obtain ⟨now, op⟩ := call
  -- a call that merges entries leaves status and claim alone
  have hentries : ∀ entries, entriesOf op = some entries → FreeUnlessRunning t' := by
    intro entries hop
    rw [written_of_entriesOf hop hwritten]
    exact fun hstatus => ⟨(h hstatus).claimedBy, (h hstatus).claimedAt, (h hstatus).lockExpiresAt⟩
  cases op with
  | claimTask workerId minutes renewOnly =>
    refine iff_of_true ?_ not_false
    rcases claimTask_cases hwritten with ⟨hrunning, rfl⟩ | ⟨-, rfl⟩
    · exact .of_running hrunning
    · exact .of_running rfl
  | renewTaskClaim expectedWorkerId minutes =>
    refine iff_of_true ?_ not_false
    obtain ⟨hrunning, rfl⟩ := renewTaskClaim_cases hwritten
    exact .of_running hrunning
  | releaseTask expectedWorkerId =>
    refine iff_of_true ?_ not_false
    rw [releaseTask_cases hwritten]
    exact fun _ => ⟨rfl, rfl, rfl⟩
  | resetExpiredClaims =>
    refine iff_of_true ?_ not_false
    rw [resetExpiredClaims_cases hwritten]
    exact fun _ => ⟨rfl, rfl, rfl⟩
  | releaseCloseoutClaim projectId requestId =>
    refine iff_of_true ?_ not_false
    rw [releaseCloseoutClaim_cases hwritten]
    exact fun _ => ⟨rfl, rfl, rfl⟩
  | updateTaskStatus facts args =>
    exact updateTaskStatus_freeUnlessRunning h (of_toOption hwritten)
  | addCommit args =>
    refine iff_of_true ?_ not_false
    rw [addCommit_cases hwritten]
    exact fun hstatus => ⟨(h hstatus).claimedBy, (h hstatus).claimedAt, (h hstatus).lockExpiresAt⟩
  | storeCloseout args => exact iff_of_true (hentries _ rfl) not_false
  | storeVerification projectId receipts => exact iff_of_true (hentries _ rfl) not_false
  | storeExecutionVerification projectId facts => exact iff_of_true (hentries _ rfl) not_false
  | storeOwnedVerification args => exact iff_of_true (hentries _ rfl) not_false
  | storeOwnedAcceptance projectId receipt worker claimedAt expected =>
    exact iff_of_true (hentries _ rfl) not_false

/-- A leaking update is accepted. -/
theorem written_of_leaksClaim {call : Int × Op} (h : leaksClaim t call) :
    (written t call).isSome := by
  obtain ⟨now, op⟩ := call
  cases op with
  | updateTaskStatus facts args =>
    obtain ⟨hstatus, hworker, hrequest, hrunning, -⟩ := h
    have hok : updateTaskStatus now facts args t =
        .ok (updateSql now .pending args.errorMessage t) :=
      updateTaskStatus_pending hstatus hworker hrequest hrunning
    simp [written, hok, Except.toOption]
  | _ => cases h

theorem freeUnlessRunning_serveStep (h : FreeUnlessRunning t) (call : Int × Op) :
    FreeUnlessRunning (serveStep t call) ↔ ¬ leaksClaim t call := by
  unfold serveStep
  cases hwritten : written t call with
  | some t' => exact freeUnlessRunning_written h hwritten
  | none =>
    refine iff_of_true h ?_
    intro hleak
    have hsome := written_of_leaksClaim hleak
    rw [hwritten] at hsome
    cases hsome

/-- Claims are released with the lifecycle in exactly the runs in which no status
    update takes a claimed running task to `pending`: throughout such a run a task that
    does not run has its claim columns NULL, and a pending, paused or failed task can be
    claimed at once by any worker. -/
theorem claims_released (t : Task) (h : FreeUnlessRunning t) (calls : List (Int × Op)) :
    Along serveStep (fun t call => ¬ leaksClaim t call) t calls ↔
      ∀ served, served <+: calls → FreeUnlessRunning (run serveStep t served) ∧
        ((run serveStep t served).status ∈ claimableStatuses →
          ClaimableAtOnce (run serveStep t served)) := by
  rw [along_iff_invariant (P := FreeUnlessRunning) (fun t call ht => freeUnlessRunning_serveStep ht call) h]
  constructor
  · intro hall served hserved
    have hfree := hall served hserved
    refine ⟨hfree, ?_⟩
    intro hstatus
    have hrunning : (run serveStep t served).status ≠ .running := by
      intro heq
      rw [heq] at hstatus
      exact absurd hstatus (by decide)
    exact claimableAtOnce_of_free (hfree hrunning) hstatus
  · intro hall served hserved
    exact (hall served hserved).1

/-- A task as it is created. -/
def newTask : Task where
  projectId := "p"
  status := .pending
  claimedBy := none
  claimedAt := none
  lockExpiresAt := none
  startedAt := none
  completedAt := none
  updatedAt := 0
  errorMessage := none
  currentPhase := some "plan"
  verificationResult := none
  commits := some []
  mergeSha := none

/-- An update to a status with no expectations, which finds nothing against it. -/
def plainUpdate (status : String) : Op :=
  .updateTaskStatus ⟨[], false, [], fun _ => "[]"⟩ ⟨status, none, true, none, none, none, none⟩

/-- A claimed task that is paused is free, and another worker claims it. -/
theorem claims_released_pause :
    (run serveStep newTask [(1, .claimTask "w1" 30 false), (2, plainUpdate "paused")]).Free ∧
      ClaimableAtOnce
        (run serveStep newTask [(1, .claimTask "w1" 30 false), (2, plainUpdate "paused")]) := by
  have hall := (claims_released newTask (fun _ => ⟨rfl, rfl, rfl⟩)
    [(1, .claimTask "w1" 30 false), (2, plainUpdate "paused")]).mp
    ⟨not_false, by simp [leaksClaim, plainUpdate], trivial⟩
  have hend := hall _ (List.prefix_refl _)
  exact ⟨hend.1 (by decide), hend.2 (by decide)⟩

/-- A claimed task that is put back to `pending` keeps the claim and its lock, and
    neither another worker nor the previous one can claim it before the lock expires. -/
theorem claim_kept_in_pending :
    (run serveStep newTask [(1, .claimTask "w1" 30 false), (2, plainUpdate "pending")]).status =
        .pending ∧
      (run serveStep newTask
        [(1, .claimTask "w1" 30 false), (2, plainUpdate "pending")]).claimedBy = some "w1" ∧
      claimTask 3 "w2" 30 false (run serveStep newTask
        [(1, .claimTask "w1" 30 false), (2, plainUpdate "pending")]) = none ∧
      claimTask 3 "w1" 30 false (run serveStep newTask
        [(1, .claimTask "w1" 30 false), (2, plainUpdate "pending")]) = none := by
  decide

end SummitFlow.Tasks
