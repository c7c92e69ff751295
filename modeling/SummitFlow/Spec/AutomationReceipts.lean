import SummitFlow.Storage.AutomationDispatches

/-!
# Life of an automation receipt

Every storage call changes the receipt of a run in one of the ways `RowStep`
lists, and only if its WHERE clause selected the row (`serveStep_row`).  All
invariants below are case analyses over those ways:

* a terminal status never changes;
* a running receipt keeps its worker, and only that worker's `finish` or `wait`
  gets through;
* once a cancel control is in the history, the run stays on its way to
  cancellation until it ends, and never ends failed or skipped (`CancelKept`);
* a pending or queued receipt without a control was never claimed
  (`Unclaimed`), which is what lets a queued cancellation settle it.
-/

namespace SummitFlow.Automation

variable {J : Type}

/-! ## What one call does to one receipt -/

/-- The ways a call at time `now` rewrites the receipt of run `r`. -/
inductive RowStep (r : String) (now : Nat) (row : Receipt J) : Op J → Receipt J → Prop where
  | queued (h : row.status = .pending) :
      RowStep r now row (.markQueued r) { row with status := .queued, updatedAt := now }
  | deferred (h : row.status = .pending) :
      RowStep r now row (.defer r) { row with updatedAt := now }
  | reported (h : row.status.terminal) :
      RowStep r now row (.completionReported r)
        { row with completionReportedAt := some now, updatedAt := now }
  | claimed (worker : String) (h : row.claimable worker) :
      RowStep r now row (.claim r worker)
        { row with status := .running, workerRunId := some worker, updatedAt := now }
  | finished (worker : String) (status : Status) (result : Option (RunResult J))
      (error : Option String) (hterm : status.terminal) (hrun : row.status = .running)
      (hown : row.workerRunId = some worker) :
      RowStep r now row (.finish r worker status result error)
        (row.finish worker status result error now)
  | waited (worker : String) (result : RunResult J) (hrun : row.status = .running)
      (hown : row.workerRunId = some worker) :
      RowStep r now row (.wait r worker result) (row.wait result now)
  | controlled (c : Control J) (id : String) (hid : c.idempotencyKey = some id)
      (hnew : row.controlHistory.lookup id = none) (row' : Receipt J)
      (h : applyControl row id c now = .ok row') :
      RowStep r now row (.control r c) row'

section

variable [DecidableEq J]

/-- A call that names another run leaves the receipt of `r` alone. -/
theorem serveStep_of_ne {table : Table J} {r : String} {op : Op J} (hr : op.runId ≠ r)
    (now : Nat) : serveStep table (now, op) r = table r := by
  have hupd : ∀ (v : Option (Receipt J)), Function.update table op.runId v r = table r :=
    fun v => Function.update_of_ne (Ne.symm hr) v table
  cases op with
  | createOrGet payload owner =>
    simp only [Op.runId] at hupd
    simp only [serveStep, Op.serve, createOrGetAutomationRun]
    cases table payload.runId <;> simp only <;> split <;> simp [Except.map, hupd]
  | control runId c =>
    simp only [Op.runId] at hupd
    simp only [serveStep, Op.serve, requestBrowserWorkflowControl]
    split
    · rfl
    · split
      · rfl
      · split
        · rfl
        · split
          · rfl
          · split
            · split <;> rfl
            · next receipt _ _ _ _ =>
              cases applyControl receipt _ c now <;> simp [bind, Except.bind, Except.map, hupd]
  | _ =>
    simp only [Op.runId] at hupd
    simp only [serveStep, Op.serve, markAutomationRunQueued, claimAutomationRun,
      finishAutomationRun, waitAutomationRun, deferPendingAutomationRun,
      markAutomationCompletionReported]
    repeat' split
    all_goals simp [Except.map, hupd]

/-- A stored receipt stays as it is or takes one of the `RowStep`s of the call. -/
theorem serveStep_row {table : Table J} {r : String} {row : Receipt J} (h : table r = some row)
    (now : Nat) (op : Op J) :
    serveStep table (now, op) r = some row ∨
      ∃ row', RowStep r now row op row' ∧ serveStep table (now, op) r = some row' := by
  by_cases hr : op.runId = r
  swap
  · exact .inl ((serveStep_of_ne hr now).trans h)
  cases op with
  | createOrGet payload owner =>
    left
    obtain rfl : payload.runId = r := hr
    simp only [serveStep, Op.serve, createOrGetAutomationRun, h]
    split <;> simp [Except.map, h]
  | markQueued runId =>
    obtain rfl : runId = r := hr
    simp only [serveStep, Op.serve, markAutomationRunQueued, h]
    split
    · next hp => exact .inr ⟨_, .queued hp, by simp [Except.map]⟩
    · exact .inl (by simp [Except.map, h])
  | claim runId worker =>
    obtain rfl : runId = r := hr
    simp only [serveStep, Op.serve, claimAutomationRun, h]
    split
    · next hc => exact .inr ⟨_, .claimed worker hc, by simp⟩
    · exact .inl (by simp [h])
  | finish runId worker status result error =>
    obtain rfl : runId = r := hr
    simp only [serveStep, Op.serve, finishAutomationRun, h]
    split
    · exact .inl (by simp [Except.map, h])
    · next hterm =>
      split
      · exact .inl (by simp [Except.map, h])
      · next hown =>
        have hown : row.status = .running ∧ row.workerRunId = some worker := by simpa using hown
        exact .inr ⟨_, .finished worker status result error (by simpa using hterm) hown.1 hown.2,
          by simp [Except.map]⟩
  | wait runId worker result =>
    obtain rfl : runId = r := hr
    simp only [serveStep, Op.serve, waitAutomationRun, h]
    split
    · next hw => exact .inr ⟨_, .waited worker result hw.2.1 hw.2.2, by simp [Except.map]⟩
    · exact .inl (by simp [Except.map, h])
  | control runId c =>
    obtain rfl : runId = r := hr
    simp only [serveStep, Op.serve, requestBrowserWorkflowControl, h]
    cases hid : c.idempotencyKey with
    | none => exact .inl (by simp [Except.map, h])
    | some id =>
      simp only
      split
      · exact .inl (by simp [Except.map, h])
      · split
        · exact .inl (by simp [Except.map, h])
        · cases hl : row.controlHistory.lookup id with
          | some known => left; simp only; split <;> simp [Except.map, h]
          | none =>
            cases ha : applyControl row id c now with
            | error e => exact .inl (by simp [bind, Except.bind, Except.map, h])
            | ok row' =>
              exact .inr ⟨row', .controlled c id hid hl row' ha, by
                simp [bind, Except.bind, Except.map]⟩
  | defer runId =>
    obtain rfl : runId = r := hr
    simp only [serveStep, Op.serve, deferPendingAutomationRun, h]
    split
    · next hp => exact .inr ⟨_, .deferred hp, by simp⟩
    · exact .inl (by simp [h])
  | completionReported runId =>
    obtain rfl : runId = r := hr
    simp only [serveStep, Op.serve, markAutomationCompletionReported, h]
    split
    · next hp => exact .inr ⟨_, .reported hp, by simp⟩
    · exact .inl (by simp [h])

/-- A run without a receipt gets one only from `create_or_get_automation_run`, in
    its initial form. -/
theorem serveStep_none {table : Table J} {r : String} (h : table r = none) (now : Nat)
    (op : Op J) :
    serveStep table (now, op) r = none ∨
      ∃ payload owner, op = .createOrGet payload owner ∧
        serveStep table (now, op) r = some (Receipt.initial payload owner now) := by
  by_cases hr : op.runId = r
  swap
  · exact .inl ((serveStep_of_ne hr now).trans h)
  cases op with
  | createOrGet payload owner =>
    obtain rfl : payload.runId = r := hr
    refine .inr ⟨payload, owner, rfl, ?_⟩
    simp [serveStep, Op.serve, createOrGetAutomationRun, h, Receipt.initial, Except.map]
  | control runId c =>
    obtain rfl : runId = r := hr
    left
    simp only [serveStep, Op.serve, requestBrowserWorkflowControl, h]
    split
    · simp [Except.map, h]
    · split <;> simp [Except.map, h]
  | _ =>
    left
    simp only [Op.runId] at hr
    subst hr
    simp only [serveStep, Op.serve, markAutomationRunQueued, claimAutomationRun,
      finishAutomationRun, waitAutomationRun, deferPendingAutomationRun,
      markAutomationCompletionReported, h]
    try split
    all_goals simp [Except.map, h]

end

/-- The three outcomes of an accepted control: recorded on the running worker's
    claim, settling an unclaimed run, or queued for the next claim. -/
theorem applyControl_cases {row row' : Receipt J} {id : String} {c : Control J} {now : Nat}
    (h : applyControl row id c now = .ok row') :
    row'.controlHistory = row.controlHistory ++ [(id, c)] ∧
      ((c.isCancel ∧ row.status = .running ∧ row'.status = .running ∧
          row'.workerRunId = row.workerRunId ∧ row'.controlAction = some c) ∨
        (c.isCancel ∧ (row.status = .pending ∨ row.status = .queued) ∧
          row.controlAction = none ∧ row'.status = .cancelled ∧
          row'.result = some cancelledBeforeExecution) ∨
        ((row.status = .waiting ∨ c.isCancel ∧ (row.status = .pending ∨ row.status = .queued)) ∧
          row'.status = .pending ∧ row'.controlAction = some c)) := by
  simp only [applyControl] at h
  split at h
  · simp at h
  · next hok =>
    split at h
    · next hrun =>
      obtain rfl := Except.ok.inj h
      simp only [Bool.and_eq_true, beq_iff_eq] at hrun
      exact ⟨rfl, .inl ⟨hrun.1, hrun.2, hrun.2, rfl, rfl⟩⟩
    · next hrun =>
      split at h
      · next hq =>
        obtain rfl := Except.ok.inj h
        simp only [Bool.and_eq_true, Bool.or_eq_true, beq_iff_eq, Option.isNone_iff_eq_none] at hq
        exact ⟨rfl, .inr (.inl ⟨hq.1.1.1, hq.1.1.2, hq.2, rfl, rfl⟩)⟩
      · obtain rfl := Except.ok.inj h
        refine ⟨rfl, .inr (.inr ⟨?_, rfl, rfl⟩)⟩
        by_cases hw : row.status = .waiting
        · exact .inl hw
        · simp only [hrun, Bool.false_eq_true, not_false_eq_true, and_true, hw, ne_eq,
            true_and, not_not] at hok
          simp only [Bool.and_eq_true, Bool.or_eq_true, beq_iff_eq] at hok
          exact .inr hok

/-! ## Terminal states and the running worker -/

/-- No call moves a receipt out of a terminal status. -/
theorem RowStep.status_of_terminal {r : String} {now : Nat} {row row' : Receipt J} {op : Op J}
    (h : RowStep r now row op row') (hterm : row.status.terminal) : row'.status = row.status := by
  cases h with
  | queued h => simp [h] at hterm
  | deferred h => rfl
  | reported h => rfl
  | claimed worker h =>
    cases hs : row.status <;> simp [Receipt.claimable, hs] at h hterm
  | finished worker status result error _ hrun => simp [hrun] at hterm
  | waited worker result hrun => simp [hrun] at hterm
  | controlled c id _ _ row' h =>
    rcases (applyControl_cases h).2 with ⟨_, hs, _⟩ | ⟨_, hs | hs, _⟩ | ⟨hs | ⟨_, hs | hs⟩, _⟩ <;>
      simp [hs] at hterm

/-- A call that leaves a running receipt running leaves it with its worker. -/
theorem RowStep.worker_of_running {r : String} {now : Nat} {row row' : Receipt J} {op : Op J}
    (h : RowStep r now row op row') (hrun : row.status = .running)
    (hrun' : row'.status = .running) : row'.workerRunId = row.workerRunId := by
  cases h with
  | queued h => simp [h] at hrun
  | deferred h => rfl
  | reported h => rfl
  | claimed worker h =>
    have hown : row.workerRunId = some worker := by simpa [Receipt.claimable, hrun] using h
    exact hown.symm
  | finished worker status result error hterm =>
    simp only [Receipt.finish] at hrun'
    split at hrun'
    · cases hrun'
    · simp [hrun'] at hterm
  | waited worker result =>
    simp only [Receipt.wait] at hrun'
    split at hrun' <;> cases hrun'
  | controlled c id _ _ row' h =>
    rcases (applyControl_cases h).2 with ⟨_, _, _, hw, _⟩ | ⟨_, _, _, hs, _⟩ | ⟨_, hs, _⟩
    · exact hw
    · simp [hs] at hrun'
    · simp [hs] at hrun'

/-- `finish_automation_run` succeeds only for the worker of a running receipt. -/
theorem finishAutomationRun_owner {table table' : Table J} {r worker : String} {status : Status}
    {result : Option (RunResult J)} {error : Option String} {now : Nat} {row' : Receipt J}
    (h : finishAutomationRun table r worker status result error now = .ok (table', row')) :
    ∃ row, table r = some row ∧ row.status = .running ∧ row.workerRunId = some worker := by
  simp only [finishAutomationRun] at h
  split at h
  · simp at h
  · cases hr : table r with
    | none => simp [hr] at h
    | some row =>
      simp only [hr] at h
      split at h
      · simp at h
      · next hown =>
        have hown : row.status = .running ∧ row.workerRunId = some worker := by simpa using hown
        exact ⟨row, rfl, hown.1, hown.2⟩

/-- `wait_automation_run` succeeds only for the worker of a running receipt. -/
theorem waitAutomationRun_owner {table table' : Table J} {r worker : String}
    {result : RunResult J} {now : Nat} {row' : Receipt J}
    (h : waitAutomationRun table r worker result now = .ok (table', row')) :
    ∃ row, table r = some row ∧ row.status = .running ∧ row.workerRunId = some worker := by
  simp only [waitAutomationRun] at h
  cases hr : table r with
  | none => simp [hr] at h
  | some row =>
    simp only [hr] at h
    split at h
    · next hown => exact ⟨row, rfl, hown.2⟩
    · simp at h

/-! ## Accepted cancellations -/

theorem Receipt.cancelRequested_iff (row : Receipt J) :
    row.cancelRequested ↔ ∃ c, row.controlAction = some c ∧ c.isCancel := by
  simp [Receipt.cancelRequested, Option.any_eq_true]

/-- Some cancel control was accepted: it is in the control history. -/
def Receipt.cancelAccepted (row : Receipt J) : Prop :=
  ∃ entry ∈ row.controlHistory, entry.2.isCancel

/-- After an accepted cancel the run is on its way to cancellation until it ends,
    and it does not end failed or skipped. -/
structure CancelKept (row : Receipt J) : Prop where
  notFailed : row.cancelAccepted → row.status ≠ .failed ∧ row.status ≠ .skipped
  notWaiting : row.cancelAccepted → row.status ≠ .waiting
  control : row.cancelAccepted → row.status.terminal = false → row.cancelRequested

/-- Control histories only grow. -/
theorem RowStep.cancelAccepted {r : String} {now : Nat} {row row' : Receipt J} {op : Op J}
    (h : RowStep r now row op row') (ha : row.cancelAccepted) : row'.cancelAccepted := by
  obtain ⟨entry, hmem, hc⟩ := ha
  refine ⟨entry, ?_, hc⟩
  cases h with
  | controlled c id _ _ row' h =>
    rw [(applyControl_cases h).1]
    exact List.mem_append_left _ hmem
  | _ => exact hmem

theorem CancelKept.initial (payload : Payload J) (owner : String) (now : Nat) :
    CancelKept (Receipt.initial payload owner now) := by
  constructor <;> rintro ⟨entry, hmem, _⟩ <;> simp [Receipt.initial] at hmem

theorem CancelKept.step {r : String} {now : Nat} {row row' : Receipt J} {op : Op J}
    (hinv : CancelKept row) (h : RowStep r now row op row') : CancelKept row' := by
  cases h with
  | queued h =>
    exact ⟨fun _ => by simp, fun _ => by simp,
      fun ha _ => hinv.control ha (by simp [h])⟩
  | deferred h => exact ⟨hinv.notFailed, hinv.notWaiting, hinv.control⟩
  | reported h => exact ⟨hinv.notFailed, hinv.notWaiting, hinv.control⟩
  | claimed worker h =>
    refine ⟨fun _ => by simp, fun _ => by simp, fun ha _ => hinv.control ha ?_⟩
    cases hs : row.status <;> simp [Receipt.claimable, hs] at h ⊢
  | finished worker status result error hterm hrun =>
    -- a cancel in the history is still the pending control, so a failed or skipped end re-pends
    have hreq : row.cancelAccepted → row.cancelRequested :=
      fun ha => hinv.control ha (by simp [hrun])
    refine ⟨fun ha => ?_, fun ha => ?_, fun ha hnt => ?_⟩ <;>
      obtain ⟨c, hact, hc⟩ := row.cancelRequested_iff.mp (hreq ha)
    · cases status <;> simp [Receipt.finish, Receipt.cancelRequested, hact, hc]
    · cases status <;> simp [Receipt.finish, Receipt.cancelRequested, hact, hc] at hterm ⊢
    · cases status <;> simp [Receipt.finish, Receipt.cancelRequested, hact, hc] at hterm hnt ⊢
  | waited worker result hrun =>
    have hreq : row.cancelAccepted → row.cancelRequested :=
      fun ha => hinv.control ha (by simp [hrun])
    refine ⟨fun ha => ?_, fun ha => ?_, fun ha hnt => ?_⟩ <;>
      obtain ⟨c, hact, hc⟩ := row.cancelRequested_iff.mp (hreq ha) <;>
      simp [Receipt.wait, Receipt.cancelRequested, hact, hc]
  | controlled c id _ _ row' h =>
    obtain ⟨hhist, hcase⟩ := applyControl_cases h
    rcases hcase with ⟨hc, _, hs, _, hact⟩ | ⟨_, _, _, hs, _⟩ | ⟨hfrom, hs, hact⟩
    · exact ⟨fun _ => by simp [hs], fun _ => by simp [hs],
        fun _ _ => by simp [Receipt.cancelRequested, hact, hc]⟩
    · exact ⟨fun _ => by simp [hs], fun _ => by simp [hs],
        fun _ hnt => by simp [hs] at hnt⟩
    · refine ⟨fun _ => by simp [hs], fun _ => by simp [hs], fun ha _ => ?_⟩
      -- a control other than a cancel needs a waiting run, which no accepted cancel leaves behind
      have hc : c.isCancel := by
        rcases hfrom with hw | ⟨hc, _⟩
        · obtain ⟨entry, hmem, hcancel⟩ := ha
          rw [hhist, List.mem_append, List.mem_singleton] at hmem
          rcases hmem with hold | rfl
          · exact absurd hw (hinv.notWaiting ⟨entry, hold, hcancel⟩)
          · exact hcancel
        · exact hc
      simp [Receipt.cancelRequested, hact, hc]

/-- A receipt that is pending or queued with no control (never claimed,
    by `not_everClaimed_of_fresh`). -/
def Receipt.fresh (row : Receipt J) : Prop :=
  (row.status = .pending ∨ row.status = .queued) ∧ row.controlAction = none

/-- A fresh receipt was fresh before the call, or has just been created. -/
theorem RowStep.fresh {r : String} {now : Nat} {row row' : Receipt J} {op : Op J}
    (h : RowStep r now row op row') (hf : row'.fresh) : row.fresh := by
  obtain ⟨hs', hact'⟩ := hf
  cases h with
  | queued h => exact ⟨.inl h, hact'⟩
  | deferred h => exact ⟨.inl h, hact'⟩
  | reported h => exact ⟨hs', hact'⟩
  | claimed worker h => simp at hs'
  | finished worker status result error hterm =>
    -- only a kept cancellation puts a finished run back to pending
    simp only [Receipt.finish] at hs' hact'
    split at hs'
    · next hc =>
      simp only [hc, if_true] at hact'
      simp [Receipt.cancelRequested, hact'] at hc
    · rcases hs' with rfl | rfl <;> simp at hterm
  | waited worker result =>
    simp only [Receipt.wait] at hs' hact'
    split at hs'
    · next hc =>
      simp only [hc, if_true] at hact'
      simp [Receipt.cancelRequested, hact'] at hc
    · simp at hs'
  | controlled c id _ _ row' h =>
    rcases (applyControl_cases h).2 with ⟨_, _, hs, _⟩ | ⟨_, _, _, hs, _⟩ | ⟨_, _, hact⟩
    · simp [hs] at hs'
    · simp [hs] at hs'
    · simp [hact] at hact'

section

variable [DecidableEq J]

/-- A control that was accepted is in the history afterwards. -/
theorem requestBrowserWorkflowControl_history {table table' : Table J} {r : String}
    {c : Control J} {now : Nat} {row : Receipt J}
    (h : requestBrowserWorkflowControl table r c now = .ok (table', row)) :
    table' r = some row ∧ ∃ entry ∈ row.controlHistory, entry.2 = c := by
  simp only [requestBrowserWorkflowControl] at h
  cases hid : c.idempotencyKey with
  | none => simp [hid] at h
  | some id =>
    simp only [hid] at h
    split at h
    · simp at h
    · cases hr : table r with
      | none => simp [hr] at h
      | some receipt =>
        simp only [hr] at h
        split at h
        · simp at h
        · cases hl : receipt.controlHistory.lookup id with
          | some known =>
            simp only [hl] at h
            split at h
            · simp at h
            · next hk =>
              obtain ⟨rfl, rfl⟩ : table = table' ∧ receipt = row := by simpa using h
              refine ⟨hr, (id, known), ?_, by simpa using hk⟩
              exact List.lookup_eq_some_iff.mp hl |>.elim fun l₁ ⟨l₂, heq, _⟩ => by simp [heq]
          | none =>
            simp only [hl] at h
            cases ha : applyControl receipt id c now with
            | error e => simp [ha, bind, Except.bind] at h
            | ok row' =>
              obtain ⟨rfl, rfl⟩ : Function.update table r (some row') = table' ∧ row' = row := by
                simpa [ha, bind, Except.bind] using h
              refine ⟨by simp, (id, c), ?_, rfl⟩
              rw [(applyControl_cases ha).1]
              simp

/-! ## Claims -/

/-- The call is a worker's claim of run `r` and returns the receipt. -/
def claimsRun (r : String) (table : Table J) (call : Nat × Op J) : Bool :=
  match call.2 with
  | .claim runId worker =>
    runId == r && (claimAutomationRun table runId worker call.1).2.isSome
  | _ => false

/-- Some worker's claim of run `r` succeeded while `calls` were served. -/
def everClaimed (r : String) (table : Table J) (calls : List (Nat × Op J)) : Prop :=
  true ∈ outputs serveStep (claimsRun r) table calls

theorem everClaimed_concat {r : String} {table : Table J} {calls : List (Nat × Op J)}
    {call : Nat × Op J} :
    everClaimed r table (calls ++ [call]) ↔
      everClaimed r table calls ∨ claimsRun r (run serveStep table calls) call := by
  rw [everClaimed, outputs_concat, List.mem_append, List.mem_singleton, eq_comm (a := true)]
  rfl

/-- A successful claim finds a claimable receipt and leaves it running. -/
theorem claimsRun_running {r : String} {table : Table J} {call : Nat × Op J}
    (h : claimsRun r table call) :
    ∃ row row', table r = some row ∧ row.status.terminal = false ∧
      serveStep table call r = some row' ∧ row'.status = .running := by
  obtain ⟨now, op⟩ := call
  cases op with
  | claim runId worker =>
    simp only [claimsRun, Bool.and_eq_true, beq_iff_eq] at h
    obtain ⟨rfl, hsome⟩ := h
    cases hr : table runId with
    | none => simp [claimAutomationRun, hr] at hsome
    | some row =>
      cases hc : row.claimable worker with
      | false => simp [claimAutomationRun, hr, hc] at hsome
      | true =>
        refine ⟨row, { row with status := .running, workerRunId := some worker, updatedAt := now },
          rfl, ?_, by simp [serveStep, Op.serve, claimAutomationRun, hr, hc], rfl⟩
        cases hs : row.status <;> simp [Receipt.claimable, hs] at hc ⊢
  | _ => simp [claimsRun] at h

/-- The supporting invariant: a run without a receipt, or with a fresh one, has
    never been claimed. -/
theorem not_everClaimed_of_fresh (r : String) (calls : List (Nat × Op J)) :
    let table := run serveStep (fun _ => none : Table J) calls
    (table r = none → ¬ everClaimed r (fun _ => none) calls) ∧
      ∀ row, table r = some row → row.fresh → ¬ everClaimed r (fun _ => none) calls := by
  induction calls using List.reverseRecOn with
  | nil => simp [everClaimed, outputs]
  | append_singleton calls call ih =>
    obtain ⟨now, op⟩ := call
    simp only [run_concat, everClaimed_concat] at ih ⊢
    set table := run serveStep (fun _ => none : Table J) calls
    constructor
    · rintro hnone (hold | hnew)
      · cases hr : table r with
        | none => exact ih.1 hr hold
        | some row =>
          rcases serveStep_row hr now op with h | ⟨row', _, h⟩ <;> rw [h] at hnone <;> cases hnone
      · obtain ⟨_, row', _, _, h, _⟩ := claimsRun_running hnew
        rw [h] at hnone
        cases hnone
    · rintro row' hrow' hf (hold | hnew)
      · cases hr : table r with
        | none => exact ih.1 hr hold
        | some row =>
          rcases serveStep_row hr now op with h | ⟨row'', hstep, h⟩
          · obtain rfl : row = row' := by simpa [h] using hrow'
            exact ih.2 row hr hf hold
          · obtain rfl : row'' = row' := by simpa [h] using hrow'
            exact ih.2 row hr (hstep.fresh hf) hold
      · obtain ⟨_, row'', _, _, h, hrun⟩ := claimsRun_running hnew
        obtain rfl : row'' = row' := by simpa [h] using hrow'
        simp [Receipt.fresh, hrun] at hf

/-! ## Whole runs -/

/-- A stored receipt stays stored, and what every `RowStep` preserves of it holds
    after any further calls. -/
theorem run_row {P : Receipt J → Prop} {r : String} {table : Table J} {row : Receipt J}
    (hstep : ∀ now row op row', P row → RowStep r now row op row' → P row')
    (h : table r = some row) (hP : P row) (calls : List (Nat × Op J)) :
    ∃ row', run serveStep table calls r = some row' ∧ P row' := by
  apply run_invariant (P := fun t : Table J => ∃ row', t r = some row' ∧ P row') _ ⟨row, h, hP⟩
  rintro t ⟨now, op⟩ _ ⟨row, hr, hrow⟩
  rcases serveStep_row hr now op with h' | ⟨row', hs, h'⟩
  · exact ⟨row, h', hrow⟩
  · exact ⟨row', h', hstep now row op row' hrow hs⟩

/-- Every receipt ever stored keeps its accepted cancellations. -/
theorem cancelKept_run (r : String) (calls : List (Nat × Op J)) :
    ∀ row, run serveStep (fun _ => none : Table J) calls r = some row → CancelKept row := by
  apply run_invariant (P := fun t : Table J => ∀ row, t r = some row → CancelKept row)
  · rintro t ⟨now, op⟩ _ ih row' hrow'
    cases hr : t r with
    | none =>
      rcases serveStep_none hr now op with h | ⟨payload, owner, _, h⟩
      · simp [h] at hrow'
      · obtain rfl : Receipt.initial payload owner now = row' := by simpa [h] using hrow'
        exact CancelKept.initial payload owner now
    | some row =>
      rcases serveStep_row hr now op with h | ⟨row'', hs, h⟩
      · obtain rfl : row = row' := by simpa [h] using hrow'
        exact ih row hr
      · obtain rfl : row'' = row' := by simpa [h] using hrow'
        exact (ih row hr).step hs
  · intro row hrow
    cases hrow

/-- A terminal status survives any further calls. -/
theorem run_terminal {r : String} {table : Table J} {row : Receipt J} (h : table r = some row)
    (hterm : row.status.terminal) (more : List (Nat × Op J)) :
    ∃ row', run serveStep table more r = some row' ∧ row'.status = row.status := by
  refine run_row (P := fun row' => row'.status = row.status) ?_ h rfl more
  intro now row₁ op row₂ hs hstep
  exact (hstep.status_of_terminal (hs ▸ hterm)).trans hs

/-- Nobody claims a run that has ended. -/
theorem not_everClaimed_of_terminal {r : String} {table : Table J} {row : Receipt J}
    (h : table r = some row) (hterm : row.status.terminal) (more : List (Nat × Op J)) :
    ¬ everClaimed r table more := by
  induction more using List.reverseRecOn with
  | nil => simp [everClaimed, outputs]
  | append_singleton more call ih =>
    rw [everClaimed_concat]
    rintro (hold | hnew)
    · exact ih hold
    · obtain ⟨row₁, _, h₁, hopen, _⟩ := claimsRun_running hnew
      obtain ⟨row₂, h₂, hs⟩ := run_terminal h hterm more
      obtain rfl : row₂ = row₁ := by simpa [h₂] using h₁
      rw [hs, hterm] at hopen
      cases hopen

/-- As long as a claimed receipt stays running it keeps its worker. -/
theorem run_worker {r worker : String} {table : Table J} {row : Receipt J}
    (h : table r = some row) (hw : row.workerRunId = some worker) (more : List (Nat × Op J))
    (hrun : ∀ pre, pre <+: more → ∃ row', run serveStep table pre r = some row' ∧
      row'.status = .running) :
    ∃ row', run serveStep table more r = some row' ∧ row'.workerRunId = some worker := by
  induction more using List.reverseRecOn with
  | nil => exact ⟨row, h, hw⟩
  | append_singleton more call ih =>
    obtain ⟨now, op⟩ := call
    obtain ⟨row₁, h₁, hw₁⟩ := ih fun pre hpre =>
      hrun pre (hpre.trans (List.prefix_append more _))
    obtain ⟨row₁', h₁', hrun₁⟩ := hrun more (List.prefix_append more _)
    obtain rfl : row₁ = row₁' := by simpa [h₁] using h₁'
    obtain ⟨row₂, h₂, hrun₂⟩ := hrun _ (List.prefix_refl _)
    rw [run_concat] at h₂ ⊢
    refine ⟨row₂, h₂, ?_⟩
    rcases serveStep_row h₁ now op with hsame | ⟨row₂', hstep, hnext⟩
    · obtain rfl : row₁ = row₂ := by simpa [hsame] using h₂
      exact hw₁
    · obtain rfl : row₂' = row₂ := by simpa [hnext] using h₂
      exact (hstep.worker_of_running hrun₁ hrun₂).trans hw₁

/-- A control that turns a receipt cancelled settles a fresh one, with the reason
    `cancelled_before_execution`. -/
theorem requestBrowserWorkflowControl_settles {table table' : Table J} {r : String}
    {c : Control J} {now : Nat} {row before : Receipt J} (hr : table r = some before)
    (hb : before.status ≠ .cancelled)
    (h : requestBrowserWorkflowControl table r c now = .ok (table', row))
    (hs : row.status = .cancelled) :
    before.fresh ∧ row.result = some cancelledBeforeExecution := by
  simp only [requestBrowserWorkflowControl] at h
  cases hid : c.idempotencyKey with
  | none => simp [hid] at h
  | some id =>
    simp only [hid, hr] at h
    split at h
    · simp at h
    · split at h
      · simp at h
      · cases hl : before.controlHistory.lookup id with
        | some known =>
          simp only [hl] at h
          split at h
          · simp at h
          · obtain ⟨-, rfl⟩ : table = table' ∧ before = row := by simpa using h
            exact absurd hs hb
        | none =>
          simp only [hl] at h
          cases ha : applyControl before id c now with
          | error e => simp [ha, bind, Except.bind] at h
          | ok row' =>
            obtain ⟨-, rfl⟩ : Function.update table r (some row') = table' ∧ row' = row := by
              simpa [ha, bind, Except.bind] using h
            rcases (applyControl_cases ha).2 with ⟨_, _, hs', _⟩ | ⟨_, hq, hact, _, hres⟩ | ⟨_, hs', _⟩
            · simp [hs] at hs'
            · exact ⟨⟨hq, hact⟩, hres⟩
            · simp [hs] at hs'

/-- One owner, terminal states and accepted cancels, over every run of storage
    calls from the empty table and for the receipt of any run `r`:

    * once a status is terminal it never changes;
    * between a successful claim and the next transition out of `running`, only
      the claiming worker's `finish` or `wait` succeeds;
    * after an accepted cancel the pending control stays a cancel and the status
      is not `waiting` until the run ends, and it does not end failed or skipped;
    * a run a control settles with `cancelled_before_execution` was not claimed
      before and is not claimed after. -/
theorem automation_receipts (r : String) (calls : List (Nat × Op J)) :
    let table := run serveStep (fun _ => none : Table J) calls
    (∀ row, table r = some row → row.status.terminal → ∀ more, ∃ row',
      run serveStep table more r = some row' ∧ row'.status = row.status) ∧
    (∀ now worker table' row, claimAutomationRun table r worker now = (table', some row) →
      ∀ more, (∀ pre, pre <+: more → ∃ row', run serveStep table' pre r = some row' ∧
          row'.status = .running) →
        ∀ worker' now', (∀ status result error, (finishAutomationRun (run serveStep table' more)
            r worker' status result error now').isOk → worker' = worker) ∧
          ∀ result, (waitAutomationRun (run serveStep table' more) r worker' result now').isOk →
            worker' = worker) ∧
    (∀ now c table' row, c.isCancel → requestBrowserWorkflowControl table r c now = .ok (table', row) →
      ∀ more, ∃ row', run serveStep table' more r = some row' ∧
        row'.status ≠ .failed ∧ row'.status ≠ .skipped ∧
        (row'.status.terminal = false → row'.cancelRequested ∧ row'.status ≠ .waiting)) ∧
    (∀ now c table' row before, table r = some before → before.status ≠ .cancelled →
      requestBrowserWorkflowControl table r c now = .ok (table', row) →
      row.status = .cancelled → row.result = some cancelledBeforeExecution ∧
        ∀ more, ¬ everClaimed r (fun _ => none) (calls ++ (now, .control r c) :: more)) := by
  intro table
  refine ⟨?_, ?_, ?_, ?_⟩
  · intro row hrow hterm more
    exact run_terminal hrow hterm more
  · intro now worker table' row hclaim more hrun worker' now'
    have hrow : table' r = some row ∧ row.workerRunId = some worker := by
      simp only [claimAutomationRun] at hclaim
      split at hclaim
      · simp at hclaim
      · split at hclaim
        · obtain ⟨rfl, rfl⟩ := Prod.mk.inj hclaim |>.imp_right Option.some.inj
          simp
        · simp at hclaim
    obtain ⟨row', h', hw'⟩ := run_worker hrow.1 hrow.2 more hrun
    constructor
    · intro status result error hok
      cases hf : finishAutomationRun (run serveStep table' more) r worker' status result error
          now' with
      | error e => simp [hf, Except.isOk, Except.toBool] at hok
      | ok p =>
        obtain ⟨row'', h'', _, hw''⟩ := finishAutomationRun_owner hf
        obtain rfl : row' = row'' := by simpa [h'] using h''
        simpa [hw'] using hw''.symm
    · intro result hok
      cases hf : waitAutomationRun (run serveStep table' more) r worker' result now' with
      | error e => simp [hf, Except.isOk, Except.toBool] at hok
      | ok p =>
        obtain ⟨row'', h'', _, hw''⟩ := waitAutomationRun_owner hf
        obtain rfl : row' = row'' := by simpa [h'] using h''
        simpa [hw'] using hw''.symm
  · intro now c table' row hc hok more
    obtain ⟨hrow, entry, hmem, rfl⟩ := requestBrowserWorkflowControl_history hok
    have htable : table' = run serveStep (fun _ => none : Table J) (calls ++ [(now, .control r entry.2)]) := by
      rw [run_concat]
      simp [serveStep, Op.serve, Except.map, table, hok]
    have hkept : CancelKept row := cancelKept_run r _ row (htable ▸ hrow)
    obtain ⟨row', h', hkept', hacc⟩ := run_row
      (P := fun row' => CancelKept row' ∧ row'.cancelAccepted)
      (fun now row₁ op row₂ hP hstep => ⟨hP.1.step hstep, hstep.cancelAccepted hP.2⟩)
      hrow ⟨hkept, entry, hmem, hc⟩ more
    exact ⟨row', h', (hkept'.notFailed hacc).1, (hkept'.notFailed hacc).2,
      fun hnt => ⟨hkept'.control hacc hnt, hkept'.notWaiting hacc⟩⟩
  · intro now c table' row before hbefore hb hok hs
    obtain ⟨hfresh, hres⟩ := requestBrowserWorkflowControl_settles hbefore hb hok hs
    refine ⟨hres, fun more => ?_⟩
    have hpast := (not_everClaimed_of_fresh r calls).2 before hbefore hfresh
    have hrow : table' r = some row := (requestBrowserWorkflowControl_history hok).1
    have htable : serveStep table (now, .control r c) = table' := by
      simp [serveStep, Op.serve, Except.map, hok]
    have hfuture := not_everClaimed_of_terminal hrow (by simp [hs]) more
    simp only [everClaimed, outputs_append, outputs, List.mem_append, List.mem_cons]
    rintro (hold | hnow | hnew)
    · exact hpast hold
    · cases hnow
    · exact hfuture (htable ▸ hnew)

end

end SummitFlow.Automation
