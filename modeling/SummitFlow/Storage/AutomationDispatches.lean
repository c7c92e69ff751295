import Mathlib.Logic.Function.Basic
import SummitFlow.Python.Error
import SummitFlow.ForStd.Run

/-!
# Durable automation dispatch receipts

Model of `backend/app/storage/automation_dispatches.py`.  The table
`automation_dispatch_receipts` is a map from run id to receipt; every function
below is one database transaction, so it reads and replaces the table in one
step.  `J` stands for the JSON content no function of the module looks into.
-/

namespace SummitFlow.Automation

/-- The `status` column. -/
inductive Status where
  | pending | queued | running | waiting
  | succeeded | failed | skipped | cancelled
deriving DecidableEq, Repr

/-- `{"succeeded", "failed", "skipped", "cancelled"}`. -/
@[simp] def Status.terminal : Status → Bool
  | .succeeded | .failed | .skipped | .cancelled => true
  | .pending | .queued | .running | .waiting => false

/-- A browser workflow control: `control.get("idempotency_key")` when it is a
    string, `control.get("action")`, and the remaining entries. -/
structure Control (J : Type) where
  idempotencyKey : Option String
  action : Option String
  rest : J
deriving DecidableEq

/-- `control.get("action") == "cancel"`. -/
def Control.isCancel {J : Type} (c : Control J) : Bool := c.action == some "cancel"

/-- A `result` object: its `status` and `reason` entries and whatever else the
    worker reported. -/
structure RunResult (J : Type) where
  status : Option String
  reason : Option String
  rest : Option J
deriving DecidableEq

/-- The callback envelope: `run_id` and `workflow_key` are also columns of their own. -/
structure Payload (J : Type) where
  runId : String
  workflowKey : String
  rest : J
deriving DecidableEq

/-- One row of `automation_dispatch_receipts` (the columns copied from the
    envelope and read by no function here are left to `requestPayload`). -/
structure Receipt (J : Type) where
  runId : String
  workflowKey : String
  requestPayload : Payload J
  ownerRunId : String
  status : Status
  workerRunId : Option String
  result : Option (RunResult J)
  error : Option String
  completionReportedAt : Option Nat
  createdAt : Nat
  updatedAt : Nat
  completedAt : Option Nat
  controlAction : Option (Control J)
  controlHistory : List (String × Control J)
deriving DecidableEq

/-- The table, keyed by its primary key `run_id`. -/
abbrev Table (J : Type) := String → Option (Receipt J)

variable {J : Type}

/-- `control_action ->> 'action' = 'cancel'`; a NULL control is no cancel. -/
def Receipt.cancelRequested (r : Receipt J) : Bool := r.controlAction.any Control.isCancel

/-- The row `create_or_get_automation_run` inserts: status pending, every column
    it does not name at its default. -/
def Receipt.initial (payload : Payload J) (ownerRunId : String) (now : Nat) : Receipt J where
  runId := payload.runId
  workflowKey := payload.workflowKey
  requestPayload := payload
  ownerRunId := ownerRunId
  status := .pending
  workerRunId := none
  result := none
  error := none
  completionReportedAt := none
  createdAt := now
  updatedAt := now
  completedAt := none
  controlAction := none
  controlHistory := []

section

variable [DecidableEq J]

/-- `create_or_get_automation_run`: insert, or do nothing on a known run id; the
    stored envelope must then equal the given one. -/
def createOrGetAutomationRun (table : Table J) (payload : Payload J) (ownerRunId : String)
    (now : Nat) : Except PyError (Table J × Receipt J) :=
  let (table, receipt) := match table payload.runId with
    | none =>
      let row := Receipt.initial payload ownerRunId now
      (Function.update table payload.runId (some row), row)
    | some row => (table, row)
  if receipt.requestPayload ≠ payload then
    .error (.valueError "Run ID was already used with a different callback envelope")
  else .ok (table, receipt)

end

/-- `defer_pending_automation_run`. -/
def deferPendingAutomationRun (table : Table J) (runId : String) (now : Nat) : Table J :=
  match table runId with
  | some row =>
    if row.status = .pending then
      Function.update table runId (some { row with updatedAt := now })
    else table
  | none => table

/-- `mark_automation_run_queued`: only a pending row becomes queued; any other row
    is returned as it is. -/
def markAutomationRunQueued (table : Table J) (runId : String) (now : Nat) :
    Except PyError (Table J × Receipt J) :=
  match table runId with
  | none => .error (.runtimeError "Automation dispatch receipt disappeared after enqueue")
  | some row =>
    if row.status = .pending then
      let row := { row with status := .queued, updatedAt := now }
      .ok (Function.update table runId (some row), row)
    else .ok (table, row)

/-- The WHERE clause of `claim_automation_run`. -/
def Receipt.claimable (row : Receipt J) (workerRunId : String) : Bool :=
  row.status == .pending || row.status == .queued ||
    (row.status == .running && row.workerRunId == some workerRunId)

/-- `claim_automation_run`: the claimed row, or `None` when the WHERE clause
    selects nothing. -/
def claimAutomationRun (table : Table J) (runId workerRunId : String) (now : Nat) :
    Table J × Option (Receipt J) :=
  match table runId with
  | none => (table, none)
  | some row =>
    if row.claimable workerRunId then
      let row := { row with
        status := .running, workerRunId := some workerRunId, updatedAt := now }
      (Function.update table runId (some row), some row)
    else (table, none)

/-- The SET list of `finish_automation_run`.  A failed or skipped end of a run with a pending
    cancellation puts the run back to pending and keeps the cancellation. -/
def Receipt.finish (current : Receipt J) (workerRunId : String) (status : Status)
    (result : Option (RunResult J)) (error : Option String) (now : Nat) : Receipt J :=
  let pendingCancel := current.cancelRequested && (status == .failed || status == .skipped)
  { current with
    status := if pendingCancel then .pending else status
    result := result
    error := error
    controlAction := if pendingCancel then current.controlAction else none
    workerRunId := if pendingCancel then none else some workerRunId
    completedAt := if pendingCancel then none else some now
    updatedAt := now }

/-- `finish_automation_run`. -/
def finishAutomationRun (table : Table J) (runId workerRunId : String) (status : Status)
    (result : Option (RunResult J)) (error : Option String) (now : Nat) :
    Except PyError (Table J × Receipt J) :=
  if ¬ status.terminal then .error (.valueError "Unsupported terminal automation status") else
  match table runId with
  | none => .error (.runtimeError "Automation run is not owned by this worker")
  | some current =>
    if current.status ≠ .running ∨ current.workerRunId ≠ some workerRunId then
      .error (.runtimeError "Automation run is not owned by this worker")
    else
      let row := current.finish workerRunId status result error now
      .ok (Function.update table runId (some row), row)

/-- The SET list of `wait_automation_run`: a requested cancellation makes the run
    pending again instead of waiting. -/
def Receipt.wait (current : Receipt J) (result : RunResult J) (now : Nat) : Receipt J :=
  { current with
    status := if current.cancelRequested then .pending else .waiting
    workerRunId := none
    result := some result
    controlAction := if current.cancelRequested then current.controlAction else none
    updatedAt := now }

/-- `wait_automation_run`: release the worker at a human checkpoint. -/
def waitAutomationRun (table : Table J) (runId workerRunId : String) (result : RunResult J)
    (now : Nat) : Except PyError (Table J × Receipt J) :=
  match table runId with
  | none => .error (.runtimeError "Browser workflow is not owned by this worker")
  | some current =>
    if current.workflowKey = "browser_workflow" ∧ current.status = .running ∧
        current.workerRunId = some workerRunId then
      let row := current.wait result now
      .ok (Function.update table runId (some row), row)
    else .error (.runtimeError "Browser workflow is not owned by this worker")

/-- The result a queued cancellation settles an unclaimed run with. -/
def cancelledBeforeExecution : RunResult J where
  status := some "cancelled"
  reason := some "cancelled_before_execution"
  rest := none

section

variable [DecidableEq J]

/-- The update `request_browser_workflow_control` makes to a browser workflow
    receipt once the idempotency key is known to be new. -/
def applyControl (receipt : Receipt J) (controlId : String) (control : Control J) (now : Nat) :
    Except PyError (Receipt J) :=
  let history := receipt.controlHistory ++ [(controlId, control)]
  let isQueuedCancel :=
    control.isCancel && (receipt.status == .pending || receipt.status == .queued)
  let isRunningCancel := control.isCancel && receipt.status == .running
  if receipt.status ≠ .waiting ∧ ¬ isQueuedCancel ∧ ¬ isRunningCancel then
    .error (.valueError
      "Browser workflow control requires a waiting human checkpoint or a queued cancellation")
  else if isRunningCancel then
    .ok { receipt with controlAction := some control, controlHistory := history, updatedAt := now }
  else if isQueuedCancel && receipt.result.isNone && receipt.controlAction.isNone then
    .ok { receipt with
      status := .cancelled, controlHistory := history, result := some cancelledBeforeExecution
      completedAt := some now, updatedAt := now }
  else
    .ok { receipt with
      status := .pending, workerRunId := none, controlAction := some control
      controlHistory := history, updatedAt := now }

/-- `request_browser_workflow_control`. -/
def requestBrowserWorkflowControl (table : Table J) (runId : String) (control : Control J)
    (now : Nat) : Except PyError (Table J × Receipt J) :=
  match control.idempotencyKey with
  | none => .error (.valueError "Browser workflow control requires a bounded idempotency key")
  | some controlId =>
    if controlId = "" ∨ 200 < controlId.length then
      .error (.valueError "Browser workflow control requires a bounded idempotency key")
    else match table runId with
    | none => .error (.keyError runId)
    | some receipt =>
      if receipt.workflowKey ≠ "browser_workflow" then .error (.keyError runId)
      else match receipt.controlHistory.lookup controlId with
      | some known =>
        if known ≠ control then
          .error (.valueError "Control idempotency key was already used with another action")
        else .ok (table, receipt)
      | none => do
        let row ← applyControl receipt controlId control now
        .ok (Function.update table runId (some row), row)

end

/-- `mark_automation_completion_reported`. -/
def markAutomationCompletionReported (table : Table J) (runId : String) (now : Nat) : Table J :=
  match table runId with
  | some row =>
    if row.status.terminal then
      Function.update table runId
        (some { row with completionReportedAt := some now, updatedAt := now })
    else table
  | none => table

/-! ## Requests -/

/-- A call of one of the storage functions. -/
inductive Op (J : Type) where
  | createOrGet (payload : Payload J) (ownerRunId : String)
  | markQueued (runId : String)
  | claim (runId workerRunId : String)
  | finish (runId workerRunId : String) (status : Status) (result : Option (RunResult J))
      (error : Option String)
  | wait (runId workerRunId : String) (result : RunResult J)
  | control (runId : String) (control : Control J)
  | defer (runId : String)
  | completionReported (runId : String)

/-- The run id a call names. -/
def Op.runId : Op J → String
  | .createOrGet payload _ => payload.runId
  | .markQueued runId | .claim runId _ | .finish runId _ _ _ _ | .wait runId _ _
  | .control runId _ | .defer runId | .completionReported runId => runId

section

variable [DecidableEq J]

/-- Serve one call at database time `now`: the new table and the receipt the call
    returns, if it returns one. -/
def Op.serve (table : Table J) (now : Nat) :
    Op J → Except PyError (Table J × Option (Receipt J))
  | .createOrGet payload ownerRunId =>
    (createOrGetAutomationRun table payload ownerRunId now).map fun p => (p.1, some p.2)
  | .markQueued runId => (markAutomationRunQueued table runId now).map fun p => (p.1, some p.2)
  | .claim runId workerRunId => .ok (claimAutomationRun table runId workerRunId now)
  | .finish runId workerRunId status result error =>
    (finishAutomationRun table runId workerRunId status result error now).map
      fun p => (p.1, some p.2)
  | .wait runId workerRunId result =>
    (waitAutomationRun table runId workerRunId result now).map fun p => (p.1, some p.2)
  | .control runId c =>
    (requestBrowserWorkflowControl table runId c now).map fun p => (p.1, some p.2)
  | .defer runId => .ok (deferPendingAutomationRun table runId now, none)
  | .completionReported runId => .ok (markAutomationCompletionReported table runId now, none)

/-- One served call with its database time; a call that raised changes nothing. -/
def serveStep (table : Table J) (call : Nat × Op J) : Table J :=
  stateOr table (call.2.serve table call.1)

end

end SummitFlow.Automation
