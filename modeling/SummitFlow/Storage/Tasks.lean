import SummitFlow.ForStd.Run
import SummitFlow.Postgres.Jsonb
import SummitFlow.Storage.PublicationRepair

/-!
# Claims, status and evidence of a task

Model of `backend/app/storage/tasks/claims.py`, `status.py` and `closeout.py` on one
row of `tasks`; a call for another task leaves the row alone.  Each call is one
transaction that locks the row, so it is one step; a raise rolls it back.

Times are in microseconds, and `NOW()` has one value throughout a transaction.
-/

namespace SummitFlow.Tasks

open Repair (TaskStatus)

/-- The columns of a task the modules write or decide by. -/
structure Task where
  projectId : String
  status : TaskStatus
  claimedBy : Option String
  claimedAt : Option Int
  lockExpiresAt : Option Int
  startedAt : Option Int
  completedAt : Option Int
  updatedAt : Int
  errorMessage : Option String
  currentPhase : Option String
  verificationResult : Option Jsonb
  commits : Option (List String)
  mergeSha : Option String
deriving DecidableEq, Repr

/-- The column `verification_result -> k`. -/
def Task.evidence (t : Task) (k : String) : Option Jsonb := t.verificationResult.bind (Jsonb.get k)

/-- `INTERVAL '1 minute'`. -/
def minute : Int := 60 * 1000000

/-! ## The lifecycle projection -/

/-- The entries that mark a receipt stale. -/
def staleMark (reason : String) : List (String × Jsonb) :=
  [("state", .str "stale"), ("reason", .str reason)]

/-- The `acceptance` entry a lifecycle change leaves: marked stale. -/
def staledAcceptance (column : Option Jsonb) : Option Jsonb :=
  if column.any (Jsonb.has "acceptance") then
    (column.bind (Jsonb.get "acceptance")).map
      (·.concat (.obj (staleMark "task_lifecycle_changed_requires_acceptance")))
  else none

/-- The `closeout` entry a lifecycle change leaves: a local closeout becomes history,
    unless it is active and to be preserved. -/
def preservedCloseout (preserveCloseout : Bool) (closeout : Option Jsonb) : Option Jsonb :=
  match closeout with
  | none => none
  | some c =>
    -- a NULL state decides nothing where the closeout is to be preserved
    let keeps := preserveCloseout && (c.getText "state").all (["pending", "blocked"].contains ·)
    if c.getText "kind" = some "local_closeout.v1" ∧ keeps = false then
      some (Jsonb.object [("kind", .str "lifecycle_closeout_history.v1"),
        ("state", .str "historical"), ("reason", .str "task_lifecycle_changed"),
        ("previous_closeout", c)])
    else some c

/-- The entries of `_preserved_verification_sql`. -/
def preservedEntries (preserveCloseout : Bool) (column : Option Jsonb) :
    List (String × Option Jsonb) :=
  let entry (k : String) := column.bind (Jsonb.get k)
  [("acceptance", staledAcceptance column),
    ("deployment", entry "deployment"),
    ("live_validation", entry "live_validation"),
    ("publication", entry "publication"),
    ("publication_repair", entry "publication_repair"),
    ("closeout", preservedCloseout preserveCloseout (entry "closeout"))]

/-- `_preserved_verification_sql`. -/
def preservedVerification (preserveCloseout : Bool) (column : Option Jsonb) : Option Jsonb :=
  Jsonb.objectAgg (preservedEntries preserveCloseout column)

/-! ## Claims -/

/-- `_CLAIMABLE_STATUSES`. -/
def claimableStatuses : List TaskStatus := [.pending, .paused, .failed]

/-- `_has_valid_lock`. -/
def hasValidLock (now : Int) (t : Task) : Bool :=
  match t.claimedBy, t.lockExpiresAt with
  | some worker, some lock => worker != "" && now < lock
  | _, _ => false

/-- The row with its lock extended. -/
def renewed (now minutes : Int) (t : Task) : Task :=
  { t with lockExpiresAt := some (now + minutes * minute), updatedAt := now }

/-- The row with its claim columns cleared. -/
def Task.unclaimed (t : Task) : Task :=
  { t with claimedBy := none, claimedAt := none, lockExpiresAt := none }

/-- The row under a new claim. -/
def claimed (now : Int) (workerId : String) (minutes : Int) (t : Task) : Task :=
  { t with
    claimedBy := some workerId
    claimedAt := some now
    lockExpiresAt := some (now + minutes * minute)
    status := .running
    verificationResult := preservedVerification false t.verificationResult
    startedAt := t.startedAt.or (some now)
    updatedAt := now }

/-- `claim_task`: the updated row, `none` when it is not claimed. -/
def claimTask (now : Int) (workerId : String) (minutes : Int) (renewOnly : Bool) (t : Task) :
    Option Task :=
  if t.status = .running then
    if t.claimedBy = some workerId then some (renewed now minutes t) else none
  else if renewOnly then none
  else if t.status ∉ claimableStatuses then none
  else if hasValidLock now t then none
  else some (claimed now workerId minutes t)

/-- `renew_task_claim`. -/
def renewTaskClaim (now : Int) (expectedWorkerId : String) (minutes : Int) (t : Task) :
    Option Task :=
  if t.status = .running ∧ t.claimedBy = some expectedWorkerId then some (renewed now minutes t)
  else none

/-- The row back in `pending`, its evidence projected. -/
def released (now : Int) (preserveCloseout : Bool) (t : Task) : Task :=
  { t.unclaimed with
    status := .pending
    verificationResult := preservedVerification preserveCloseout t.verificationResult
    updatedAt := now }

/-- `release_task`. -/
def releaseTask (now : Int) (expectedWorkerId : Option String) (t : Task) : Option Task :=
  if expectedWorkerId.isSome ∧ t.claimedBy ≠ expectedWorkerId then none
  else some (released now false t)

/-- `reset_expired_claims` on this row. -/
def resetExpiredClaims (now : Int) (t : Task) : Option Task :=
  if t.status = .running ∧ t.lockExpiresAt.any (· < now) ∧ t.claimedBy.isSome then
    some (released now true t)
  else none

/-! ## Status -/

/-- The name of a status in the database. -/
def statusName : TaskStatus → String
  | .pending => "pending"
  | .running => "running"
  | .paused => "paused"
  | .completed => "completed"
  | .failed => "failed"
  | .cancelled => "cancelled"

/-- `VALID_STATUSES`. -/
def validStatuses : List TaskStatus :=
  [.pending, .running, .paused, .completed, .failed, .cancelled]

/-- `VALID_TRANSITIONS`. -/
def validTransitions : TaskStatus → List TaskStatus
  | .pending => [.running, .paused, .cancelled]
  | .running => [.completed, .failed, .cancelled, .pending, .paused]
  | .paused => [.pending, .running, .cancelled]
  | .completed => [.pending, .cancelled]
  | .failed => [.pending, .running, .cancelled, .completed]
  | .cancelled => [.pending]

/-- `validate_status_transition`. -/
def validateStatusTransition (current target : TaskStatus) : Bool :=
  (validTransitions current).contains target

/-- `_check_transition`; the text goes on with the valid targets. -/
def checkTransition (current target : TaskStatus) : Except PyError Unit :=
  if current ≠ target ∧ validateStatusTransition current target = false then
    .error (.valueError ("Invalid transition from '" ++ statusName current ++ "' to '" ++
      statusName target ++ "'."))
  else .ok ()

/-- The arguments of `update_task_status`. -/
structure StatusArgs where
  status : String
  errorMessage : Option String
  validateTransition : Bool
  expectedCloseoutRequestId : Option String
  expectedWorker : Option String
  expectedClaimedAt : Option Int
  expectedProjectId : Option String

/-- What the guards of a status update find in other tables: the subtasks that do not
    pass, `unresolved_repair`, `completion_gates` and how Python prints a list. -/
structure Facts where
  incompleteSubtasks : List String
  unresolvedRepair : Bool
  completionGates : List String
  render : List String → String

/-- The guard of an owned completion. -/
def checkOwned (now : Int) (facts : Facts) (args : StatusArgs) (status : TaskStatus) (t : Task) :
    Except PyError Unit :=
  match args.expectedWorker with
  | none => .ok ()
  | some worker =>
    if args.expectedClaimedAt.isNone ∨ args.expectedProjectId.all (· == "") ∨
        status ≠ .completed then
      .error (.valueError "Owned completion requires an exact project claim")
    else if ¬ (some t.projectId = args.expectedProjectId ∧ t.status = .running ∧
        t.claimedBy = some worker ∧ t.claimedAt = args.expectedClaimedAt ∧
        t.lockExpiresAt.any (now < ·)) then
      .error (.valueError
        "Task claim changed before record-only completion; checkpoint preserved")
    else if facts.incompleteSubtasks ≠ [] then
      .error (.valueError ("Cannot complete task with incomplete subtasks: " ++
        facts.render facts.incompleteSubtasks))
    else .ok ()

/-- The guards of a cancellation and of a completion. -/
def checkTerminal (facts : Facts) (status : TaskStatus) : Except PyError Unit :=
  if status = .cancelled ∧ facts.unresolvedRepair then
    .error (.valueError
      "Cannot cancel unresolved repair findings; resolve them with evidence first")
  else if status = .completed ∧ facts.completionGates ≠ [] then
    .error (.valueError ("Task acceptance remains incomplete: " ++
      facts.render facts.completionGates))
  else .ok ()

/-- `d.get(k)` of what Python loads from an object. -/
def pyGet (k : String) (j : Jsonb) : Option Jsonb := Jsonb.nonNull (j.get k)

/-- `(d or \x7b\x7d).get(k) or \x7b\x7d`. -/
def pySection (k : String) (column : Option Jsonb) : Jsonb :=
  ((column.bind (pyGet k)).filter Jsonb.truthy).getD (.obj [])

/-- The guard of a completion that a closeout request asked for.  A section that is no
    object has no `get` in Python; here it has no entries, which is refused as well. -/
def checkCloseout (args : StatusArgs) (status : TaskStatus) (t : Task) : Except PyError Unit :=
  match args.expectedCloseoutRequestId with
  | none => .ok ()
  | some requestId =>
    let intent := pySection "closeout" t.verificationResult
    let acceptance := pySection "acceptance" t.verificationResult
    if t.status ∉ [.pending, .running, .completed] ∨ status ≠ .completed ∨
        pyGet "request_id" intent ≠ some (.str requestId) ∨
        pyGet "kind" intent ≠ some (.str "local_closeout.v1") ∨
        pyGet "project_id" intent ≠ some (.str t.projectId) ∨
        pyGet "state" acceptance ≠ some (.str "success") ∨
        pyGet "source_commit" acceptance ≠ pyGet "source_sha" intent then
      .error (.valueError "Completion request was superseded by a task lifecycle change")
    else .ok ()

/-- The statuses whose update clears the claim columns. -/
def clearsClaim (status : TaskStatus) : Bool :=
  [.completed, .failed, .cancelled, .paused].contains status

/-- `_UPDATE_SQL`. -/
def updateSql (now : Int) (status : TaskStatus) (errorMessage : Option String) (t : Task) : Task :=
  let terminal := [TaskStatus.completed, .failed, .cancelled].contains status
  { t with
    status := status
    startedAt := if status = .running then t.startedAt.or (some now) else t.startedAt
    completedAt := if terminal then some now else none
    errorMessage := if terminal then errorMessage else none
    verificationResult := if status = .completed then t.verificationResult
      else preservedVerification false t.verificationResult
    currentPhase := if status = .completed then some "complete" else t.currentPhase
    claimedBy := if clearsClaim status then none else t.claimedBy
    claimedAt := if clearsClaim status then none else t.claimedAt
    lockExpiresAt := if clearsClaim status then none else t.lockExpiresAt
    updatedAt := now }

/-- `update_task_status`. -/
def updateTaskStatus (now : Int) (facts : Facts) (args : StatusArgs) (t : Task) :
    Except PyError Task :=
  match validStatuses.find? (fun s => statusName s == args.status) with
  | none => .error (.valueError ("Invalid status '" ++ args.status ++ "'."))
  | some status => do
    checkOwned now facts args status t
    checkTerminal facts status
    checkCloseout args status t
    if args.validateTransition then checkTransition t.status status
    return updateSql now status args.errorMessage t

/-! ## Commits -/

/-- The arguments of `add_commit`. -/
structure CommitArgs where
  commitSha : String
  projectId : Option String
  publication : Option (List (String × Jsonb))
  mergeSha : Option String

/-- Whether a commit is recorded on the task. -/
def Task.recorded (t : Task) (commitSha : String) : Bool := (t.commits.getD []).contains commitSha

/-- Whether a commit is new to the task and not the one its acceptance is for. -/
def outdates (commitSha : String) (t : Task) : Bool :=
  !t.recorded commitSha &&
    (t.evidence "acceptance").bind (Jsonb.getText "source_commit") != some commitSha

/-- The evidence with its acceptance marked stale where the commit outdates it. -/
def outdatedVerification (commitSha : String) (t : Task) : Option Jsonb :=
  if t.verificationResult.any (Jsonb.has "acceptance") && outdates commitSha t then
    -- `jsonb_set` of a NULL is NULL
    match t.verificationResult, t.evidence "acceptance" with
    | some v, some acceptance => some (v.setField "acceptance"
        (acceptance.concat (.obj (staleMark "new_task_commit_requires_acceptance"))))
    | _, _ => none
  else t.verificationResult

/-- The row with a commit. -/
def committed (now : Int) (args : CommitArgs) (t : Task) : Task :=
  { t with
    commits := if t.recorded args.commitSha then t.commits
      else some (t.commits.getD [] ++ [args.commitSha])
    verificationResult :=
      if t.verificationResult.isNone && args.publication.isNone then none
      else some (((outdatedVerification args.commitSha t).getD (.obj [])).concat
        (.obj ((args.publication.map fun p => [("publication", Jsonb.object p)]).getD [])))
    mergeSha := args.mergeSha.or t.mergeSha
    updatedAt := now }

/-- `add_commit`. -/
def addCommit (now : Int) (args : CommitArgs) (t : Task) : Option Task :=
  if args.projectId.all (· == t.projectId) then some (committed now args t) else none

/-! ## Evidence -/

/-- The row with entries merged into its evidence. -/
def Task.merged (t : Task) (now : Int) (entries : List (String × Jsonb)) : Task :=
  { t with
    verificationResult := some ((t.verificationResult.getD (.obj [])).concat (Jsonb.object entries))
    updatedAt := now }

/-- Whether the row is an active claim of this worker since that time. -/
def Task.activeClaim (t : Task) (now : Int) (worker : String) (claimedAt : Option Int) : Bool :=
  t.status == .running && t.claimedBy == some worker && claimedAt.isSome &&
    t.claimedAt == claimedAt && t.lockExpiresAt.any (now < ·)

/-- Whether the evidence has these entries, an absent one counting as empty. -/
def Task.hasPrior (t : Task) (prior : List (String × Jsonb)) : Bool :=
  prior.all fun e => (t.evidence e.1).getD (.obj []) == e.2

/-- The arguments of `store_closeout`. -/
structure CloseoutArgs where
  projectId : String
  closeout : List (String × Jsonb)
  expectedRequestId : Option String
  expectedCloseout : Option Jsonb
  expectedSourceSha : Option String
  expectedWorker : Option String
  expectedClaimedAt : Option Int
  expectedAcceptance : Option Jsonb
  expectedVerification : List (String × Jsonb)

/-- The WHERE clause of `store_closeout`. -/
def closeoutMatches (now : Int) (args : CloseoutArgs) (t : Task) : Bool :=
  let closeout := t.evidence "closeout"
  let acceptance := t.evidence "acceptance"
  t.projectId == args.projectId &&
    args.expectedRequestId.all (fun id => closeout.bind (Jsonb.getText "request_id") == some id) &&
    args.expectedCloseout.all (fun c => closeout.getD (.obj []) == c) &&
    args.expectedSourceSha.all (fun sha =>
      [TaskStatus.pending, .running, .completed].contains t.status &&
        acceptance.bind (Jsonb.getText "state") == some "success" &&
        acceptance.bind (Jsonb.getText "source_commit") == some sha) &&
    args.expectedWorker.all (fun worker => t.activeClaim now worker args.expectedClaimedAt) &&
    args.expectedAcceptance.all (fun a => acceptance.getD (.obj []) == a) &&
    t.hasPrior args.expectedVerification

/-- `store_closeout`: `none` when the row no longer fits what was expected. -/
def storeCloseout (now : Int) (args : CloseoutArgs) (t : Task) : Except PyError (Option Task) :=
  if args.expectedWorker.isSome ∧ args.expectedClaimedAt.isNone then
    .error (.valueError "An exact active claim is required for a new closeout request")
  else if closeoutMatches now args t then
    .ok (some (t.merged now [("closeout", Jsonb.object args.closeout)]))
  else if args.expectedRequestId.isNone ∧ args.expectedCloseout.isNone ∧
      args.expectedSourceSha.isNone then
    .error (.valueError "Closeout task does not belong to the selected project")
  else .ok none

/-- `release_closeout_claim`. -/
def releaseCloseoutClaim (now : Int) (projectId requestId : String) (t : Task) : Option Task :=
  let closeout := t.evidence "closeout"
  if t.projectId = projectId ∧ t.status ∈ [TaskStatus.pending, .running] ∧
      closeout.bind (Jsonb.getText "request_id") = some requestId ∧
      (closeout.bind (Jsonb.getText "state")).any (["pending", "blocked"].contains ·) then
    some { t.unclaimed with status := .pending, updatedAt := now }
  else none

/-- The receipts of local verification. -/
def verificationKeys : List String := ["acceptance", "deployment", "live_validation"]

/-- `_EXECUTION_VERIFICATION_KEYS`. -/
def executionVerificationKeys : List String :=
  ["autonomous_failure", "evidence_verified", "execution_clean", "external_work",
    "subtask_count", "total_extensions_granted", "total_self_fix_attempts",
    "total_supervisor_attempts", "verification_source"]

/-- Whether entries are given and all of them have one of the keys. -/
def supported (keys : List String) (entries : List (String × Jsonb)) : Bool :=
  !entries.isEmpty && entries.all fun e => keys.contains e.1

/-- An unconditional merge of entries with the given keys. -/
def storeEntries (keys : List String) (message : String) (now : Int) (projectId : String)
    (entries : List (String × Jsonb)) (t : Task) : Except PyError Task :=
  if !supported keys entries then .error (.valueError message)
  else if t.projectId = projectId then .ok (t.merged now entries)
  else .error (.valueError "Verification task does not belong to selected project")

/-- `store_verification`. -/
def storeVerification (now : Int) (projectId : String) (receipts : List (String × Jsonb))
    (t : Task) : Except PyError Task :=
  storeEntries verificationKeys "Unsupported local verification receipt" now projectId receipts t

/-- `store_execution_verification`. -/
def storeExecutionVerification (now : Int) (projectId : String) (facts : List (String × Jsonb))
    (t : Task) : Except PyError Task :=
  storeEntries executionVerificationKeys "Unsupported autonomous execution verification fact" now
    projectId facts t

/-- The arguments of `store_owned_verification`. -/
structure OwnedArgs where
  projectId : String
  receipts : List (String × Jsonb)
  expectedWorker : String
  expectedClaimedAt : Option Int
  expectedVerification : List (String × Jsonb)

/-- The prior evidence an owned receipt replaces. -/
def OwnedArgs.prior (args : OwnedArgs) : List (String × Jsonb) :=
  args.receipts.map fun r =>
    (r.1, ((args.expectedVerification.lookup r.1).filter Jsonb.truthy).getD (.obj []))

/-- `store_owned_verification`. -/
def storeOwnedVerification (now : Int) (args : OwnedArgs) (t : Task) :
    Except PyError (Option Task) :=
  if !supported verificationKeys args.receipts then
    .error (.valueError "Unsupported local verification receipt")
  else if args.expectedWorker = "" ∨ args.expectedClaimedAt.isNone then
    .error (.valueError "An exact active claim is required for completion evidence")
  else if t.projectId == args.projectId &&
      t.activeClaim now args.expectedWorker args.expectedClaimedAt && t.hasPrior args.prior then
    .ok (some (t.merged now args.receipts))
  else .ok none

/-- `store_owned_acceptance`. -/
def storeOwnedAcceptance (now : Int) (projectId : String) (receipt : List (String × Jsonb))
    (expectedWorker : String) (expectedClaimedAt : Option Int)
    (expectedAcceptance : List (String × Jsonb)) (t : Task) : Except PyError (Option Task) :=
  if expectedWorker = "" ∨ expectedClaimedAt.isNone ∨
      receipt.lookup "state" ≠ some (.str "success") then
    .error (.valueError "Successful acceptance and an exact active claim are required")
  else storeOwnedVerification now
    ⟨projectId, [("acceptance", Jsonb.object receipt)], expectedWorker, expectedClaimedAt,
      [("acceptance", Jsonb.object expectedAcceptance)]⟩ t

/-! ## Runs -/

inductive Op where
  | claimTask (workerId : String) (minutes : Int) (renewOnly : Bool)
  | renewTaskClaim (expectedWorkerId : String) (minutes : Int)
  | releaseTask (expectedWorkerId : Option String)
  | resetExpiredClaims
  | releaseCloseoutClaim (projectId requestId : String)
  | updateTaskStatus (facts : Facts) (args : StatusArgs)
  | addCommit (args : CommitArgs)
  | storeCloseout (args : CloseoutArgs)
  | storeVerification (projectId : String) (receipts : List (String × Jsonb))
  | storeExecutionVerification (projectId : String) (facts : List (String × Jsonb))
  | storeOwnedVerification (args : OwnedArgs)
  | storeOwnedAcceptance (projectId : String) (receipt : List (String × Jsonb))
      (expectedWorker : String) (expectedClaimedAt : Option Int)
      (expectedAcceptance : List (String × Jsonb))

/-- The row a call writes, `none` when it raises or finds nothing to update. -/
def written (t : Task) (call : Int × Op) : Option Task :=
  match call.2 with
  | .claimTask workerId minutes renewOnly => claimTask call.1 workerId minutes renewOnly t
  | .renewTaskClaim expectedWorkerId minutes => renewTaskClaim call.1 expectedWorkerId minutes t
  | .releaseTask expectedWorkerId => releaseTask call.1 expectedWorkerId t
  | .resetExpiredClaims => resetExpiredClaims call.1 t
  | .releaseCloseoutClaim projectId requestId =>
    releaseCloseoutClaim call.1 projectId requestId t
  | .updateTaskStatus facts args => (updateTaskStatus call.1 facts args t).toOption
  | .addCommit args => addCommit call.1 args t
  | .storeCloseout args => (storeCloseout call.1 args t).toOption.join
  | .storeVerification projectId receipts =>
    (storeVerification call.1 projectId receipts t).toOption
  | .storeExecutionVerification projectId facts =>
    (storeExecutionVerification call.1 projectId facts t).toOption
  | .storeOwnedVerification args => (storeOwnedVerification call.1 args t).toOption.join
  | .storeOwnedAcceptance projectId receipt worker claimedAt expected =>
    (storeOwnedAcceptance call.1 projectId receipt worker claimedAt expected t).toOption.join

/-- The row after a call at a time. -/
def serveStep (t : Task) (call : Int × Op) : Task := (written t call).getD t

end SummitFlow.Tasks
