import Mathlib.Data.List.Sort
import Mathlib.Data.String.Basic
import SummitFlow.ForStd.Dict
import SummitFlow.Python.Str

/-!
# The deletion breaker of backups

Model of `backend/app/tasks/backup_safety.py`: every automatic removal of backup points
asks `guard_deletion` first.  A plan that removes more than normal retention is refused
and recorded in a status file; the owner can approve it with `approve_deletion`, for one
later run that removes no more.

A call reads the status file under a lock, changes it, and replaces it at the end.  The
read may fail, and is then that of an empty file; any step of the write may fail, and the
file is then what it was.  Times are in microseconds.  The sections other tasks record in
the file, and the alerts it lists for watchers, play no part here.
-/

namespace SummitFlow.BackupSafety

/-- What the code does with fractions: `a / b > q`, and a fraction as a percentage. -/
structure Fractions (Q : Type) where
  above : Int → Int → Q → Bool
  percent : Q → String

/-- The limits of normal retention. -/
structure Limits (Q : Type) where
  totalFraction : Q
  totalMin : Int
  groupFraction : Q
  groupMin : Int

/-- What a run is about to remove: of all points, and of those of each source. -/
structure Plan (Q : Type) where
  delete : Int
  total : Int
  groups : List (String × Int × Int)
  limits : Limits Q

/-- `APPROVAL_TTL`. -/
def approvalTtl : Int := 48 * 60 * 60 * 1000000

/-- `APPROVAL_LOG_KEEP`. -/
def approvalLogKeep : Nat := 20

structure Breaker where
  kind : String
  target : String
  checkedAt : Int
  plannedDelete : Int
  total : Int
  reasons : List String
  tripped : Bool
  firstTrippedAt : Option Int
  liftedAt : Option Int
deriving DecidableEq, Repr

structure Approval where
  kind : String
  target : String
  ownerApproved : String
  approvedAt : Int
  expiresAt : Int
  plannedDelete : Int
  total : Int
  reasons : List String
deriving DecidableEq, Repr

/-- An entry of `approval_log`. -/
structure Spent where
  approval : Approval
  usedAt : Int
  usedPlannedDelete : Int
deriving DecidableEq, Repr

structure Status where
  breakers : List (String × Breaker)
  approvals : List (String × Approval)
  approvalLog : List Spent
deriving DecidableEq, Repr

inductive CallError where
  | osError
  | valueError (message : String)
deriving DecidableEq, Repr

/-- What the file system lets a call do. -/
structure Io where
  readable : Bool
  writable : Bool
deriving DecidableEq, Repr

/-- `_locked_status`: the body changes the status, and may raise before the file is
    replaced. -/
def lockedStatus {α : Type} (io : Io) (file : Option Status)
    (body : Status → Except CallError (Status × α)) : Option Status × Except CallError α :=
  let status := if io.readable then file.getD ⟨[], [], []⟩ else ⟨[], [], []⟩
  match body status with
  | .error e => (file, .error e)
  | .ok (status, a) => if io.writable then (some status, .ok a) else (file, .error .osError)

/-- The key of a kind and a target. -/
def breakerKey (kind target : String) : String := kind ++ ":" ++ target

section

variable {Q : Type} (fractions : Fractions Q)

/-- `evaluate_deletion`: the reasons a plan exceeds normal retention. -/
def evaluateDeletion (plan : Plan Q) : List String :=
  let exceeds (removed available least : Int) (fraction : Q) : Bool :=
    removed > least && available > 0 && fractions.above removed available fraction
  let limits := plan.limits
  let groups := plan.groups.insertionSort fun g g' => g.1 ≤ g'.1
  (if exceeds plan.delete plan.total limits.totalMin limits.totalFraction then
    ["would remove " ++ toString plan.delete ++ " of " ++ toString plan.total ++ " points (> " ++
      fractions.percent limits.totalFraction ++ ")"] else []) ++
  groups.filterMap fun (name, removed, available) =>
    if exceeds removed available limits.groupMin limits.groupFraction then
      some ("would remove " ++ toString removed ++ " of " ++ toString available ++ " points of " ++
        name ++ " (> " ++ fractions.percent limits.groupFraction ++ ")")
    else none

/-! ## Guarding -/

/-- `_spend_approval`: the approval that fits this run, and the status without it. -/
def spendApproval (status : Status) (key : String) (plannedDelete now : Int) :
    Status × Option Approval :=
  match status.approvals.lookup key with
  | none => (status, none)
  | some approval =>
    let approvals := status.approvals.filter fun e => e.1 ≠ key
    -- stale, or the plan grew: the owner has not approved this run
    if now > approval.expiresAt ∨ plannedDelete > approval.plannedDelete then
      ({ status with approvals := approvals }, none)
    else
      let log := status.approvalLog ++ [⟨approval, now, plannedDelete⟩]
      ({ status with approvals := approvals, approvalLog := log.drop (log.length - approvalLogKeep) },
        some approval)

/-- A message to the owner. -/
inductive Notice where
  | refused (kind target : String) (reasons : List String)
  | allowedOnce (delete : Int) (approval : Approval)
  | approved (approval : Approval)
deriving DecidableEq, Repr

/-- What `guard_deletion` does to the status: also the approval it spent, and whether the
    breaker was tripped before. -/
def guardStatus (kind target : String) (plan : Plan Q) (reasons : List String) (now : Int)
    (status : Status) : Status × Option Approval × Bool :=
  let key := breakerKey kind target
  let previous := status.breakers.lookup key
  let entry : Breaker := {
    kind := kind
    target := target
    checkedAt := now
    plannedDelete := plan.delete
    total := plan.total
    reasons := reasons
    tripped := !reasons.isEmpty
    firstTrippedAt := none
    liftedAt := none }
  let (status, lifted, entry) :=
    if entry.tripped then
      match spendApproval status key plan.delete now with
      | (status, some approval) =>
        (status, some approval, { entry with tripped := false, reasons := [], liftedAt := some now })
      | (status, none) =>
        (status, none, { entry with
          firstTrippedAt := some ((previous.bind (·.firstTrippedAt)).getD now) })
    else ({ status with approvals := status.approvals.filter fun e => e.1 ≠ key }, none, entry)
  ({ status with breakers := Dict.set key entry status.breakers }, lifted,
    (previous.map (·.tripped)).getD false)

/-- `guard_deletion`: the file, whether the deletion may proceed, and the messages. -/
def guardDeletion (kind target : String) (plan : Plan Q) (now : Int) (io : Io)
    (file : Option Status) : Option Status × Bool × List Notice :=
  let reasons := evaluateDeletion fractions plan
  let (file, result) := lockedStatus io file fun status =>
    .ok (guardStatus kind target plan reasons now status)
  match result with
  | .ok (some approval, _) => (file, true, [.allowedOnce plan.delete approval])
  | .ok (none, previous) =>
    if reasons.isEmpty then (file, true, [])
    else (file, false, if previous then [] else [.refused kind target reasons])
  -- the decision is undone when the file could not be written
  | .error _ =>
    if reasons.isEmpty then (file, true, [])
    else (file, false, [.refused kind target reasons])

end

/-! ## Approving -/

/-- `approve_deletion`. -/
def approveDeletion (kind target ownerApproved : String) (now : Int) (io : Io)
    (file : Option Status) : Option Status × Except CallError (Approval × List Notice) :=
  let ownerApproved := Str.joinWords ownerApproved
  if ownerApproved.length < 8 then
    (file, .error (.valueError
      "--owner-approved must quote the owner's approval from chat, with the date"))
  else
    let key := breakerKey kind target
    lockedStatus io file fun status =>
      match (status.breakers.lookup key).filter (·.tripped) with
      | none => .error (.valueError
          ("No refused " ++ kind ++ " deletion on " ++ target ++ "; see st backup safety"))
      | some breaker =>
        let approval : Approval := {
          kind := kind
          target := target
          ownerApproved := ownerApproved
          approvedAt := now
          expiresAt := now + approvalTtl
          plannedDelete := breaker.plannedDelete
          total := breaker.total
          reasons := breaker.reasons }
        .ok ({ status with approvals := Dict.set key approval status.approvals },
          approval, [.approved approval])

/-! ## Calls -/

inductive Call (Q : Type) where
  | guard (kind target : String) (plan : Plan Q) (now : Int) (io : Io)
  | approve (kind target ownerApproved : String) (now : Int) (io : Io)

/-- The file after a call. -/
def callStep {Q : Type} (fractions : Fractions Q) (file : Option Status) : Call Q → Option Status
  | .guard kind target plan now io => (guardDeletion fractions kind target plan now io file).1
  | .approve kind target ownerApproved now io =>
    (approveDeletion kind target ownerApproved now io file).1

end SummitFlow.BackupSafety
