import Mathlib.Data.List.Sort
import Mathlib.Data.String.Basic
import SummitFlow.ForStd.Dict
import SummitFlow.ForStd.Run
import SummitFlow.Python.Error
import SummitFlow.Python.Str

/-!
# Retained publication findings

Model of `backend/app/storage/tasks/publication_repair.py`: the repair task of a
project retains one finding per category, `record_finding` merges an observation
into it, and later open repair tasks are folded into the oldest one first.

Times are instants in microseconds.  `J` stands for the entries of a finding that
no function here reads.  The advisory lock makes each call one step; a raise
rolls its transaction back.
-/

namespace SummitFlow.Repair

/-- What `datetime.fromisoformat` makes of an `observed_at` text: an aware instant,
    a naive time, or a `ValueError`. -/
inductive Stamp where
  | aware (instant : Int)
  | naive
  | malformed
deriving DecidableEq, Repr

/-- The entries of a finding or an observation other than its disposition, `none`
    when absent. -/
structure FindingCore (J : Type) where
  state : Option String
  observedAt : Option Stamp
  reason : Option String
  sourceCommit : Option String
  rest : J
deriving DecidableEq

/-- An owner's disposition of a finding, with the finding it was made for. -/
structure Disposition (J : Type) where
  kind : Option String
  classification : Option String
  state : Option String
  priorFinding : Option (FindingCore J)
deriving DecidableEq

/-- A finding or an observation.  A retained finding is never the empty object:
    every writer stores at least `observed_at` and `state`. -/
structure Finding (J : Type) extends FindingCore J where
  disposition : Option (Disposition J)
deriving DecidableEq

/-- The lifecycle states of a task. -/
inductive TaskStatus where
  | pending | running | paused | completed | failed | cancelled
deriving DecidableEq, Repr

/-- `REPAIR_LABEL`. -/
def repairLabel : String := "publication-repair"

/-- The columns of a task row the module reads or writes; `publicationRepair` is
    `verification_result -> 'publication_repair'`. -/
structure Task (J : Type) where
  id : String
  projectId : String
  createdAt : Nat
  status : TaskStatus
  labels : List String
  publicationRepair : Option (List (String × Finding J))
deriving DecidableEq

variable {J : Type}

/-- The retained findings of a task, by category. -/
def Task.findings (t : Task J) : List (String × Finding J) := t.publicationRepair.getD []

/-- The retained finding of a category. -/
def Task.finding (t : Task J) (category : String) : Option (Finding J) :=
  t.findings.lookup category

/-- The WHERE clause shared by `get_repair_task` and `_consolidate_duplicates`. -/
def Task.isOpenRepair (projectId : String) (t : Task J) : Bool :=
  t.projectId == projectId && t.labels.contains repairLabel &&
    t.status != .completed && t.status != .cancelled

/-- `ORDER BY created_at, id`. -/
def Task.le (s t : Task J) : Prop :=
  s.createdAt < t.createdAt ∨ s.createdAt = t.createdAt ∧ s.id ≤ t.id

instance : DecidableRel (Task.le (J := J)) := fun _ _ => inferInstanceAs (Decidable (_ ∨ _))

/-- The tasks table; `id` is its primary key. -/
structure TaskTable (J : Type) where
  rows : List (Task J)
  nodup : (rows.map Task.id).Nodup

namespace TaskTable

/-- The open repair tasks of a project, oldest first. -/
def openRepairs (table : TaskTable J) (projectId : String) : List (Task J) :=
  (table.rows.filter (Task.isOpenRepair projectId)).insertionSort Task.le

/-- Rewrite the row with this id; the rewriting keeps the id. -/
def update (table : TaskTable J) (id : String) (f : Task J → Task J)
    (hf : ∀ t, (f t).id = t.id) : TaskTable J where
  rows := table.rows.map fun t => if t.id = id then f t else t
  nodup := by
    have : (fun t => (if t.id = id then f t else t).id) = (Task.id : Task J → String) := by
      funext t
      split <;> simp [hf]
    simpa [List.map_map, Function.comp_def, this] using table.nodup

end TaskTable

/-- `get_repair_task`: the oldest open repair task of the project. -/
def getRepairTask (table : TaskTable J) (projectId : String) : Option (Task J) :=
  (table.openRepairs projectId).head?

/-! ## Source proofs -/

/-- `_SOURCE_OID.fullmatch`. -/
def isSourceOid (s : String) : Bool :=
  (s.length == 40 || s.length == 64) &&
    s.toList.all fun c => ('0' ≤ c && c ≤ '9') || ('a' ≤ c && c ≤ 'f')

/-- The local Git answers: `project_root` is the checkout when one is configured,
    `local` the return code and output of a read-only Git command, `none` when it
    could not be run. -/
structure Git where
  projectRoot : Option String
  localGit : List String → Option (Int × String)

/-- The two source ids of a proof, when both are well formed. -/
def sourceOids (previous observation : Finding J) : Option (String × String) :=
  match previous.sourceCommit, observation.sourceCommit with
  | some failed, some verified =>
    if isSourceOid failed && isSourceOid verified then some (failed, verified) else none
  | _, _ => none

/-- `_resolution_includes_failure`. -/
def resolutionIncludesFailure (git : Git) (previous observation : Finding J) : Bool :=
  match sourceOids previous observation with
  | none => false
  | some (failed, verified) =>
    if failed = verified then true
    else match git.projectRoot with
    | none | some "" => false
    | some _ =>
      match git.localGit ["merge-base", "--is-ancestor", failed, verified] with
      | some (code, _) => code == 0
      | none => false

/-- The loop over `git worktree list --porcelain`: no worktree HEAD is or contains
    the failed source. -/
def noWorktreeContains (git : Git) (failed : String) : List String → Bool
  | [] => true
  | line :: lines =>
    if Str.startswith line "HEAD " then
      let head := Str.strip (Str.removeprefix line "HEAD ")
      if head = failed then false
      else match git.localGit ["merge-base", "--is-ancestor", failed, head] with
      | some (1, _) => noWorktreeContains git failed lines
      | _ => false
    else noWorktreeContains git failed lines

/-- `_failed_source_rewritten_away`. -/
def failedSourceRewrittenAway (git : Git) (previous observation : Finding J) : Bool :=
  match sourceOids previous observation with
  | none => false
  | some (failed, verified) =>
    if failed = verified then false
    else match git.projectRoot with
    | none | some "" => false
    | some _ =>
      let commit (oid : String) := oid ++ "^\x7bcommit\x7d"
      let complete :=
        match git.localGit ["rev-parse", "--is-shallow-repository"],
          git.localGit ["config", "--get-regexp",
            "^(extensions\\.partialclone|remote\\..*\\.promisor)$"],
          git.localGit ["cat-file", "-e", commit verified] with
        | some (0, shallow), some (1, _), some (0, _) => Str.strip shallow == "false"
        | _, _, _ => false
      if !complete then false
      else match git.localGit ["cat-file", "-e", commit failed] with
      | none => false
      | some (0, _) =>
        match git.localGit ["for-each-ref", "--contains", failed, "--format=%(refname)"],
          git.localGit ["worktree", "list", "--porcelain"] with
        | some (0, containing), some (0, worktrees) =>
          Str.strip containing == "" && noWorktreeContains git failed (Str.splitlines worktrees)
        | _, _ => false
      | some _ => true

/-! ## Merging duplicate tasks -/

/-- `_finding_time`. -/
def findingTime (f : Finding J) : Option Int :=
  match f.observedAt with
  | some (.aware t) => some t
  | _ => none

/-- `finding.get("state") != "resolved"`. -/
def Finding.isOpen (f : Finding J) : Bool := f.state != some "resolved"

/-- `_merge_duplicate_finding`. -/
def mergeDuplicateFinding (kept : Option (Finding J)) (other : Finding J) : Finding J :=
  match kept with
  | none => other
  | some kept =>
    if kept.isOpen != other.isOpen then (if kept.isOpen then kept else other)
    else match findingTime kept, findingTime other with
    | _, none => kept
    | none, some _ => other
    | some keptTime, some otherTime => if keptTime < otherTime then other else kept

/-- The merged findings: every duplicate's findings folded, category by category,
    into the canonical task's. -/
def mergedFindings (findings : List (String × Finding J)) (duplicates : List (Task J)) :
    List (String × Finding J) :=
  duplicates.foldl (fun merged t =>
    t.findings.foldl (fun merged entry =>
      Dict.set entry.1 (mergeDuplicateFinding (merged.lookup entry.1) entry.2) merged) merged)
    findings

/-- The open repair tasks of the project other than the given one, oldest first. -/
def duplicatesOf (table : TaskTable J) (projectId : String) (task : Task J) : List (Task J) :=
  (table.openRepairs projectId).filter fun t => t.id != task.id

/-- `_consolidate_duplicates`: the table after the fold and the pending duplicates
    to cancel. -/
def consolidateDuplicates (table : TaskTable J) (projectId : String) (task : Task J) :
    TaskTable J × List String :=
  let duplicates := duplicatesOf table projectId task
  if duplicates.isEmpty then (table, []) else
  let table := table.update task.id
    (fun t => { t with publicationRepair := some (mergedFindings task.findings duplicates) })
    fun _ => rfl
  let table := duplicates.foldl (fun table duplicate =>
    table.update duplicate.id
      (fun t => { t with
        publicationRepair := none
        labels := t.labels.filter (· != repairLabel) })
      fun _ => rfl) table
  (table, (duplicates.filter (·.status == .pending)).map Task.id)

/-! ## Stored entries

What `_consolidate_duplicates` and the gates meet in a stored `publication_repair` object
need not come from `record_finding`: an entry may be the empty object or no object at all. -/

/-- An entry of `publication_repair`: an object with fields, the empty object, which is falsy,
    or a value that is no object. -/
inductive Entry (J : Type) where
  | finding (f : Finding J)
  | empty
  | nonObject

/-- `isinstance(finding, dict)`. -/
def Entry.isObject : Entry J → Bool
  | .nonObject => false
  | _ => true

/-- `finding.get("state") != "resolved"`. -/
def Entry.isOpen : Entry J → Bool
  | .finding f => f.isOpen
  | _ => true

/-- `_finding_time`. -/
def Entry.time : Entry J → Option Int
  | .finding f => findingTime f
  | _ => none

/-- `_merge_duplicate_finding` on stored entries. -/
def mergeEntry (kept : Option (Entry J)) (other : Entry J) : Entry J :=
  match kept with
  | none | some .empty | some .nonObject => other
  | some kept =>
    if kept.isOpen != other.isOpen then (if kept.isOpen then kept else other)
    else match kept.time, other.time with
    | _, none => kept
    | none, some _ => other
    | some keptTime, some otherTime => if keptTime < otherTime then other else kept

/-- `publication_repair` as it is stored; a JSON object has each key once. -/
structure Stored (J : Type) where
  entries : List (String × Entry J)
  nodup : (entries.map Prod.fst).Nodup

/-- The stored entry of a category. -/
def Stored.get (s : Stored J) (category : String) : Option (Entry J) := s.entries.lookup category

/-- One turn of the inner loop of `_consolidate_duplicates`. -/
def Stored.merge (merged : Stored J) (entry : String × Entry J) : Stored J :=
  if entry.2.isObject then
    { entries := Dict.set entry.1 (mergeEntry (merged.get entry.1) entry.2) merged.entries
      nodup := Dict.nodup_set merged.nodup }
  else merged

/-- What `_consolidate_duplicates` stores on the canonical task: its own `publication_repair`
    when there are no duplicates. -/
def consolidatedEntries (canonical : Stored J) (duplicates : List (Stored J)) : Stored J :=
  duplicates.foldl (fun merged duplicate => duplicate.entries.foldl Stored.merge merged) canonical

/-! ## What the gates read -/

/-- `_ADMINISTRATIVE_REASONS`. -/
def administrativeReasons : List String :=
  ["cloud_ci_missing", "outside_publication_window", "outside_nightly_window",
    "nightly_repair_confirmation_pending"]

/-- The disposition retires the finding as administration. -/
def Disposition.retires [DecidableEq J] (d : Disposition J) (core : FindingCore J) : Bool :=
  d.kind == some "publication_disposition.v1" && d.classification == some "administrative" &&
    d.state == some "no_longer_required" && core.reason.any administrativeReasons.contains &&
    d.priorFinding == some core

/-- `finding_actionable`. -/
def findingActionable [DecidableEq J] (f : Finding J) : Bool :=
  f.isOpen && !f.disposition.any fun d => d.retires f.toFindingCore

/-- `isinstance(finding, dict) and finding_actionable(finding)`. -/
def Entry.actionable [DecidableEq J] : Entry J → Bool
  | .finding f => findingActionable f
  | .empty => true
  | .nonObject => false

/-- `unresolved_repair`. -/
def unresolvedRepair [DecidableEq J] (labels : List String) (stored : Stored J) : List String :=
  if repairLabel ∉ labels then []
  else (stored.entries.filter fun entry => entry.2.actionable).map Prod.fst

/-! ## Recording -/

/-- The arguments of `record_finding` after the category. -/
structure Recording (J : Type) where
  observation : Finding J
  resolved : Bool
  resolutionReasons : Option (List String)
  retainedReasons : List String
  outgoingScanVerified : Bool

/-- What a call meets outside the table: the clock, Git, and the id `create_task`
    generates if it has to create the repair task. -/
structure Env where
  now : Int
  createdAt : Nat
  newId : String
  git : Git

/-- The repair task `create_task` inserts. -/
def newRepairTask (env : Env) (projectId : String) : Task J where
  id := env.newId
  projectId := projectId
  createdAt := env.createdAt
  status := .pending
  labels := [repairLabel]
  publicationRepair := none

/-- `create_task`: a reused id violates the primary key. -/
def createTask (table : TaskTable J) (task : Task J) : Except PyError (TaskTable J) :=
  if h : task.id ∈ table.rows.map Task.id then
    .error (.runtimeError "duplicate key value violates unique constraint")
  else .ok ⟨table.rows ++ [task], by
    rw [List.map_append, List.nodup_append]
    refine ⟨table.nodup, by simp, ?_⟩
    rintro a ha b hb rfl
    rw [List.map_singleton, List.mem_singleton] at hb
    exact h (hb ▸ ha)⟩

/-- The time of an observation: its own when it is aware; a failure without one is
    observed now. -/
def Recording.timestamp (r : Recording J) (env : Env) : Except PyError Int :=
  match r.observation.observedAt with
  | some (.aware t) => .ok t
  | _ =>
    if r.resolved then .error (.valueError "Resolution requires a timestamped observation")
    else .ok env.now

/-- The finding the UPDATE stores. -/
def Recording.finding (r : Recording J) (timestamp : Int) : Finding J :=
  { r.observation with
    observedAt := some (.aware timestamp)
    state := some (if r.resolved then "resolved" else "unresolved") }

/-- `previous.get("reason") in reasons`. -/
def reasonIn (previous : Option (Finding J)) (reasons : List String) : Bool :=
  match previous.bind (·.reason) with
  | some reason => reasons.contains reason
  | none => false

/-- The retained time `record_finding` compares with: none when there is no truthy
    `observed_at`, an exception when it is not an aware time. -/
def previousTime (previous : Option (Finding J)) : Except PyError (Option Int) :=
  match previous.bind (·.observedAt) with
  | none => .ok none
  | some (.aware t) => .ok (some t)
  | some .naive => .error (.typeError "can't compare offset-naive and offset-aware datetimes")
  | some .malformed => .error (.valueError "Invalid isoformat string")

/-- Whether an observation is ignored, given the finding it would replace. -/
def ignored (env : Env) (category : String) (r : Recording J) (timestamp : Int)
    (previous : Option (Finding J)) : Except PyError Bool := do
  -- a cause-specific resolution must not clear other findings sharing the category
  if r.resolved && r.resolutionReasons.any fun reasons => !reasonIn previous reasons then
    return true
  if r.resolved && reasonIn previous r.retainedReasons then return true
  let previousOpen := previous.any Finding.isOpen
  match ← previousTime previous with
  | some previousTime =>
    -- equal times prefer the failure
    if timestamp < previousTime ∨
        timestamp = previousTime ∧ r.resolved = true ∧ previousOpen = true then
      return true
  | none => pure ()
  match previous with
  | some previous =>
    return r.resolved && previousOpen &&
      !resolutionIncludesFailure env.git previous r.observation &&
      !(r.outgoingScanVerified && category == "outgoing_security" &&
        failedSourceRewrittenAway env.git previous r.observation)
  | none => return false

/-- The compare-and-swap UPDATE on a row: it takes effect only when the stored
    category is still the finding that was read. -/
def Task.swap [DecidableEq J] (projectId category : String) (previous : Option (Finding J))
    (finding : Finding J) (t : Task J) : Task J :=
  if t.projectId = projectId ∧ t.finding category = previous then
    { t with publicationRepair := some (Dict.set category finding t.findings) }
  else t

@[simp] theorem Task.swap_id [DecidableEq J] (projectId category : String)
    (previous : Option (Finding J)) (finding : Finding J) (t : Task J) :
    (t.swap projectId category previous finding).id = t.id := by
  unfold Task.swap
  split <;> rfl

/-- The UPDATE of `_record_finding`. -/
def swapFinding [DecidableEq J] (table : TaskTable J) (projectId taskId category : String)
    (previous : Option (Finding J)) (finding : Finding J) : TaskTable J :=
  table.update taskId (Task.swap projectId category previous finding) (Task.swap_id _ _ _ _)

/-- `_record_finding` from the point where the task is known. -/
def recordOn [DecidableEq J] (env : Env) (table : TaskTable J) (projectId category : String)
    (task : Task J) (r : Recording J) : Except PyError (TaskTable J) := do
  let timestamp ← r.timestamp env
  let previous := task.finding category
  if ← ignored env category r timestamp previous then return table
  return swapFinding table projectId task.id category previous (r.finding timestamp)

/-- `_record_finding`: the new table, the task, and the duplicates to cancel. -/
def recordFindingTx [DecidableEq J] (env : Env) (table : TaskTable J)
    (projectId category : String) (r : Recording J) :
    Except PyError (TaskTable J × Option String × List String) := do
  let found := getRepairTask table projectId
  let (table, cancel) := match found with
    | some task => consolidateDuplicates table projectId task
    | none => (table, [])
  -- the task is read again only when a pending duplicate is to be cancelled
  let found := if cancel.isEmpty then found else getRepairTask table projectId
  match found with
  | some task =>
    let table ← recordOn env table projectId category task r
    return (table, some task.id, cancel)
  | none =>
    if r.resolved then return (table, none, cancel)
    let task := newRepairTask env projectId
    let table ← createTask table task
    let table ← recordOn env table projectId category task r
    return (table, some task.id, cancel)

/-- `update_task_status(duplicate_id, "cancelled")`: every open status has that
    transition. -/
def cancelTask (table : TaskTable J) (id : String) : TaskTable J :=
  table.update id (fun t => { t with status := .cancelled }) fun _ => rfl

/-- `record_finding`: the transaction, then the cancellation of the duplicates. -/
def recordFinding [DecidableEq J] (env : Env) (table : TaskTable J)
    (projectId category : String) (r : Recording J) :
    Except PyError (TaskTable J × Option String) := do
  let (table, taskId, cancel) ← recordFindingTx env table projectId category r
  return (cancel.foldl cancelTask table, taskId)

end SummitFlow.Repair
