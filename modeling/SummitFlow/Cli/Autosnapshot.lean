import Mathlib
import SummitFlow.Cli.Snapshots

/-!
# Retention of snapshot points

Model of `backend/cli/lib/autosnapshot.py`: which points retention keeps
(`plan_retention`), and how a run removes the others (`prune_all`).  The plan is made
without a lock.  A run then goes through the projects; in each it drops the views of the
points it selected, and the last view of a point takes the point with it.

Dry runs, which change nothing, are left out, and so are the pauses between deletions.  The
captures with which `_reanchor` ends a run are captures like any other.
-/

namespace SummitFlow.Snapshots

/-- `AutosnapshotPolicy`, as far as retention reads it. -/
structure AutosnapshotPolicy where
  recentHours : Int
  hourlyHours : Int
  dailyDays : Int
  archivedKeepDays : Int
  unfinishedKeepDays : Int
  pressureKeepPoints : Int
  manualKeepPerScope : Int
  maxDeletesPerRun : Int

/-- One hour, in microseconds. -/
def hour : Int := 60 * 60 * 1000000

/-- One day, in microseconds. -/
def day : Int := 24 * hour

/-- `xs[:n]`. -/
def upTo {α : Type} (n : Int) (xs : List α) : List α :=
  if 0 ≤ n then xs.take n.toNat else xs.take (xs.length - n.natAbs)

/-- `_REJECTED_CAPTURE`. -/
def rejectedCapture : String := "Capture not accepted:"

/-- `_held`. -/
def held (now : Int) (entry : QuickSnapshot) : Bool :=
  entry.unfinished.isNone || (entry.recoveryActive || hasCopy entry) ||
    (entry.pinReason.getD "" ≠ "" && entry.pinUntil.all (now < ·))

section

/-! Two paths, and two views, are compared by their texts. -/

theorem lawfulBEq_path : LawfulBEq Path := inferInstance

theorem lawfulBEq_view : LawfulBEq (String × Path × String) := inferInstance

attribute [local instance] lawfulBEq_path lawfulBEq_view

variable (host : Host)

/-- `_discardable`, with the points and directories there are. -/
def discardable (points : List Path) (isDir : Path → Bool) (entry : QuickSnapshot) : Bool :=
  Str.startswith (entry.deletionError.getD "") rejectedCapture ||
    (isDir entry.snapshotPath.dropLast && pointKey host entry.snapshotPath ∉ points)

/-- `_root_gone`. -/
def rootGone (isDir : Path → Bool) (entry : QuickSnapshot) : Bool :=
  isDir entry.scopePath.dropLast && !isDir entry.scopePath

/-! ## The plan -/

/-- Points by the hours and days that have one: what the loop of `plan_retention` adds to
    the kept ones. -/
def keepBuckets (policy : AutosnapshotPolicy) (now : Int) (created : Path → Int) :
    List Path → List Path → List Int → List Int → List Path
  | [], kept, _, _ => kept
  | key :: keys, kept, hours, days =>
    let age := now - created key
    let hourOf := created key / hour
    let dayOf := created key / day
    let recent := age ≤ policy.recentHours * hour
    let hourly := age ≤ policy.hourlyHours * hour ∧ hourOf ∉ hours
    let daily := policy.hourlyHours * hour < age ∧ age ≤ policy.dailyDays * day ∧ dayOf ∉ days
    keepBuckets policy now created keys
      (if recent ∨ hourly ∨ daily then key :: kept else kept)
      (if age ≤ policy.hourlyHours * hour then hourOf :: hours else hours)
      (if age ≤ policy.dailyDays * day then dayOf :: days else days)

/-- What the views of one scope keep: its newest manual points, its newest unfinished work
    for a while, and its newest point when the project is gone. -/
def keepScope (policy : AutosnapshotPolicy) (now : Int) (isDir : Path → Bool)
    (views : List QuickSnapshot) : List Path :=
  let views := newestFirst views
  let manual := upTo policy.manualKeepPerScope (views.filter fun entry => !isAuto entry.source)
  let unfinished := (views.find? fun entry => entry.unfinished = some true).filter fun entry =>
    now - entry.createdAt ≤ policy.unfinishedKeepDays * day
  let gone := views.head?.filter fun entry =>
    rootGone isDir entry && now - entry.createdAt ≤ policy.archivedKeepDays * day
  (manual ++ unfinished.toList ++ gone.toList).map fun entry => pointKey host entry.snapshotPath

/-- `plan_retention`: the points to delete, oldest first. -/
def planRetention (policy : AutosnapshotPolicy) (pressure : Bool) (now : Int)
    (released : List String) (points : List Path) (isDir : Path → Bool)
    (entries : List QuickSnapshot) : List Path :=
  let byPoint := Dict.group (fun entry => pointKey host entry.snapshotPath)
    (entries.filter fun entry => !discardable host points isDir entry)
  let created key := (((Dict.get? key byPoint).getD []).map (·.createdAt)).min?.getD 0
  let newest := sortBy (fun key => -created key) (byPoint.map Prod.fst)
  let kept := (byPoint.filter fun point => point.2.any (held now)).map Prod.fst ++
    upTo (if pressure then max 1 policy.pressureKeepPoints else 1) newest
  let kept := if pressure then kept else
    let scopes := Dict.group (fun entry => (entry.projectId, entry.scopeType, entry.scopeName))
      ((byPoint.flatMap Prod.snd).filter fun entry => entry.projectId ∉ released)
    keepBuckets policy now created newest kept [] [] ++
      scopes.flatMap fun scope => keepScope host policy now isDir scope.2
  newest.reverse.filter (· ∉ kept)

/-- `_retention_candidates`. -/
def retentionCandidates (now : Int) (points : List Path) (isDir : Path → Bool)
    (allowed : List Path) (entries : List QuickSnapshot) : List QuickSnapshot :=
  (entries.filter fun entry => !discardable host points isDir entry &&
    pointKey host entry.snapshotPath ∈ allowed) ++
  entries.filter fun entry => discardable host points isDir entry && !held now entry

/-! ## Removing a point -/

/-- `delete_managed_readonly`, up to the removal: the leaf, if it is one. -/
def managedLeaf (path : Path) (recoveryProject : Option String) : Except String Path :=
  match storePath host path with
  | none => .error ("Pruning target is outside the managed snapshot store: " ++ "/".intercalate path)
  | some target =>
    let parts := target.drop (managedStore host).length
    let valid : Bool := match recoveryProject with
      | some project => parts.length = 3 && parts.take 2 = ["recoveries", project]
      | none => parts.length = 4 && parts[0]? ≠ some "recoveries" &&
          (parts[1]? = some "projects" || parts[1]? = some "worktrees")
    if valid && parts.all plainName then .ok target
    else .error ("Pruning target is not an exact managed snapshot leaf: " ++ "/".intercalate path)

/-- `delete_subvolume`, up to the removal. -/
def prunedLeaf (path : Path) : Except String Path :=
  let target := pointKey host path
  let project := if target.dropLast.dropLast = managedStore host ++ ["recoveries"] then
    target.dropLast.getLast? else none
  managedLeaf host target project

/-- `_require_prunable_root`. -/
def prunableRoot (entry : QuickSnapshot) (path : Path) : Bool :=
  ([entry.scopePath, entry.repoRoot] ++ entry.captureRoot.toList).all fun root =>
    !(host.resolve path).isPrefixOf (host.resolve root)

/-- `_physical_delete`: the change, and why the point remains. -/
def physicalDelete (path : Path) (batch : List QuickSnapshot) (s : Store) (w : Outside) :
    Store × Option Removal × Except String Unit :=
  match prunedLeaf host path, w.failure with
  | .error message, _ => (s, none, .error message)
  | .ok leaf, some failure => (s, none, .error ("Managed read-only snapshot deletion failed: " ++
      "/".intercalate leaf ++ "\n" ++ failure.message))
  | .ok leaf, none =>
    ({ s with points := s.points.filter (· ≠ leaf) }, some ⟨leaf, batch⟩, .ok ())

/-! ## Pruning a scope -/

/-- `cleanup_recovery_copies`. -/
def cleanupRecoveryCopies (now : Int) (copyError : Path → Option String)
    (snapshot : QuickSnapshot) : QuickSnapshot :=
  let released (copy : Copy) : Bool := !copy.active && copy.deletedAt.isNone && copy.releasedAt.isSome
  let gone (copy : Copy) : Bool := released copy && (copyError copy.rootPath).isNone
  let catalogue := recoveryCatalogue snapshot
  { snapshot with
    recoveryCopies := catalogue.map fun copy =>
      if gone copy then { copy with deletedAt := some now, deletionError := none }
      else if released copy then { copy with deletionError := copyError copy.rootPath }
      else copy
    recoveryPath := if catalogue.any (fun copy => gone copy && snapshot.recoveryPath = some copy.projectPath)
      then none else snapshot.recoveryPath }

/-- What identifies an entry among all manifests. -/
def QuickSnapshot.view (entry : QuickSnapshot) : String × Path × String :=
  (entry.projectId, entry.scopePath, entry.id)

/-- One entry of `_delete_entries`: whether its point went, or why its view stays. -/
def deleteEntry (views batch : List QuickSnapshot) (entry : QuickSnapshot) (s : Store)
    (w : Outside) : Store × Option Removal × Except String Bool :=
  let key := pointKey host entry.snapshotPath
  let recorded := views.any fun other => pointKey host other.snapshotPath = key &&
    other.view ∉ batch.map QuickSnapshot.view
  if hasCopy entry then
    (s, none, .error
      "Recovery copies must be released and physically cleaned before pruning this point")
  else if !prunableRoot host entry entry.snapshotPath then
    (s, none, .error ("Pruning refuses a live source or capture root: " ++
      "/".intercalate entry.snapshotPath))
  -- another view still records the point
  else if recorded ∨ key ∉ s.points then (s, none, .ok false)
  else
    let (s, removal, result) := physicalDelete host entry.snapshotPath batch s w
    (s, removal, result.map fun _ => true)

/-- The entries of `_delete_entries`, one after the other. -/
def deleteEach (views batch : List QuickSnapshot) :
    List QuickSnapshot → Call (List (String × Except String Bool))
  | [] => pure []
  | entry :: entries => do
    let outcome ← .action fun s w =>
      let (s, removal, outcome) := deleteEntry host views batch entry s w
      (s, removal, .ok outcome)
    let rest ← deleteEach views batch entries
    pure ((entry.id, outcome) :: rest)

/-- Its view is gone. -/
def viewGone (outcomes : List (String × Except String Bool)) (entry : QuickSnapshot) : Bool :=
  outcomes.any fun outcome => outcome.1 = entry.id && outcome.2.toBool

/-- A failed deletion is recorded in the entry. -/
def noteFailure (outcomes : List (String × Except String Bool)) (entry : QuickSnapshot) :
    QuickSnapshot :=
  match outcomes.lookup entry.id with
  | some (.error message) =>
    { entry with deletionError := some (
        if Str.startswith (entry.deletionError.getD "") rejectedCapture then
          rejectedCapture ++ " retry cleanup failed: " ++ message
        else message) }
  | _ => entry

/-- `prune_scope` with a selection: how many points went. -/
def pruneScope (pid : Nat) (project : String) (now : Int) (allowed : List Path) : Call Nat :=
  physicalLock pid <| scopeLock pid project do
    let loaded ← loadManifest project
    let entries ← look fun _ w => .ok (loaded.map (cleanupRecoveryCopies now w.copyError))
    saveManifest project entries
    let toPrune ← look fun s w => .ok (retentionCandidates host now s.points w.isDir allowed entries)
    if toPrune = [] then pure 0
    else do
      let views ← allEntries
      let outcomes ← deleteEach host views toPrune toPrune
      -- errors are saved as well as successes
      saveManifest project
        ((entries.map (noteFailure outcomes)).filter fun entry => !viewGone outcomes entry)
      pure (outcomes.countP fun outcome => outcome.2 matches .ok true)

/-! ## Orphans -/

/-- Days since 1970-01-01 of a date of the Gregorian calendar. -/
def daysFromCivil (year month date : Int) : Int :=
  let y := if month ≤ 2 then year - 1 else year
  let era := y / 400
  let yearOfEra := y - era * 400
  let dayOfYear := (153 * (if month > 2 then month - 3 else month + 9) + 2) / 5 + date - 1
  era * 146097 + yearOfEra * 365 + yearOfEra / 4 - yearOfEra / 100 + dayOfYear - 719468

/-- The days of a month. -/
def monthDays (year month : Nat) : Nat :=
  if month = 2 then if year % 4 = 0 ∧ (year % 100 ≠ 0 ∨ year % 400 = 0) then 29 else 28
  else if month = 4 ∨ month = 6 ∨ month = 9 ∨ month = 11 then 30
  else 31

/-- `_point_created`: the time in the name of a point, `%Y%m%dT%H%M%SZ`. -/
def pointCreated (name : String) : Option Int :=
  let stamp := name.toList.take 16
  let field (i n : Nat) : Nat := Nat.ofDigitChars 10 ((stamp.drop i).take n) 0
  let date := stamp.take 8
  let time := (stamp.drop 9).take 6
  let (y, m, d) := (field 0 4, field 4 2, field 6 2)
  let (hh, mm, ss) := (field 9 2, field 11 2, field 13 2)
  if stamp.length = 16 ∧ date.all Char.isDigit ∧ time.all Char.isDigit ∧ stamp[8]? = some 'T' ∧
      stamp[15]? = some 'Z' ∧ 1 ≤ y ∧ 1 ≤ m ∧ m ≤ 12 ∧ 1 ≤ d ∧ d ≤ monthDays y m ∧ hh < 24 ∧
      mm < 60 ∧ ss < 60 then
    some ((((daysFromCivil y m d * 24 + hh) * 60 + mm) * 60 + ss) * 1000000)
  else none

/-- The leaves of the store that may be orphans, in order. -/
def storeLeaves (points : List Path) : List Path :=
  let leaf (path : Path) : Bool :=
    let parts := path.drop (managedStore host).length
    (managedStore host).isPrefixOf path && parts.length = 4 && parts[0]? ≠ some "recoveries" &&
      (parts[1]? = some "projects" || parts[1]? = some "worktrees")
  sortBy (fun path => path) (points.filter leaf)

/-- One leaf of `reap_orphans`: whether it went.  `isDir` also says whether it is a
    subvolume of this user. -/
def reapLeaf (policy : AutosnapshotPolicy) (now : Int) (recorded : List Path) (leaf : Path)
    (s : Store) (w : Outside) : Store × Option Removal × Bool :=
  let young := (pointCreated (leaf.getLast?.getD "")).all fun created =>
    now - created ≤ policy.recentHours * hour
  if leaf ∈ recorded ∨ young ∨ w.isDir leaf = false then (s, none, false)
  else
    let (s, removal, result) := physicalDelete host leaf [] s w
    (s, removal, result.toBool)

/-- The leaves of `reap_orphans`, until the limit; a failed deletion does not count. -/
def reapEach (policy : AutosnapshotPolicy) (now : Int) (recorded : List Path) :
    List Path → Nat → Call Unit
  | [], _ => pure ()
  | _, 0 => pure ()
  | leaf :: leaves, limit + 1 => do
    let reaped ← .action fun s w =>
      let (s, removal, reaped) := reapLeaf host policy now recorded leaf s w
      (s, removal, .ok reaped)
    reapEach policy now recorded leaves (if reaped then limit else limit + 1)

/-- `reap_orphans`. -/
def reapOrphans (pid : Nat) (policy : AutosnapshotPolicy) (now limit : Int) : Call Unit :=
  if limit ≤ 0 then pure ()
  else physicalLock pid do
    let entries ← allEntries
    let recorded := entries.map fun entry => pointKey host entry.snapshotPath
    let leaves ← look fun s _ => .ok (storeLeaves host s.points)
    reapEach host policy now recorded leaves limit.toNat

/-! ## A run -/

/-- `_unless_busy`. -/
def unlessBusy {α : Type} (skipped : α) (c : Call α) : Call α :=
  Script.tryCatch c fun e => match e with
    | .snapshotError message =>
      if Str.startswith message "Deferred:" then pure skipped else throw e
    | .other _ => throw e

/-- The scopes of a run, one after the other: how many points went. -/
def pruneScopes (pid : Nat) (now : Int) (allowed : List Path) : List String → Call Nat
  | [] => pure 0
  | project :: projects => do
    let deleted ← unlessBusy 0 (pruneScope host pid project now allowed)
    let rest ← pruneScopes pid now allowed projects
    pure (deleted + rest)

/-- `prune_all` over the scopes and released projects the host shows. -/
def pruneAll (pid : Nat) (policy : AutosnapshotPolicy) (pressure : Bool) (maxDeletes : Option Int)
    (scopes released : List String) (now : Int) : Call Unit := do
  let cap := match maxDeletes with
    | none => policy.maxDeletesPerRun
    | some n => max 0 n
  let entries ← allEntries
  let prunable ← look fun s w =>
    .ok (planRetention host policy pressure now released s.points w.isDir entries)
  let deleted ← pruneScopes host pid now (upTo cap prunable) scopes
  unlessBusy () (reapOrphans host pid policy now (cap - deleted))

end

end SummitFlow.Snapshots
