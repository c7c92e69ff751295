import SummitFlow.ForStd.Dict
import SummitFlow.ForStd.Script
import SummitFlow.ForStd.SortedBy
import SummitFlow.Python.Str

/-!
# Snapshot points and their manifests

Model of `backend/cli/lib/quick_snapshots.py` and of `_physical.py`, `_pruning.py`,
`_manifest.py`, `_models.py` and `_helpers.py` under `backend/cli/lib/snapshots/`.  A point is
a read-only snapshot of the whole workspace; the manifest of a project lists the points the
project can go back to, and several projects may list one point.  Captures and prunes hold
the physical lock and the lock of the project's scope, recoveries only the latter.

The calls are scripts: an action reads or replaces one manifest, or makes or removes one
point, and may raise what the host, `git` or `btrfs` raise there.  Paths are lists of their
components, times are in microseconds, and a call reads the clock once.  All scopes are
those of projects, as `_resolve_scope` refuses others.  Left out are index artifacts, nested
subvolumes, branches and the content of recovery copies.
-/

namespace SummitFlow.Snapshots

abbrev Path := List String

/-! ## Models -/

/-- An entry of `recovery_copies`. -/
structure Copy where
  rootPath : Path
  projectPath : Path
  createdAt : Int
  active : Bool
  releasedAt : Option Int
  deletedAt : Option Int
  deletionError : Option String
deriving DecidableEq, Repr

structure QuickSnapshot where
  id : String
  name : Option String
  projectId : String
  repoRoot : Path
  scopePath : Path
  scopeType : String
  scopeName : String
  snapshotPath : Path
  headOid : Option String
  createdAt : Int
  source : String
  lastRecoveredAt : Option Int
  recoveryPath : Option Path
  captureRoot : Option Path
  projectRelativePath : Path
  sourceDigest : Option String
  unfinished : Option Bool
  pinReason : Option String
  pinUntil : Option Int
  recoveryActive : Bool
  deletionError : Option String
  sharedCapture : Bool
  recoveryCopies : List Copy
deriving DecidableEq, Repr

/-- What the calls raise: a `SnapshotError`, or another exception. -/
inductive Failure where
  | snapshotError (message : String)
  | other (message : String)
deriving DecidableEq, Repr

def Failure.message : Failure → String
  | .snapshotError message => message
  | .other message => message

/-- `recovery_catalogue`: a manifest from before the catalogue has at most one copy. -/
def recoveryCatalogue (snapshot : QuickSnapshot) : List Copy :=
  match snapshot.recoveryCopies, snapshot.recoveryPath with
  | [], some path =>
    let recovered := snapshot.lastRecoveredAt.getD snapshot.createdAt
    [{ rootPath := path.take (path.length - snapshot.projectRelativePath.length)
       projectPath := path
       createdAt := recovered
       active := snapshot.recoveryActive
       releasedAt := if snapshot.recoveryActive then none else some recovered
       deletedAt := none
       deletionError := none }]
  | copies, _ => copies

/-- Some recovery copy is not deleted. -/
def hasCopy (snapshot : QuickSnapshot) : Bool :=
  (recoveryCatalogue snapshot).any fun copy => copy.deletedAt.isNone

/-- Newest first, as manifests are saved and loaded. -/
def newestFirst (entries : List QuickSnapshot) : List QuickSnapshot :=
  sortBy (fun entry => -entry.createdAt) entries

/-! ## Paths -/

/-- The real workspace root, and what symbolic links make of a path. -/
structure Host where
  root : Path
  resolve : Path → Path
  resolve_root : resolve root = root
  resolve_append : ∀ path rest, resolve (path ++ rest) = resolve (resolve path ++ rest)

section

variable (host : Host)

/-- `managed_store`. -/
def managedStore : Path := host.root ++ [".snapshots"]

/-- The loop of `store_path` up the ancestors: the nearest one, from its name upwards, and
    what is below it. -/
def storeBelow : List String → Path → Option Path
  | [], _ => none
  | name :: up, below =>
    if name = ".snapshots" ∧ host.resolve up.reverse = host.root then
      some (managedStore host ++ below)
    else storeBelow up (name :: below)

/-- `store_path`. -/
def storePath (path : Path) : Option Path :=
  match path.reverse with
  | [] => none
  | name :: up => storeBelow host up [name]

/-- `_point_key`. -/
def pointKey (path : Path) : Path := (storePath host path).getD path

/-- `[a-zA-Z0-9._-]+`, and not a reference to a directory. -/
def plainName (name : String) : Bool :=
  name ≠ "" && name.toList.all (fun c => c.isAlphanum || c = '.' || c = '_' || c = '-') &&
    name ≠ "." && name ≠ ".."

/-- Every run of other characters becomes a dash. -/
def dashRuns : Bool → List Char → List Char
  | _, [] => []
  | inRun, c :: cs =>
    if c.isAlphanum || c = '.' || c = '_' || c = '-' then c :: dashRuns false cs
    else if inRun then dashRuns true cs
    else '-' :: dashRuns true cs

/-- `_sanitize_label`. -/
def sanitizeLabel (value : String) : String :=
  let cleaned := Str.rstripBy (· == '-')
    (Str.lstripBy (· == '-') (String.ofList (dashRuns false (Str.strip value).toList)))
  if cleaned = "" then "snapshot" else cleaned

/-- `_snapshot_destination`, under some spelling of the workspace root. -/
def snapshotDestination (spelling : Path) (projectId snapshotId : String) : Path :=
  spelling ++ [".snapshots", projectId, "projects", sanitizeLabel projectId, snapshotId]

end

/-! ## State -/

structure Store where
  /-- the manifests there are, by project -/
  manifests : List (String × List QuickSnapshot)
  /-- the points there are, by key -/
  points : List Path
  /-- who holds `physical.lock` -/
  physical : Option Nat
  /-- who holds the `snapshot.lock` of a project -/
  locks : String → Option Nat

def Store.manifest (s : Store) (project : String) : List QuickSnapshot :=
  (s.manifests.lookup project).getD []

/-- The manifest of a project is replaced. -/
def Store.setManifest (s : Store) (project : String) (entries : List QuickSnapshot) : Store :=
  { s with manifests := Dict.set project (newestFirst entries) s.manifests }

/-- What the world answers to an action: an exception, or what the host and `git` show. -/
structure Outside where
  failure : Option Failure
  isDir : Path → Bool
  /-- why a recovery copy cannot be removed -/
  copyError : Path → Option String
  liveDigest : String
  liveHead : Option String
  capturedDigest : Option String
  capturedHead : Option String
  dirty : Bool

/-- A point that an action removed, and the entries it removed it for. -/
structure Removal where
  point : Path
  batch : List QuickSnapshot
deriving DecidableEq, Repr

abbrev Call (α : Type) := Script Store Outside (Option Removal) Failure α

/-- An action that only looks. -/
def look {α : Type} (f : Store → Outside → Except Failure α) : Call α :=
  .action fun s w => (s, none, f s w)

/-- An exception of the host, if there is one here. -/
def raised {α : Type} (w : Outside) (a : α) : Except Failure α :=
  match w.failure with
  | some failure => .error failure
  | none => .ok a

/-! ## Locks -/

/-- `physical_lock`. -/
def physicalLock {α : Type} (pid : Nat) (body : Call α) : Call α := do
  .action fun s _ => match s.physical with
    | some _ => (s, none, .error (.snapshotError
        "Deferred: shared physical snapshot operation in progress"))
    | none => ({ s with physical := some pid }, none, .ok ())
  body.andFinally (.action fun s _ => ({ s with physical := none }, none, .ok ()))

/-- `scope_lock`. -/
def scopeLock {α : Type} (pid : Nat) (project : String) (body : Call α) : Call α := do
  .action fun s _ => match s.locks project with
    | some _ => (s, none, .error (.snapshotError "Deferred: snapshot operation already in progress"))
    | none => ({ s with locks := Function.update s.locks project (some pid) }, none, .ok ())
  body.andFinally
    (.action fun s _ => ({ s with locks := Function.update s.locks project none }, none, .ok ()))

/-- The host gives back the locks of a process that dies. -/
def releaseLocks (pid : Nat) (s : Store) : Store :=
  { s with
    physical := if s.physical = some pid then none else s.physical
    locks := fun project => if s.locks project = some pid then none else s.locks project }

/-! ## Manifests -/

/-- `_load_manifest`. -/
def loadManifest (project : String) : Call (List QuickSnapshot) :=
  look fun s w => raised w (newestFirst (s.manifest project))

/-- `_save_manifest`: the file is replaced, or stays as it is. -/
def saveManifest (project : String) (entries : List QuickSnapshot) : Call Unit :=
  .action fun s w => match w.failure with
    | some failure => (s, none, .error failure)
    | none => (s.setManifest project entries, none, .ok ())

/-- One manifest after the other. -/
def readManifests : List String → Call (List QuickSnapshot)
  | [] => pure []
  | project :: projects => do
    let entries ← look fun s w => raised w (s.manifest project)
    let rest ← readManifests projects
    pure (entries ++ rest)

/-- `all_entries`. -/
def allEntries : Call (List QuickSnapshot) := do
  let projects ← look fun s w => raised w (s.manifests.map Prod.fst)
  readManifests projects

/-- An exception becomes a value. -/
def attempt {α : Type} (c : Call α) : Call (Except Failure α) :=
  Script.tryCatch (c >>= fun a => pure (.ok a)) fun e => pure (.error e)

/-! ## Capture -/

/-- What a capture is called with, and where the host puts it. -/
structure CaptureArgs where
  name : Option String
  projectId : String
  repoRoot : Path
  scopePath : Path
  /-- `_capture_boundary` -/
  boundary : Path
  /-- the project below the boundary -/
  relative : Path
  /-- how this process spells the workspace root -/
  spelling : Path
  /-- `_snapshot_id` -/
  snapshotId : String
  source : String
  now : Int

/-- `_AUTO_SOURCE_PREFIX`. -/
def isAuto (source : String) : Bool := Str.startswith source "auto-"

section

variable (host : Host)

/-- The first of the newest, as `max` finds it. -/
def latest (entries : List QuickSnapshot) : Option QuickSnapshot :=
  entries.foldl (fun best entry =>
    match best with
    | none => some entry
    | some b => if b.createdAt < entry.createdAt then some entry else some b) none

/-- `latest_physical_point`. -/
def latestPhysicalPoint (boundary : Path) : Call (Option QuickSnapshot) := do
  let entries ← allEntries
  look fun s w => raised w (latest (entries.filter fun entry =>
    entry.captureRoot = some boundary && pointKey host entry.snapshotPath ∈ s.points))

/-- `recent`. -/
def recent (now : Int) (point : QuickSnapshot) : Bool := now - point.createdAt < 15 * 60 * 1000000

/-- The entry of a captured tree; a capture that shares a point knows its digest. -/
def describe (args : CaptureArgs) (id : String) (path : Path) (capturedAt : Int)
    (digest : Option String) (shared : Bool) : Call QuickSnapshot :=
  look fun _ w => match w.failure with
    | some failure => .error failure
    | none =>
      if w.capturedHead = none then
        .error (.snapshotError "Snapshots require a repository with at least one commit.")
      else .ok {
        id := id
        name := args.name
        projectId := args.projectId
        repoRoot := args.repoRoot
        scopePath := args.scopePath
        scopeType := "project"
        scopeName := args.projectId
        snapshotPath := path
        headOid := w.capturedHead
        createdAt := capturedAt
        source := args.source
        lastRecoveredAt := none
        recoveryPath := none
        captureRoot := some args.boundary
        projectRelativePath := args.relative
        sourceDigest := digest.or w.capturedDigest
        unfinished := some w.dirty
        pinReason := none
        pinUntil := none
        recoveryActive := false
        deletionError := none
        sharedCapture := shared
        recoveryCopies := [] }

/-- The entry before there is anything to describe: the reservation of a capture, and what
    is left of one that failed early. -/
def incomplete (args : CaptureArgs) (path : Path) (deletionError : Option String) :
    QuickSnapshot where
  id := args.snapshotId
  name := args.name
  projectId := args.projectId
  repoRoot := args.repoRoot
  scopePath := args.scopePath
  scopeType := "project"
  scopeName := args.projectId
  snapshotPath := path
  headOid := none
  createdAt := args.now
  source := "auto-incomplete"
  lastRecoveredAt := none
  recoveryPath := none
  captureRoot := some args.boundary
  projectRelativePath := args.relative
  sourceDigest := none
  unfinished := some false
  pinReason := none
  pinUntil := none
  recoveryActive := false
  deletionError := deletionError
  sharedCapture := false
  recoveryCopies := []

/-- The end of a capture: the entry goes into the manifest unless there is nothing new. -/
def recordCapture (args : CaptureArgs) (snapshot : QuickSnapshot) (reuse : Bool) : Call Unit := do
  let existing ← loadManifest args.projectId
  if reuse && existing.any (fun entry => entry.id = snapshot.id) then
    throw (.snapshotError
      "Skipped: saved source unchanged; existing view and recovery catalogue retained")
  else
    let entries := existing.filter fun entry => entry.id ≠ snapshot.id
    if isAuto args.source && (entries.head?.map fun entry => (entry.sourceDigest, entry.headOid)) =
        some (snapshot.sourceDigest, snapshot.headOid) then
      throw (.snapshotError "Skipped: saved source unchanged after capture")
    else saveManifest args.projectId (entries ++ [snapshot])

/-- `capture_snapshot` where the latest point of the boundary is recent: the project gets a
    view of it, if it contains the same saved work. -/
def captureShared (args : CaptureArgs) (previous : QuickSnapshot) : Call QuickSnapshot := do
  let digest ← look fun _ w => match w.failure with
    | some failure => .error failure
    | none =>
      if previous.sourceDigest.getD "" = "" then .error (.snapshotError
        "Deferred: latest shared boundary capture is incomplete; physical captures are bounded to one per 15 minutes")
      else if w.capturedDigest = none ∨ some w.liveDigest ≠ w.capturedDigest ∨
          w.liveHead ≠ w.capturedHead then .error (.snapshotError
        "Deferred: shared boundary captured within 15 minutes does not contain these latest saved edits; one physical point per boundary/15 minutes, next sweep will retry")
      else .ok w.capturedDigest
  let snapshot ← describe args previous.id previous.snapshotPath previous.createdAt digest true
  recordCapture args snapshot true
  pure snapshot

/-- `_delete_rejected_point`. -/
def deleteRejectedPoint (path : Path) (batch : List QuickSnapshot) : Call Unit :=
  .action fun s w =>
    let key := pointKey host path
    if key ∉ s.points then (s, none, .ok ())
    else match w.failure with
      | some failure => (s, none, .error failure)
      | none => ({ s with points := s.points.filter (· ≠ key) }, some ⟨key, batch⟩, .ok ())

/-- A capture failed after its reservation: its point goes, or stays on record. -/
def rejectCapture (args : CaptureArgs) (path : Path) (snapshot : Option QuickSnapshot)
    (captureError : Failure) : Call QuickSnapshot := do
  let reservation := incomplete args path (some "Capture metadata pending")
  match ← attempt (deleteRejectedPoint host path [reservation]) with
  | .error deletionError =>
    let message := "Capture not accepted: " ++ captureError.message ++ "; cleanup failed: " ++
      deletionError.message
    let snapshot := { snapshot.getD (incomplete args path none) with deletionError := some message }
    let entries ← loadManifest args.projectId
    saveManifest args.projectId ((entries.filter fun entry => entry.id ≠ snapshot.id) ++ [snapshot])
    throw (.snapshotError message)
  | .ok () =>
    let entries ← loadManifest args.projectId
    saveManifest args.projectId (entries.filter fun entry => entry.id ≠ args.snapshotId)
    throw captureError

/-- `_snapshot_subvolume`. -/
def snapshotSubvolume (path : Path) : Call Unit :=
  .action fun s w => match w.failure with
    | some failure => (s, none, .error failure)
    | none => ({ s with points := pointKey host path :: s.points }, none, .ok ())

/-- `capture_snapshot` where it makes a point: the entry is reserved first. -/
def captureFresh (args : CaptureArgs) : Call QuickSnapshot := do
  let path := snapshotDestination args.spelling args.projectId args.snapshotId
  -- not enough space, or the path is taken
  look fun s w =>
    if pointKey host path ∈ s.points then
      .error (.snapshotError ("Snapshot path already exists: " ++ "/".intercalate path))
    else raised w ()
  let pending ← loadManifest args.projectId
  saveManifest args.projectId
    (pending ++ [incomplete args path (some "Capture metadata pending")])
  let captured ← attempt do
    snapshotSubvolume host path
    describe args args.snapshotId path args.now none false
  match captured with
  | .error e => rejectCapture host args path none e
  | .ok snapshot =>
    Script.tryCatch (do
      recordCapture args snapshot false
      pure snapshot) fun e => rejectCapture host args path (some snapshot) e

/-- The point an automatic capture may share, if it is recent. -/
def previousPoint (args : CaptureArgs) : Call (Option QuickSnapshot) :=
  if isAuto args.source then latestPhysicalPoint host args.boundary else pure none

/-- `capture_snapshot`. -/
def captureSnapshot (pid : Nat) (args : CaptureArgs) : Call QuickSnapshot :=
  physicalLock pid <| scopeLock pid args.projectId do
    -- `git_transaction_clear`, `inventory_nested` and `require_complete_project`
    look fun _ w => raised w ()
    let previous ← previousPoint host args
    match previous.filter (recent args.now) with
    | some previous => captureShared args previous
    | none => captureFresh host args

end

/-! ## Recovery -/

/-- `_find_snapshot`. -/
def findSnapshot (target : String) (entries : List QuickSnapshot) :
    Except Failure QuickSnapshot :=
  let missing := Failure.snapshotError
    ("Snapshot '" ++ target ++ "' was not found for the current scope.")
  let named : Except Failure QuickSnapshot :=
    match (entries.find? fun entry => entry.id = target).or
        ((entries.find? fun entry => entry.name = some target).or
          (entries.find? fun entry => Str.startswith entry.id target)) with
    | some entry => .ok entry
    | none => .error missing
  if entries = [] then .error (.snapshotError "No snapshots found for the current scope.")
  else match target.toList with
    | '-' :: digits =>
      if digits ≠ [] ∧ digits.all Char.isDigit then
        -- `-0` is the last entry, as index -1 is
        let found := match Nat.ofDigitChars 10 digits 0 with
          | 0 => entries.getLast?
          | n + 1 => entries[n]?
        match found with
        | some entry => .ok entry
        | none => .error (.snapshotError ("Snapshot index " ++ target ++ " is out of range."))
      else named
    | _ => named

/-- The entry changes where it is. -/
def updateEntry (id : String) (f : QuickSnapshot → QuickSnapshot) (entries : List QuickSnapshot) :
    List QuickSnapshot :=
  entries.map fun entry => if entry.id = id then f entry else entry

/-- `_recovery_name`. -/
def recoveryName (name : Option String) (snapshot : QuickSnapshot) : String :=
  match name with
  | some name => sanitizeLabel name
  | none => String.ofList ((sanitizeLabel ("recover-" ++ snapshot.name.getD snapshot.id)).toList.take 80)

section

variable (host : Host)

/-- `recover_snapshot` once it has found the entry: the catalogue row comes before the
    copy. -/
def copyPoint (entries : List QuickSnapshot) (snapshot : QuickSnapshot) (projectId : String)
    (spelling : Path) (name : Option String) (now : Int) : Call Unit := do
  -- the point is there and read-only, and the destination is not there
  look fun s w =>
    if pointKey host snapshot.snapshotPath ∈ s.points then raised w ()
    else .error (.snapshotError
      ("Snapshot path is missing: " ++ "/".intercalate snapshot.snapshotPath))
  let destination := spelling ++ [".snapshots", "recoveries", projectId, recoveryName name snapshot]
  let actual := destination ++ snapshot.projectRelativePath
  let record : Copy := {
    rootPath := destination
    projectPath := actual
    createdAt := now
    active := true
    releasedAt := none
    deletedAt := none
    deletionError := none }
  saveManifest projectId (updateEntry snapshot.id (fun entry => { entry with
    recoveryCopies := recoveryCatalogue snapshot ++ [record], recoveryActive := true }) entries)
  match ← attempt (look fun _ w => raised w ()) with
  | .error e =>
    let failed := { record with
      active := false, releasedAt := some now, deletionError := some e.message }
    saveManifest projectId (updateEntry snapshot.id (fun entry => { entry with
      recoveryCopies := recoveryCatalogue snapshot ++ [failed], recoveryActive := false }) entries)
    throw e
  | .ok () =>
    saveManifest projectId (updateEntry snapshot.id (fun entry => { entry with
      lastRecoveredAt := some now
      recoveryPath := some actual
      recoveryActive := true
      pinReason := if snapshot.pinReason.getD "" = "" then some "active recovery"
        else snapshot.pinReason
      recoveryCopies := recoveryCatalogue snapshot ++ [record] }) entries)

/-- `recover_snapshot`. -/
def recoverSnapshot (pid : Nat) (target projectId : String) (scopePath spelling : Path)
    (name : Option String) (now : Int) : Call Unit :=
  scopeLock pid projectId do
    let entries ← loadManifest projectId
    let snapshot ← look fun _ _ => findSnapshot target entries
    if snapshot.scopePath ≠ scopePath ∨ snapshot.scopeType ≠ "project" then
      throw (.snapshotError "Recovery requires the matching project scope")
    else if hasCopy snapshot then
      throw (.snapshotError
        "Recovery copy already catalogued; release and prune its tracked copy before creating another")
    else copyPoint host entries snapshot projectId spelling name now

/-- `release_recovery`. -/
def releaseRecovery (pid : Nat) (target projectId : String) (now : Int) : Call Unit :=
  scopeLock pid projectId do
    let entries ← loadManifest projectId
    let snapshot ← look fun _ _ => findSnapshot target entries
    let copies := (recoveryCatalogue snapshot).map fun copy =>
      if copy.deletedAt = none then
        { copy with active := false, releasedAt := some (copy.releasedAt.getD now) }
      else copy
    let held := snapshot.pinReason = some "active recovery"
    saveManifest projectId (updateEntry snapshot.id (fun entry => { entry with
      recoveryActive := false
      pinReason := if held then none else snapshot.pinReason
      pinUntil := if held then none else snapshot.pinUntil
      recoveryCopies := copies }) entries)

end

end SummitFlow.Snapshots
