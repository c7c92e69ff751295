import SummitFlow.ForStd.Dict
import SummitFlow.ForStd.Script
import SummitFlow.ForStd.SortedBy
import Mathlib.Data.String.Basic
import SummitFlow.Utils.HeavyWork

/-!
# Managed releases

Model of `backend/cli/lib/service_release.py` as scripts of atomic steps on the service state
of one project.  A release stands under its build id, and so does its receipt.  Every step can
raise; a change can also be made before the exception comes.

The seal of a receipt holds and what is there can be read.  What lies in a release, the times
in a receipt and the evidence that nothing reads are left out; the state root is a path without
symbolic links.
-/

namespace SummitFlow.ServiceRelease

open SummitFlow.HeavyWork (isHex32)

/-! ## Exceptions -/

/-- The exceptions, as far as the code tells them apart. -/
inductive Exc where
  /-- `ReleaseError` -/
  | release (message : String)
  /-- `ServiceError` -/
  | service (message : String)
  /-- `typer.Exit` -/
  | exit (code : Int)
  /-- `OSError` -/
  | os
  /-- `subprocess.TimeoutExpired` -/
  | timeout
  /-- any other `Exception` -/
  | other
  /-- what is no `Exception`, such as `KeyboardInterrupt` -/
  | interrupt
deriving DecidableEq, Repr

/-- `isinstance(exc, ReleaseError)`. -/
def Exc.isRelease : Exc → Bool
  | .release _ => true
  | _ => false

/-- `isinstance(exc, (ServiceError, ReleaseError))`. -/
def Exc.isDeployment : Exc → Bool
  | .release _ => true
  | .service _ => true
  | _ => false

/-- `isinstance(exc, typer.Exit)`. -/
def Exc.isExit : Exc → Bool
  | .exit _ => true
  | _ => false

/-- `isinstance(exc, Exception)`. -/
def Exc.isException : Exc → Bool
  | .interrupt => false
  | _ => true

/-! ## Accepted sources -/

/-- What `from_descriptor` reads; `converts` says that the fields that are only recorded have
    the types they should. -/
structure Descriptor where
  acceptanceId : Option String
  sourceCommit : Option String
  sourceTree : Option String
  coverage : Option String
  converts : Bool
deriving DecidableEq, Repr

structure AcceptedSource where
  acceptanceId : String
  sourceCommit : String
  sourceTree : String
  coverage : Option String
deriving DecidableEq, Repr

/-- A field that must be there. -/
def required (name : String) (value : Option String) : Except Exc String :=
  match value with
  | some text => .ok text
  | none => .error (.release ("Accepted source is missing " ++ name))

/-- `AcceptedSource.from_descriptor`. -/
def AcceptedSource.fromDescriptor (requireFull : Bool) (d : Descriptor) :
    Except Exc AcceptedSource :=
  if (requireFull || d.coverage.isSome) && d.coverage != some "full" then
    .error (.release ("Managed releases require full acceptance coverage (received " ++
      (if d.coverage.getD "" = "" then "unknown" else d.coverage.getD "") ++ ")"))
  else do
    let acceptanceId ← required "acceptance_id" d.acceptanceId
    let sourceCommit ← required "source_commit" d.sourceCommit
    let sourceTree ← required "source_tree" d.sourceTree
    if !d.converts then .error (.release "Accepted source identity is invalid")
    else if acceptanceId = "" ∨ sourceCommit = "" ∨ sourceTree = "" then
      .error (.release "Accepted source identity is incomplete")
    else .ok ⟨acceptanceId, sourceCommit, sourceTree, d.coverage⟩

/-- `PreparedRelease`; its paths follow from the build id. -/
structure PreparedRelease where
  buildId : String
  source : AcceptedSource
deriving DecidableEq, Repr

/-! ## The service state of a project -/

/-- What stands under a name in `releases`; `remains` is a directory that is being removed. -/
inductive Entry where
  | release
  | remains
  | file
  | link
deriving DecidableEq, Repr

/-- `current` or `previous`: nothing, no symbolic link, or a link to a name in `releases` or to
    somewhere else. -/
inductive Pointer where
  | absent
  | plain
  | link (target : Option String)
deriving DecidableEq, Repr

inductive PointerName where
  | current
  | previous
deriving DecidableEq, Repr

def PointerName.name : PointerName → String
  | .current => "current"
  | .previous => "previous"

inductive ReceiptState where
  | prepared
  | succeeded
  | failed
deriving DecidableEq, Repr

def ReceiptState.name : ReceiptState → String
  | .prepared => "prepared"
  | .succeeded => "succeeded"
  | .failed => "failed"

structure Event where
  phase : String
  status : String
  scope : Option String
deriving DecidableEq, Repr

structure Receipt where
  state : ReceiptState
  source : AcceptedSource
  previousUsable : Option String
  migrations : String
  failedPhase : Option String
  events : List Event
deriving DecidableEq, Repr

/-- What no step reads: the processes that replaced `current`, and those of them whose handlers
    then got an exception other than `typer.Exit`. -/
structure History where
  switched : List Nat
  strayed : List Nat
deriving DecidableEq, Repr

/-- The service state; `lock` is the process that holds `deployment.lock`. -/
structure State where
  releases : List (String × Entry)
  receipts : String → Option Receipt
  current : Pointer
  previous : Pointer
  lock : Option Nat
  history : History

def State.pointer (s : State) : PointerName → Pointer
  | .current => s.current
  | .previous => s.previous

/-- A release that a unit or a process uses. -/
inductive Reference where
  | release (name : String)
  | elsewhere
deriving DecidableEq, Repr

/-- What the world answers to a step. -/
structure Answer where
  /-- the exception that the step raises -/
  raised : Option Exc
  /-- the exception comes after the change -/
  made : Bool
  /-- what a command returns -/
  code : Int
  /-- whether what is checked is so -/
  yes : Bool
  /-- a status that is returned -/
  text : String
  descriptor : Descriptor
  references : Option (List Reference)

/-- What a step says it did. -/
inductive Label where
  | step
  /-- `current` was replaced -/
  | switched (rollback : Bool)
  /-- a part of a release was removed while these references were known -/
  | removed (name : String) (references : List Reference)
  /-- the handlers of the rebuild got an exception -/
  | caught (e : Exc)
deriving DecidableEq, Repr

abbrev Step := Script State Answer Label Exc

section

variable {α : Type}

/-- Something outside the service state. -/
def asking (answer : Answer → Except Exc α) : Step α :=
  .action fun s w => (s, .step, match w.raised with
    | some e => .error e
    | none => answer w)

def outside (answer : Answer → α) : Step α := asking fun w => .ok (answer w)

/-- A command, or a function that returns a code. -/
def command : Step Int := outside (·.code)

/-- Output, or another call whose result is not used. -/
def say : Step Unit := outside fun _ => ()

/-- A check of what is outside the model. -/
def check (message : String) : Step Unit :=
  asking fun w => if w.yes then .ok () else .error (.release message)

/-- A read of the service state. -/
def reading (read : State → Except Exc α) : Step α :=
  .action fun s w => (s, .step, match w.raised with
    | some e => .error e
    | none => read s)

/-- An atomic change of the service state, which may be refused. -/
def changing (label : Label) (change : State → Except Exc State) : Step Unit :=
  .action fun s w =>
    match w.raised, change s with
    | none, .ok t => (t, label, .ok ())
    | none, .error e => (s, .step, .error e)
    | some e, .ok t => if w.made then (t, label, .error e) else (s, .step, .error e)
    | some e, .error _ => (s, .step, .error e)

/-- What is known already. -/
def known : Except Exc α → Step α
  | .ok a => pure a
  | .error e => throw e

def whenever (c : Bool) (body : Step Unit) : Step Unit := if c then body else pure ()

/-- `with suppress(...)`. -/
def suppress (p : Exc → Bool) (body : Step Unit) : Step Unit :=
  tryCatch body fun e => if p e then pure () else throw e

end

/-! ## Receipts -/

/-- `_read_receipt`. -/
def readReceipt (release : PreparedRelease) : Step Receipt :=
  reading fun s =>
    match s.receipts release.buildId with
    | some receipt => .ok receipt
    | none => .error (.release ("Release receipt unavailable: " ++ release.buildId))

/-- `_write_receipt`: the file is replaced. -/
def writeReceipt (buildId : String) (receipt : Receipt) : Step Unit :=
  changing .step fun s => .ok { s with receipts := Function.update s.receipts buildId (some receipt) }

/-- What `mark_phase` makes of a receipt. -/
def Receipt.mark (receipt : Receipt) (phase status : String) (scope : Option String) : Receipt :=
  { receipt with
    events := receipt.events ++ [⟨phase, status, scope⟩]
    migrations := if phase = "migrations" then status else receipt.migrations }

/-- `mark_phase`. -/
def markPhase (release : PreparedRelease) (phase status : String) (scope : Option String) :
    Step Unit := do
  let receipt ← readReceipt release
  writeReceipt release.buildId (receipt.mark phase status scope)

/-- What `fail_release` makes of a receipt. -/
def Receipt.fail (receipt : Receipt) (failedPhase : String) (migrations : Option String) : Receipt :=
  { receipt with
    state := .failed
    failedPhase := some failedPhase
    migrations := migrations.getD receipt.migrations
    events :=
      if receipt.events.getLast?.map (fun e => (e.phase, e.status)) = some (failedPhase, "failed")
      then receipt.events else receipt.events ++ [⟨failedPhase, "failed", none⟩] }

/-- `fail_release`. -/
def failRelease (release : PreparedRelease) (failedPhase : String) (migrations : Option String) :
    Step Unit := do
  let receipt ← readReceipt release
  writeReceipt release.buildId (receipt.fail failedPhase migrations)

/-- `previous_source_root`: the release that holds it. -/
def previousSourceRoot (release : PreparedRelease) : Step (Option String) := do
  let receipt ← readReceipt release
  match receipt.previousUsable with
  | none => pure none
  | some "" => pure none
  | some buildId => do
    check "Previous usable release is unavailable"
    pure (some buildId)

/-! ## Pointers -/

/-- `_current_build`.  A link in `releases` is taken to lead out of it. -/
def currentBuild (s : State) : Except Exc (Option String) :=
  let outOfRoot := Exc.release "Managed current release points outside the release root"
  match s.current with
  | .absent => .ok none
  | .plain => .ok none
  | .link none => .error outOfRoot
  | .link (some name) =>
    match s.releases.lookup name with
    | none => .ok none
    | some .link => .error outOfRoot
    | some _ => .ok (some name)

/-- `build_commit`. -/
def buildCommit (s : State) (buildId : String) : Option String :=
  match s.receipts buildId with
  | none => none
  | some receipt => if receipt.source.sourceCommit = "" then none else some receipt.source.sourceCommit

/-- `current_release_commit`. -/
def currentReleaseCommit (s : State) : Except Exc (Option String) := do
  match ← currentBuild s with
  | none => return none
  | some buildId => return buildCommit s buildId

/-- `_pointer_release`. -/
def pointerRelease (p : PointerName) : Step (Option String) :=
  reading fun s =>
    let unavailable := Exc.release ("Managed release pointer is unavailable: " ++ p.name)
    let leaves := Exc.release ("Managed release pointer leaves the release root: " ++ p.name)
    match s.pointer p with
    | .absent => .ok none
    | .plain => .error (.release ("Managed release pointer is not a symlink: " ++ p.name))
    | .link none => .error leaves
    | .link (some name) =>
      match s.releases.lookup name with
      | none => .error unavailable
      | some .file => .error leaves
      | some .link => .error leaves
      | some _ => if isHex32 name.toList then .ok (some name) else .error leaves

/-- `_replace_symlink(previous, ...)`. -/
def replacePrevious (name : String) : Step Unit :=
  changing .step fun s => .ok { s with previous := .link (some name) }

/-- `_replace_symlink(current, ...)`. -/
def replaceCurrent (pid : Nat) (rollback : Bool) (name : String) : Step Unit :=
  changing (.switched rollback) fun s => .ok { s with
    current := .link (some name)
    history := { s.history with switched := pid :: s.history.switched } }

/-! ## Preparing a release -/

/-- Which commits contain which. -/
structure Ancestry where
  isAncestor : String → String → Bool
  refl : ∀ c, isAncestor c c = true
  trans : ∀ c d e, isAncestor c d = true → isAncestor d e = true → isAncestor c e = true
  antisymm : ∀ c d, isAncestor c d = true → isAncestor d c = true → c = d

/-- `text[:12]`. -/
def short (commit : String) : String := String.ofList (commit.toList.take 12)

/-- The message of a commit that does not contain the live one. -/
def notForward (project commit current unknown : String) : String :=
  "deploy_not_forward: " ++ short commit ++ " does not contain the live release " ++ short current ++
    unknown ++ ", so deploying it would drop deployed commits; to roll back, git revert the bad " ++
    "commits and deploy the new HEAD, which contains the live release, or deploy this older " ++
    "commit on purpose with st service rebuild " ++ project ++ " --rollback"

/-- `git merge-base --is-ancestor current commit`, where git can tell. -/
def mergeBase (git : Ancestry) (current commit : String) : Step Int :=
  outside fun w => if !w.yes then 128 else if git.isAncestor current commit then 0 else 1

/-- `require_forward_deploy`. -/
def requireForwardDeploy (git : Ancestry) (project commit : String) (rollback : Bool) : Step Unit := do
  match ← reading currentReleaseCommit with
  | none => pure ()
  | some current =>
    if rollback || current == commit then pure ()
    else do
      let code ← mergeBase git current commit
      if code = 0 then pure ()
      else throw (.release (notForward project commit current
        (if code ≠ 1 then " (it is not in this checkout's history)" else "")))

/-- `os.replace(staging, release_root)`. -/
def installRelease (buildId : String) : Step Unit :=
  changing .step fun s =>
    match s.releases.lookup buildId with
    | some _ => .error .os
    | none => .ok { s with releases := Dict.set buildId .release s.releases }

/-- The receipt of a new release. -/
def Receipt.prepared (source : AcceptedSource) (previousUsable : Option String) : Receipt where
  state := .prepared
  source := source
  previousUsable := previousUsable
  migrations := "not_started"
  failedPhase := none
  events := [⟨"prepared", "succeeded", none⟩]

/-- `_materialize_release`; the staging directory is no release. -/
def materializeRelease (uuid : String) (source : Descriptor) : Step PreparedRelease := do
  let accepted ← known (AcceptedSource.fromDescriptor false source)
  check "Accepted source commit identity mismatch"
  check "Accepted source tree identity mismatch"
  check "Service state root must be outside the development checkout"
  say
  check "Accepted source could not be archived"
  say
  installRelease uuid
  let previousUsable ← reading currentBuild
  writeReceipt uuid (.prepared accepted previousUsable)
  pure ⟨uuid, accepted⟩

/-- `prepare_release`; the repo lock and the receipt of the acceptance are outside. -/
def prepareRelease (git : Ancestry) (project uuid : String) (rollback : Bool) :
    Step PreparedRelease := do
  say
  let descriptor ← outside (·.descriptor)
  let _ ← known (AcceptedSource.fromDescriptor true descriptor)
  let commit ← known (required "source_commit" descriptor.sourceCommit)
  requireForwardDeploy git project commit rollback
  materializeRelease uuid descriptor

/-! ## Pruning -/

/-- `_release_in_use`. -/
def releaseInUse : Step Bool := outside (·.yes)

/-- The release a service reference names. -/
def resolveReference (reference : Reference) : Step String :=
  reading fun s =>
    let notReal := Exc.release "Service release reference is not a real directory"
    let outOfStorage := Exc.release "Service release reference is outside managed release storage"
    match reference with
    | .elsewhere => .error outOfStorage
    | .release name =>
      match s.releases.lookup name with
      | none => .error .os
      | some .link => .error notReal
      | some .file => .error outOfStorage
      | some _ => if isHex32 name.toList then .ok name else .error outOfStorage

def resolveReferences : List Reference → Step (List String)
  | [] => pure []
  | reference :: rest => do
    let name ← resolveReference reference
    return name :: (← resolveReferences rest)

/-- The entries of `releases` that are not protected. -/
def candidatesOf (kept : List String) : List (String × Entry) → Except Exc (List String)
  | [] => .ok []
  | (name, entry) :: rest =>
    if !isHex32 name.toList then candidatesOf kept rest
    else if entry = .file ∨ entry = .link then
      .error (.release "Managed release entry is not a real directory")
    else do
      let names ← candidatesOf kept rest
      return if name ∈ kept then names else name :: names

/-- What may be removed. -/
def pruneCandidates (release : PreparedRelease) (references : List Reference) :
    Step (List String) := do
  reading fun s =>
    match s.releases.lookup release.buildId with
    | none => .error .os
    | some entry =>
      if entry = .link ∨ !isHex32 release.buildId.toList then
        .error (.release "Completed release path is outside managed release storage")
      else .ok ()
  let current ← pointerRelease .current
  let previous ← pointerRelease .previous
  let named ← resolveReferences references
  reading fun s => candidatesOf (release.buildId :: current.toList ++ previous.toList ++ named) s.releases

/-- `shutil.rmtree(candidate)`: what is left of it is gone last. -/
def removeTree (references : List Reference) (name : String) : Step Unit := do
  changing (.removed name references) fun s =>
    match s.releases.lookup name with
    | none => .error .os
    | some _ => .ok { s with releases := Dict.set name .remains s.releases }
  changing (.removed name references) fun s =>
    .ok { s with releases := s.releases.filter fun e => e.1 ≠ name }

def removeCandidates (references : List Reference) : List String → Step (List String)
  | [] => pure []
  | name :: rest => do
    if ← releaseInUse then do
      say
      removeCandidates references rest
    else do
      let removed ← tryCatch (do removeTree references name; pure true) fun e =>
        if e = .os then pure false else throw e
      if removed then do
        say
        return name :: (← removeCandidates references rest)
      else do
        say
        pure []

/-- `prune_old_releases`. -/
def pruneOldReleases (release : PreparedRelease) (serviceReferences : Option (List Reference)) :
    Step (List String) :=
  match serviceReferences with
  | none => do
    say
    pure []
  | some references => do
    let candidates ← tryCatch (do return some (← pruneCandidates release references)) fun e =>
      if e = .os ∨ e.isRelease = true then do
        say
        pure none
      else throw e
    match candidates with
    | none => pure []
    | some names => removeCandidates references (sortBy id names)

/-! ## Completing a release -/

/-- One run of `_smoke_test_st`. -/
def smokeRun (arguments : String) : Step Unit := do
  let message := "Release st smoke test failed (" ++ arguments ++ ")"
  let code ← tryCatch command fun e =>
    if e = .os ∨ e = .timeout then throw (.release message) else throw e
  if code = 0 then pure () else throw (.release message)

/-- `_smoke_test_st`. -/
def smokeTestSt : Step Unit := do
  smokeRun "--help"
  smokeRun "lease --list --all"

/-- What `complete_release` makes of a receipt. -/
def Receipt.complete (receipt : Receipt) : Receipt :=
  { receipt with
    state := .succeeded
    events := receipt.events ++ [⟨"completed", "succeeded", none⟩] }

/-- `complete_release`, in a run with or without `rollback`. -/
def completeRelease (project : String) (pid : Nat) (rollback : Bool) (release : PreparedRelease)
    (serviceReferences : Option (List Reference)) : Step Unit := do
  let receipt ← readReceipt release
  let oldTarget ← pointerRelease .current
  let _ ← pointerRelease .previous
  whenever (project == "summitflow") smokeTestSt
  match oldTarget with
  | none => pure ()
  | some old => replacePrevious old
  replaceCurrent pid rollback release.buildId
  let previousUsable := match oldTarget with
    | none => receipt.previousUsable
    | some old => some old
  writeReceipt release.buildId { receipt with previousUsable := previousUsable }.complete
  let _ ← pruneOldReleases release serviceReferences

/-- The phases that a successful deployment has been through. -/
def requiredPhases : List String :=
  ["backend_dependencies", "frontend_build", "systemd_units", "restart", "health", "seeds",
    "completed"]

/-- The manual-worker scope is recorded. -/
def Receipt.manual (receipt : Receipt) : Bool :=
  receipt.events.any fun e => e.phase == "deployment_scope" && e.scope == some "manual"

/-- An event that is evidence of its phase. -/
def Receipt.succeeds (receipt : Receipt) (e : Event) : Bool :=
  e.status == "succeeded" || (receipt.manual && e.phase == "seeds" && e.status == "not_applicable")

/-- `validate_deployment_receipt` up to the source root. -/
def validateDeploymentReceipt (receipt : Receipt) (requireSuccess : Bool)
    (sourceCommit : Option String) : Except Exc Unit := do
  let accepted ← AcceptedSource.fromDescriptor false ⟨some receipt.source.acceptanceId,
    some receipt.source.sourceCommit, some receipt.source.sourceTree, receipt.source.coverage, true⟩
  if requireSuccess && receipt.state != .succeeded then
    throw (.release "Deployment receipt is not successful")
  if requireSuccess then
    if !(requiredPhases.all fun phase =>
        receipt.events.any (fun e => e.phase == phase && receipt.succeeds e) &&
          !(receipt.events.any fun e => e.phase == phase && e.status == "failed")) then
      throw (.release "Deployment receipt is missing successful lifecycle evidence")
    if receipt.migrations ≠ "succeeded" ∧ receipt.migrations ≠ "not_applicable" then
      throw (.release "Deployment receipt has no successful migration evidence")
  if sourceCommit.isSome && sourceCommit != some accepted.sourceCommit then
    throw (.release "Deployment receipt source commit mismatch")

/-- `publish_deployment_result`; `result` says whether a result file is wanted. -/
def publishDeploymentResult (release : PreparedRelease) (result : Bool) : Step Unit := do
  let receipt ← readReceipt release
  known (validateDeploymentReceipt receipt true (some release.source.sourceCommit))
  check "Deployment receipt points into the development checkout"
  whenever result do
    let _ ← readReceipt release
    say

/-! ## The deployment lock -/

/-- The lock is taken, or held by another rebuild. -/
def takeLock (project : String) (pid : Nat) : Step Unit :=
  .action fun s w =>
    match w.raised, s.lock with
    | some e, _ => (s, .step, .error e)
    | none, some _ =>
      (s, .step, .error (.release ("Managed deployment already in progress for " ++ project)))
    | none, none => ({ s with lock := some pid }, .step, .ok ())

/-- The process gives up the lock, if it holds it; so does one that dies. -/
def unlocked (pid : Nat) (s : State) : State :=
  if s.lock = some pid then { s with lock := none } else s

end SummitFlow.ServiceRelease
