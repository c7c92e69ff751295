import SummitFlow.ForStd.Session
import SummitFlow.ForStd.Dict
import SummitFlow.Python.PosixPath

/-!
# The privileged collector deployment

Model of `backend/cli/lib/host_monitor_deploy.py`: `install`, `rollback` and `finalize` as
scripts of atomic steps, each of which can fail.  Of a step that fails without having told
so, the effect may have taken place.  Contents of releases, of the state directory and of the
legacy store are left out, and so is the time in a receipt.
-/

namespace SummitFlow.HostMonitorDeploy

/-! ## Units -/

/-- `INSTALL / "releases" / name`. -/
def releasePath (name : String) : String :=
  "/usr/local/lib/summitflow-host-monitor/releases/" ++ name

/-- `STATE`. -/
def statePath : String := "/var/lib/summitflow/monitor"

/-- `UNIT_TEMPLATE.format(...)`, line by line. -/
def unitLines (uid gid : Nat) (release : String) : List String :=
  ["[Unit]",
    "Description=SummitFlow system host monitor",
    "After=local-fs.target",
    "",
    "[Service]",
    "Type=simple",
    "User=" ++ toString uid,
    "Group=" ++ toString gid,
    "SupplementaryGroups=adm",
    "WorkingDirectory=" ++ release,
    "Environment=\"PATH=/usr/sbin:/usr/bin:/sbin:/bin\"",
    "Environment=XDG_RUNTIME_DIR=/run/user/" ++ toString uid,
    "Environment=DBUS_SESSION_BUS_ADDRESS=unix:path=/run/user/" ++ toString uid ++ "/bus",
    "ExecStart=" ++ release ++ "/summitflow-host-monitor --state-dir " ++ statePath ++
      " --project-identity " ++ release ++ "/project.identity.json --policy-snapshot " ++ release ++
      "/policy.json --owner-uid " ++ toString uid ++ " --owner-gid " ++ toString gid ++
      " --observe-helper " ++ release ++ "/monitor-observe.pyz",
    "Restart=on-failure",
    "RestartSec=5",
    "UMask=0077",
    "NoNewPrivileges=yes",
    "CapabilityBoundingSet=",
    "ProtectSystem=strict",
    "ProtectHome=read-only",
    "ReadWritePaths=" ++ statePath,
    "RestrictAddressFamilies=AF_UNIX AF_INET AF_INET6 AF_NETLINK",
    "StandardOutput=journal",
    "StandardError=journal",
    "SyslogIdentifier=summitflow-host-monitor",
    "",
    "[Install]",
    "WantedBy=multi-user.target"]

/-- The text of the unit. -/
def unitText (uid gid : Nat) (release : String) : String :=
  String.join ((unitLines uid gid release).map (· ++ "\n"))

/-- `Path(path).parent`. -/
def parent (path : String) : String :=
  let head := PosixPath.dirname (PosixPath.pathStr path)
  if head = "" then "." else head

/-- The lines that say what a unit runs. -/
def execLines (unit : String) : List String :=
  (Str.splitlines unit).filter fun line => Str.startswith line "ExecStart="

/-- The directory of what such a line runs, unless it runs nothing. -/
def execDir (line : String) : Option String :=
  ((Str.wordsAux [] (Str.removeprefix line "ExecStart=").toList).head?).map fun word =>
    parent (String.ofList word)

/-- The directories that a unit runs from. -/
def execDirs (unit : String) : List String := (execLines unit).filterMap execDir

/-! ## The host -/

inductive Status where
  | pending
  | activated
  | complete
  | rolledBack
deriving DecidableEq, Repr

/-- `_SETTLED`. -/
def Status.settled : Status → Bool
  | .complete => true
  | .rolledBack => true
  | .pending => false
  | .activated => false

/-- What a receipt records next to its status. -/
structure Record where
  uid : Nat
  gid : Nat
  source : String
  release : String
  previousUnit : Option String
  systemEnabled : Bool
  systemActive : Bool
  legacyEnabled : Bool
  legacyActive : Bool
  legacy : String
  stateCreated : Bool
deriving DecidableEq, Repr

structure Receipt where
  status : Status
  record : Record
deriving DecidableEq, Repr

/-- The collector in the manager of a user. -/
structure Legacy where
  present : Bool
  enabled : Bool
  active : Bool
deriving DecidableEq, Repr

/-- What a deployment is about: the unit file, its enabled and active state, and the legacy
    collectors. -/
@[ext] structure Observed where
  unit : Option String
  enabled : Bool
  active : Bool
  legacy : Nat → Legacy

/-- What no step reads: the host when a transaction settled last, the release directories that
    are gone, and whether a rollback took a running unit for a stopped one. -/
structure History where
  settled : Observed
  removed : List String
  misread : Bool

/-- The host.  `linked` says that the unit is wanted at boot, `temporaries` are the files that
    an interrupted write leaves. -/
structure Host where
  unit : Option String
  linked : Bool
  active : Bool
  legacy : Nat → Legacy
  stateExists : Bool
  receipts : List (String × Receipt)
  markers : List String
  temporaries : List String
  releases : List String
  history : History

/-- `systemctl is-enabled`: a unit without a file is not enabled. -/
def Host.enabled (h : Host) : Bool := h.linked && h.unit.isSome

def Host.observed (h : Host) : Observed := ⟨h.unit, h.enabled, h.active, h.legacy⟩

/-- The accounts of the machine, and the characters that `str.isalnum` accepts. -/
structure Machine where
  /-- `pwd.getpwuid`: the primary group and the home of an account -/
  account : Nat → Option (Nat × String)
  isAlnum : Char → Bool
  plain : ∀ c, isAlnum c = true → c ≠ '/' ∧ c ≠ '.' ∧ Str.isSpace c = false

/-! ## Steps -/

/-- How a step ends: it is done, a command exits nonzero, or there is an exception; the last
    two may come after its effect. -/
inductive Reply where
  | done
  | failed (applied : Bool)
  | raised (applied : Bool)
deriving DecidableEq, Repr

inductive Failure where
  /-- an error of the program itself -/
  | stop (message : String)
  /-- a command or a file operation -/
  | step
deriving DecidableEq, Repr

abbrev Deploy := Script Host Reply Unit Failure

/-- An effect, as far as it takes place. -/
def Reply.apply (reply : Reply) (effect : Host → Host) (h : Host) : Host :=
  match reply with
  | .done => effect h
  | .failed applied => if applied then effect h else h
  | .raised applied => if applied then effect h else h

/-- A command; its exit code matters when it is checked. -/
def command (check : Bool) (effect : Host → Host) : Deploy Unit :=
  .action fun h reply => (reply.apply effect h, (), match reply with
    | .done => .ok ()
    | .failed _ => if check then .error .step else .ok ()
    | .raised _ => .error .step)

/-- An operation on files, or a checked command. -/
def attempt (effect : Host → Host) : Deploy Unit := command true effect

/-- A check of what is outside the model. -/
def ensure (message : String) : Deploy Unit :=
  .action fun h reply => (h, (), match reply with
    | .done => .ok ()
    | .failed _ => .error (.stop message)
    | .raised _ => .error .step)

/-- What the host looks like; nothing fails. -/
def look {α : Type} (answer : Host → α) : Deploy α :=
  .action fun h _ => (h, (), .ok (answer h))

/-- A command that asks for a state: no is also what it says when it fails. -/
def ask (answer : Host → Bool) : Deploy Bool :=
  .action fun h reply => (h, (), match reply with
    | .done => .ok (answer h)
    | .failed _ => .ok false
    | .raised _ => .error .step)

/-- `UNIT_PATH` in the directory of units. -/
def unitPath : String := "/etc/systemd/system/summitflow-host-monitor.service"

/-- `RECEIPTS / f"{transaction}.json"`. -/
def receiptPath (transaction : String) : String :=
  "/var/lib/summitflow/monitor-deployments/" ++ transaction ++ ".json"

/-- The exclusive creation of `path.next`. -/
def createNext (path : String) : Deploy Unit :=
  .action fun h reply =>
    if path ∈ h.temporaries then (h, (), .error .step)
    else (reply.apply (fun h => { h with temporaries := path :: h.temporaries }) h, (),
      if reply = .done then .ok () else .error .step)

/-- `_write`; `effect` is what the new content at the path means. -/
def write (path : String) (effect : Host → Host) : Deploy Unit := do
  createNext path
  -- the content is written and synced, and its mode set
  attempt id
  attempt fun h => effect { h with temporaries := h.temporaries.filter (· ≠ path) }

/-! ### The unit -/

def writeUnit (text : String) : Deploy Unit := write unitPath fun h => { h with unit := some text }

def unlinkUnit : Deploy Unit := attempt fun h => { h with unit := none }

def daemonReload : Deploy Unit := attempt id

def enableUnit : Deploy Unit := attempt fun h => { h with linked := true }

def disableUnit (check : Bool) : Deploy Unit := command check fun h => { h with linked := false }

def startUnit : Deploy Unit := attempt fun h => { h with active := true }

def stopUnit (check : Bool) : Deploy Unit := command check fun h => { h with active := false }

/-- The state of the unit when a rollback asks whether it still runs. -/
def stillActive : Deploy Bool :=
  .action fun h reply => match reply with
    | .done => (h, (), .ok h.active)
    | .failed _ =>
      ({ h with history := { h.history with misread := h.history.misread || h.active } }, (),
        .ok false)
    | .raised _ => (h, (), .error .step)

/-! ### The legacy collector -/

def setLegacy (uid : Nat) (change : Legacy → Legacy) (h : Host) : Host :=
  { h with legacy := Function.update h.legacy uid (change (h.legacy uid)) }

def enableLegacy (uid : Nat) : Deploy Unit := attempt (setLegacy uid fun l => { l with enabled := true })

def disableLegacy (uid : Nat) : Deploy Unit :=
  attempt (setLegacy uid fun l => { l with enabled := false })

def startLegacy (uid : Nat) : Deploy Unit := attempt (setLegacy uid fun l => { l with active := true })

def stopLegacy (uid : Nat) : Deploy Unit := attempt (setLegacy uid fun l => { l with active := false })

/-! ### Receipts and markers -/

/-- A transaction settles when its receipt says so. -/
def Host.settle (h : Host) (status : Status) : Host :=
  if status.settled then { h with history := { h.history with settled := h.observed } } else h

/-- `_receipt`. -/
def writeReceipt (transaction : String) (receipt : Receipt) : Deploy Unit :=
  write (receiptPath transaction) fun h =>
    { h.settle receipt.status with receipts := Dict.set transaction receipt h.receipts }

def touchMarker (transaction : String) : Deploy Unit :=
  attempt fun h => { h with markers := transaction :: h.markers.filter (· ≠ transaction) }

def unlinkMarker (transaction : String) : Deploy Unit :=
  attempt fun h => { h with markers := h.markers.filter (· ≠ transaction) }

/-- The receipt of a transaction; reading it can fail. -/
def readReceipt (transaction : String) : Deploy (Option Receipt) :=
  .action fun h reply => (h, (),
    if reply = .done then .ok (Dict.get? transaction h.receipts) else .error .step)

/-- Whether the receipt of a marker is settled; one that cannot be read is not. -/
def readSettled (transaction : String) : Deploy Bool :=
  .action fun h reply => (h, (),
    .ok (decide (reply = .done) && (Dict.get? transaction h.receipts).any (·.status.settled)))

def clearMarker (transaction : String) : Deploy Unit := do
  if ← readSettled transaction then unlinkMarker transaction else pure ()

def clearMarkers : List String → Deploy Unit
  | [] => pure ()
  | transaction :: transactions => do
    clearMarker transaction
    clearMarkers transactions

/-- `_clear_settled_markers`. -/
def clearSettledMarkers : Deploy Unit := do
  let markers ← look (·.markers)
  clearMarkers markers

/-! ## Rollback -/

/-- The state a unit had before the transaction. -/
def restoreEnabled (record : Record) : Deploy Unit :=
  if record.systemEnabled then enableUnit else disableUnit true

def restoreActive (record : Record) : Deploy Unit :=
  if record.systemActive then startUnit else pure ()

/-- Candidate samples are kept for recovery. -/
def retainState (record : Record) : Deploy Unit := do
  let present ← look (·.stateExists)
  if record.stateCreated && present then attempt fun h => { h with stateExists := false } else pure ()

def resumeEnabled (record : Record) : Deploy Unit :=
  if record.legacyEnabled then enableLegacy record.uid else pure ()

def resumeActive (record : Record) : Deploy Unit :=
  if record.legacyActive then startLegacy record.uid else pure ()

/-- The unit before the transaction. -/
def restoreUnit (record : Record) : Deploy Unit :=
  match record.previousUnit with
  | some previous => do
    writeUnit previous
    daemonReload
    restoreEnabled record
    restoreActive record
  | none => do
    disableUnit false
    unlinkUnit
    daemonReload
    retainState record
    resumeEnabled record
    resumeActive record

def refuseActive : Deploy Unit := do
  if ← stillActive then throw (.stop "candidate collector remains active; rollback refused")
  else pure ()

/-- The receipt of the transaction is there, and not rolled back. -/
def restore (transaction : String) (receipt : Receipt) : Deploy Unit := do
  stopUnit false
  refuseActive
  restoreUnit receipt.record
  writeReceipt transaction ⟨.rolledBack, receipt.record⟩
  unlinkMarker transaction

/-- `rollback`. -/
def rollback (transaction : String) : Deploy Unit := do
  match ← readReceipt transaction with
  | none => pure ()
  | some receipt =>
    if receipt.status = .rolledBack then unlinkMarker transaction
    else restore transaction receipt

/-! ## Install -/

/-- The arguments of a call that is not a rollback. -/
structure Request where
  source : String
  uid : Nat
  gid : Nat
  transaction : String
deriving DecidableEq, Repr

/-- `release.mkdir(mode=0o755)`. -/
def makeRelease (name : String) : Deploy Unit :=
  .action fun h reply =>
    if name ∈ h.releases then (h, (), .error .step)
    else (reply.apply (fun h => { h with
      releases := name :: h.releases
      history := { h.history with removed := h.history.removed.filter (· ≠ releasePath name) } }) h,
      (), if reply = .done then .ok () else .error .step)

/-- The four artifacts of a release, checked and written. -/
def copyArtifacts : Deploy Unit := do
  ensure "accepted monitor artifact is absent or a symlink"
  attempt id
  ensure "accepted monitor artifact is absent or a symlink"
  attempt id
  ensure "accepted monitor artifact is absent or a symlink"
  attempt id
  ensure "accepted monitor artifact is absent or a symlink"
  attempt id

/-- State without a unit is nobody's. -/
def refuseUnmanaged (previousUnit : Option String) (stateThere : Bool) : Deploy Unit :=
  if previousUnit.isNone && stateThere then
    throw (.stop "unmanaged system monitor state already exists; inspect it before adoption")
  else pure ()

/-- What there is before the transaction. -/
def recordHost (request : Request) (home : String) : Deploy Record := do
  let previousUnit ← look (·.unit)
  let stateThere ← look (·.stateExists)
  refuseUnmanaged previousUnit stateThere
  let systemEnabled ← ask Host.enabled
  let systemActive ← ask (·.active)
  let legacyEnabled ← ask fun h => (h.legacy request.uid).enabled
  let legacyActive ← ask fun h => (h.legacy request.uid).active
  pure {
    uid := request.uid, gid := request.gid, source := request.source
    release := releasePath request.transaction, previousUnit := previousUnit
    systemEnabled := systemEnabled, systemActive := systemActive
    legacyEnabled := legacyEnabled, legacyActive := legacyActive
    legacy := home ++ "/.local/state/summitflow/monitor", stateCreated := !stateThere }

/-- `disable --now`, and what is left of it. -/
def retireLegacy (uid : Nat) : Deploy Unit := do
  disableLegacy uid
  stopLegacy uid
  if ← ask fun h => (h.legacy uid).active then throw (.stop "legacy collector remains active")
  else pure ()

/-- The legacy collector, if the user has one. -/
def stopCollectors (record : Record) : Deploy Unit := do
  if ← ask fun h => (h.legacy record.uid).present then retireLegacy record.uid else pure ()

def stopPrevious (record : Record) : Deploy Unit :=
  if record.previousUnit.isSome then stopUnit true else pure ()

/-- The history of the legacy store, when the state directory is new: its lock and the copy. -/
def adoptHistory (record : Record) : Deploy Unit :=
  if record.stateCreated then do
    attempt id
    ensure "invalid monitor database backup paths"
  else pure ()

/-- The state directory and its contents. -/
def prepareState (record : Record) : Deploy Unit := do
  attempt fun h => { h with stateExists := true }
  ensure "monitor store migration interlock requires recovery"
  adoptHistory record
  ensure "monitor state contains a symlink"

/-- The unit of the release. -/
def activate (request : Request) : Deploy Unit := do
  writeUnit (unitText request.uid request.gid (releasePath request.transaction))
  daemonReload
  enableUnit
  startUnit
  if ← ask (·.active) then pure () else throw (.stop "system collector did not activate")

/-- What `install` does once the marker is there. -/
def takeOver (request : Request) (record : Record) : Deploy Unit := do
  stopCollectors record
  stopPrevious record
  prepareState record
  activate request
  writeReceipt request.transaction ⟨.activated, record⟩

/-- A failure is rolled back and reported. -/
def undo (transaction : String) (failure : Failure) : Deploy Unit := do
  rollback transaction
  throw failure

/-- No transaction of this name, and none that is pending. -/
def refusePending (transaction : String) : Deploy Unit := do
  let taken ← look fun h => (Dict.get? transaction h.receipts).isSome || !h.markers.isEmpty
  if taken then throw (.stop "monitor deployment already exists or requires recovery") else pure ()

/-- The installation and receipt directories. -/
def prepareDirectories : Deploy Unit := do
  ensure "refusing symlink directory"
  ensure "refusing symlink directory"
  ensure "refusing symlink directory"

variable (machine : Machine)

/-- The home of the owner of the collector. -/
def ownerHome (uid gid : Nat) : Deploy String :=
  match machine.account uid with
  | none => throw .step
  | some (group, home) =>
    if uid = 0 ∨ group ≠ gid then
      throw (.stop "collector owner must be a non-root account and its primary group")
    else pure home

/-- `install`. -/
def install (request : Request) : Deploy Unit := do
  let home ← ownerHome machine request.uid request.gid
  prepareDirectories
  clearSettledMarkers
  refusePending request.transaction
  makeRelease request.transaction
  copyArtifacts
  let record ← recordHost request home
  writeReceipt request.transaction ⟨.pending, record⟩
  touchMarker request.transaction
  Script.tryCatch (takeOver request record) (undo request.transaction)

/-! ## Finalize -/

/-- The directories that stay, unless a line of the previous unit runs nothing. -/
def keepDirs (record : Record) : Option (List String) :=
  ((execLines (record.previousUnit.getD "")).mapM execDir).map fun dirs => record.release :: dirs

def removeRelease (name : String) : Deploy Unit :=
  attempt fun h => { h with
    releases := h.releases.filter (· ≠ name)
    history := { h.history with removed := releasePath name :: h.history.removed } }

def removeUnlessKept (keep : List String) (name : String) : Deploy Unit :=
  if releasePath name ∈ keep then pure () else removeRelease name

def removeOthers (keep : List String) : List String → Deploy Unit
  | [] => pure ()
  | name :: names => do
    removeUnlessKept keep name
    removeOthers keep names

/-- The protected copies that the transaction does not need. -/
def collectReleases (record : Record) : Deploy Unit :=
  match keepDirs record with
  | none => throw .step
  | some keep => do
    let names ← look (·.releases)
    removeOthers keep names

/-- An activated transaction completes. -/
def complete (transaction : String) (record : Record) : Deploy Unit := do
  writeReceipt transaction ⟨.complete, record⟩
  unlinkMarker transaction
  collectReleases record

/-- The last action of `main`. -/
def finalize (transaction : String) : Deploy Unit := do
  match ← readReceipt transaction with
  | none => throw .step
  | some receipt =>
    if receipt.status ≠ .activated then
      throw (.stop "collector activation is not pending completion")
    else complete transaction receipt.record

/-! ## Calls -/

inductive Action where
  | install
  | rollback
  | finalize
deriving DecidableEq, Repr

structure Call where
  action : Action
  request : Request
deriving DecidableEq, Repr

/-- `args.transaction.isalnum() and len(args.transaction) <= 64`. -/
def validTransaction (transaction : String) : Bool :=
  decide (transaction ≠ "") && transaction.toList.all machine.isAlnum &&
    decide (transaction.length ≤ 64)

def act (call : Call) : Deploy Unit :=
  match call.action with
  | .install => install machine call.request
  | .rollback => rollback call.request.transaction
  | .finalize => finalize call.request.transaction

def checkTransaction (transaction : String) : Deploy Unit :=
  if validTransaction machine transaction then pure ()
  else throw (.stop "root and a valid deployment transaction are required")

/-- `main`. -/
def main (call : Call) : Deploy Unit := do
  ensure "root and a valid deployment transaction are required"
  checkTransaction machine call.request.transaction
  ensure "the collector source must be an accepted SummitFlow service release"
  act machine call

end SummitFlow.HostMonitorDeploy
