import Mathlib.Data.String.Basic
import SummitFlow.ForStd.Dict
import SummitFlow.ForStd.Script
import SummitFlow.ForStd.SortedBy
import SummitFlow.Python.Str

/-!
# Page-size migration of the monitor store

Model of `backend/cli/lib/monitor_store_migration.py`, of `migrate_host_monitor_store` in
`backend/cli/lib/service_ops.py`, and of the collector as far as it opens the store
(`host-monitor/src/main.rs`, `host-monitor/src/store.rs`), as scripts of atomic steps on one
state directory.  Every step can raise, before its change or after it.

A statement that converts the database may leave any rows behind; what SQLite promises of it
is not used.  Rows are abstract, with a fingerprint that some rows do not have.
-/

namespace SummitFlow.MonitorMigration

/-! ## The state directory -/

/-- What `PRAGMA` reads of a database. -/
structure Config where
  pageSize : Int
  journalMode : String
  autoVacuum : Int
deriving DecidableEq, Repr

structure Db (ρ : Type) where
  config : Config
  rows : ρ
deriving DecidableEq, Repr

/-- The `status` of a receipt. -/
inductive Status where
  | backingUp | conversionStarted | deferredBeforeConversion | failedAfterMutation
  | convertedRestartPending | succeeded | collectorRestartFailed
deriving DecidableEq, Repr

structure Receipt (φ : Type) where
  status : Status
  before : φ
  after : Option φ
deriving DecidableEq, Repr

/-- The backup file of an artifact directory; `empty` is one that nothing was copied to. -/
inductive Backup (ρ : Type) where
  | absent
  | empty
  | rows (rows : ρ)
deriving DecidableEq, Repr

/-- An artifact directory, and the process that made it if that is one of the model's. -/
structure Artifact (ρ φ : Type) where
  owner : Option Nat
  /-- `.receipt-next` is there -/
  temporary : Bool
  receipt : Option (Receipt φ)
  backup : Backup ρ
deriving DecidableEq, Repr

/-- `migration.interlock`: who made it, and the artifact directory it names once it is written. -/
structure Interlock where
  owner : Option Nat
  target : Option String
deriving DecidableEq, Repr

structure State (ρ φ : Type) where
  db : Option (Db ρ)
  /-- the database as a collector left it last -/
  left : Option (Db ρ)
  interlock : Option Interlock
  /-- `migrations` -/
  artifacts : List (String × Artifact ρ φ)
  /-- the holder of `collector.lock` -/
  collectorLock : Option Nat
  /-- who holds `maintenance.lock` alone -/
  exclusive : Option Nat
  /-- who shares `maintenance.lock` -/
  sharers : List Nat
deriving DecidableEq, Repr

/-! ## Steps -/

/-- The exceptions a step can raise. -/
inductive Raised where
  /-- `OSError` -/
  | os
  /-- `sqlite3.Error` -/
  | sqlite
  /-- `ValueError` -/
  | value
  /-- `KeyError` -/
  | key
  /-- what no handler here catches, such as `KeyboardInterrupt` -/
  | other
deriving DecidableEq, Repr

/-- The exceptions; the text of a cause and the paths in a message are left out. -/
inductive Exc where
  | raised (r : Raised)
  /-- `MonitorMigrationDeferred` -/
  | deferred (message : String)
  /-- `MonitorMigrationFailed` -/
  | failed (message : String)
  /-- `ServiceError` -/
  | service (message : String)
  /-- the collector ends with an error -/
  | collector (message : String)
deriving DecidableEq, Repr

/-- What the world answers to a step. -/
structure Answer (ρ : Type) where
  /-- what the step raises, and whether before its change -/
  raises : Option (Raised × Bool)
  /-- what a check finds -/
  flag : Bool
  /-- a name of an artifact directory -/
  name : String
  /-- which receipts can be read -/
  readable : String → Bool
  /-- what a statement leaves of the database -/
  db : Db ρ

variable {ρ φ : Type}

abbrev Migration (ρ φ α : Type) := Script (State ρ φ) (Answer ρ) Unit Exc α

/-- One step: its change, and what it returns or raises itself. -/
def act {α : Type} (change : State ρ φ → Answer ρ → State ρ φ)
    (result : State ρ φ → Answer ρ → Except Exc α) : Migration ρ φ α :=
  Script.action fun s w =>
    match w.raises with
    | some (r, true) => (s, (), .error (.raised r))
    | some (r, false) => (change s w, (), .error (.raised r))
    | none => (change s w, (), result s w)

/-- A step that makes its change unless it raises. -/
def atomically {α : Type} (change : State ρ φ → Answer ρ → State ρ φ)
    (result : State ρ φ → Answer ρ → Except Exc α) : Migration ρ φ α :=
  Script.action fun s w =>
    match w.raises with
    | some (r, _) => (s, (), .error (.raised r))
    | none => (change s w, (), result s w)

/-- A step without a change. -/
def look {α : Type} (result : State ρ φ → Answer ρ → Except Exc α) : Migration ρ φ α :=
  act (fun s _ => s) result

/-- A step on other files, or on modes and directories. -/
def touch : Migration ρ φ Unit := look fun _ _ => .ok ()

/-- What the world finds. -/
def ask : Migration ρ φ Bool := look fun _ w => .ok w.flag

def ensure (e : Exc) (condition : Bool) : Migration ρ φ Unit :=
  if condition then pure () else throw e

/-- Reading the open database. -/
def readDb {α : Type} (f : Db ρ → Except Exc α) : Migration ρ φ α :=
  look fun s _ =>
    match s.db with
    | some db => f db
    | none => .error (.raised .sqlite)

/-! ## Fingerprints and receipts -/

/-- What is known of rows: their fingerprint, when `integrity_check`, `foreign_key_check` and the
    tables are in order, and the schema version in `meta`. -/
structure Reading (ρ φ : Type) where
  fingerprint : ρ → Option φ
  version : ρ → Option String

def targetPageSize : Int := 512

namespace Reading

variable [DecidableEq φ] (reading : Reading ρ φ)

/-- `_fingerprint`, of the open database. -/
def fingerprintDb : Migration ρ φ φ :=
  readDb fun db =>
    match reading.fingerprint db.rows with
    | some f => .ok f
    | none => .error (.raised .value)

end Reading

/-- A change of one artifact directory. -/
def setArtifact (name : String) (f : Artifact ρ φ → Artifact ρ φ) (s : State ρ φ) : State ρ φ :=
  match s.artifacts.lookup name with
  | some artifact => { s with artifacts := Dict.set name (f artifact) s.artifacts }
  | none => s

/-- `_write_receipt`. -/
def writeReceipt (name : String) (receipt : Receipt φ) : Migration ρ φ Unit := do
  -- a temporary file that is left over is in the way
  act (fun s _ => setArtifact name (fun a => { a with temporary := true }) s) fun s _ =>
    if (s.artifacts.lookup name).any fun a => !a.temporary then .ok () else .error (.raised .os)
  touch
  act (fun s _ => setArtifact name (fun a => { a with temporary := false, receipt := some receipt }) s)
    fun _ _ => .ok ()
  touch

/-- `_write_receipt` under `suppress(OSError)`. -/
def tryWriteReceipt (name : String) (receipt : Receipt φ) : Migration ρ φ Unit :=
  Script.tryCatch (writeReceipt name receipt) fun e =>
    if e = .raised .os then pure () else throw e

/-- `open("x")` of the interlock. -/
def createInterlock (pid : Nat) : Migration ρ φ Unit :=
  act (fun s _ => if s.interlock.isSome then s else { s with interlock := some ⟨some pid, none⟩ })
    fun s _ => if s.interlock.isSome then .error (.raised .os) else .ok ()

/-- The interlock is written, through the descriptor of its maker, and synced. -/
def fillInterlock (pid : Nat) (name : String) : Migration ρ φ Unit := do
  touch
  act (fun s _ =>
      if s.interlock = some ⟨some pid, none⟩ then { s with interlock := some ⟨some pid, some name⟩ }
      else s)
    fun _ _ => .ok ()
  touch
  touch

/-- `retain_restart_interlock`. -/
def retainRestartInterlock (pid : Nat) (name : String) : Migration ρ φ Unit := do
  createInterlock pid
  fillInterlock pid name

/-- `update_restart_receipt`. -/
def updateRestartReceipt (name : String) (status : Status) : Migration ρ φ Unit := do
  let receipt ← look fun s _ =>
    match (s.artifacts.lookup name).bind Artifact.receipt with
    | none => .error (.raised .os)
    | some receipt =>
      if receipt.status = .convertedRestartPending then .ok receipt else .error (.raised .value)
  writeReceipt name { receipt with status }

/-- `_pending_restart_receipt`: the last name with a receipt that waits for the restart. -/
def pendingRestartReceipt : Migration ρ φ (Option String) :=
  look fun s w => .ok ((sortBy id (s.artifacts.map Prod.fst)).reverse.find? fun name =>
    w.readable name && ((s.artifacts.lookup name).bind Artifact.receipt).any fun receipt =>
      receipt.status = .convertedRestartPending)

/-! ## The locked part -/

inductive ResultStatus where
  | absent | alreadyCurrent | convertedRestartPending | deferred | migrated
deriving DecidableEq, Repr

structure MigrationResult where
  status : ResultStatus
  receipt : Option String
deriving DecidableEq, Repr

/-- The variables the handlers read. -/
structure Locals (φ : Type) where
  mutated : Bool
  receipt : Option (String × Receipt φ)

/-- A part of the body in which the variables have these values. -/
def during {α : Type} (locals : Locals φ) (c : Migration ρ φ α) :
    Script (State ρ φ) (Answer ρ) Unit (Exc × Locals φ) α :=
  Script.catching c fun e => Script.raise (e, locals)

/-- A statement that converts the database. -/
def convert (config : Config → Config → Config) : Migration ρ φ Unit :=
  act (fun s w => { s with db := s.db.map fun db => ⟨config db.config w.db.config, w.db.rows⟩ })
    fun _ _ => .ok ()

/-- `PRAGMA journal_mode=…`, and the mode it returns. -/
def setJournalMode : Migration ρ φ String :=
  act (fun s w => { s with db := s.db.map fun db =>
      ⟨{ db.config with journalMode := w.db.config.journalMode }, w.db.rows⟩ })
    fun _ w => .ok w.db.config.journalMode

section

variable [DecidableEq φ] (reading : Reading ρ φ)

/-- A pending conversion is as its receipt has it. -/
def verifyPending (name : String) : Migration ρ φ Bool :=
  Script.tryCatch (do
    let receipt ← look fun s _ =>
      match (s.artifacts.lookup name).bind Artifact.receipt with
      | none => .error (.raised .os)
      | some receipt => .ok receipt
    let journalMode ← readDb fun db => .ok db.config.journalMode
    if journalMode ≠ "wal" then pure false
    else
      let synchronous ← ask
      if !synchronous then pure false
      else
        let autoVacuum ← readDb fun db => .ok db.config.autoVacuum
        if autoVacuum ≠ 2 then pure false
        else
          let f ← reading.fingerprintDb
          match receipt.after with
          | some after => pure (f = after)
          | none => throw (.raised .key)) fun e =>
      if e = .raised .other then throw e else pure false

/-- The store has the new page size already. -/
def current (pid : Nat) : Migration ρ φ MigrationResult := do
  let pending ← pendingRestartReceipt
  match pending with
  | none => pure ⟨.alreadyCurrent, none⟩
  | some name =>
    let valid ← verifyPending reading name
    if valid then pure ⟨.convertedRestartPending, some name⟩
    else
      Script.tryCatch (retainRestartInterlock pid name) fun e =>
        if e = .raised .os then
          throw (.failed "pending monitor conversion verification failed and recovery interlock could not be written")
        else throw e
      throw (.failed "pending monitor conversion no longer matches verified receipt")

/-- Up to the first change: a result, or the fingerprint of a store to convert. -/
def examine (pid : Nat) : Migration ρ φ (MigrationResult ⊕ φ) := do
  touch
  let pageSize ← readDb fun db => .ok db.config.pageSize
  if pageSize = targetPageSize then
    let result ← current reading pid
    pure (.inl result)
  else
    ensure (.deferred "monitor store is not the expected 1024-byte WAL database") (pageSize = 1024)
    let journalMode ← readDb fun db => .ok db.config.journalMode
    ensure (.deferred "monitor store is not the expected 1024-byte WAL database")
      (Str.lower journalMode = "wal")
    let before ← reading.fingerprintDb
    let version ← readDb fun db =>
      match reading.version db.rows with
      | some version => .ok version
      | none => .error (.raised .value)
    ensure (.deferred "monitor store schema version is unsupported") (version = "1")
    touch
    let space ← ask
    ensure (.deferred "insufficient free space for backup and VACUUM") space
    pure (.inr before)

/-- `mkdir` of the artifact directory. -/
def makeArtifact (pid : Nat) : Migration ρ φ String := do
  let name ← act (fun s w =>
      if (s.artifacts.lookup w.name).isSome then s
      else { s with artifacts := s.artifacts ++ [(w.name, ⟨some pid, false, none, .absent⟩)] })
    fun s w => if (s.artifacts.lookup w.name).isSome then .error (.raised .os) else .ok w.name
  touch
  touch
  touch
  pure name

/-- The backup is made and read again, and the log is flushed. -/
def backUp (name : String) (before : φ) : Migration ρ φ Unit := do
  act (fun s _ => setArtifact name (fun a => { a with backup := .empty }) s) fun _ _ => .ok ()
  touch
  act (fun s w => setArtifact name (fun a => { a with backup := .rows w.db.rows }) s) fun _ _ => .ok ()
  touch
  let found ← look fun s _ =>
    match (s.artifacts.lookup name).map Artifact.backup with
    | some (.rows rows) =>
      match reading.fingerprint rows with
      | some f => .ok f
      | none => .error (.raised .value)
    | some .empty => .error (.raised .value)
    | _ => .error (.raised .sqlite)
  ensure (.deferred "monitor backup verification mismatch") (found = before)
  let flushed ← ask
  ensure (.deferred "monitor WAL checkpoint blocked by another reader") flushed
  let blocked ← look fun s _ => .ok s.interlock.isSome
  ensure (.deferred "monitor migration interlock already exists") !blocked

/-- The conversion and its verification. -/
def convertStore (pid : Nat) (name : String) (before : φ) : Migration ρ φ φ := do
  fillInterlock pid name
  writeReceipt name ⟨.conversionStarted, before, none⟩
  let mode ← setJournalMode
  ensure (.raised .value) (Str.lower mode = "delete")
  convert fun config _ => config
  convert fun config _ => config
  convert fun config made => { made with journalMode := config.journalMode }
  let pageSize ← readDb fun db => .ok db.config.pageSize
  ensure (.raised .value) (pageSize = targetPageSize)
  let autoVacuum ← readDb fun db => .ok db.config.autoVacuum
  ensure (.raised .value) (autoVacuum = 2)
  let vacuumed ← reading.fingerprintDb
  ensure (.raised .value) (vacuumed = before)
  let mode ← setJournalMode
  ensure (.raised .value) (Str.lower mode = "wal")
  touch
  let synchronous ← ask
  ensure (.raised .value) synchronous
  let final ← reading.fingerprintDb
  ensure (.raised .value) (final = before)
  touch
  reading.fingerprintDb

/-- The receipt of a conversion that is verified, and the end of the interlock. -/
def finishConversion (name : String) (before after : φ) : Migration ρ φ MigrationResult := do
  writeReceipt name ⟨.convertedRestartPending, before, some after⟩
  act (fun s _ => { s with interlock := none }) fun _ _ => .ok ()
  touch
  pure ⟨.convertedRestartPending, some name⟩

/-- The body of `_migrate_locked`. -/
def migrateBody (pid : Nat) :
    Script (State ρ φ) (Answer ρ) Unit (Exc × Locals φ) MigrationResult := do
  let examined ← during ⟨false, none⟩ (examine reading pid)
  match examined with
  | .inl result => pure result
  | .inr before =>
    let name ← during ⟨false, none⟩ (makeArtifact pid)
    let receipt : Receipt φ := ⟨.backingUp, before, none⟩
    during ⟨false, some (name, receipt)⟩ (do
      writeReceipt name receipt
      backUp reading name before
      createInterlock pid)
    let after ← during ⟨true, some (name, receipt)⟩ (convertStore reading pid name before)
    during ⟨true, some (name, { receipt with after := some after })⟩
      (finishConversion name before after)

/-- The handlers of `_migrate_locked`. -/
def handle (e : Exc) (locals : Locals φ) : Migration ρ φ MigrationResult :=
  match e with
  | .deferred message => do
    match locals.receipt with
    | some (name, receipt) =>
      if locals.mutated then pure ()
      else tryWriteReceipt name { receipt with status := .deferredBeforeConversion }
    | none => pure ()
    throw (.deferred message)
  | .raised .key => throw e
  | .raised .other => throw e
  | .raised _ =>
    if locals.mutated then do
      match locals.receipt with
      | some (name, receipt) => tryWriteReceipt name { receipt with status := .failedAfterMutation }
      | none => pure ()
      throw (.failed "monitor conversion stopped after mutation; inspect retained backup and receipt")
    else throw (.deferred "monitor migration deferred before conversion")
  | _ => throw e

/-- `_migrate_locked`. -/
def migrateLocked (pid : Nat) : Migration ρ φ MigrationResult := do
  Script.tryCatch touch fun e =>
    if e = .raised .sqlite then throw (.deferred "monitor database unavailable") else throw e
  Script.andFinally (Script.catching (migrateBody reading pid) fun e => handle e.1 e.2) touch

/-! ## Locks -/

/-- `_acquire_owner_lock`, up to the lock. -/
def openLock (name : String) : Migration ρ φ Unit :=
  Script.tryCatch (do
    let usable ← ask
    ensure (.deferred ("monitor " ++ name ++ " lock is not owner-only")) usable) fun e =>
      if e = .raised .os then throw (.deferred ("monitor " ++ name ++ " lock unavailable")) else throw e

def lockCollector (pid : Nat) : Migration ρ φ Unit :=
  atomically (fun s _ => if s.collectorLock.isNone then { s with collectorLock := some pid } else s) fun s _ =>
    if s.collectorLock.isNone then .ok ()
    else .error (.deferred "monitor collector lock is active; retry later")

def unlockCollector (pid : Nat) : Migration ρ φ Unit :=
  act (fun s _ => if s.collectorLock = some pid then { s with collectorLock := none } else s)
    fun _ _ => .ok ()

/-- `LOCK_EX` on `maintenance.lock`. -/
def lockMaintenance (pid : Nat) : Migration ρ φ Unit :=
  atomically (fun s _ => if s.exclusive.isNone && s.sharers.isEmpty then { s with exclusive := some pid } else s)
    fun s _ => if s.exclusive.isNone && s.sharers.isEmpty then .ok ()
      else .error (.deferred "monitor maintenance lock is active; retry later")

def unlockMaintenance (pid : Nat) : Migration ρ φ Unit :=
  act (fun s _ => if s.exclusive = some pid then { s with exclusive := none } else s) fun _ _ => .ok ()

def checkInterlock (e : Exc) : Migration ρ φ Unit := do
  let blocked ← look fun s _ => .ok s.interlock.isSome
  ensure e !blocked

def existingInterlock : Exc := .failed "existing monitor migration interlock requires manual recovery"

/-- `migrate_stopped_store`. -/
def migrateStoppedStore (pid : Nat) : Migration ρ φ MigrationResult := do
  Script.tryCatch (do
    let owned ← ask
    ensure (.deferred "monitor state directory is not owner-only") owned) fun e =>
      if e = .raised .os then throw (.deferred "monitor state directory unavailable") else throw e
  checkInterlock existingInterlock
  let present ← look fun s _ => .ok s.db.isSome
  if !present then pure ⟨.absent, none⟩
  else
    let owned ← ask
    ensure (.deferred "monitor database is not an owner-owned regular file") owned
    openLock "collector"
    lockCollector pid
    Script.andFinally (do
      openLock "maintenance"
      lockMaintenance pid
      Script.andFinally (do
        checkInterlock existingInterlock
        migrateLocked reading pid) (unlockMaintenance pid)) (unlockCollector pid)

/-! ## The service command -/

/-- Starting the collector and waiting for it; the collector is a process of its own. -/
def startCollector : Migration ρ φ Bool := ask

/-- `migrate_host_monitor_store`. -/
def migrateHostMonitorStore (pid : Nat) : Migration ρ φ MigrationResult := do
  let ready ← ask
  ensure (.service "cannot verify the live monitor reader lock release") ready
  checkInterlock (.service "existing monitor migration interlock requires manual recovery")
  let present ← look fun s _ => .ok s.db.isSome
  if !present then pure ⟨.absent, none⟩
  else
    let stopped ← ask
    ensure (.service "host monitor did not stop cleanly; conversion refused") stopped
    let result ← Script.tryCatch (migrateStoppedStore reading pid) fun e =>
      match e with
      | .deferred _ => do
        let started ← startCollector
        ensure (.service "monitor migration deferred and collector restart failed") started
        pure ⟨.deferred, none⟩
      | .failed message => throw (.service message)
      | e => throw e
    if result.status = .deferred then pure result
    else
      let started ← startCollector
      match result.status, result.receipt with
      | .convertedRestartPending, some name =>
        if started then
          Script.tryCatch (updateRestartReceipt name .succeeded) fun e =>
            if e = .raised .os ∨ e = .raised .value then
              throw (.service "collector active but migration restart receipt remains pending")
            else throw e
          pure ⟨.migrated, some name⟩
        else
          Script.tryCatch (do
            retainRestartInterlock pid name
            updateRestartReceipt name .collectorRestartFailed) fun e =>
              if e = .raised .os ∨ e = .raised .value then do
                touch
                throw (.service "collector restart failed; recovery interlock/receipt failed")
              else throw e
          touch
          throw (.service "collector did not become active after monitor store migration")
      | _, _ =>
        if started then pure result
        else do
          touch
          throw (.service "collector did not become active after monitor store migration")

end

/-! ## The collector -/

/-- `LOCK_SH` on `maintenance.lock`. -/
def shareMaintenance (pid : Nat) : Migration ρ φ Unit :=
  atomically (fun s _ => if s.exclusive.isNone then { s with sharers := pid :: s.sharers } else s) fun s _ =>
    if s.exclusive.isNone then .ok () else .error (.collector "monitor maintenance lock unavailable")

/-- Any statement of a collector with an open store: it creates the database or changes it. -/
def collectorWrite : Migration ρ φ Unit :=
  act (fun s w => { s with db := some w.db, left := some w.db }) fun _ _ => .ok ()

def collectorWrites : Nat → Migration ρ φ Unit
  | 0 => pure ()
  | n + 1 => do
    collectorWrite
    collectorWrites n

/-- The collector: it takes its lock, opens the store, and writes until it ends. -/
def collect (pid writes : Nat) : Migration ρ φ Unit := do
  atomically (fun s _ => if s.collectorLock.isNone then { s with collectorLock := some pid } else s) fun s _ =>
    if s.collectorLock.isNone then .ok () else .error (.collector "collector already running")
  shareMaintenance pid
  checkInterlock (.collector "monitor migration interlock present; inspect receipt")
  collectorWrites writes

/-! ## Processes -/

/-- What a process is started for. -/
inductive Call where
  | migrate
  | collect (writes : Nat)
deriving DecidableEq, Repr

def program [DecidableEq φ] (reading : Reading ρ φ) : Call → Nat → Migration ρ φ Unit
  | .migrate, pid => do
    let _ ← migrateHostMonitorStore reading pid
    pure ()
  | .collect writes, pid => collect pid writes

/-- The end of a process gives its locks back. -/
def exit (pid : Nat) (s : State ρ φ) : State ρ φ :=
  { s with
    collectorLock := if s.collectorLock = some pid then none else s.collectorLock
    exclusive := if s.exclusive = some pid then none else s.exclusive
    sharers := s.sharers.filter (· ≠ pid) }

end SummitFlow.MonitorMigration
