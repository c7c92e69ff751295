import SummitFlow.Cli.ServiceRelease

/-!
# Rebuilding a project

Model of `rebuild` in `backend/cli/commands/service.py` from the deployment on, with the
functions it is made of.  What the services, the monitor and the units do is outside: a step
that returns a code or raises.

An exception carries the local variables that the handlers of `rebuild` read.
-/

namespace SummitFlow.ServiceRelease

/-! ## Previous units -/

/-- `_restore_previous_units`. -/
def restorePreviousUnits (release : PreparedRelease) : Step Bool :=
  tryCatch
    (do
      match ← previousSourceRoot release with
      | none =>
        markPhase release "rollback" "unavailable" none
        pure false
      | some _ =>
        -- the layout of the previous release, and a monitor unit that it does not have
        say
        say
        let code ← command
        markPhase release "rollback" (if code = 0 then "units_restored" else "units_restore_failed")
          none
        pure (code == 0))
    fun e =>
      if e.isDeployment then do
        markPhase release "rollback" "units_restore_failed" none
        pure false
      else throw e

/-- The reader could not go back: the candidate's stays. -/
def retainCandidate : Step Unit := do
  let restored ← command
  if restored = 0 then do
    let _ ← command
    say
  else say

/-- `attempted and restart_service(...)`. -/
def restartAttempted (attempted : Bool) : Step Int := if attempted then command else pure 0

/-- `_rollback_monitor_and_reader`. -/
def rollbackMonitorAndReader (release : PreparedRelease) (backendRestartAttempted : Bool) :
    Step Bool := do
  let restored ← restorePreviousUnits release
  if !restored then do
    say
    pure false
  else do
    match ← previousSourceRoot release with
    | none => pure false
    | some _ =>
      say
      let restarted ← restartAttempted backendRestartAttempted
      if restarted ≠ 0 then do
        retainCandidate
        pure false
      else do
        let rolledBack ← command
        if rolledBack ≠ 0 then do
          retainCandidate
          pure false
        else do
          markPhase release "host_monitor_rollback" "succeeded" none
          pure true

/-- `except Exception as exc: print(...)`, with what stands for the result. -/
def printing {α : Type} (instead : α) (body : Step α) : Step α :=
  tryCatch body fun e =>
    if e.isException then do
      say
      pure instead
    else throw e

/-- `_rollback_monitor_after_unexpected_failure`. -/
def rollbackMonitorAfterUnexpectedFailure (release : PreparedRelease)
    (backendRestartAttempted : Bool) : Step Unit := do
  say
  let handled ← printing false (do
    let rolledBack ← rollbackMonitorAndReader release backendRestartAttempted
    whenever (!rolledBack) say
    pure true)
  if handled then pure ()
  else do
    let code ← printing 1 command
    whenever (code != 0) say

/-! ## Phases -/

/-- `_timed_phase`. -/
def timedPhase (release : PreparedRelease) (name : String) : Step Int := do
  let code ← command
  markPhase release name (if code = 0 then "succeeded" else "failed") none
  pure code

inductive RebuildScope where
  | full
  | frontend
  | backend
  | worker
deriving DecidableEq, Repr

def RebuildScope.value : RebuildScope → String
  | .full => "full"
  | .frontend => "frontend"
  | .backend => "backend"
  | .worker => "worker"

/-- A rebuild once its options are checked, with what the project's layout says.  A worker
    stands for whether it is the host monitor. -/
structure Call where
  project : String
  scope : RebuildScope
  manual : Bool
  rollback : Bool
  migrateMonitorStore : Bool
  workers : List Bool
  backendService : Bool
  frontendService : Bool
  hostMonitor : Bool
  releaseInstall : Bool
  result : Bool
deriving DecidableEq, Repr

/-- `backend = scope != RebuildScope.frontend and not manual`. -/
def Call.backend (call : Call) : Bool := call.scope != .frontend && !call.manual

/-- `frontend = scope in (RebuildScope.full, RebuildScope.frontend) and not manual`. -/
def Call.frontend (call : Call) : Bool :=
  (call.scope == .full || call.scope == .frontend) && !call.manual

/-- `_release_steps`: the steps by their names. -/
def releaseSteps (call : Call) (release : PreparedRelease) : Step (List String) := do
  whenever (!call.backend) (markPhase release "migrations" "not_applicable" none)
  pure (["infrastructure", "backend_dependencies"] ++
    (if call.backend then ["host_monitor_build"] else []) ++ ["frontend_build"] ++
    (if call.backend then ["migrations"] else []) ++ ["systemd_units"] ++
    (if call.backend && call.releaseInstall then ["release_install"] else []) ++
    (if call.backend then ["host_monitor_policy"] else []))

/-- The release failed in a phase that says so itself. -/
def stopAt (release : PreparedRelease) (phase : String) (migrations : Option String) : Step Unit := do
  failRelease release phase migrations
  say
  throw (.exit 1)

/-- `_run_release_steps`. -/
def runReleaseSteps (release : PreparedRelease) : List String → Step Unit
  | [] => pure ()
  | name :: steps => do
    let code ← timedPhase release name
    if code ≠ 0 then do
      whenever (name == "systemd_units") (do let _ ← restorePreviousUnits release)
      stopAt release name none
    else runReleaseSteps release steps

/-- Restart a service unless it is left alone; the errors so far. -/
def restartOne (restart : Bool) (errors : Int) : Step Int :=
  if restart then do
    let code ← command
    pure (if code = 0 then errors else errors + 1)
  else pure errors

def restartWorkers (monitorActivated : Bool) (errors : Int) : List Bool → Step Int
  | [] => pure errors
  | isMonitor :: workers => do
    let errors ← restartOne (!(monitorActivated && isMonitor)) errors
    restartWorkers monitorActivated errors workers

/-- `_restart_services`. -/
def restartServices (call : Call) (release : PreparedRelease) (restartBackend : Bool)
    (monitorActivated : Bool) : Step Int := do
  let errors ← restartOne (restartBackend && call.backendService) 0
  let errors ← restartWorkers monitorActivated errors call.workers
  let errors ← restartOne (call.frontend && call.frontendService) errors
  markPhase release "restart" (if errors = 0 then "succeeded" else "failed") none
  pure errors

/-- The workers that are not active. -/
def inactiveWorkers : List Bool → Step Int
  | [] => pure 0
  | _ :: workers => do
    let active ← outside (·.yes)
    say
    let others ← inactiveWorkers workers
    pure (if active then others else others + 1)

/-- The health of the selected services. -/
def verifyHealth (call : Call) (release : PreparedRelease) : Step Int :=
  if call.backend || call.frontend then timedPhase release "health" else pure 0

/-- `_verify_and_seed`. -/
def verifyAndSeed (call : Call) (release : PreparedRelease) (errors : Int) : Step Int := do
  let health ← verifyHealth call release
  let workerErrors ← inactiveWorkers call.workers
  let errors := errors + health + workerErrors
  if !(call.backend || call.frontend) then do
    markPhase release "health" (if workerErrors = 0 then "succeeded" else "failed") none
    markPhase release "seeds" "not_applicable" none
    pure errors
  else if errors = 0 then do
    let seeds ← timedPhase release "seeds"
    pure (if seeds = 0 then errors else errors + 1)
  else pure errors

/-! ## The rebuild -/

/-- The local variables that the handlers read. -/
structure Locals where
  release : Option PreparedRelease
  monitorActivated : Bool
  backendRestartAttempted : Bool
deriving DecidableEq, Repr

abbrev Body := Script State Answer Label (Exc × Locals)

/-- What runs while the local variables have these values. -/
def leaving {α : Type} (locals : Locals) (c : Step α) : Body α :=
  c.catching fun e => throw (e, locals)

/-- `deployment_lock`: the file is closed with the process. -/
def deploymentLock (project : String) (pid : Nat) (body : Body Unit) : Body Unit := do
  leaving ⟨none, false, false⟩ do
    say
    takeLock project pid
  body.andFinally (.action fun s _ => (unlocked pid s, .step, .ok ()))

/-- `prepare_accepted_release`. -/
def prepareAcceptedRelease (git : Ancestry) (call : Call) (uuid : String) : Step PreparedRelease := do
  say
  let release ← tryCatch (prepareRelease git call.project uuid call.rollback) fun e =>
    if e.isDeployment || !e.isException then throw e
    else throw (.service "Accepted source preparation failed")
  say
  pure release

/-- `migrate_host_monitor_store` and what becomes of its failure. -/
def migrateMonitorStore (release : PreparedRelease) : Step Unit := do
  let status ← tryCatch (outside (·.text)) fun e =>
    match e with
    | .service message => do
      markPhase release "host_monitor_store_migration" "failed" none
      let _ ← restorePreviousUnits release
      failRelease release "host_monitor_store_migration" none
      throw (.service message)
    | e => throw e
  markPhase release "host_monitor_store_migration" status none

/-- From the release to its monitor. -/
def buildRelease (call : Call) (release : PreparedRelease) : Step Unit := do
  say
  say
  markPhase release "deployment_scope" "selected"
    (some (if call.manual then "manual" else call.scope.value))
  say
  let steps ← releaseSteps call release
  runReleaseSteps release steps
  whenever call.migrateMonitorStore (migrateMonitorStore release)

/-- `host_monitor_deployment(..., "install")`. -/
def installMonitor (release : PreparedRelease) : Step Unit := do
  let code ← command
  if code ≠ 0 then do
    let _ ← restorePreviousUnits release
    failRelease release "host_monitor_install" none
    throw (.exit 1)
  else pure ()

/-- `verify_host_monitor` or another check whose failure is told as a `ServiceError`. -/
def ensure (message : String) : Step Unit := do
  let code ← command
  if code ≠ 0 then throw (.service message) else pure ()

/-- The monitor is active. -/
def verifyMonitor (release : PreparedRelease) : Step Unit := do
  markPhase release "host_monitor_install" "succeeded" none
  ensure "root collector activation failed verification"

/-- The services restart and are checked; the errors. -/
def restartAndVerify (call : Call) (release : PreparedRelease) (monitorActivated : Bool) :
    Step Int := do
  let errors ← restartServices call release (call.backend && call.backendService) monitorActivated
  verifyAndSeed call release errors

/-- What is rolled back after errors, with the monitor or without. -/
def rollBack (release : PreparedRelease) (monitorActivated backendRestartAttempted : Bool) :
    Step Unit :=
  if monitorActivated then do
    let _ ← rollbackMonitorAndReader release backendRestartAttempted
  else do
    let _ ← restorePreviousUnits release

/-- `migrations` of a release that failed after its restart. -/
def failedMigrations (call : Call) : String :=
  if call.backend then "applied; automatic database rollback is unsupported" else "not_applicable"

def finalizeMonitor : Step Unit := do
  ensure "collector owner access failed after backend restart"
  ensure "collector deployment receipt could not be finalized"

/-- The references of units and processes. -/
def serviceReferences : Step (Option (List Reference)) := do
  let units ← outside (·.references)
  let processes ← outside (·.references)
  pure (match units, processes with
    | some units, some processes => some (units ++ processes)
    | _, _ => none)

/-- From the completion of the release on. -/
def finish (call : Call) (pid : Nat) (release : PreparedRelease) : Step Unit := do
  let references ← serviceReferences
  completeRelease call.project pid call.rollback release references
  publishDeploymentResult release call.result
  say
  let code ← command
  if code ≠ 0 then do
    say
    throw (.exit 1)
  else say

/-- The monitor is installed and verified. -/
def activateMonitor (release : PreparedRelease) (monitor : Bool) : Body Unit :=
  if monitor then do
    leaving ⟨some release, false, false⟩ (installMonitor release)
    leaving ⟨some release, true, false⟩ (verifyMonitor release)
  else pure ()

/-- An activated monitor is verified again and its deployment finalized. -/
def settleMonitor (release : PreparedRelease) (monitor attempted : Bool) : Body Unit :=
  if monitor then leaving ⟨some release, true, attempted⟩ finalizeMonitor else pure ()

/-- What runs under the lock. -/
def deploy (git : Ancestry) (call : Call) (uuid : String) (pid : Nat) : Body Unit := do
  let release ← leaving ⟨none, false, false⟩ (prepareAcceptedRelease git call uuid)
  leaving ⟨some release, false, false⟩ (buildRelease call release)
  let monitor := call.backend && call.hostMonitor
  activateMonitor release monitor
  -- the workers that are left alone are named
  leaving ⟨some release, monitor, false⟩ (do say; say)
  let attempted := call.backend && call.backendService
  let errors ← leaving ⟨some release, monitor, attempted⟩ (restartAndVerify call release monitor)
  if errors ≠ 0 then do
    leaving ⟨some release, monitor, attempted⟩ (rollBack release monitor attempted)
    leaving ⟨some release, false, attempted⟩
      (stopAt release "restart_health" (some (failedMigrations call)))
  else do
    settleMonitor release monitor attempted
    leaving ⟨some release, false, attempted⟩ (finish call pid release)

/-- The handlers get the exception. -/
def caught (pid : Nat) (e : Exc) : Step Unit :=
  .action fun s _ =>
    (if pid ∈ s.history.switched ∧ e.isExit = false then
        { s with history := { s.history with strayed := pid :: s.history.strayed } }
      else s, .caught e, .ok ())

/-- `except (ServiceError, ReleaseError)`. -/
def handleDeployment (locals : Locals) : Step Unit := do
  match locals.release with
  | none => pure ()
  | some release => do
    whenever locals.monitorActivated (do
      let _ ← rollbackMonitorAndReader release locals.backendRestartAttempted)
    suppress Exc.isRelease (failRelease release "deployment" none)
  say
  throw (.exit 1)

/-- `except BaseException`. -/
def handleOther (e : Exc) (locals : Locals) : Step Unit := do
  match locals.release with
  | none => pure ()
  | some release => do
    whenever locals.monitorActivated
      (rollbackMonitorAfterUnexpectedFailure release locals.backendRestartAttempted)
    whenever (!e.isExit) (suppress Exc.isException (failRelease release "deployment" none))
  throw e

/-- `rebuild` in a process; `uuid4` gives its build id. -/
def rebuild (git : Ancestry) (uuid : Nat → String) (call : Call) (pid : Nat) : Step Unit := do
  (deploymentLock call.project pid (deploy git call (uuid pid) pid)).catching fun (e, locals) => do
    caught pid e
    if e.isDeployment then handleDeployment locals else handleOther e locals
  throw (.exit 0)

end SummitFlow.ServiceRelease
