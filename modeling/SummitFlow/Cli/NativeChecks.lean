import SummitFlow.Cli.NativePlan
import SummitFlow.ForStd.Dict
import SummitFlow.ForStd.Run

/-!
# Native checks

Model of `_run_native` with its stage cache (`backend/cli/commands/check_native.py`), of the
part of `check.py` that adds the legacy checks, and of `_validate_native_evidence` and
`_gate_evidence` (`backend/cli/lib/acceptance.py`).  What a stage's command does, what its
report contains and whether the source changed are answers of the world.

The environment of a stage, its queue time and the digests that guard stored records against
damage are left out.
-/

namespace SummitFlow.NativeCheck

/-! ## Outcomes -/

inductive State where
  | pass
  | fail
  | unavailable
  | notApplicable
deriving DecidableEq, Repr

structure Counts where
  executed : Int
  failed : Int
  skipped : Int
  notApplicable : Option Int
deriving DecidableEq, Repr

structure Artifact where
  path : String
  size : Nat
  sha256 : String
  retained : Bool
deriving DecidableEq, Repr

/-- The outcome of a stage.  Every artifact is present. -/
structure Outcome where
  id : String
  coverage : Coverage
  required : Bool
  command : List String
  cwd : String
  tool : String
  state : State
  returncode : Option Int
  reason : String
  artifacts : List Artifact
  counts : Option Counts
  notApplicableTests : List (String × String)
  coveredBy : Option String
  duration : Nat
  detail : String
  reused : Bool
deriving DecidableEq, Repr

/-- The outcome a stage starts with. -/
def Stage.outcome (stage : Stage) : Outcome where
  id := stage.id
  coverage := stage.coverage
  required := stage.required
  command := stage.argv
  cwd := stage.cwd
  tool := stage.tool
  state := .unavailable
  returncode := none
  reason := ""
  artifacts := []
  counts := none
  notApplicableTests := []
  coveredBy := none
  duration := 0
  detail := ""
  reused := false

/-! ## Evidence -/

structure Case where
  skipped : Bool
  failed : Bool
deriving DecidableEq, Repr

structure GoEvent where
  test : String
  action : String
  package : String
deriving DecidableEq, Repr

/-- The readers of reports, and SHA-256. -/
structure Readers where
  /-- the test cases of a junit file, unless it does not parse -/
  junit : String → Except String (List Case)
  /-- `passed`, `failed` and `skipped` of a JSON object, unless it does not parse -/
  json : String → Except String (Option (Int × Int × Int))
  /-- the events of a Go test log; none is a line that is no object -/
  goEvents : String → Except String (List (Option GoEvent))
  /-- `re.search` and the number of matches of `re.findall` -/
  searches : String → String → Bool
  findAll : String → String → Nat
  sha256 : String → String
  hex : ∀ text, (sha256 text).length = 64 ∧
    ∀ c ∈ (sha256 text).toList, ('0' ≤ c ∧ c ≤ '9') ∨ ('a' ≤ c ∧ c ≤ 'f')

/-- `re.fullmatch(r"[0-9a-f]{64}", text)`. -/
def isDigest (text : String) : Bool :=
  text.length = 64 && text.toList.all fun c => ('0' ≤ c && c ≤ '9') || ('a' ≤ c && c ≤ 'f')

variable (readers : Readers)

/-- The terminal events of Go tests. -/
def terminalEvents (events : List (Option GoEvent)) : List GoEvent :=
  (events.filterMap id).filter fun event =>
    decide (event.test ≠ "") && decide (event.action ∈ ["pass", "fail", "skip"])

/-- `_counts`. -/
def countsOf (evidence : Evidence) (content : String) : Except String Counts :=
  match evidence.format with
  | .junit => do
    let cases ← readers.junit content
    pure ⟨(cases.filter fun case => !case.skipped).length, (cases.filter (·.failed)).length,
      (cases.filter (·.skipped)).length, none⟩
  | .json => do
    match ← readers.json content with
    | some (passed, failed, skipped) =>
      if 0 ≤ passed ∧ 0 ≤ failed ∧ 0 ≤ skipped then pure ⟨passed + failed, failed, skipped, none⟩
      else throw "JSON evidence must contain nonnegative integer passed/failed/skipped counts"
    | none => throw "JSON evidence must contain nonnegative integer passed/failed/skipped counts"
  | .goTestJson => do
    let events ← readers.goEvents content
    let terminal := terminalEvents events
    let skips := terminal.filter fun event => decide (event.action = "skip")
    let exempt := skips.filter fun event =>
      decide (event.package ++ "." ++ event.test ∈ evidence.notApplicableTests.map Prod.fst)
    pure ⟨(terminal.filter fun event => decide (event.action ≠ "skip")).length,
      ((events.filterMap id).filter fun event => decide (event.action = "fail")).length,
      skips.length,
      if evidence.notApplicableTests = [] then none else some exempt.length⟩
  | .text =>
    if readers.searches evidence.patterns.success content then
      .ok ⟨readers.findAll evidence.patterns.executed content,
        readers.findAll evidence.patterns.failure content, 0, none⟩
    else .error "text evidence lacks its success marker"

/-! ## Executing a stage -/

/-- What is at the path of a report after the command: fresh and in the project, with its
    content unless it is no text. -/
structure Report where
  fresh : Bool
  content : Except String String

/-- What the command of a stage does. -/
inductive Ran where
  /-- admission, the lock of the report or the start of the command fails -/
  | raised (message : String)
  | timeout
  | finished (returncode : Int) (stdout stderr : String) (report : Report)

/-- A fresh execution: whether the executable and the directory are there, what the command
    does, how long that takes, and how many artifacts are retained. -/
structure Execution where
  ready : Bool
  ran : Ran
  duration : Nat
  retains : Nat

/-- `"\n".join(part for part in (stdout, stderr) if part)`. -/
def joinOutput (stdout stderr : String) : String :=
  "\n".intercalate ([stdout, stderr].filter (· ≠ ""))

def artifact (path content : String) : Artifact :=
  ⟨path, content.utf8ByteSize, readers.sha256 content, false⟩

/-- `NATIVE_UNAVAILABLE:`. -/
def unavailableMark : String := "NATIVE_UNAVAILABLE:"

/-- The first line that says why a stage is unavailable. -/
def unavailableReason (output : String) : String :=
  ((Str.splitlines output).find? fun line => Str.contains line unavailableMark).getD
    "project_preparation_unavailable"

/-- The artifact and the content that the evidence of a stage is read from. -/
def evidenceContent (evidence : Evidence) (stdout output : String) (report : Report) :
    Except String (Artifact × String) :=
  match evidence.source with
  | .file =>
    if report.fresh then do
      let content ← report.content
      pure (artifact readers (PosixPath.pathStr evidence.path) content, content)
    else .error "required evidence unavailable, stale or outside project"
  | .stdout => .ok (artifact readers "stdout" stdout, stdout)
  | .combined => .ok (artifact readers "combined" output, output)

/-- The counts of a stage decide its state. -/
def Outcome.withCounts (outcome : Outcome) (kind : Kind) (evidence : Evidence) (counts : Counts) :
    Outcome :=
  let outcome := { outcome with
    counts := some counts
    notApplicableTests :=
      if counts.notApplicable.getD 0 ≠ 0 then evidence.notApplicableTests else [] }
  if counts.failed ≠ 0 then { outcome with state := .fail, reason := "evidence_records_failures" }
  else if outcome.state = .pass ∧ kind = .test ∧
      (counts.executed = 0 ∨ counts.notApplicable.getD 0 < counts.skipped) then
    { outcome with state := .unavailable, reason := "empty_or_skipped_required_tests" }
  else outcome

/-- An exception while the evidence is read. -/
def Outcome.raise (outcome : Outcome) (message : String) : Outcome :=
  { outcome with
    state := if outcome.returncode.getD 0 ≠ 0 then .fail else .unavailable
    reason := message }

/-- The evidence of a stage whose command finished. -/
def Outcome.withEvidence (outcome : Outcome) (kind : Kind) (evidence : Evidence)
    (stdout output : String) (report : Report) : Outcome :=
  match evidenceContent readers evidence stdout output report with
  | .error message => outcome.raise message
  | .ok (read, content) =>
    let outcome := { outcome with artifacts := outcome.artifacts ++ [read] }
    match countsOf readers evidence content with
    | .error message => outcome.raise message
    | .ok counts => outcome.withCounts kind evidence counts

/-- A command that finished. -/
def Stage.finished (stage : Stage) (returncode : Int) (stdout output : String) (report : Report) :
    Outcome :=
  let outcome := { stage.outcome with returncode := some returncode }
  if returncode = 127 ∨ Str.contains output unavailableMark then
    { outcome with reason := unavailableReason output }
  else
    let outcome := { outcome with state := if returncode = 0 then .pass else .fail }
    match stage.evidence with
    | none => outcome
    | some evidence => outcome.withEvidence readers stage.kind evidence stdout output report

/-- The outcome of a fresh execution up to its output, and the output. -/
def Stage.attempt (stage : Stage) (prepared : Bool) (execution : Execution) : Outcome × String :=
  if !prepared then
    ({ stage.outcome with reason := "locked_environment_unavailable; prepare explicitly" }, "")
  else if !execution.ready then
    ({ stage.outcome with reason := "project_tool_or_cwd_unavailable; prepare explicitly" }, "")
  else match execution.ran with
  | .raised message => (stage.outcome.raise message, "")
  | .timeout =>
    ({ stage.outcome with state := .fail, reason := "stage_timeout", returncode := some 124 }, "")
  | .finished returncode stdout stderr report =>
    let output := joinOutput stdout stderr
    (stage.finished readers returncode stdout output report, output)

/-- `text[-1200:]`. -/
def tail (text : String) : String := String.ofList (text.toList.drop (text.length - 1200))

/-- `_retain_artifacts`, as far as it gets. -/
def retain (retains : Nat) (artifacts : List Artifact) : List Artifact :=
  (artifacts.take retains).map (fun item => { item with retained := true }) ++
    artifacts.drop retains

/-- A fresh execution of a stage. -/
def Stage.execute (stage : Stage) (prepared : Bool) (execution : Execution) : Outcome :=
  let attempt := stage.attempt readers prepared execution
  let artifacts := attempt.1.artifacts ++
    if attempt.2 = "" then [] else [artifact readers "output" attempt.2]
  { attempt.1 with
    duration := execution.duration
    detail := tail attempt.2
    artifacts := retain execution.retains artifacts }

/-! ## The stage cache -/

/-- What a stage key is the digest of. -/
inductive KeyInputs where
  /-- the source, the plan and the implementation -/
  | whole (source : String) (plan : Plan) (implementation : String)
  /-- the stage, the implementation, and what the declared inputs and environments contain -/
  | declared (stage : Stage) (implementation materials : String)
deriving DecidableEq, Repr

structure FailureRecord where
  repeats : Nat
  outcome : Outcome
deriving DecidableEq, Repr

/-- The files of the cache: the receipts and the failure records by stage key and id, and the
    digests of the retained artifacts. -/
structure Store where
  receipts : List ((KeyInputs × String) × Outcome)
  failures : List ((KeyInputs × String) × FailureRecord)
  artifacts : List String
deriving DecidableEq, Repr

/-- One run of `_run_native`: how it is called, and what it meets. -/
structure Run where
  plan : Plan
  stageId : Option String
  reuse : Bool
  fullGate : Bool
  /-- executables and directories that are there when the run starts -/
  available : Stage → Bool
  /-- the source, unless it cannot be read, and whether the checkout is clean -/
  source : Option (String × Bool)
  /-- `_stage_cache` meets no error -/
  cacheReady : Bool
  implementation : String
  materials : String → String
  execution : String → Execution
  /-- the source at the end differs, or cannot be read -/
  changed : Bool
  /-- how many outcomes are saved: none when the plan or the implementation changed -/
  saves : Nat

/-- The selected stages. -/
def Run.stages (r : Run) : List Stage :=
  r.plan.stages.filter fun stage => r.stageId.all fun id => decide (stage.id = id)

/-- The identity of a source that may be cached. -/
def Run.cacheSource (r : Run) : Option String :=
  if r.stageId = none ∧ r.fullGate ∧ r.cacheReady then
    r.source.bind fun source => if source.2 then some source.1 else none
  else none

/-- `_stage_key`. -/
def Run.stageKey (r : Run) (source : String) (stage : Stage) : KeyInputs :=
  if stage.inputs = [] then .whole source r.plan r.implementation
  else .declared stage r.implementation (r.materials stage.id)

/-- `_deterministic_failure`. -/
def deterministicFailure (outcome : Outcome) : Bool :=
  decide (outcome.state = .fail) &&
    (outcome.returncode.any fun code => decide (0 < code) && decide (code ≠ 124)) &&
    decide (outcome.reason ≠ "stage_timeout")

/-- A pass that `_reuse_stage` takes for a stage. -/
def reusablePass (store : Store) (stage : Stage) (outcome : Outcome) : Bool :=
  decide (outcome.state = .pass) && decide (outcome.coverage = .full) &&
    decide (outcome.returncode = some 0) && decide (outcome.command = stage.argv) &&
    decide (outcome.id = stage.id) && decide (outcome.cwd = stage.cwd) &&
    decide (outcome.required = stage.required) && decide (outcome.tool = stage.tool) &&
    (decide (stage.kind = .check) || outcome.counts.any fun counts =>
      decide (1 ≤ counts.executed) && decide (counts.failed = 0) &&
        decide (counts.skipped ≤ counts.notApplicable.getD 0)) &&
    (stage.evidence.isNone || decide (outcome.artifacts ≠ [])) &&
    outcome.artifacts.all fun item => decide (item.sha256 ∈ store.artifacts)

/-- `_reuse_stage`. -/
def Run.reuseStage (r : Run) (store : Store) (stage : Stage) : Option Outcome :=
  match r.cacheSource with
  | none => none
  | some source =>
    if stage.coverage = .full then
      (Dict.get? (r.stageKey source stage, stage.id) store.receipts).filter (reusablePass store stage)
    else none

/-- `_FAILURE_REPEATS`. -/
def failureRepeats : Nat := 2

/-- The reason of a failure that is reported from its record. -/
def repeatedReason (record : FailureRecord) : String :=
  "identical_inputs_failed_" ++ toString record.repeats ++ "x:" ++
    (if record.outcome.reason = "" then "failed" else record.outcome.reason) ++
    "; rerun with --no-reuse to retry"

/-- `_prior_failure`. -/
def Run.priorFailure (r : Run) (store : Store) (stage : Stage) : Option Outcome :=
  match r.cacheSource with
  | none => none
  | some source =>
    if stage.coverage = .full then
      ((Dict.get? (r.stageKey source stage, stage.id) store.failures).filter fun record =>
        decide (failureRepeats ≤ record.repeats) && deterministicFailure record.outcome &&
          decide (record.outcome.id = stage.id) &&
          decide (record.outcome.command = stage.argv)).map fun record =>
        { record.outcome with reason := repeatedReason record }
    else none

/-- The outcome that a stage has from the cache. -/
def Run.cached (r : Run) (store : Store) (stage : Stage) : Option Outcome :=
  if r.reuse then (r.reuseStage store stage).or (r.priorFailure store stage) else none

/-- A fresh outcome that is cached: a pass, or a deterministic failure. -/
def Run.caches (r : Run) (stage : Stage) (outcome : Outcome) : Bool :=
  r.cacheSource.isSome && decide (stage.coverage = .full) &&
    (decide (outcome.state = .pass) || deterministicFailure outcome)

/-! ## A run -/

/-- The stages done so far: the files, the outcomes, and the fresh ones to be cached. -/
structure Progress where
  store : Store
  outcomes : List Outcome
  observed : List (Stage × Outcome)

/-- Declared inapplicability. -/
def Stage.notApplicable (stage : Stage) : Outcome :=
  { stage.outcome with state := .notApplicable, reason := stage.reason }

/-- A stage that another one covers. -/
def Stage.covered (stage : Stage) (by' : String) : Outcome :=
  { stage.outcome with
    state := .notApplicable, coveredBy := some by', reason := "coverage_provided_by:" ++ by' }

/-- The stage that covers a stage in this run. -/
def Run.coveredBy (r : Run) (outcomes : List Outcome) (stage : Stage) : Option String :=
  if r.stageId = none ∧ r.fullGate then
    stage.coveredBy.filter fun id =>
      outcomes.any fun item => decide (item.id = id) && decide (item.state = .pass)
  else none

/-- One stage of the loop of `_run_native`. -/
def Run.stageStep (r : Run) (done : Progress) (stage : Stage) : Progress :=
  if !stage.applicable then { done with outcomes := done.outcomes ++ [stage.notApplicable] }
  else match r.cached done.store stage with
  | some cached => { done with outcomes := done.outcomes ++ [{ cached with reused := true }] }
  | none =>
    match r.coveredBy done.outcomes stage with
    | some id => { done with outcomes := done.outcomes ++ [stage.covered id] }
    | none =>
      let outcome := stage.execute readers r.plan.prepared (r.execution stage.id)
      { store := { done.store with artifacts := done.store.artifacts ++
          (outcome.artifacts.filter (·.retained)).map (·.sha256) }
        outcomes := done.outcomes ++ [outcome]
        observed := done.observed ++ if r.caches stage outcome then [(stage, outcome)] else [] }

/-- The loop of `_run_native`. -/
def Run.loop (r : Run) (store : Store) : Progress :=
  r.stages.foldl (r.stageStep readers) ⟨store, [], []⟩

/-- A pass does not stand when the source changed. -/
def Outcome.unlessChanged (outcome : Outcome) (changed : Bool) : Outcome :=
  if changed && decide (outcome.state = .pass) then
    { outcome with state := .fail, reason := "source_inputs_changed_during_native_check" }
  else outcome

/-- The repeats of a failure, with the record before it. -/
def nextRepeats : Option FailureRecord → Nat
  | some previous => previous.repeats + 1
  | none => 1

/-- One observation of `_save_stages`. -/
def Run.saveStage (r : Run) (source : String) (store : Store) (observed : Stage × Outcome) :
    Store :=
  let key := (r.stageKey source observed.1, observed.1.id)
  if observed.2.state ≠ .pass then
    let repeats := nextRepeats (Dict.get? key store.failures)
    { store with failures := Dict.set key ⟨repeats, observed.2⟩ store.failures }
  else
    let store := { store with failures := store.failures.filter fun entry => entry.1 ≠ key }
    if observed.2.artifacts.all (·.retained) then
      { store with receipts := Dict.set key observed.2 store.receipts }
    else store

/-- The observations that a run saves. -/
def Run.saved (r : Run) (observed : List (Stage × Outcome)) : List (Stage × Outcome) :=
  if r.source.isSome ∧ r.changed then [] else observed.take r.saves

/-- `_save_stages`. -/
def Run.save (r : Run) (done : Progress) : Store :=
  match r.cacheSource with
  | none => done.store
  | some source => (r.saved done.observed).foldl (r.saveStage source) done.store

/-! ## Evidence of a run -/

/-- The legacy part of the evidence. -/
structure Legacy where
  coverage : Coverage
  state : State
deriving DecidableEq, Repr

/-- What a run reports. -/
structure NativeEvidence where
  schemaVersion : Nat
  coverage : Coverage
  state : State
  stages : List Outcome
  legacy : Option Legacy
deriving DecidableEq, Repr

/-- `blocked_native_result`. -/
def Run.blocked (r : Run) (reason : String) : NativeEvidence where
  schemaVersion := 1
  coverage := if r.fullGate ∧ r.stageId = none then .full else .focused
  state := .fail
  stages := r.stages.map fun stage => { stage.outcome with reason := reason }
  legacy := none

/-- The evidence of a run that was not blocked. -/
def Run.evidence (r : Run) (outcomes : List Outcome) : NativeEvidence :=
  let outcomes := outcomes.map fun outcome =>
    outcome.unlessChanged (r.source.isSome && r.changed)
  let full := r.fullGate && decide (r.stageId = none) &&
    (r.stages.filter (·.required)).all fun stage => decide (stage.coverage = .full)
  let passed := (outcomes.filter (·.required)).all fun outcome => decide (outcome.state = .pass)
  ⟨1, if full then .full else .focused, if passed then .pass else .fail, outcomes, none⟩

/-- `_run_native`: what it reports, and the files it leaves. -/
def Run.runNative (r : Run) (store : Store) : Except String (NativeEvidence × Store) :=
  if r.stages = [] then .error ("unknown native stage: " ++ r.stageId.getD "None")
  else if !r.plan.prepared then
    .ok (r.blocked "locked_environment_unavailable; prepare explicitly", store)
  else if r.stages.any fun stage => (stage.required || r.stageId.isSome) && !r.available stage then
    .ok (r.blocked "project_tool_or_cwd_unavailable; prepare explicitly", store)
  else
    let done := r.loop readers store
    .ok (r.evidence done.outcomes, r.save done)

/-- The evidence with a full-coverage legacy part, when the plan names legacy tools.  Native
    stages only run after these passed. -/
def NativeEvidence.withLegacy (evidence : NativeEvidence) (plan : Plan) : NativeEvidence :=
  if plan.legacyTools = [] then evidence else { evidence with legacy := some ⟨.full, .pass⟩ }

/-! ## The validator -/

/-- The identity of an outcome is that of the declaration. -/
def sameIdentity (outcome : Outcome) (stage : Stage) : Bool :=
  decide (outcome.id = stage.id) && decide (outcome.required = stage.required) &&
    decide (outcome.coverage = stage.coverage) && decide (outcome.cwd = stage.cwd) &&
    decide (outcome.tool = stage.tool) && decide (outcome.command = stage.argv)

/-- A required stage that passed in full. -/
def succeeded (outcome : Outcome) : Bool :=
  decide (outcome.state = .pass) && decide (outcome.coverage = .full) &&
    decide (outcome.returncode = some 0)

/-- The coverage of an outcome is provided by a stage that passed. -/
def coverageProvided (outcomes : List Outcome) (declared : List Stage) (outcome : Outcome)
    (stage : Stage) : Bool :=
  match outcome.coveredBy with
  | none => true
  | some id =>
    decide (stage.coveredBy = some id) && !stage.required &&
      decide (outcome.state = .notApplicable) &&
      decide (outcome.reason = "coverage_provided_by:" ++ id) &&
      ((outcomes.find? fun item => decide (item.id = id)).any fun item =>
        decide (item.state = .pass)) &&
      (declared.find? fun item => decide (item.id = id)).any fun item =>
        decide (item.coverage = .full) && item.required && decide (item.kind = stage.kind)

/-- The path that the first artifact of a stage's evidence has to have. -/
def Evidence.expectedPath (evidence : Evidence) : String :=
  match evidence.source with
  | .stdout => "stdout"
  | .combined => "combined"
  | .file => evidence.path

/-- The artifacts of a required stage that passed. -/
def artifactsIdentified (evidence : Evidence) (artifacts : List Artifact) : Bool :=
  (artifacts.all fun item => isDigest item.sha256) &&
    artifacts.head?.any fun item => decide (item.path = evidence.expectedPath)

/-- The counts of a required suite that passed. -/
def suiteCounted (counts : Counts) : Bool :=
  decide (0 ≤ counts.executed) && decide (0 ≤ counts.failed) && decide (0 ≤ counts.skipped) &&
    decide (1 ≤ counts.executed) && decide (counts.failed = 0) &&
    decide (counts.skipped ≤ counts.notApplicable.getD 0)

/-- Skipped cases need an explicit declaration. -/
def skipsDeclared (stage : Stage) (counts : Counts) : Bool :=
  decide (counts.notApplicable.getD 0 = 0) ||
    (stage.evidence.any fun evidence => decide (evidence.notApplicableTests ≠ [])) &&
      counts.notApplicable.all fun n => decide (n ≤ counts.skipped)

/-- The checks of `_validate_native_evidence` on one stage. -/
def validateStage (requireSuccess : Bool) (outcomes : List Outcome) (declared : List Stage)
    (outcome : Outcome) (stage : Stage) : Except String Unit := do
  require (sameIdentity outcome stage) "native stage identity differs from declaration"
  require (!requireSuccess || !stage.required || succeeded outcome)
    "required native stage was failed, unavailable, skipped or focused"
  require (coverageProvided outcomes declared outcome stage)
    "focused stage coverage is not provided by successful required full coverage"
  let passed := stage.required && decide (outcome.state = .pass)
  require (!passed || stage.evidence.all fun evidence =>
    artifactsIdentified evidence outcome.artifacts) "required native artifact identity missing"
  require (!passed || decide (stage.kind = .check) || outcome.counts.any suiteCounted)
    "required native suite was empty, failed or skipped"
  require (!passed || decide (stage.kind = .check) || outcome.counts.any (skipsDeclared stage))
    "native skipped cases lack an explicit not-applicable declaration"

/-- The loop of `_validate_native_evidence`. -/
def validateStages (requireSuccess : Bool) (outcomes : List Outcome) (declared : List Stage) :
    List (Outcome × Stage) → Except String Unit
  | [] => .ok ()
  | pair :: pairs => do
    validateStage requireSuccess outcomes declared pair.1 pair.2
    validateStages requireSuccess outcomes declared pairs

/-- What is validated against: the selected stages and the legacy tools. -/
structure Declared where
  stages : List Stage
  legacyTools : List String

/-- `_validate_native_evidence`. -/
def validateNativeEvidence (evidence : NativeEvidence) (native : Declared)
    (requireSuccess : Bool) : Except String Unit := do
  require (decide (evidence.schemaVersion = 1) &&
    decide (evidence.state = .pass ∨ evidence.state = .fail)) "invalid native evidence envelope"
  require (!requireSuccess ||
    decide (evidence.coverage = .full) && decide (evidence.state = .pass))
    "native evidence does not record successful full coverage"
  require (decide (native.legacyTools = []) || evidence.legacy.any fun legacy =>
    decide (legacy.coverage = .full) && (!requireSuccess || decide (legacy.state = .pass)))
    "native evidence omits applicable legacy checks"
  require (decide (evidence.stages.length = native.stages.length))
    "native evidence omits declared stages"
  validateStages requireSuccess evidence.stages native.stages (evidence.stages.zip native.stages)

/-- `_gate_evidence`, on the evidence that was reported: none is `unavailable`. -/
def gateEvidence (evidence : NativeEvidence) (native : Declared) : Option NativeEvidence :=
  match validateNativeEvidence evidence native false with
  | .error _ => none
  | .ok () =>
    if evidence.state = .pass ∧ evidence.coverage = .full then
      match validateNativeEvidence evidence native true with
      | .error _ => none
      | .ok () => some evidence
    else some evidence

end SummitFlow.NativeCheck
