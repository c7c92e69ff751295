import SummitFlow.ForStd.Json
import SummitFlow.ForStd.Dict
import SummitFlow.ForStd.SortedBy
import SummitFlow.Cli.NativeChecks
import Mathlib.Data.String.Basic

/-!
# Acceptance receipts

Model of `_accept_revision` and of the receipts it reuses (`backend/cli/lib/acceptance.py`).
A receipt is the JSON object of its file.  What git, the checkout and the declared gates
answer is a `Repo`; it is read again when a run of the gates is finished, and it may have
changed by then.

A value of another type than the code expects, where the code stops with a `TypeError` or
the like, counts as one that the code refuses.  The evidence of a gate is checked in
`NativeChecks`; here the verdict is an answer of the `Repo`.  The names of the inputs that
changed and the excerpts of the output, which only texts for a reader quote, are left out.
-/

namespace SummitFlow.Acceptance

open SummitFlow.Json
open SummitFlow.NativeCheck (require requireSome isDigest)

/-! ## JSON objects -/

abbrev Object := List (String × Value)

def str? : Value → Option String
  | .str s => some s
  | _ => none

def dict? : Value → Option Object
  | .obj entries => some entries
  | _ => none

def items? : Value → Option (List Value)
  | .arr items => some items
  | _ => none

/-- A list of strings. -/
def strings? (v : Value) : Option (List String) := (items? v).bind fun items => items.mapM str?

def strings (names : List String) : Value := .arr (names.map .str)

def getStr (d : Object) (key : String) : Option String := (d.lookup key).bind str?

def getDict (d : Object) (key : String) : Option Object := (d.lookup key).bind dict?

def getStrings (d : Object) (key : String) : Option (List String) := (d.lookup key).bind strings?

mutual

def sortKeys : Value → Value
  | .arr items => .arr (sortKeysItems items)
  | .obj entries => .obj (sortBy Prod.fst (sortKeysEntries entries))
  | v => v

def sortKeysItems : List Value → List Value
  | [] => []
  | v :: items => sortKeys v :: sortKeysItems items

def sortKeysEntries : List (String × Value) → List (String × Value)
  | [] => []
  | (k, v) :: entries => (k, sortKeys v) :: sortKeysEntries entries

end

/-- `json.dumps(v, sort_keys=True, separators=(",", ":"))`. -/
def dumps (v : Value) : List Char := (sortKeys v).text

/-- `v == w`: the order of the keys does not matter. -/
def same (v w : Value) : Bool := decide (sortKeys v = sortKeys w)

/-- `v == w` for what `get` returns. -/
def sameField (v w : Option Value) : Bool := same (v.getD .null) (w.getD .null)

/-- SHA-256 of a JSON text, whose characters beyond ASCII are escaped, and of framed parts. -/
structure Sha where
  json : List Char → String
  parts : List String → String
  json_injective : Function.Injective json

/-! ## Receipts -/

/-- The keys that `_receipt_digest` leaves out. -/
def undigested : List String := ["acceptance_id", "task_id", "scope"]

/-- The keys of a descriptor that `_load_receipt` takes out. -/
def added : List String :=
  ["acceptance_artifact", "source_commit", "source_tree", "input_fingerprint",
    "acceptance_plan_fingerprint", "reused", "reuse_lookup_ms", "working_tree_clean",
    "scope_digest", "receipt_reference"]

def without (keys : List String) (d : Object) : Object := d.filter fun e => decide (e.1 ∉ keys)

/-- `{**d, **updates}`. -/
def update (d updates : Object) : Object := updates.foldl (fun d e => Dict.set e.1 e.2 d) d

variable (sha : Sha)

/-- `_receipt_digest`. -/
def receiptDigest (receipt : Object) : String := sha.json (dumps (.obj (without undigested receipt)))

/-- `_load_receipt`, on a mapping. -/
def loadReceipt (receipt : Object) : Object := without added receipt

/-- The paths of a scope as `sorted({path.strip() for path in scope if path.strip()})`. -/
def normalizeScope (scope : List String) : List String :=
  sortBy id ((scope.map Str.strip).filter fun path => path ≠ "").dedup

/-- `scope_digest`. -/
def scopeDigest (scope : List String) : String := sha.json (dumps (strings (normalizeScope scope)))

/-- `receipt.get("scope", ())`. -/
def scopeOf (receipt : Object) : List String := (getStrings receipt "scope").getD []

/-- `receipt["source"]["commit"]`. -/
def sourceCommit (receipt : Object) : Option String :=
  (getDict receipt "source").bind fun source => getStr source "commit"

/-- The fields that `_descriptor` writes. -/
def descriptorFields (receipt : Object) (artifact : String) (reused : Bool) : Object :=
  let nested := fun key field => ((getDict receipt key).bind fun d => d.lookup field).getD .null
  [("acceptance_artifact", .str artifact),
    ("source_commit", nested "source" "commit"),
    ("source_tree", nested "source" "tree"),
    ("input_fingerprint", nested "inputs" "fingerprint"),
    ("acceptance_plan_fingerprint", nested "plan" "fingerprint"),
    ("task_id", (receipt.lookup "task_id").getD (.str "")),
    ("reused", .bool reused),
    ("scope_digest", .str (scopeDigest sha (scopeOf receipt)))]

/-- `_descriptor`. -/
def descriptor (receipt : Object) (artifact : String) (reused : Bool) : Object :=
  update receipt (descriptorFields sha receipt artifact reused)

/-! ## The store -/

/-- The files of the acceptance directory.  A receipt that cannot be read or is no JSON
    object is none. -/
structure Store where
  /-- the names without `.json`, the file written last first -/
  files : List (String × Option Object)
  /-- the receipts of the commit index -/
  commits : List (String × List String)

def Store.receipt (store : Store) (name : String) : Option Object := (store.files.lookup name).join

/-- `_write_receipt`. -/
def Store.write (store : Store) (name : String) (receipt : Object) : Store :=
  { store with files := (name, some receipt) :: store.files.filter fun file => file.1 ≠ name }

/-- `_COMMIT_ID.fullmatch`. -/
def isCommitId (text : String) : Bool :=
  (text.length = 40 || text.length = 64) &&
    text.toList.all fun c => ('0' ≤ c && c ≤ '9') || ('a' ≤ c && c ≤ 'f')

def receiptScanLimit : Nat := 16
def commitIndexLimit : Nat := 32

/-- The receipts that the index lists for a commit. -/
def Store.listed (store : Store) (commit : String) : List String :=
  if isCommitId commit then (store.commits.lookup commit).getD [] else []

/-- `_index_receipt`. -/
def Store.index (store : Store) (receipt : Object) : Store :=
  let commit := (sourceCommit receipt).getD ""
  match getStr receipt "acceptance_id" with
  | some id =>
    if isCommitId commit then
      let ids := id :: (store.listed commit).filter fun item => item ≠ id
      { store with commits := Dict.set commit (ids.take commitIndexLimit) store.commits }
    else store
  | none => store

/-! ## The repository -/

structure FileInfo where
  regular : Bool
  links : Nat
  mode : Nat
  /-- the file belongs to the user who asks -/
  own : Bool

/-- What a command of the gates left. -/
structure Ran where
  stdout : String
  stderr : String
  returncode : Int

structure Repo where
  /-- `git rev-parse --verify NAME^{commit}` -/
  commit : String → Except String String
  /-- `git rev-parse --verify COMMIT^{tree}` -/
  tree : String → Except String String
  /-- the output of `git status`, empty if it fails -/
  status : String
  /-- the fingerprint of `_workspace_fingerprint` -/
  workspace : Except String String
  /-- `_source_inputs` -/
  sourceInputs : String → Except String Object
  /-- `_source_execution` of a commit on a basis, with recorded permissions if they are given -/
  sourceExecution : String → String → Option Object → Except String (Value × Object)
  /-- the materialization of an isolated checkout is that of its git objects -/
  materialized : String → Value → Except String Unit
  /-- `working_source_materialization_identity` -/
  workingMaterialization : Except String Value
  /-- `projected_source_modes` -/
  projectedModes : String → Object
  /-- `_receipt_local_inputs` -/
  localInputs : Object
  /-- `_outcome_local_inputs` -/
  outcomeLocalInputs : String → Object → Value
  lstat : String → Option FileInfo
  /-- `_project_acceptance_plan` of the checkout or of a commit, for the named checks or all -/
  projectPlan : Option String → Bool → Except String Object
  /-- `require_scope_matches_revision` -/
  scopeMatches : String → List String → Except String Unit
  /-- `_gate_evidence` and `_task_gate_evidence` of an output -/
  gateEvidence : String → Object → Object
  taskGateEvidence : String → Object → List String → Except String Object
  /-- `_validate_task_evidence` for a native stage or none, and `_validate_native_evidence` -/
  validTaskEvidence : Object → Option Object → List String → Except String Unit
  validNativeEvidence : Object → Value → Except String Unit
  /-- `_validate_retained_native_artifacts` -/
  retained : Object → Except String Unit
  /-- the acceptance directory -/
  directory : String

def Repo.artifact (repo : Repo) (name : String) : String := repo.directory ++ "/" ++ name ++ ".json"

/-- `{stage["id"]: stage for stage in plan.get("native", {}).get("stages", [])}`. -/
def declaredStages (plan : Object) : List Object :=
  (((getDict plan "native").bind fun native => (native.lookup "stages").bind items?).getD []).filterMap
    dict?

def stageNamed (plan : Object) (name : String) : Option Object :=
  (declaredStages plan).find? fun stage => decide (getStr stage "id" = some name)

def applicable (stage : Object) : Bool :=
  match stage.lookup "applicable" with
  | some (.bool b) => b
  | _ => false

def sortedSet (names : List String) : List String := sortBy id names.dedup

/-- `_coverage_plan`. -/
def coveragePlan (repo : Repo) (plan : Object) (coverage : String) (scope required : List String) :
    Except String Object := do
  require (coverage = "task" || coverage = "full") "Acceptance coverage must be task or full"
  if coverage = "full" then
    require (required.all fun name => (stageNamed plan name).isSome)
      "Required acceptance stage is missing from the native declaration"
    return plan
  require (!scope.isEmpty) "Task acceptance requires explicit literal owned scope"
  repo.scopeMatches (← repo.commit "HEAD") scope
  require (required.all fun name => (stageNamed plan name).any applicable)
    "Required acceptance stage is missing or not applicable"
  let selected := sortedSet required
  let commands := ["st", "check", "--quick", "--changed-only"] ::
    selected.map fun name => ["st", "check", "--native", "--stage", name]
  let value := without ["fingerprint"] (update plan [("coverage", .str "task"),
    ("scope", strings scope), ("required_stages", strings selected),
    ("commands", .arr (commands.map strings))])
  return Dict.set "fingerprint" (.str (sha.json (dumps (.obj value)))) value

/-- `requested_plan`. -/
def requestedPlan (repo : Repo) (commit : Option String) (coverage : String)
    (scope required : List String) : Except String Object := do
  let plan ← repo.projectPlan commit (coverage = "task")
  coveragePlan sha repo plan coverage scope required

/-- `plan["commands"]`. -/
def commandsOf (plan : Object) : List (List String) :=
  (((plan.lookup "commands").bind items?).getD []).filterMap strings?

/-! ## Validation -/

/-- The path is an owned one or below it. -/
def owns (owned : List String) (name : String) : Bool :=
  owned.any fun path => name = path || Str.startswith name (Str.rstripSlash path ++ "/")

/-- The permissions of an owned file are the recorded ones. -/
def checkMode (repo : Repo) (commit : String) (entry : String × Value) : Except String Unit := do
  let info ← requireSome (repo.lstat entry.1) "Owned source permission inputs are unavailable"
  require (info.regular && info.links = 1) "Owned source permission inputs no longer match"
  let current :=
    if info.own then some (Value.int info.mode) else (repo.projectedModes commit).lookup entry.1
  require (sameField current (some entry.2)) "Owned source permission inputs no longer match"

/-- The receipt's inputs are still those of the repository. -/
def checkInputs (repo : Repo) (value inputs : Object) (commit basis : String) : Except String Unit := do
  let sourceInputs ← repo.sourceInputs commit
  require (sameField (some (.obj sourceInputs)) (inputs.lookup "source_inputs"))
    "accepted dependency/configuration inputs no longer match"
  let recorded ← requireSome (getDict inputs "execution")
    "acceptance receipt is missing a supported consumed source binding"
  require (sameField (recorded.lookup "schema_version") (some (.int 1)) &&
      getStr recorded "basis" = some basis && (basis = "actual" || basis = "isolated"))
    "acceptance receipt is missing a supported consumed source binding"
  let entries := getDict inputs "source_mode_entries"
  if basis = "isolated" then
    let entries ← requireSome entries
      "Legacy isolated receipt lacks immutable source permission entries; fresh proof required"
    (entries.filter fun entry => owns (scopeOf value) entry.1).forM (checkMode repo commit)
  -- a checkout that has moved on or holds other work is not read again
  if basis = "isolated" || repo.commit "HEAD" = .ok commit && repo.status = "" then
    let (execution, modes) ← repo.sourceExecution commit basis entries
    require (sameField (some (.obj modes)) (inputs.lookup "source_modes"))
      "accepted source permission inputs no longer match or were not recorded"
    require (same execution (.obj recorded))
      "accepted source materialization no longer matches its consumed source binding"
  let recordedLocal ← requireSome (getDict inputs "local_inputs")
    "accepted local environment/configuration inputs no longer match"
  -- an older receipt, which checks the whole file
  let currentLocal := if (recordedLocal.lookup "home_gate_keys").isNone
    then without ["home_gate_keys"] repo.localInputs else repo.localInputs
  require (same (repo.outcomeLocalInputs commit currentLocal)
    (repo.outcomeLocalInputs commit recordedLocal))
    "accepted local environment/configuration inputs no longer match"

/-- A check records that its command succeeded. -/
def succeededCheck (check : Object) (command : List String) : Bool :=
  getStrings check "command" = some command && getStr check "state" = some "success" &&
    match check.lookup "returncode" with
    | some (.int n) => decide (n = 0)
    | _ => false

/-- The evidence of a check is what the coverage asks for. -/
def checkEvidence (repo : Repo) (plan : Object) (coverage : String) (check : Object) :
    Except String Unit := do
  if coverage = "task" then
    let evidence ← requireSome (getDict check "evidence") "Task acceptance is missing required evidence"
    let command := (getStrings check "command").getD []
    let stage := if "--stage" ∈ command then stageNamed plan (command.getLastD "") else none
    repo.validTaskEvidence evidence stage command
    repo.retained evidence
  else
    let evidence ← requireSome (getDict check "evidence")
      "acceptance check evidence does not record full coverage"
    require (getStr evidence "coverage" = some "full" && getStr evidence "state" = some "pass")
      "acceptance check evidence does not record full coverage"
    match plan.lookup "native" with
    | none | some .null => return
    | some native =>
      repo.validNativeEvidence evidence native
      repo.retained evidence

/-- `validate_acceptance_receipt` of what was loaded, for a revision. -/
def validateAcceptanceReceipt (repo : Repo) (store : Store) (value : Object) (artifact : String)
    (revision : String) : Except String Object := do
  let id ← requireSome (getStr value "acceptance_id") "acceptance receipt integrity check failed"
  require (receiptDigest sha value = id) "acceptance receipt integrity check failed"
  let version := value.lookup "schema_version"
  require ((sameField version (some (.int 2)) || sameField version (some (.int 3))) &&
      getStr value "state" = some "success")
    "acceptance receipt does not record successful full acceptance"
  let coverage ← requireSome (getStr value "coverage")
    "acceptance receipt does not record supported acceptance coverage"
  require (coverage = "full" || coverage = "task" && sameField version (some (.int 3)))
    "acceptance receipt does not record supported acceptance coverage"
  let missing := "acceptance receipt is missing source-bound inputs"
  let source ← requireSome (getDict value "source") missing
  let inputs ← requireSome (getDict value "inputs") missing
  let plan ← requireSome (getDict value "plan") missing
  let commit ← repo.commit ((getStr source "commit").getD "")
  let tree ← repo.tree commit
  require (getStr source "commit" = some commit && getStr source "tree" = some tree)
    "accepted source no longer matches its commit/tree identity"
  let expected ← repo.commit revision
  require (expected = commit) "acceptance receipt belongs to a different source commit"
  let basis := ((getDict inputs "execution").bind fun execution => getStr execution "basis").getD ""
  checkInputs repo value inputs commit basis
  let current ← requestedPlan sha repo (if basis = "isolated" then some commit else none) coverage
    ((getStrings plan "scope").getD []) ((getStrings plan "required_stages").getD [])
  require (coverage ≠ "task" || sameField (value.lookup "scope") (current.lookup "scope"))
    "Task acceptance receipt belongs to a different owned scope"
  require (same (.obj current) (.obj plan)) "acceptance plan or local toolchain changed"
  let incomplete := "acceptance checks do not record successful completion of the full plan"
  let checks ← requireSome ((value.lookup "checks").bind items?) incomplete
  let checks ← requireSome (checks.mapM dict?) incomplete
  let commands := commandsOf current
  require (checks.length = commands.length &&
    sameField (value.lookup "check_count") (some (.int commands.length)) &&
    (checks.zip commands).all fun pair => succeededCheck pair.1 pair.2) incomplete
  checks.forM (checkEvidence repo current coverage)
  return descriptor sha value
    (if (store.files.lookup id).isSome then repo.artifact id else artifact) false

/-! ## Reuse -/

/-- The outcomes of the stages that the evidence of a receipt's checks lists. -/
def stagesOf (receipt : Object) : List Object :=
  let checks := (((receipt.lookup "checks").bind items?).getD []).filterMap dict?
  checks.flatMap fun check =>
    (((getDict check "evidence").bind fun evidence => (evidence.lookup "stages").bind items?).getD
      []).filterMap dict?

/-- `_full_receipt_covers`. -/
def fullReceiptCovers (receipt : Object) (required : List String) : Bool :=
  required.all fun name => (stagesOf receipt).any fun stage =>
    decide (getStr stage "id" = some name) && decide (getStr stage "state" = some "pass") &&
      decide (getStr stage "coverage" = some "full")

/-- The kind of a receipt, its scope and its stages serve what is asked for. -/
def serves (receipt : Object) (coverage : String) (scope required : List String) : Bool :=
  match getStr receipt "coverage" with
  | some "task" => decide (coverage = "task") && decide (getStrings receipt "scope" = some scope) &&
      decide ((((getDict receipt "plan").bind fun plan => getStrings plan "required_stages").getD []) =
        required)
  | some "full" => decide (coverage ≠ "task") || fullReceiptCovers receipt required
  | _ => false

structure Call where
  revision : String
  scope : List String
  taskId : String
  reuse : Bool
  basis : String
  coverage : String
  requiredStages : List String

def Call.normalizedScope (call : Call) : List String := normalizeScope call.scope

/-- The files that `receipt_for_commit` looks at: those of the index, then the newest. -/
def candidates (store : Store) (commit : String) : List String :=
  ((store.listed commit).filter isDigest ++
    (store.files.map Prod.fst).take receiptScanLimit).eraseDups

/-- One step of `receipt_for_commit`: the receipt of a file, with its descriptor. -/
def usable (repo : Repo) (store : Store) (commit : String) (call : Call) (name : String) :
    Option (Object × Object) := do
  let value ← store.receipt name
  guard (sourceCommit value = some commit)
  guard (serves value call.coverage call.normalizedScope (sortedSet call.requiredStages))
  let validated ← (validateAcceptanceReceipt sha repo store value (repo.artifact name) commit).toOption
  return (value, validated)

/-- `receipt_for_commit`. -/
def receiptForCommit (repo : Repo) (store : Store) (commit : String) (call : Call) :
    Option (Object × Object) :=
  (candidates store commit).findSome? (usable sha repo store commit call)

/-- The receipt under the cache key, if it validates. -/
def receiptForKey (repo : Repo) (store : Store) (commit key : String) : Option (Object × Object) := do
  let value ← store.receipt key
  let validated ← (validateAcceptanceReceipt sha repo store value (repo.artifact key) commit).toOption
  return (value, validated)

/-! ## Acceptance -/

structure Source where
  commit : String
  tree : String
  status : String
  workspaceFingerprint : String
  sourceInputs : Object
  sourceModes : Object
  execution : Value
  workingMaterialization : Value
  localInputs : Object
  sourceModeEntries : Value

def fingerprint (d : Object) : String := (getStr d "fingerprint").getD ""

/-- `_source_input_fingerprint`, with a workspace fingerprint. -/
def Source.inputFingerprint (source : Source) (workspace : String) : String :=
  sha.parts [source.commit, source.tree, workspace, fingerprint source.sourceInputs,
    fingerprint source.localInputs, fingerprint source.sourceModes,
    String.ofList (dumps source.execution)]

/-- `source_identity`. -/
def sourceIdentity (repo : Repo) (revision basis : String) : Except String Source := do
  let commit ← repo.commit revision
  let tree ← repo.tree commit
  let workspace ← repo.workspace
  let sourceInputs ← repo.sourceInputs commit
  let (execution, modes) ← repo.sourceExecution commit basis none
  if basis = "isolated" then repo.materialized commit execution
  let working ← repo.workingMaterialization
  return ⟨commit, tree, repo.status, workspace, sourceInputs, modes, execution, working,
    repo.localInputs,
    if basis = "isolated" then .obj (repo.projectedModes commit) else .null⟩

/-- `_accepted_source_cache_key`. -/
def acceptedSourceCacheKey (source : Source) (plan : Object) : String :=
  sha.parts [source.commit, source.tree,
    source.inputFingerprint sha (sha.parts ["", "", ""]), fingerprint plan]

/-- What a call adds to the descriptor of a stored receipt. -/
def reuseFields (call : Call) (validated : Object) (clean : Bool) (milliseconds : Nat) : Object :=
  [("task_id", if call.taskId ≠ "" then .str call.taskId else
      (validated.lookup "task_id").getD (.str "")),
    ("scope", if call.normalizedScope ≠ [] then strings call.normalizedScope else
      (validated.lookup "scope").getD (.arr [])),
    ("reused", .bool true),
    ("working_tree_clean", .bool clean),
    ("reuse_lookup_ms", .int milliseconds)]

/-- What a call needs to run the gates. -/
structure Pending where
  before : Source
  plan : Object
  key : String

/-- The plan a call asks for, and the commit it binds. -/
def Call.plan (call : Call) (repo : Repo) (commit : String) : Except String Object :=
  requestedPlan sha repo (if call.basis = "isolated" then some commit else none) call.coverage
    call.normalizedScope call.requiredStages

/-- The source and the plan that `_accept_revision` starts from. -/
def pending (repo : Repo) (call : Call) : Except String Pending := do
  let before ← sourceIdentity repo call.revision call.basis
  let head ← repo.commit "HEAD"
  require (before.commit = head)
    "full acceptance requires the requested revision to be checked out at HEAD"
  let plan ← call.plan sha repo before.commit
  return ⟨before, plan, acceptedSourceCacheKey sha before plan⟩

/-- The stored receipt that answers a call, with its descriptor. -/
def answer (repo : Repo) (store : Store) (call : Call) (p : Pending) : Option (Object × Object) :=
  if call.reuse then
    (receiptForKey sha repo store p.before.commit p.key).orElse fun _ =>
      receiptForCommit sha repo store p.before.commit call
  else none

/-- What is measured and recorded beside the proof. -/
structure Clock where
  lookup : Nat
  duration : Nat
  started : String
  completed : String
  seed : Int

/-- `"\n".join(part for part in (result.stdout, result.stderr) if part).strip()`. -/
def detailOf (ran : Ran) : String :=
  Str.strip (String.intercalate "\n" ([ran.stdout, ran.stderr].filter fun part => part ≠ ""))

/-- The evidence of a command's output. -/
def evidenceOf (repo : Repo) (call : Call) (plan : Object) (command : List String) (detail : String) :
    Object :=
  let evidence := if call.coverage = "task" then
      match repo.taskGateEvidence detail plan command with
      | .ok evidence => evidence
      | .error reason => [("coverage", .str "task"), ("state", .str "fail"), ("stages", .arr []),
          ("reason", .str reason)]
    else repo.gateEvidence detail plan
  let native := match plan.lookup "native" with
    | none | some .null => false
    | some _ => true
  if (native || call.coverage = "task") && getStr evidence "state" = some "pass" then
    match repo.retained evidence with
    | .ok () => evidence
    | .error reason => update evidence [("state", .str "fail"),
        ("reason", .str ("native_artifact_unavailable: " ++ reason))]
  else evidence

/-- A check of a receipt, and whether it passed. -/
def runCheck (repo : Repo) (call : Call) (plan : Object) (command : List String) (ran : Ran) :
    Object × Bool :=
  let detail := detailOf ran
  let evidence := evidenceOf repo call plan command detail
  let passed := ran.returncode = 0 && getStr evidence "state" = some "pass" &&
    (call.coverage = "task" || getStr evidence "coverage" = some "full")
  ([("command", strings command),
    ("state", .str (if passed then "success" else "failed")),
    ("outcome", .str (if passed then "pass" else if ran.returncode ≠ 0 then "fail" else "unavailable")),
    ("coverage", (evidence.lookup "coverage").getD .null),
    ("evidence", .obj evidence),
    ("returncode", .int ran.returncode),
    ("output_bytes", .int detail.utf8ByteSize)], passed)

/-- The checks of the commands up to the first that does not pass, and whether all passed. -/
def runChecks (repo : Repo) (call : Call) (plan : Object) (run : List String → Ran) :
    List (List String) → List Object × Bool
  | [] => ([], true)
  | command :: commands =>
    let (check, passed) := runCheck repo call plan command (run command)
    if passed then
      let (checks, all) := runChecks repo call plan run commands
      (check :: checks, all)
    else ([check], false)

/-- The identity fields of a source. -/
def Source.sameIdentity (before after : Source) : Bool :=
  before.commit = after.commit && before.tree = after.tree && before.status = after.status &&
    before.workspaceFingerprint = after.workspaceFingerprint &&
    before.inputFingerprint sha before.workspaceFingerprint =
      after.inputFingerprint sha after.workspaceFingerprint &&
    same before.workingMaterialization after.workingMaterialization

/-- The state and the reason of a receipt. -/
def verdict (mutated changed passed : Bool) : String × String :=
  if mutated then ("blocked", "source_changed_during_acceptance")
  else if changed then ("blocked", "acceptance_plan_changed_during_acceptance")
  else if passed then ("success", "") else ("failed", "acceptance_checks_failed")

/-- The receipt of a run, without its id. -/
def receiptBody (call : Call) (p : Pending) (checks : List Object) (outcome : String × String)
    (clock : Clock) : Object :=
  let full := checks.all fun check => getStr check "coverage" = some "full"
  [("schema_version", .int 3),
    ("kind", .str (if call.coverage = "task" then "local_task_acceptance" else "local_full_acceptance")),
    ("coverage", .str (if call.coverage = "task" then "task" else if full then "full" else "focused")),
    ("requested_coverage", .str call.coverage),
    ("state", .str outcome.1),
    ("reason", .str outcome.2),
    ("source", .obj [("commit", .str p.before.commit), ("tree", .str p.before.tree)]),
    ("inputs", .obj [
      ("fingerprint", .str (p.before.inputFingerprint sha p.before.workspaceFingerprint)),
      ("workspace_fingerprint", .str p.before.workspaceFingerprint),
      ("source_inputs", .obj p.before.sourceInputs),
      ("source_modes", .obj p.before.sourceModes),
      ("source_mode_entries", p.before.sourceModeEntries),
      ("execution", p.before.execution),
      ("local_inputs", .obj p.before.localInputs)]),
    ("plan", .obj p.plan),
    ("scope", strings call.normalizedScope),
    ("task_id", .str call.taskId),
    ("checks", .arr (checks.map .obj)),
    ("check_count", .int checks.length),
    ("duration_ms", .int clock.duration),
    ("started_at", .str clock.started),
    ("completed_at", .str clock.completed),
    ("ci_parity", .obj [("seed", .int clock.seed)])]

/-- The state and the reason of a run, when the repository answers as `after`. -/
def outcomeOf (after : Repo) (call : Call) (p : Pending) (passed : Bool) : String × String :=
  let mutated := match sourceIdentity after p.before.commit call.basis with
    | .ok source => !p.before.sameIdentity sha source
    | .error _ => true
  let changed := match call.plan sha after p.before.commit with
    | .ok plan => !same (.obj plan) (.obj p.plan)
    | .error _ => true
  verdict mutated changed passed

/-- The part of `_accept_revision` after the gates ran. -/
def finalize (after : Repo) (call : Call) (p : Pending) (checks : List Object) (passed : Bool)
    (clock : Clock) (store : Store) : Except String Object × Store :=
  let outcome := outcomeOf sha after call p passed
  let body := receiptBody sha call p checks outcome clock
  let id := receiptDigest sha body
  let receipt := body ++ [("acceptance_id", .str id)]
  let store := store.write id receipt
  if outcome.1 = "success" then
    (.ok (descriptor sha receipt (after.artifact id) false),
      (store.write p.key receipt).index receipt)
  else (.error (outcome.2 ++ "; acceptance evidence: " ++ after.artifact id), store)

/-- `_accept_revision`.  The repository answers as `repo` until the gates have run, and as
    `after` then. -/
def acceptRevision (repo after : Repo) (run : List String → Ran) (clock : Clock) (call : Call)
    (store : Store) : Except String Object × Store :=
  match pending sha repo call with
  | .error reason => (.error reason, store)
  | .ok p =>
    match answer sha repo store call p with
    | some (_, validated) =>
      (.ok (update validated (reuseFields call validated (p.before.status = "") clock.lookup)), store)
    | none =>
      if p.before.status ≠ "" then
        (.error ("full acceptance requires a clean checkout including nonignored untracked files; " ++
          "no reusable accepted-source receipt"), store)
      else
        let (checks, passed) := runChecks repo call p.plan run (commandsOf p.plan)
        finalize sha after call p checks passed clock store

end SummitFlow.Acceptance
