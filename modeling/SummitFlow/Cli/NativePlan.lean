import SummitFlow.Python.PosixPath

/-!
# Native stage declarations

Model of `_normalize_stage` and of the stage part of `native_plan` in
`backend/cli/commands/check_native.py`: which declarations of `.st-check.toml` become a plan,
and with which defaults.  The file system, the regular expressions and the identities of
tools and environments are parameters.  The checks of locks, paths, tools and environment
variables do not look at stages and are left out.
-/

namespace SummitFlow.NativeCheck

/-! ## Declarations -/

/-- A TOML value; `other` is a float or a date. -/
inductive Toml where
  | str (s : String)
  | int (i : Int)
  | bool (b : Bool)
  | arr (items : List Toml)
  | table (entries : List (String × Toml))
  | other

abbrev Table := List (String × Toml)

inductive Format where
  | junit
  | json
  | goTestJson
  | text
deriving DecidableEq, Repr

inductive Source where
  | file
  | stdout
  | combined
deriving DecidableEq, Repr

structure Patterns where
  success : String
  failure : String
  executed : String
deriving DecidableEq, Repr

/-- A validated `evidence` table.  A path is declared when the source is a file, patterns
    when the format is text. -/
structure Evidence where
  format : Format
  source : Source
  path : String
  patterns : Patterns
  notApplicableTests : List (String × String)
deriving DecidableEq, Repr

inductive Kind where
  | test
  | check
deriving DecidableEq, Repr

inductive Coverage where
  | full
  | focused
deriving DecidableEq, Repr

/-- A normalized stage; `tool` is the identity of its executable. -/
structure Stage where
  id : String
  argv : List String
  cwd : String
  kind : Kind
  coverage : Coverage
  required : Bool
  applicable : Bool
  reason : String
  coveredBy : Option String
  evidence : Option Evidence
  timeout : Int
  inputs : List String
  exclude : List String
  tool : String
  executable : String
deriving DecidableEq, Repr

/-- A plan: its stages and legacy tools, and whether its locks and prepared environment are
    all present.  `bound` stands for the identities of these, which only keys look at. -/
structure Plan where
  stages : List Stage
  legacyTools : List String
  prepared : Bool
  bound : String
deriving DecidableEq, Repr

/-- The machine a declaration is read on. -/
structure Files where
  /-- the parent of a path of the project resolves into it -/
  parentInside : String → Bool
  /-- a path of the project resolves into it -/
  inside : String → Bool
  identity : String → String
  isFile : String → Bool
  compiles : String → Bool
  /-- `re.fullmatch(r"[a-zA-Z0-9][a-zA-Z0-9_.-]*", id)` -/
  isIdentifier : String → Bool

variable (files : Files)

/-! ## Checks -/

/-- The components of a path. -/
def components (path : String) : List String := (Str.splitOnChar '/' path.toList).map String.ofList

/-- `_local`. -/
def localPath (value : String) : Except String String :=
  if PosixPath.isAbsolute value ∨ ".." ∈ components value then
    .error "native paths must be relative to the project"
  else if PosixPath.pathStr value ≠ "." ∧ ¬ files.parentInside value then
    .error "native path parent escapes the project"
  else .ok (PosixPath.pathStr value)

/-- A nonempty array of nonempty strings, or any array of them. -/
def stringArray (nonempty : Bool) : Toml → Option (List String)
  | .arr items =>
    if nonempty && items.isEmpty then none
    else items.mapM fun item => match item with
      | .str s => if s = "" then none else some s
      | _ => none
  | _ => none

/-- `not_applicable_tests`: exact cases with reasons. -/
def exemptionsOf : Toml → Option (List (String × String))
  | .table entries => entries.mapM fun entry => match entry.2 with
    | .str reason => if entry.1 = "" ∨ Str.strip reason = "" then none else some (entry.1, reason)
    | _ => none
  | _ => none

def formatOf : Option Toml → Option Format
  | some (.str "junit") => some .junit
  | some (.str "json") => some .json
  | some (.str "go-test-json") => some .goTestJson
  | some (.str "text") => some .text
  | _ => none

def sourceOf : Option Toml → Option Source
  | none => some .file
  | some (.str "file") => some .file
  | some (.str "stdout") => some .stdout
  | some (.str "combined") => some .combined
  | _ => none

/-- One pattern of text evidence. -/
def patternOf (stageId key : String) (table : Table) : Except String String :=
  match table.lookup key with
  | some (.str pattern) =>
    if pattern = "" then .error (stageId ++ ": text evidence requires " ++ key)
    else if files.compiles pattern then .ok pattern
    else .error (stageId ++ ": invalid " ++ key)
  | _ => .error (stageId ++ ": text evidence requires " ++ key)

/-- The path of file evidence. -/
def evidencePath (stageId : String) (table : Table) : Except String String :=
  match table.lookup "path" with
  | some (.str path) =>
    if path = "" then .error (stageId ++ ": evidence.path must be project-local")
    else do
      let _ ← localPath files path
      if files.inside path then pure path
      else throw (stageId ++ ": evidence escapes the project")
  | _ => .error (stageId ++ ": evidence.path must be project-local")

/-- `_validate_stage_evidence`. -/
def validateStageEvidence (stageId : String) : Toml → Except String Evidence
  | .table table =>
    match formatOf (table.lookup "format"), sourceOf (table.lookup "source") with
    | none, _ => .error (stageId ++ ": unsupported evidence format")
    | _, none => .error (stageId ++ ": evidence.source must be file, stdout or combined")
    | some format, some source =>
      match exemptionsOf ((table.lookup "not_applicable_tests").getD (.table [])) with
      | none => .error (stageId ++ ": not_applicable_tests must name exact cases with reasons")
      | some exemptions =>
        if exemptions ≠ [] ∧ format ≠ .goTestJson then
          .error (stageId ++ ": exact not_applicable_tests currently requires Go test JSON")
        else do
          let path ← if source = .file then evidencePath files stageId table else pure ""
          let patterns ← if format = .text then do
              let success ← patternOf files stageId "success_pattern" table
              let failure ← patternOf files stageId "failure_pattern" table
              let executed ← patternOf files stageId "executed_pattern" table
              pure ⟨success, failure, executed⟩
            else pure ⟨"", "", ""⟩
          pure ⟨format, source, path, patterns, exemptions⟩
  | _ => .error (stageId ++ ": unsupported evidence format")

/-- A command that installs what it runs. -/
def prepares (argv : List String) : Bool :=
  let wrapper := PosixPath.pathName (argv.headD "")
  decide (wrapper ∈ ["npx", "corepack", "pip", "pip3"]) ||
    decide (wrapper ∈ ["npm", "pnpm", "yarn", "bun", "uv"]) &&
      ((argv.drop 1).take 2).any fun arg =>
        decide (arg ∈ ["install", "add", "sync", "exec", "dlx", "x"])

/-- `_stage_executable`, for declared tools and directories. -/
def stageExecutable (command : String) (tools : List (String × String)) (paths : List String) :
    Except String String :=
  match tools.lookup command with
  | some tool => .ok tool
  | none =>
    if PosixPath.isAbsolute command ∧ command ∈ tools.map Prod.snd then .ok command
    else if '/' ∈ command.toList then localPath files command
    else do
      let candidates ← paths.mapM fun path => do
        let directory ← localPath files path
        pure (PosixPath.join directory command)
      pure ((candidates.find? files.isFile).getD (candidates.headD command))

/-- Globs that stay in the project. -/
def globArray (value : Option Toml) : Option (List String) :=
  match stringArray false (value.getD (.arr [])) with
  | some globs =>
    if globs.any fun glob => Str.startswith glob "/" || decide (".." ∈ components glob) then none
    else some globs
  | none => none

def boolOf (fallback : Bool) : Option Toml → Option Bool
  | none => some fallback
  | some (.bool b) => some b
  | some _ => none

def kindOf : Option Toml → Option Kind
  | none => some .check
  | some (.str "test") => some .test
  | some (.str "check") => some .check
  | some _ => none

def coverageOf : Option Toml → Option Coverage
  | some (.str "full") => some .full
  | some (.str "focused") => some .focused
  | _ => none

def timeoutOf : Option Toml → Option Int
  | none => some 600
  | some (.int n) => if 1 ≤ n ∧ n ≤ 86400 then some n else none
  | some _ => none

/-- A string entry, or nothing. -/
def stringOf : Option Toml → Option String
  | some (.str s) => some s
  | _ => none

/-- A check of the table: its message when it fails. -/
def require (ok : Bool) (message : String) : Except String Unit :=
  if ok then .ok () else .error message

/-- A value that has to be there. -/
def requireSome {α : Type} (value : Option α) (message : String) : Except String α :=
  match value with
  | some a => .ok a
  | none => .error message

/-- The checks of `_normalize_stage` on quick lanes. -/
def checkQuick (stageId : String) (kind : Kind) (table : Table) : Except String Unit := do
  let quick ← requireSome (boolOf false (table.lookup "quick"))
    (stageId ++ ": quick must be a boolean and only check stages can join the quick lane")
  require (!quick || decide (kind = .check))
    (stageId ++ ": quick must be a boolean and only check stages can join the quick lane")
  let quickPaths ← requireSome (globArray (table.lookup "quick_paths"))
    (stageId ++ ": quick_paths must list project-relative path globs")
  require (decide (quickPaths = []) || quick)
    (stageId ++ ": quick_paths narrow a quick stage; set quick = true first")

def isTable : Option Toml → Bool
  | some (.table _) => true
  | _ => false

/-- The evidence of a stage, if it declares any. -/
def stageEvidence (stageId : String) : Option Toml → Except String (Option Evidence)
  | none => .ok none
  | some value => (validateStageEvidence files stageId value).map some

/-- `_normalize_stage`. -/
def normalizeStage (ids : List String) (tools : List (String × String)) (paths : List String) :
    Toml → Except String Stage
  | .table table => do
    let stageId ← requireSome
      ((stringOf (table.lookup "id")).filter fun id => files.isIdentifier id && decide (id ∉ ids))
      "native stage ids must be unique nonempty identifiers"
    let argv ← requireSome (stringArray true ((table.lookup "argv").getD .other))
      (stageId ++ ": argv must be a nonempty string array")
    require (!prepares argv)
      (stageId ++ ": dependency preparation must be explicit and separate from checks")
    let declares := stageId ++
      ": declare required/applicable booleans, kind and full/focused coverage"
    let required ← requireSome (boolOf true (table.lookup "required")) declares
    let applicable ← requireSome (boolOf true (table.lookup "applicable")) declares
    let kind ← requireSome (kindOf (table.lookup "kind")) declares
    let coverage ← requireSome (coverageOf (table.lookup "coverage")) declares
    let timeout ← requireSome (timeoutOf (table.lookup "timeout_seconds"))
      (stageId ++ ": timeout_seconds must be between 1 and 86400")
    let reason := (stringOf (table.lookup "reason")).getD ""
    require (applicable || !required && decide (Str.strip reason ≠ ""))
      (stageId ++ ": not-applicable stages must be optional with a reason")
    let cwd ← requireSome (stringOf (some ((table.lookup "cwd").getD (.str "."))))
      (stageId ++ ": cwd must be project-local")
    let _ ← localPath files cwd
    require (files.inside cwd) (stageId ++ ": cwd escapes the project")
    let executable ← stageExecutable files (argv.headD "") tools paths
    require (decide (kind = .check) || isTable (table.lookup "evidence"))
      (stageId ++ ": test stages require fresh counted evidence")
    let evidence ← stageEvidence files stageId (table.lookup "evidence")
    let inputs ← requireSome (globArray (table.lookup "inputs"))
      (stageId ++ ": inputs must list project-relative path globs")
    let exclude ← requireSome (globArray (table.lookup "exclude"))
      (stageId ++ ": exclude must list project-relative path globs")
    require (decide (exclude = []) || decide (inputs ≠ []))
      (stageId ++ ": exclude narrows declared inputs; declare inputs first")
    checkQuick stageId kind table
    pure {
      id := stageId, argv := argv, cwd := cwd, kind := kind, coverage := coverage
      required := required, applicable := applicable, reason := reason
      -- a value that is no string names no stage
      coveredBy := (table.lookup "covered_by").map fun value => (stringOf (some value)).getD ""
      evidence := evidence, timeout := timeout
      inputs := inputs, exclude := exclude, tool := files.identity executable
      executable := executable }
  | _ => .error "native stage must be a table"

/-- The stages of a plan, in order, each with an id of its own. -/
def normalizeStages (tools : List (String × String)) (paths : List String) :
    List String → List Toml → Except String (List Stage)
  | _, [] => .ok []
  | ids, value :: values => do
    let stage ← normalizeStage files ids tools paths value
    let stages ← normalizeStages tools paths (ids ++ [stage.id]) values
    pure (stage :: stages)

/-- A stage may only be covered by an earlier one that counts in full. -/
def covers (covering stage : Stage) : Bool :=
  covering.required && covering.applicable && decide (covering.coverage = .full) &&
    decide (covering.kind = stage.kind)

/-- The check of `covered_by`, with the stages that precede. -/
def checkCovered : List Stage → List Stage → Bool
  | _, [] => true
  | preceding, stage :: stages =>
    (match stage.coveredBy with
      | none => true
      | some id => !stage.required && decide (stage.coverage = .focused) &&
        (preceding.find? fun other => decide (other.id = id)).any fun other => covers other stage) &&
    checkCovered (preceding ++ [stage]) stages

/-- The stages of `native_plan`. -/
def planStages (tools : List (String × String)) (paths : List String) (stages : List Toml) :
    Except String (List Stage) := do
  let normalized ← normalizeStages files tools paths [] stages
  require (decide (stages ≠ [])) "native.stages must declare at least one required stage"
  require (normalized.any (·.required)) "native plan must include a required stage"
  require (checkCovered [] normalized)
    "covered_by requires an earlier applicable required full stage of the same kind"
  pure normalized

end SummitFlow.NativeCheck
