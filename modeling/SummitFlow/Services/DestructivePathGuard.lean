import Mathlib
import SummitFlow.ForStd.SortedBy
import SummitFlow.Services.CommandGuard

/-!
# Paths that other sessions own

Model of `_scope_paths.py`, `load_live_lane_scope` of `_lane_scope.py`,
`_destructive_path_guard_helpers.py` and `destructive_path_guard.py` in
`backend/app/services`, and of `_git_decision` of `command_guard.py`, which asks them about
the operands of a `git` command.

The file system, Git, the task database and Agent Hub are in `Outside`.  In a session a value
that is no string is left out, and so is a list entry.
-/

namespace SummitFlow.Guard

open PosixPath (Users pathStr isAbsolute)

/-! ## Scope paths -/

/-- `while path.startswith("./"): path = path[2:]`. -/
def dropDotSlash : List Char → List Char
  | '.' :: '/' :: rest => dropDotSlash rest
  | path => path

/-- `normalize_single_scope_path`. -/
def normalizeSingleScopePath (raw : String) : Option String :=
  let path := String.ofList (dropDotSlash (Str.strip raw).toList)
  if path = "" ∨ Str.startswith path "/" then none
  else if '\\' ∈ path.toList ∨ ['/', '/'] <:+: path.toList ∨ Str.endswith path "/" then none
  else if (Str.splitOnChar '/' path.toList).any fun part =>
      part == [] || part == ['.'] || part == ['.', '.'] then none
  else
    let normalized := pathStr path
    if normalized ≠ "." ∧ Str.endswith normalized "/" = false then some normalized else none

/-- `sorted(normalize_scope_values(values))`. -/
def normalizeScopeValues (values : List String) : List String :=
  sortBy id (values.filterMap normalizeSingleScopePath).dedup

/-! ## Sessions -/

/-- A live session, as far as the guard reads it. -/
structure Session where
  id : Option String
  taskId : Option String
  externalId : Option String
  currentBranch : Option String
  workingDir : Option String
  checkoutPath : Option String
  repoRoot : Option String
  declaredScopePaths : List String
  observedWritePaths : List String
  observedReadPaths : List String
  scopePaths : List String
  scopeConfidence : Option String
deriving DecidableEq, Repr

/-- The lists of a task's spirit context; `none` where the field is missing. -/
structure SpiritContext where
  filesToModify : Option (List String)
  filesToCreate : Option (List String)

/-- What the guard asks about: how a path resolves (`none` where that fails), the top level of
    the checkout a directory is in, the project of a checkout, the managed repositories, the
    session that asks, the live sessions of a project, the task database, and the files of
    revisions. -/
structure Outside where
  users : Users
  resolvePath : String → String
  resolveTarget : String → Option String
  repoRoot : String → Option String
  projectId : String → Option String
  isManaged : String → Bool
  currentSessionId : Option String
  inventory : String → Except String (List Session)
  spirit : String → Option SpiritContext
  revertPaths : String → List String → Except PyError (List String)

/-- A string that is not empty, as `or` keeps it. -/
def truthy (s : Option String) : Option String := s.filter (· ≠ "")

/-- `session_checkout_root`. -/
def sessionCheckoutRoot (o : Outside) (session : Session) : Option String :=
  ([session.workingDir, session.checkoutPath, session.repoRoot].findSome? truthy).map o.resolvePath

/-- `is_managed_repo_root`. -/
def isManagedRepoRoot (o : Outside) (root : Option String) : Bool := root.any o.isManaged

/-- The whole tree is named. -/
def wholeTree (o : Outside) (root : Option String) (code message command : String) :
    Option Decision :=
  if isManagedRepoRoot o root then some (gitBlocked code message command) else none

end SummitFlow.Guard
