import SummitFlow.Cli.GitCheckout
import SummitFlow.ForStd.Environment
import SummitFlow.Python.PosixPath

/-!
# The commit workflow

Model of `commit_git_revision` of `backend/cli/lib/commit_workflow.py`: the scope of a
commit is read once, judged for writers of other sessions, checked, and then staged and
committed by git commands that look at the checkout again.  Every git command and every look
at a file is one action; other sessions write, delete and stage files between them.

The log of refusals and the leases that are released after a commit are left out.
-/

namespace SummitFlow.CommitWorkflow

open Git

/-! ## The state -/

/-- What `_require_no_sweep` was asked about, and how the commit was called. -/
structure Judged where
  scope : List String
  selected : Bool
  skipped : List String
deriving DecidableEq, Repr

/-- `selected_files`. -/
def Judged.files (judged : Judged) : List String :=
  if judged.selected then judged.scope else []

/-- A commit that was created: its parent's tree, and its own. -/
structure Made where
  parent : Tree
  tree : Tree
deriving DecidableEq, Repr

/-- The checkout.  The rest is not stored anywhere: what was judged, the names of the scope
    that git was given as patterns since, and the commits created. -/
structure Session where
  checkout : Checkout
  judged : Option Judged := none
  patterns : List String := []
  commits : List Made := []
deriving DecidableEq, Repr

/-- What another session does to a file. -/
inductive Edit where
  | write (path blob : String)
  | delete (path : String)
  | stage (path : String)
deriving DecidableEq, Repr

/-- A path has another entry, or none. -/
def setEntry (tree : Tree) (path : String) (blob : Option String) : Tree :=
  match blob with
  | some blob => Dict.set path blob tree
  | none => tree.filter fun entry => entry.1 ≠ path

def Session.edit (s : Session) : Edit → Session
  | .write path blob =>
    { s with checkout := { s.checkout with work := setEntry s.checkout.work path (some blob) } }
  | .delete path =>
    { s with checkout := { s.checkout with work := setEntry s.checkout.work path none } }
  | .stage path =>
    { s with checkout := { s.checkout with
        index := setEntry s.checkout.index path (s.checkout.work.lookup path) } }

/-! ## Results -/

structure Result where
  repo : String
  path : String
  status : String
  pushed : Bool
  reason : Option String
  detail : Option String
  skippedUntracked : List String
  checkCount : Option Nat
  checkReused : Bool
  sha : Option String
  message : Option String
  publicationCheckRecorded : Option Bool
  selectedPaths : List String
  taskId : Option String
deriving DecidableEq, Repr

/-- A writer of a path, as the coordination store has it. -/
structure Writer where
  agentId : String
  reason : String
deriving DecidableEq, Repr

/-- What an action meets: whether its command fails and what it prints, the check's verdict,
    the writers of other sessions, and what others hold. -/
structure Outside where
  fails : Bool := false
  message : String := ""
  ok : Bool := true
  sha : String := ""
  foreign : Except String (List (String × List Writer)) := .ok []
  unresolved : Bool := false
  blocked : Option String := none

/-- The machine: git's rules, the file system and the tool registry. -/
structure Host where
  rules : Rules
  existsPath : Tree → String → Bool
  /-- `path.resolve().relative_to(repo_root)` -/
  relative : String → Option String
  users : PosixPath.Users
  fingerprint : Checkout → String
  buildOutput : List String

abbrev Act (α : Type) := Script Session Outside Unit String α

/-- An action that changes nothing. -/
def look {α : Type} (f : Session → Outside → Except String α) : Act α :=
  Script.action fun s w => (s, (), f s w)

/-- `text or default`. -/
def orText (text fallback : String) : String := if text = "" then fallback else text

/-- A git command that only reads. -/
def readGit {α : Type} (fallback : String) (f : Checkout → α) : Act α :=
  look fun s w => if w.fails then .error (orText w.message fallback) else .ok (f s.checkout)

variable (host : Host)

/-! ## Pathspecs -/

/-- A name with a character that git reads as a pattern. -/
def hasPattern (path : String) : Bool :=
  path.toList.any (fun c => c = '*' || c = '?' || c = '[') && !Str.startswith path ":"

/-- `sorted(set(files))`. -/
def sortedSet (files : List String) : List String := sortBy (fun path => path) files.dedup

/-- `_normalize_paths`, for one path. -/
def normalizePath (raw : String) : Except String (List String) :=
  let value := Str.strip raw
  if value = "" then .ok []
  else if PosixPath.isAbsolute (PosixPath.expanduser host.users value) then
    match host.relative value with
    | some relative => .ok [relative]
    | none => .error ("path is outside repository: " ++ raw)
  else .ok [value]

/-- `_normalize_paths`. -/
def normalizePaths (paths : List String) : Except String (List String) := do
  let selected ← paths.mapM (normalizePath host)
  if selected.flatten = [] then throw "at least one path is required for selective commit"
  else pure selected.flatten

/-- `UNKNOWN_WRITER`. -/
def unknownWriter : String := "unknown"

/-- The first five items, and how many more. -/
def listed (items : List String) : String :=
  ", ".intercalate (items.take 5) ++
    if 5 < items.length then " (+" ++ toString (items.length - 5) ++ " more)" else ""

/-- `_checkout_snapshot`: HEAD, and the code and blobs of every dirty path. -/
structure Snapshot where
  head : Option Commit
  entries : List (String × String × Option String × Option String)
deriving DecidableEq, Repr

/-- `_checkout_snapshot`. -/
def checkoutSnapshot : Act Snapshot := do
  let codes ← readGit "cannot inspect working tree status" fun c => host.rules.status c []
  let head ← look fun s w => .ok (if w.fails then none else s.checkout.head)
  if codes = [] then pure ⟨head, []⟩
  else do
    let staged ← look fun s w => .ok (if w.fails then [] else s.checkout.index)
    let blobs ← look fun s w => .ok (if w.fails then [] else s.checkout.work)
    pure ⟨head, codes.map fun code =>
      (code.1, code.2, staged.lookup code.1, blobs.lookup code.1)⟩

/-- `_snapshot_changes`. -/
def snapshotChanges (before : Snapshot) : Act (List String) := do
  let after ← checkoutSnapshot host
  let keys := sortedSet (before.entries.map Prod.fst ++ after.entries.map Prod.fst)
  let changed := keys.filter fun path => before.entries.lookup path ≠ after.entries.lookup path
  if before.head = after.head then pure changed
  else match before.head, after.head with
    | some old, some new => do
      let moved ← look fun _ w => .ok (if w.fails then none else some (changedPaths old.tree new.tree))
      pure (sortedSet (changed ++ moved.getD ["<moved HEAD>"]))
    | none, _ => pure (changed ++ ["<new HEAD>"])
    | some _, none => pure (changed ++ ["<moved HEAD>"])

/-- `_changed_detail`. -/
def changedDetail (changed scope : List String) (retried : Bool) : String :=
  if changed = [] then
    "checkout inputs changed while checkpoint checks were running; retry the commit"
  else
    let inside := changed.filter (· ∈ scope)
    let named := listed (if inside = [] then changed else inside)
    if inside ≠ [] then
      "selected files changed while checks ran: " ++ named ++ "; finish editing, then retry the commit"
    else if retried then
      "files outside the selection kept changing across a rerun: " ++ named ++ "; retry the commit"
    else "checkout changed while checks ran: " ++ named ++ "; retry the commit"

/-- `workspace_fingerprint`. -/
def fingerprint : Act String :=
  look fun s w => if w.fails then .error w.message else .ok (host.fingerprint s.checkout)

/-- The snapshot before a check, for selected files. -/
def snapshotBefore (selected : Bool) : Act (Option Snapshot) :=
  if selected then do
    let snapshot ← checkoutSnapshot host
    pure (some snapshot)
  else pure none

/-- What changed since the snapshot, if there is one. -/
def changesSince : Option Snapshot → Act (List String)
  | some snapshot => snapshotChanges host snapshot
  | none => pure []

/-- The attempts of `_run_checkpoint_checks` from the given one: a blocked result, or the
    result so far. -/
def runChecks (scope : List String) (selected : Bool) (result : Result) :
    Nat → Nat → Act (Result ⊕ Result)
  | _, 0 => pure (.inr result)
  | attempt, left + 1 => do
    let before ← fingerprint host
    let beforeFiles ← snapshotBefore host selected
    let check ← look fun _ w => .ok (w.ok, w.message)
    let result := { result with
      checkCount := some attempt, checkReused := Str.contains check.2 "CHECK:REUSED:quick" }
    let after ← fingerprint host
    if after = before then
      if check.1 then pure (.inr result)
      else pure (.inl { result with
        status := "BLOCKED", reason := some "quality_gates_failed", detail := some check.2 })
    else do
      let changed ← changesSince host beforeFiles
      if changed ≠ [] ∧ (∀ path ∈ changed, path ∉ scope) ∧ left ≠ 0 then
        runChecks scope selected result (attempt + 1) left
      else pure (.inl { result with
        status := "BLOCKED"
        reason := some "source_changed_during_checks"
        detail := some (changedDetail changed scope (1 < attempt)) })

/-- HEAD moves to a new commit of the tree, and the index is left as given. -/
def Session.commit (s : Session) (sha : String) (tree index : Tree) : Session :=
  { s with
    checkout := { s.checkout with head := some ⟨sha, tree⟩, index := index }
    commits := s.commits ++ [⟨s.checkout.headTree, tree⟩] }

/-- How a commit is asked for. -/
structure Call where
  repo : String
  repoPath : String
  message : String
  taskId : String := ""
  push : Bool := false
  skipChecks : Bool := false
  paths : List String := []

/-- The result before anything is known. -/
def Call.result (call : Call) : Result where
  repo := call.repo
  path := call.repoPath
  status := "SKIP"
  pushed := false
  reason := none
  detail := none
  skippedUntracked := []
  checkCount := none
  checkReused := false
  sha := none
  message := none
  publicationCheckRecorded := none
  selectedPaths := []
  taskId := none

/-- `selected_paths`. -/
def Call.selectedPaths (call : Call) : Except String (List String) :=
  if call.paths = [] then .ok [] else normalizePaths host call.paths

end SummitFlow.CommitWorkflow
