import SummitFlow.ForStd.Dict
import SummitFlow.ForStd.SortedBy
import SummitFlow.ForStd.Run
import SummitFlow.Python.PosixPath
import Mathlib.Data.String.Basic

/-!
# Receipts of quick checks

Model of `backend/cli/lib/quick_receipt.py` and of the part of `check_dispatch.py` that
records and reuses receipts.  A check runs on the files of a scope; its receipt holds a hash
of every file of the scope and a context hash, both taken before the check ran and compared
again after it.  Edits, commits and other checks may come between any two of these.
-/

namespace SummitFlow.QuickReceipt

/-! ## What a check reads -/

/-- What is at a path of the working tree. -/
inductive Entry where
  | absent
  | file (content : String)
  | link (target : String)
  | unreadable
  | other
deriving DecidableEq, Repr

/-- A file of the st code, with its size and modification time unless `stat` fails. -/
structure CodeFile where
  path : String
  info : Option (Nat × Nat)
  content : String
deriving DecidableEq, Repr

structure World where
  /-- the working tree -/
  entry : String → Entry
  /-- the output of `git ls-files -z --cached --others --exclude-standard` -/
  listing : Option String
  /-- `git rev-parse --verify HEAD` -/
  head : Option String
  /-- `_receipt_local_inputs`, the gate configuration and environment, as JSON -/
  inputs : Option String
  /-- the files of `_tool_identity`, in its order -/
  code : List CodeFile
  /-- `_store_path` finds the git directory -/
  store : Bool

/-- SHA-256 of a file and of framed parts, without collisions.  A digest is no other value
    that `file_hash` may have. -/
structure Sha where
  content : String → String
  parts : List String → String
  content_injective : Function.Injective content
  parts_injective : Function.Injective parts
  content_plain : ∀ text, content text ≠ "unreadable" ∧ content text ≠ "absent" ∧
    content text ≠ "other" ∧ Str.startswith (content text) "link:" = false

/-- `_INPUT_NAMES`. -/
def inputNames : List String :=
  [".st-check.toml", "AGENTS.md", "alembic.ini", "biome.json", "biome.jsonc", "package-lock.json",
   "package.json", "pnpm-lock.yaml", "pnpm-workspace.yaml", "poetry.lock", "pyproject.toml",
   "pytest.ini", "requirements.txt", "setup.cfg", "tox.ini", "tsconfig.build.json",
   "tsconfig.json", "uv.lock", "vite.config.ts", "vitest.config.ts", "yarn.lock"]

section

variable (sha : Sha)

/-- `file_hash`. -/
def fileHash (w : World) (relative : String) : String :=
  match w.entry relative with
  | .link target => "link:" ++ target
  | .file content => sha.content content
  | .unreadable => "unreadable"
  | .absent => "absent"
  | .other => "other"

/-- `scope_hashes`. -/
def scopeHashes (w : World) (files : List String) : List (String × String) :=
  (sortBy (fun name => name) files.dedup).map fun name => (name, fileHash sha w name)

/-- The names of gate configuration files, in order. -/
def configNames (listing : String) : List String :=
  (sortBy (fun name => name)
      (((Str.splitOnChar '\x00' listing.toList).map String.ofList).filter (· ≠ ""))).filter
    fun name => PosixPath.pathName name ∈ inputNames

/-- `_config_file_hashes`. -/
def configFileHashes (w : World) : Option (List String) :=
  w.listing.map fun listing =>
    (configNames listing).map fun name => name ++ "\x00" ++ fileHash sha w name

/-- `_tool_identity`. -/
def toolIdentity (w : World) : String :=
  sha.parts (w.code.filterMap fun file => file.info.map fun info =>
    file.path ++ "\x00" ++ toString info.1 ++ "\x00" ++ toString info.2)

/-- `context_hash`. -/
def contextHash (w : World) : Option String := do
  let head ← w.head
  let inputs ← w.inputs
  let config ← configFileHashes sha w
  some (sha.parts (head :: inputs :: (config ++ [toolIdentity sha w])))

/-! ## Receipts -/

/-- A receipt; `ran` is not stored, it is what the check of the receipt read. -/
structure Receipt where
  context : String
  files : List (String × String)
  recordedAt : Int
  ran : World

/-- The loop of `reusable` over the receipts, newest first. -/
def reusableFrom (context : String) (current : List (String × String)) (ttl now : Int)
    (receipts : List Receipt) : Option Receipt :=
  receipts.reverse.find? fun receipt =>
    receipt.context = context && !decide (ttl < now - receipt.recordedAt) &&
      current.all fun entry => receipt.files.lookup entry.1 = some entry.2

/-- `reusable`. -/
def reusable (enabled : Bool) (ttl now : Int) (w : World) (receipts : List Receipt)
    (files : List String) : Option Receipt :=
  if files = [] ∨ ¬ enabled ∨ ¬ w.store then none
  else (contextHash sha w).bind fun context =>
    reusableFrom context (scopeHashes sha w files) ttl now receipts

/-- `_KEEP`. -/
def keep : Nat := 16

/-- The receipts after one more, without an older one of the same files and context. -/
def addReceipt (receipts : List Receipt) (new : Receipt) : List Receipt :=
  let kept := receipts.filter fun item => !(item.context = new.context && item.files = new.files)
  (kept ++ [new]).drop ((kept ++ [new]).length - keep)

/-! ## Runs of the check -/

/-- How far a quick check is: what it has hashed, and what the check read when it passed. -/
inductive Phase where
  | started
  | hashed (context : Option String)
  | ready (context : Option String) (hashes : List (String × String))
  | passed (context : Option String) (hashes : List (String × String)) (ran : World)
  | sameScope (context : String) (hashes : List (String × String)) (ran : World)
  | sameContext (context : String) (hashes : List (String × String)) (ran : World)
  | loaded (context : String) (hashes : List (String × String)) (ran : World)
      (receipts : List Receipt)

structure System where
  world : World
  receipts : List Receipt
  checks : Nat → Option (List String × Phase)
  /-- the passing runs that were recorded: their scopes, and what they read -/
  recorded : List (List String × World)

/-- The world changes, a check starts, goes on or is killed.  A check that goes on reads the
    clock and may fail to write. -/
inductive Event where
  | edit (w : World)
  | start (pid : Nat) (files : List String)
  | advance (pid : Nat) (now : Int) (fails : Bool)
  | kill (pid : Nat)

/-- The check is in another phase, or has ended. -/
def System.setCheck (s : System) (pid : Nat) (files : List String) (phase : Option Phase) :
    System :=
  { s with checks := Function.update s.checks pid (phase.map fun phase => (files, phase)) }

/-- The next thing a check does; `passes` is the check itself. -/
def System.advance (passes : World → List String → Bool) (enabled : Bool) (s : System) (pid : Nat)
    (files : List String) (now : Int) (fails : Bool) : Phase → System
  | .started => s.setCheck pid files (some (.hashed (contextHash sha s.world)))
  | .hashed context =>
    s.setCheck pid files (some (.ready context (scopeHashes sha s.world files)))
  | .ready context hashes =>
    s.setCheck pid files
      (if passes s.world files then some (.passed context hashes s.world) else none)
  -- `record`
  | .passed context hashes ran =>
    s.setCheck pid files (match context with
      | none => none
      | some context =>
        if files = [] ∨ ¬ enabled ∨ scopeHashes sha s.world files ≠ hashes then none
        else some (.sameScope context hashes ran))
  | .sameScope context hashes ran =>
    s.setCheck pid files (if s.world.store = false ∨ contextHash sha s.world ≠ some context then none
      else some (.sameContext context hashes ran))
  | .sameContext context hashes ran =>
    s.setCheck pid files (some (.loaded context hashes ran s.receipts))
  | .loaded context hashes ran receipts =>
    if fails then s.setCheck pid files none
    else { s.setCheck pid files none with
      receipts := addReceipt receipts ⟨context, hashes, now, ran⟩
      recorded := s.recorded ++ [(files, ran)] }

def System.step (passes : World → List String → Bool) (enabled : Bool) (s : System) :
    Event → System
  | .edit w => { s with world := w }
  | .start pid files => s.setCheck pid files (some .started)
  | .advance pid now fails =>
    match s.checks pid with
    | some (files, phase) => s.advance sha passes enabled pid files now fails phase
    | none => s
  | .kill pid => s.setCheck pid [] none

end

end SummitFlow.QuickReceipt
