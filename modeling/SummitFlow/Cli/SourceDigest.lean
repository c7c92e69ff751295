import SummitFlow.ForStd.Dict
import SummitFlow.ForStd.Json
import SummitFlow.ForStd.SortedBy
import SummitFlow.Python.PurePath
import SummitFlow.Python.TextMode
import Mathlib.Data.List.Dedup
import Mathlib.Data.String.Basic

/-!
# The digest of saved source

Model of `source_digest` and what it calls in `backend/cli/lib/snapshots/_saved_work.py`,
and of the cache of file digests in `_source_digest_cache.py`.  A call reads one state of
the working tree: nothing changes while it runs, and anything may change between two calls.
-/

namespace SummitFlow.SourceDigest

open SummitFlow.Json (Value)

/-! ## What is at a path -/

/-- An `OSError`; `noent` is `FileNotFoundError`. -/
inductive Errno where
  | noent
  | other (code : Nat)
deriving DecidableEq, Repr

/-- What a call raises. -/
inductive Failure where
  | snapshotError (message : String)
  | osError (errno : Errno)
  | attributeError
  | valueError
deriving DecidableEq, Repr

/-- `(st_dev, st_ino, st_mode, st_size, st_mtime_ns, st_ctime_ns)`. -/
structure Identity where
  dev : Nat
  ino : Nat
  mode : Nat
  size : Nat
  mtime : Int
  ctime : Int
deriving DecidableEq, Repr

def Identity.parts (i : Identity) : List Int := [i.dev, i.ino, i.mode, i.size, i.mtime, i.ctime]

/-- `stat.S_ISLNK`, `stat.S_ISREG` and `stat.S_ISDIR`. -/
def isLink (mode : Nat) : Bool := mode &&& 0o170000 == 0o120000

def isRegular (mode : Nat) : Bool := mode &&& 0o170000 == 0o100000

def isDirectory (mode : Nat) : Bool := mode &&& 0o170000 == 0o040000

/-- An entry of the file system: what `readlink` gives for a link, and what opening and
    reading gives for a regular file. -/
structure Entry where
  identity : Identity
  target : String
  bytes : Except Errno (List UInt8)

/-- What the file system shows of a path: the entry itself and the one it leads to. -/
structure Spot where
  path : String
  lstat : Except Errno Entry
  stat : Except Errno Entry
  stat_of_lstat : ∀ entry, lstat = .ok entry → isLink entry.identity.mode = false →
    stat = .ok entry
  stat_error : ∀ errno, lstat = .error errno → ∃ errno', stat = .error errno'

namespace Spot

variable (spot : Spot)

def isSymlink : Bool :=
  match spot.lstat with
  | .ok entry => isLink entry.identity.mode
  | .error _ => false

def pathExists : Bool := spot.stat.isOk

def isFile : Bool :=
  match spot.stat with
  | .ok entry => isRegular entry.identity.mode
  | .error _ => false

def isDir : Bool :=
  match spot.stat with
  | .ok entry => isDirectory entry.identity.mode
  | .error _ => false

/-- The identity and the content of the file that `open` finds. -/
def opened : Except Errno (Identity × List UInt8) :=
  match spot.stat with
  | .ok entry =>
    match entry.bytes with
    | .ok bytes => .ok (entry.identity, bytes)
    | .error errno => .error errno
  | .error errno => .error errno

end Spot

/-- `_identity` and `_target_identity` of what `lstat` and `stat` give. -/
def identityOf : Except Errno Entry → Except Failure (Option Identity)
  | .ok entry => .ok (some entry.identity)
  | .error .noent => .ok none
  | .error errno => .error (.osError errno)

/-- `_identity(path) == before`, once `lstat` has answered. -/
def stillAt (answer : Except Errno Entry) (before : Identity) : Bool :=
  match answer with
  | .ok entry => entry.identity = before
  | .error _ => false

/-! ## The working tree -/

/-- `(rel / name).as_posix()`, where the root itself is empty. -/
def child (rel name : String) : String := if rel = "" then name else rel ++ "/" ++ name

/-- A working tree with its git directory. -/
structure Worktree where
  root : String
  /-- the output of `git ls-files -z` -/
  lsFiles : Except Failure String
  /-- what is in the git directory -/
  gitDir : Except Failure (String → Spot)
  /-- `root / item` -/
  spot : String → Spot
  /-- the names in a directory; none where it cannot be read -/
  listing : String → List String
  named : ∀ rel name, name ∈ listing rel → '\x00' ∉ name.toList
  /-- how deep the directories below a directory are nested -/
  height : String → Nat
  nested : ∀ rel name, name ∈ listing rel → (spot (child rel name)).isDir = true →
    (spot (child rel name)).isSymlink = false → height (child rel name) < height rel

/-! ## Classification -/

/-- `_DISPOSABLE`. -/
def disposableNames : List String :=
  ["node_modules", ".venv", "venv", "__pycache__", ".next", ".pytest_cache", ".ruff_cache",
   ".mypy_cache", ".dev-tools", ".turbo"]

structure Rules where
  durableData : List String
  disposableOutputs : List String
deriving DecidableEq, Repr

/-- `d.get(key)` of a dictionary read from JSON: the last entry of a key counts. -/
def field (key : String) (entries : List (String × Value)) : Option Value :=
  entries.reverse.lookup key

/-- `Path(value).parts`, without the anchor. -/
def parts (value : String) : List String := (PurePath.parse value.toList).names.map String.ofList

def safeRelative (value : String) : Except Failure String :=
  if PosixPath.isAbsolute value || parts value = [] || (parts value).any fun p => p = ".." || p = ".git" then
    .error (.snapshotError ("Unsafe recovery/source path: " ++ value))
  else .ok (PosixPath.pathStr value)

def beneath (path : String) (roots : List String) : Bool :=
  roots.any fun root => path = root || Str.startswith path (root ++ "/")

def asString : Value → Option String
  | .str s => some s
  | _ => none

/-- The paths of one kind. -/
def relativePaths (kind : String) (storage : List (String × Value)) : Except Failure (List String) :=
  let refused := .error (.snapshotError ("storage." ++ kind ++ " must be a list of relative paths"))
  match (field kind storage).getD (.arr []) with
  | .arr items =>
    match items.mapM asString with
    | some paths => paths.mapM safeRelative
    | none => refused
  | _ => refused

/-- `json.loads` of a file read as UTF-8 text. -/
def loads (bytes : List UInt8) : Except Failure Value :=
  match String.fromUTF8? ⟨bytes.toArray⟩ with
  | none => .error .valueError
  | some text =>
    match Json.read (String.ofList (Str.newlines text.toList)) with
    | none => .error .valueError
    | some value => .ok value

/-- `json.loads(text).get("storage", {})`. -/
def storageField (bytes : List UInt8) : Except Failure Value :=
  match loads bytes with
  | .error failure => .error failure
  | .ok (.obj entries) => .ok ((field "storage" entries).getD (.obj []))
  | .ok _ => .error .attributeError

/-! ## The digest

`source_digest` with a cache and without one differ in how they read the classification and
the files. -/

structure Reader (σ : Type) where
  storage : Spot → σ → Except Failure (List (String × Value) × σ)
  digest : String → Spot → σ → Except Failure (String × σ)

section

variable {σ : Type} (reader : Reader σ) (w : Worktree)

def classifications (s : σ) : Except Failure (Rules × σ) :=
  (reader.storage (w.spot "project.identity.json") s).bind fun (storage, s) =>
    (relativePaths "durable_data" storage).bind fun durable =>
      (relativePaths "disposable_outputs" storage).bind fun disposable =>
        .ok (⟨durable, disposable⟩, s)

/-- `set(output.split("\0")) - {""}`. -/
def trackedOf (output : String) : List String :=
  ((Str.splitOnChar '\x00' output.toList).map String.ofList).filter (· ≠ "")

section

variable (tracked : List String) (rules : Rules)

def trackedBelow (item : String) : Bool := tracked.any fun path => Str.startswith path (item ++ "/")

/-- The directories `os.walk` goes on with. -/
def keepDirectory (rel name : String) : Bool :=
  let item := child rel name
  if name = ".git" || beneath item rules.durableData then false
  else if name = ".snapshots" && !(item ∈ tracked || trackedBelow tracked item) then false
  else if (name ∈ disposableNames || beneath item rules.disposableOutputs) && !trackedBelow tracked item then
    false
  else true

/-- The paths `os.walk` collects below a directory: the files, and the links to directories,
    which are not followed. -/
def walk : Nat → String → List String
  | 0, _ => []
  | fuel + 1, rel =>
    let names := w.listing rel
    let kept := names.filter fun name =>
      (w.spot (child rel name)).isDir && keepDirectory tracked rules rel name
    let files := names.filter fun name => !(w.spot (child rel name)).isDir
    let links := kept.filter fun name => (w.spot (child rel name)).isSymlink
    let below := kept.filter fun name => !(w.spot (child rel name)).isSymlink
    links.map (child rel) ++ files.map (child rel) ++ below.flatMap fun name => walk fuel (child rel name)

/-- The paths that count. -/
def counts (item : String) : Bool :=
  if ".git" ∈ parts item || beneath item rules.durableData then false
  else if ".snapshots" ∈ parts item && item ∉ tracked then false
  else if item ∉ tracked && (beneath item rules.disposableOutputs || (parts item).any fun p => p ∈ disposableNames) then
    false
  else true

/-- The paths that are hashed, in order. -/
def hashedPaths : List String :=
  (sortBy (fun item => item) (tracked ++ walk w tracked rules (w.height "" + 1) "").dedup).filter
    (counts tracked rules)

end

/-- What `digest.update` is given of one file: its name, a NUL, its digest, and a NUL after
    the files of the tree. -/
structure Piece where
  key : String
  name : String
  spot : Spot
  stop : List UInt8

def encode (s : String) : List UInt8 := s.toUTF8.data.toList

def piecesOf (gitSpot : String → Spot) (items : List String) : List Piece :=
  items.map (fun item => ⟨"tree:" ++ item, item, w.spot item, [0]⟩) ++
    ["index", "HEAD"].map fun name => ⟨"git:" ++ name, name, gitSpot name, []⟩

def readPieces : List Piece → σ → Except Failure (List UInt8 × σ)
  | [], s => .ok ([], s)
  | piece :: pieces, s =>
    (reader.digest piece.key piece.spot s).bind fun (value, s) =>
      (readPieces pieces s).bind fun (rest, s) =>
        .ok (encode piece.name ++ 0 :: (encode value ++ piece.stop ++ rest), s)

/-- `source_digest`, up to `cache.save`. -/
def sourceDigest (sha : List UInt8 → String) (s : σ) : Except Failure (String × σ) :=
  w.lsFiles.bind fun output =>
    w.gitDir.bind fun gitSpot =>
      (classifications reader w s).bind fun (rules, s) =>
        (readPieces reader (piecesOf w gitSpot (hashedPaths w (trackedOf output) rules)) s).bind
          fun (bytes, s) => .ok (sha bytes, s)

end

/-! ## Without a cache -/

section

variable (sha : List UInt8 → String)

/-- `f"{mode & 0o777:o}:"`. -/
def permissions (mode : Nat) : String := String.ofList (Nat.toDigits 8 (mode &&& 0o777)) ++ ":"

def notRegular (path : String) : Failure :=
  .snapshotError ("Selected path is not a regular file: " ++ path)

/-- `"symlink:"` and the hash of the target. -/
def linkDigest (entry : Entry) : String := "symlink:" ++ sha (encode entry.target)

def fileDigest (spot : Spot) : Except Failure String :=
  match spot.lstat, spot.isSymlink with
  | .ok entry, true => .ok (linkDigest sha entry)
  | _, _ =>
    if !spot.pathExists then .ok "missing"
    else if !spot.isFile then .error (notRegular spot.path)
    else
      match spot.opened with
      | .ok (identity, bytes) => .ok (permissions identity.mode ++ sha bytes)
      | .error errno => .error (.osError errno)

/-- The storage section where there is a file, read each time. -/
def readStorage (spot : Spot) : Except Failure (List (String × Value)) :=
  if spot.isFile then
    match spot.opened with
    | .error errno => .error (.osError errno)
    | .ok (_, bytes) =>
      match storageField bytes with
      | .error failure => .error failure
      | .ok (.obj storage) => .ok storage
      | .ok _ => .error .attributeError
  else .ok []

/-- `use_cache=False`. -/
def plainReader : Reader Unit where
  storage spot _ := (readStorage spot).map fun storage => (storage, ())
  digest _ spot _ := (fileDigest sha spot).map fun value => (value, ())

def plainDigest (w : Worktree) : Except Failure String :=
  (sourceDigest (plainReader sha) w sha ()).map Prod.fst

end

/-! ## With a cache -/

/-- `SourceDigestCache`. -/
structure Cache where
  root : String
  previous : List (String × Value)
  current : List (String × Value)
  previousStorage : Option (List (String × Value))
  currentStorage : Option Value

/-- `_VERSION`. -/
def version : Int := 1

/-- `SourceDigestCache(root, git_dir)`, from what `json.loads` makes of the cache file; `none`
    where it is missing, unreadable or no JSON text. -/
def Cache.load (root : String) (file : Option Value) : Cache :=
  match file with
  | some (.obj data) =>
    match field "version" data, field "root" data, field "files" data with
    | some (.int v), some (.str r), some (.obj files) =>
      if v = version ∧ r = root then
        ⟨root, files, [], match field "storage" data with
          | some (.obj storage) => some storage
          | _ => none, none⟩
      else ⟨root, [], [], none, none⟩
    | _, _, _ => ⟨root, [], [], none, none⟩
  | _ => ⟨root, [], [], none, none⟩

def asInt : Value → Option Int
  | .int n => some n
  | _ => none

/-- The stored identity is a list of six integers, those of `before`. -/
def recorded (stored : Option Value) (before : Identity) : Bool :=
  match stored with
  | some (.arr items) => items.length = 6 && items.mapM asInt = some before.parts
  | _ => false

/-- `[0-9a-f]{64}`. -/
def isSha256 (text : List Char) : Bool :=
  text.length = 64 && text.all fun c => c.isDigit || ('a' ≤ c && c ≤ 'f')

/-- `_valid_digest`. -/
def validDigest (identity : Identity) (digest : String) : Bool :=
  let matchesPrefix (start : String) :=
    Str.startswith digest start && isSha256 (digest.toList.drop start.length)
  if isLink identity.mode then matchesPrefix "symlink:"
  else if isRegular identity.mode then matchesPrefix (permissions identity.mode)
  else false

def areStrings : Option Value → Bool
  | some (.arr items) => items.all fun item => (asString item).isSome
  | _ => false

/-- `_valid_rules`. -/
def validRules (rules : List (String × Value)) : Bool :=
  areStrings (field "durable_data" rules) && areStrings (field "disposable_outputs" rules)

/-- `for _ in range(3)`: a round that ends with `continue` gives nothing. -/
def attempts {α : Type} (round : Except Failure (Option α)) (failure : Failure) : Nat → Except Failure α
  | 0 => .error failure
  | n + 1 =>
    match round with
    | .error raised => .error raised
    | .ok (some a) => .ok a
    | .ok none => attempts round failure n

def changedDuring (path : String) : Failure :=
  .snapshotError ("Selected path changed during source digest: " ++ path)

/-- A cache entry: `{"identity": [...], key: value}`. -/
def cacheEntry (identity : Identity) (key : String) (value : Value) : Value :=
  .obj [("identity", .arr (identity.parts.map .int)), (key, value)]

section

variable (sha : List UInt8 → String)

/-- The hash of the regular file `before`, unless opening finds another one.  The file is
    closed as it was opened. -/
def hashOpened (spot : Spot) (before : Identity) : Except Failure (Option String) :=
  match spot.opened with
  | .error .noent => .ok none
  | .error errno => .error (.osError errno)
  | .ok (identity, bytes) =>
    if identity = before then .ok (some (permissions before.mode ++ sha bytes)) else .ok none

/-- One round of `_stable_digest`. -/
def stableRound (spot : Spot) : Except Failure (Option (Option Identity × String)) :=
  match spot.lstat with
  | .error .noent => .ok (some (none, "missing"))
  | .error errno => .error (.osError errno)
  | .ok entry =>
    let before := entry.identity
    let value :=
      if isLink before.mode then .ok (some (linkDigest sha entry))
      else if isRegular before.mode then hashOpened sha spot before
      else .error (notRegular spot.path)
    match value with
    | .error failure => .error failure
    | .ok none => .ok none
    | .ok (some value) => .ok (if stillAt spot.lstat before then some (some before, value) else none)

/-- `_stable_digest`. -/
def stableDigest (spot : Spot) : Except Failure (Option Identity × String) :=
  attempts (stableRound sha spot) (changedDuring spot.path) 3

namespace Cache

/-- The stored entry of a key and its digest, where it is of the file that is there. -/
def hit (cache : Cache) (key : String) (spot : Spot) (before : Identity) : Option (Value × String) :=
  if isRegular before.mode || isLink before.mode then
    match field key cache.previous with
    | some (.obj entry) =>
      match field "digest" entry with
      | some (.str value) =>
        if recorded (field "identity" entry) before && validDigest before value &&
            stillAt spot.lstat before then some (.obj entry, value)
        else none
      | _ => none
    | _ => none
  else none

/-- `_stable_digest` and its entry. -/
def freshDigest (cache : Cache) (key : String) (spot : Spot) : Except Failure (String × Cache) :=
  match stableDigest sha spot with
  | .error failure => .error failure
  | .ok (none, value) => .ok (value, cache)
  | .ok (some identity, value) =>
    .ok (value, { cache with
      current := Dict.set key (cacheEntry identity "digest" (.str value)) cache.current })

/-- `SourceDigestCache.digest`. -/
def digest (cache : Cache) (key : String) (spot : Spot) : Except Failure (String × Cache) :=
  match identityOf spot.lstat with
  | .error failure => .error failure
  | .ok none => cache.freshDigest sha key spot
  | .ok (some before) =>
    match cache.hit key spot before with
    | some (entry, value) => .ok (value, { cache with current := Dict.set key entry cache.current })
    | none => cache.freshDigest sha key spot

/-- The stored rules, where they are of the file that is there. -/
def storageHit (cache : Cache) (spot : Spot) (before : Identity) :
    Option (Value × List (String × Value)) :=
  if isRegular before.mode then
    match cache.previousStorage with
    | some entry =>
      match field "rules" entry with
      | some (.obj rules) =>
        if recorded (field "identity" entry) before && validRules rules &&
            stillAt spot.lstat before then some (.obj entry, rules)
        else none
      | _ => none
    | none => none
  else none

/-- The rules that are kept of a storage section. -/
def keptRules (storage : List (String × Value)) : List (String × Value) :=
  ["durable_data", "disposable_outputs"].map fun kind =>
    (kind, (field kind storage).getD (.arr []))

/-- One round of reading the storage section. -/
def storageRound (cache : Cache) (spot : Spot) :
    Except Failure (Option (List (String × Value) × Cache)) :=
  (identityOf spot.lstat).bind fun before =>
    (identityOf spot.stat).bind fun target =>
      match before, target with
      | some before, some target =>
        match spot.opened with
        | .error .noent => .ok none
        | .error errno => .error (.osError errno)
        | .ok (identity, bytes) =>
          if identity = target then
            if stillAt spot.lstat before && stillAt spot.stat target then
              match storageField bytes with
              | .error failure => .error failure
              | .ok (.obj storage) =>
                .ok (some (storage,
                  if isRegular before.mode then
                    { cache with
                      currentStorage := some (cacheEntry before "rules" (.obj (keptRules storage))) }
                  else cache))
              | .ok _ => .error (.snapshotError "storage must be an object")
            else .ok none
          else .ok none
      | _, _ => .ok none

/-- `SourceDigestCache.storage`. -/
def storage (cache : Cache) (spot : Spot) : Except Failure (List (String × Value) × Cache) :=
  if spot.isFile then
    (identityOf spot.lstat).bind fun before =>
      match before.bind (cache.storageHit spot) with
      | some (entry, rules) => .ok (rules, { cache with currentStorage := some entry })
      | none => attempts (cache.storageRound spot) (changedDuring spot.path) 3
  else .ok ([], cache)

/-- What `save` writes. -/
def document (cache : Cache) : Value :=
  .obj [("version", .int version), ("root", .str cache.root), ("files", .obj cache.current),
    ("storage", cache.currentStorage.getD .null)]

end Cache

/-- `use_cache=True`. -/
def cachedReader : Reader Cache where
  storage spot cache := cache.storage spot
  digest key spot cache := cache.digest sha key spot

/-- `source_digest(root, use_cache=True)` on a cache file: the digest, and the document it
    tries to save. -/
def cachedDigest (w : Worktree) (file : Option Value) : Except Failure (String × Value) :=
  (sourceDigest (cachedReader sha) w sha (Cache.load w.root file)).map fun (digest, cache) =>
    (digest, cache.document)

/-- A call with the cache, and whether the file system lets it save the cache. -/
structure Call where
  worktree : Worktree
  saves : Bool

/-- The cache file after a call.  A refused call saves nothing. -/
def cacheAfter (file : Option Value) (call : Call) : Option Value :=
  match cachedDigest sha call.worktree file with
  | .ok (_, document) => if call.saves then some document else file
  | .error _ => file

end

end SummitFlow.SourceDigest
