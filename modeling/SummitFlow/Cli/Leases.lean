import SummitFlow.Cli.CoordLineage
import SummitFlow.ForStd.Run
import SummitFlow.ForStd.UpdateFirst
import SummitFlow.Python.Fnmatch
import SummitFlow.Python.PosixPath

/-!
# Leases and writer sets

Model of `backend/cli/lib/leases.py` on the document of one project: its leases, the
writer sets of its dirty paths, and the legacy `touches` that the first load folds
into them.  The lock around a document makes each locked section one step; `take`
has three of them (`takeDrop`, `acquire`, `takeAdopt`).

Times are in microseconds.  A call samples the clock before it takes the lock, when
it loads the document and when it makes a writer entry.
-/

namespace SummitFlow.Leases

open Coord (Caller)

/-- `DEFAULT_IDLE_TTL`, half an hour. -/
def defaultIdleTtl : Int := 30 * 60 * 1000000

/-- `TOUCH_TTL`, a day. -/
def touchTtl : Int := 24 * 3600 * 1000000

/-- `UNKNOWN_WRITER`. -/
def unknownWriter : String := "unknown"

/-- The edit scope of a file, a declared purpose for the repository, or an acceptance
    or deployment run fenced to its process. -/
inductive Kind where
  | file | hold | op
deriving DecidableEq, Repr

structure Lease where
  leaseId : String
  agentId : String
  agentSlug : String
  sessionId : String
  provider : String
  globs : List String
  taskId : Option String
  acquiredAt : Int
  lastHeartbeat : Int
  takenOverBy : Option String
  kind : Kind
  purpose : Option String
  pid : Option Nat
  pidStart : Option String
  sensitive : Bool
  anchor : Option String
deriving DecidableEq, Repr

/-- An entry of a writer set; `stamp` is its `at`, when that parses. -/
structure Writer where
  agentId : String
  sessionId : String
  anchor : Option String
  stamp : Option Int
  sensitive : Bool
  reason : Option String
  writtenBy : Option String
deriving DecidableEq, Repr

/-- The writer sets, by path. -/
abbrev Writers := List (String × List Writer)

/-- The document of a project; `touches` is `none` when it has no such key. -/
structure Doc where
  leases : List Lease
  writers : Writers
  touches : Option (List (String × Writer))
deriving DecidableEq, Repr

/-- What a call finds: the calling process, its clock samples, and the id `uuid4`
    would give a new lease. -/
structure Env where
  caller : Caller
  started : Int
  loaded : Int
  stamped : Int
  newId : String

/-! ## Leases -/

/-- `Lease.is_stale`. -/
def Lease.isStale (env : Env) (l : Lease) : Bool :=
  match l.kind with
  | .op => !Coord.processAlive env.caller.processStart l.pid l.pidStart
  | _ => env.loaded - l.lastHeartbeat > defaultIdleTtl

/-- `Lease.matches`. -/
def Lease.matchesPath (l : Lease) (path : String) : Bool :=
  l.globs.any fun g =>
    Fnmatch.fnmatch path g || Fnmatch.fnmatch path (Str.rstripSlash g ++ "/**")

/-- `is_mine`: one of the identities, or recorded on the live anchor. -/
def isMine (mine : List String) (anchor : Option String) (l : Lease) : Bool :=
  mine.contains l.agentId || (anchor.isSome && l.anchor == anchor)

/-- The leases the caller owns. -/
def Env.owns (env : Env) (l : Lease) : Bool := isMine env.caller.selfIds env.caller.myAnchor l

/-- The leases of the caller's whole session. -/
def Env.sessionOwns (env : Env) (l : Lease) : Bool :=
  isMine env.caller.sessionIds env.caller.sessionAnchor l

/-- `_purge_stale`. -/
def purgeStale (env : Env) (leases : List Lease) : List Lease :=
  leases.filter fun l => !l.isStale env

/-- `_project_path`. -/
def projectPath (path : String) (projectRoot : Option String) : String :=
  match projectRoot with
  | none | some "" => PosixPath.normpath path
  | some root => PosixPath.normpath (PosixPath.join root path)

/-! ## Writer sets -/

/-- `_writer_entry`. -/
def writerEntry (env : Env) (unknown : Option String) (sensitive : Option Bool) : Writer where
  agentId := if unknown.isSome then unknownWriter else env.caller.rootKey
  sessionId := env.caller.sessionId
  anchor := env.caller.sessionAnchor
  stamp := some env.stamped
  sensitive := sensitive.getD env.caller.sensitive
  reason := unknown
  writtenBy := if unknown.isSome then some env.caller.agentId else none

/-- `_add_writer`. -/
def addWriter (path : String) (entry : Writer) (writers : Writers) : Writers :=
  let entries := ((writers.lookup path).getD []).filter fun e => e.agentId != entry.agentId
  Dict.set path (entries ++ [entry]) writers

/-- `_touch_fresh`. -/
def touchFresh (now : Int) (touch : Writer) : Bool :=
  match touch.stamp with
  | some stamp => now - stamp ≤ touchTtl
  | none => false

/-- `_load_writers`. -/
def loadWriters (now : Int) (doc : Doc) : Writers :=
  let writers := doc.writers.map fun row => (row.1, row.2.filter fun e => e.agentId != "")
  let folded := (doc.touches.getD []).foldl (fun writers touch =>
    if touchFresh now touch.2 && touch.2.agentId != "" then addWriter touch.1 touch.2 writers
    else writers) writers
  folded.filter fun row => !row.2.isEmpty

/-- `is_own_writer`: an unknown writer is nobody's. -/
def isOwnWriter (mine : List String) (anchor : Option String) (e : Writer) : Bool :=
  if e.agentId = unknownWriter then false
  else mine.contains e.agentId || (anchor.isSome && e.anchor == anchor)

/-- `_prune`. -/
def prune (root : String) (dirty : List String) (writers : Writers) : Writers :=
  writers.filter fun row =>
    !(Str.startswith row.1 (Str.rstripSlash root ++ "/") && !dirty.contains row.1)

/-- `_save`: the legacy touches are gone once a load has folded them in. -/
def save (leases : List Lease) (writers : Writers) : Doc := ⟨leases, writers, none⟩

/-! ## Operations -/

/-- The refresh of an own lease with the same globs. -/
def refreshLease (env : Env) (taskId : Option String) (l : Lease) : Lease :=
  { l with
    lastHeartbeat := env.started
    taskId := if taskId.any (· != "") && !l.taskId.any (· != "") then taskId else l.taskId }

/-- The lease a caller creates for these globs. -/
def newLease (env : Env) (globs : List String) (taskId : Option String) : Lease where
  leaseId := env.newId
  agentId := env.caller.agentId
  agentSlug := env.caller.agentSlug
  sessionId := env.caller.sessionId
  provider := env.caller.provider
  globs := globs
  taskId := taskId
  acquiredAt := env.started
  lastHeartbeat := env.started
  takenOverBy := none
  kind := .file
  purpose := none
  pid := none
  pidStart := none
  sensitive := false
  anchor := env.caller.myAnchor

/-- Whether a lease is the caller's file lease for exactly these globs. -/
def sameScope (env : Env) (globs : List String) (l : Lease) : Bool :=
  l.kind == .file && l.agentId == env.caller.agentId &&
    l.globs.all globs.contains && globs.all l.globs.contains

/-- `acquire`. -/
def acquire (env : Env) (globs : List String) (taskId projectRoot : Option String) (doc : Doc) :
    Doc × Lease :=
  let globs := globs.map fun g => projectPath g projectRoot
  let leases := purgeStale env doc.leases
  let writers := loadWriters env.loaded doc
  match leases.find? (sameScope env globs) with
  | some l =>
    (save (updateFirst (sameScope env globs) (refreshLease env taskId) leases) writers,
      refreshLease env taskId l)
  | none =>
    let l := newLease env globs taskId
    (save (leases ++ [l]) writers, l)

/-- `list_active`. -/
def listActive (env : Env) (kinds : List Kind) (doc : Doc) : Doc × List Lease :=
  let leases := purgeStale env doc.leases
  (if leases.length = doc.leases.length then doc else save leases (loadWriters env.loaded doc),
    leases.filter fun l => kinds.contains l.kind)

/-- A lease with its heartbeat now. -/
def touch (env : Env) (l : Lease) : Lease := { l with lastHeartbeat := env.started }

/-- `heartbeat`. -/
def heartbeat (env : Env) (doc : Doc) : Doc × Nat :=
  let leases := purgeStale env doc.leases
  (save (leases.map fun l => if env.owns l then touch env l else l) (loadWriters env.loaded doc),
    (leases.filter env.owns).length)

/-- One lease of `release` by glob: without the glob, and gone when none is left. -/
def releaseGlob (env : Env) (target : String) (l : Lease) : Option Lease :=
  if env.owns l && l.globs.contains target then
    let globs := l.globs.filter (· != target)
    if globs.isEmpty then none else some { l with globs := globs }
  else some l

/-- Whether `release` takes its argument for the id of an own lease. -/
def releasesById (env : Env) (glob : String) (leases : List Lease) : Bool :=
  leases.any fun l => l.leaseId == glob && l.kind != .op && env.owns l

/-- `release`. -/
def release (env : Env) (glob projectRoot : Option String) (doc : Doc) : Doc × Nat :=
  let leases := purgeStale env doc.leases
  let writers := loadWriters env.loaded doc
  match glob with
  | none =>
    let kept := leases.filter fun l => !(l.kind != .op && env.owns l)
    (save kept writers, leases.length - kept.length)
  | some glob =>
    if releasesById env glob leases then
      (save (leases.filter fun l => l.leaseId != glob) writers, 1)
    else
      let target := projectPath glob projectRoot
      (save (leases.filterMap (releaseGlob env target)) writers,
        (leases.filter fun l => env.owns l && l.globs.contains target).length)

/-- `release_task`. -/
def releaseTask (env : Env) (taskId : String) (doc : Doc) : Doc × Nat :=
  if taskId = "" then (doc, 0)
  else
    let leases := purgeStale env doc.leases
    let kept := leases.filter fun l => l.taskId != some taskId
    (save kept (loadWriters env.loaded doc), leases.length - kept.length)

/-- The first locked section of `take`: other agents' matching leases are dropped. -/
def takeDrop (env : Env) (path : String) (projectRoot : Option String) (doc : Doc) : Doc :=
  let path := projectPath path projectRoot
  save ((purgeStale env doc.leases).filter fun l =>
      !(l.kind != .op && l.matchesPath path && !env.owns l))
    (loadWriters env.loaded doc)

/-- The last locked section of `take`: the new lease is marked, and the taker becomes
    the path's only writer. -/
def takeAdopt (env : Env) (path leaseId : String) (projectRoot : Option String) (doc : Doc) :
    Doc :=
  let path := projectPath path projectRoot
  save (doc.leases.map fun l =>
      if l.leaseId = leaseId then { l with takenOverBy := some env.caller.agentId } else l)
    (Dict.set path [writerEntry env none none] (loadWriters env.loaded doc))

/-- `take`, its three sections in a row. -/
def take (drop acquired adopt : Env) (path : String) (projectRoot : Option String) (doc : Doc) :
    Doc × Lease :=
  let normal := projectPath path projectRoot
  let (doc, l) := acquire acquired [normal] none none (takeDrop drop path projectRoot doc)
  (takeAdopt adopt path l.leaseId projectRoot doc,
    { l with takenOverBy := some drop.caller.agentId })

/-- The caller's file leases that match a path. -/
def ownMatch (env : Env) (path : String) (l : Lease) : Bool :=
  l.kind == .file && l.matchesPath path && env.owns l

/-- The leases of other sessions that match a path. -/
def foreignMatch (env : Env) (path : String) (l : Lease) : Bool :=
  l.kind == .file && l.matchesPath path && !env.sessionOwns l

/-- The leases with every own one heartbeated, as `claim` does; an op lease is not. -/
def touchOwn (env : Env) (leases : List Lease) : List Lease :=
  leases.map fun l => if l.kind != .op && env.owns l then touch env l else l

/-- The lease `claim` creates for a path. -/
def claimLease (env : Env) (path : String) : Lease :=
  { newLease env [path] none with sensitive := env.caller.sensitive }

/-- The leases after `claim` and the caller's lease of the path: the last own file
    lease that matches it, else a new one. -/
def claimOwn (env : Env) (path : String) (leases : List Lease) : List Lease × Lease :=
  match ((touchOwn env leases).filter (ownMatch env path)).getLast? with
  | some own => (touchOwn env leases, own)
  | none => (touchOwn env leases ++ [claimLease env path], claimLease env path)

/-- `claim`: the answer is whether nobody else leased the path, and the conflicting
    lease or the caller's. -/
def claim (env : Env) (path : String) (projectRoot : Option String) (doc : Doc) :
    Doc × (Bool × Lease) :=
  let path := projectPath path projectRoot
  let leases := purgeStale env doc.leases
  let conflict := leases.find? (foreignMatch env path)
  let own := (claimOwn env path leases).2
  let writers := addWriter path (writerEntry env none (some own.sensitive))
    (loadWriters env.loaded doc)
  (save (claimOwn env path leases).1 writers, (conflict.isNone, conflict.getD own))

/-- The arguments of `record_writes`. -/
structure WriteArgs where
  paths : List String
  since : Option Int
  unknown : Option String
  dirty : Option (List String)
  root : Option String

/-- `_at_or_after`. -/
def atOrAfter (stamp : Option Int) (since : Int) : Bool := stamp.any (since ≤ ·)

/-- Whether another session wrote or leased the path since the command started. -/
def writtenSince (env : Env) (leases : List Lease) (since : Int) (path : String)
    (writers : Writers) : Bool :=
  (((writers.lookup path).getD []).any fun e =>
      !isOwnWriter env.caller.sessionIds env.caller.sessionAnchor e && atOrAfter e.stamp since) ||
    leases.any fun l => l.kind == .file && l.matchesPath path && !env.owns l &&
      atOrAfter (some l.acquiredAt) since

/-- The entry `record_writes` makes for one path. -/
def writeEntry (env : Env) (args : WriteArgs) (leases : List Lease) (path : String)
    (writers : Writers) : Writer :=
  let unknown := args.unknown.filter (· != "")
  let entry := writerEntry env unknown none
  let concurrent := if unknown.isSome then entry else writerEntry env (some "concurrent") none
  if args.since.any fun since => writtenSince env leases since path writers then concurrent
  else entry

/-- `record_writes`. -/
def recordWrites (env : Env) (args : WriteArgs) (doc : Doc) : Doc :=
  let leases := purgeStale env doc.leases
  let writers := loadWriters env.loaded doc
  let writers := match args.dirty, args.root with
    | some dirty, some root => if root = "" then writers else prune root dirty writers
    | _, _ => writers
  let writers := args.paths.foldl (fun writers path =>
    addWriter path (writeEntry env args leases path writers) writers) writers
  save leases writers

/-- `prune_writers`. -/
def pruneWriters (env : Env) (root : String) (dirty : List String) (doc : Doc) : Doc :=
  let writers := loadWriters env.loaded doc
  let pruned := prune root dirty writers
  if pruned.length ≠ writers.length ∨ doc.touches.isSome then save doc.leases pruned else doc

/-- `release_paths`. -/
def releasePaths (env : Env) (paths : List String) (projectRoot : Option String) (doc : Doc) :
    Doc × Nat :=
  let targets := paths.map fun p => projectPath p projectRoot
  let leases := purgeStale env doc.leases
  let kept := leases.filter fun l =>
    !(l.kind == .file && env.owns l && l.globs.all targets.contains)
  (save kept (loadWriters env.loaded doc), leases.length - kept.length)

/-- The mark `acquire_mark` adds: a hold, or an op fenced to the calling process. -/
def newMark (env : Env) (root : String) (kind : Kind) (purpose : String) : Lease :=
  let pid := if kind = .op then some env.caller.pid else none
  { newLease env [Str.rstripSlash (projectPath root none) ++ "/**"] none with
    kind := kind
    purpose := some (String.ofList (purpose.toList.take 40))
    pid := pid
    pidStart := match pid with
      | none | some 0 => none
      | some pid => env.caller.processStart pid
    sensitive := env.caller.sensitive }

/-- `acquire_mark`. -/
def acquireMark (env : Env) (root : String) (kind : Kind) (purpose : String) (doc : Doc) :
    Doc × Lease :=
  let l := newMark env root kind purpose
  let kept := (purgeStale env doc.leases).filter fun item =>
    !(kind == .hold && item.kind == .hold && isMine env.caller.selfIds l.anchor item)
  (save (kept ++ [l]) (loadWriters env.loaded doc), l)

/-- `release_mark`. -/
def releaseMark (env : Env) (leaseId : String) (doc : Doc) : Doc :=
  save (doc.leases.filter fun l => l.leaseId != leaseId) (loadWriters env.loaded doc)

/-! ## Readers -/

/-- `coord.foreign_writers`: the entries of each path that are not the caller's
    session's.  `realpath` resolves symbolic links. -/
def foreignWriters (env : Env) (realpath : String → String) (root : String)
    (rels : List String) (doc : Doc) : List (String × List Writer) :=
  let record := loadWriters env.loaded doc
  let mine := env.caller.sessionIds
  let anchor := env.caller.sessionAnchor
  rels.filterMap fun rel =>
    let entries := match record.lookup (realpath (PosixPath.join root rel)) with
      | some (e :: es) => e :: es
      | _ => (record.lookup (PosixPath.pathStr (PosixPath.join root rel))).getD []
    let foreign := entries.filter fun e => !isOwnWriter mine anchor e
    if foreign.isEmpty then none else some (rel, foreign)

/-! ## Runs -/

inductive Op where
  | acquire (globs : List String) (taskId projectRoot : Option String)
  | listActive (kinds : List Kind)
  | heartbeat
  | release (glob projectRoot : Option String)
  | releaseTask (taskId : String)
  | takeDrop (path : String) (projectRoot : Option String)
  | takeAdopt (path leaseId : String) (projectRoot : Option String)
  | claim (path : String) (projectRoot : Option String)
  | recordWrites (args : WriteArgs)
  | pruneWriters (root : String) (dirty : List String)
  | releasePaths (paths : List String) (projectRoot : Option String)
  | acquireMark (root : String) (kind : Kind) (purpose : String)
  | releaseMark (leaseId : String)

/-- The document after one locked section. -/
def serveStep (doc : Doc) (call : Env × Op) : Doc :=
  match call.2 with
  | .acquire globs taskId projectRoot => (acquire call.1 globs taskId projectRoot doc).1
  | .listActive kinds => (listActive call.1 kinds doc).1
  | .heartbeat => (heartbeat call.1 doc).1
  | .release glob projectRoot => (release call.1 glob projectRoot doc).1
  | .releaseTask taskId => (releaseTask call.1 taskId doc).1
  | .takeDrop path projectRoot => takeDrop call.1 path projectRoot doc
  | .takeAdopt path leaseId projectRoot => takeAdopt call.1 path leaseId projectRoot doc
  | .claim path projectRoot => (claim call.1 path projectRoot doc).1
  | .recordWrites args => recordWrites call.1 args doc
  | .pruneWriters root dirty => pruneWriters call.1 root dirty doc
  | .releasePaths paths projectRoot => (releasePaths call.1 paths projectRoot doc).1
  | .acquireMark root kind purpose => (acquireMark call.1 root kind purpose doc).1
  | .releaseMark leaseId => releaseMark call.1 leaseId doc

end SummitFlow.Leases
