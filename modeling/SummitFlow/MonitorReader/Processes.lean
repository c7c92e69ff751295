import SummitFlow.ForStd.DepthFirst
import SummitFlow.MonitorReader.Series

/-!
# Processes of a sample

Model of `MonitorReader.processes` in `backend/monitor_reader/reader.py`: the processes of
one stored sample, as a list that is sorted by what they use, or as a tree.  A page goes
on from a cursor, which names the sample by its id; the cursor of a tree also names the
time and the boot of the sample.

The reader selects the sample and then, for rates, the samples before it, in two
statements.  Ages are in nanoseconds here.  A process has integers as `pid` and
`start_ticks`, as the collector writes it.
-/

namespace SummitFlow.Monitor

/-- What a score needs of numbers. -/
structure ProcessNumbers (N : Type) extends Numbers N where
  /-- `sum(values)`. -/
  sum : List N → N
  /-- `new - old`. -/
  sub : N → N → N
  /-- `delta * scale / elapsed`. -/
  perTime : N → Int → Int → N
  /-- `str(value)` of a stored value. -/
  text : Json N → String

/-- A stored process: the fields of its object. -/
abbrev Process (N : Type) := List (String × Json N)

/-- What the reader reads of a row of `samples` for its processes. -/
structure ProcessRow (N : Type) where
  id : Int
  sampledAtNs : Int
  bootId : String
  mode : String
  /-- What `_decode_process_blob` makes of the blob. -/
  blob : Except PyError (List (Json N))
  seen : Nat
  denied : Nat

inductive ProcessSort where
  | cpu | rss | io
deriving DecidableEq, Repr

inductive ProcessView where
  | list | tree
deriving DecidableEq, Repr

structure ProcessFilters where
  atNs : Option Int
  name : Option String
  user : Option String
  service : Option String
  sort : ProcessSort
  view : ProcessView
deriving DecidableEq, Repr

/-- The position of a cursor; that of a tree has the time and the boot of its sample. -/
structure ProcessPosition where
  id : Int
  offset : Nat
  observation : Option (Int × String)
deriving DecidableEq, Repr

/-- How a process of a tree is linked to its parent. -/
inductive ParentLink where
  | root | unavailableInCapture | ambiguousPid | linked | filteredOut
  | identityOrObservationMismatch | invalidCycle
deriving DecidableEq, Repr

structure TreeMetadata where
  depth : Nat
  children : Nat
  parentLink : ParentLink
  parentIdentity : Option (String × Int × Int)
deriving DecidableEq, Repr

structure ProcessItem (N : Type) where
  sampledAt : Int
  observedAt : Int
  observationAge : Int
  freshness : String
  source : String
  provider : String
  mode : String
  unit : String
  availability : String
  sortValue : Option N
  sortAvailability : String
  bootId : String
  pid : Json N
  startTicks : Json N
  process : Process N
  tree : Option TreeMetadata

structure TreeCoverage where
  sampleId : Int
  valueMetric : ProcessSort
  capturedRows : Nat
  observedProcesses : Nat
  unavailableParentLinks : Nat
  permissionDenied : Nat
  filtered : Bool
deriving DecidableEq, Repr

/-- The coverage of a page; the first four are those of a page without processes. -/
inductive ProcessCoverage where
  | retentionExpired
  | notCollected (gap latestBefore : Int)
  | permissionDenied (sampledAt : Int) (denied : Nat)
  | unsupported (sampledAt : Int)
  | observed (availability : String) (sampledAt sampleAge : Int)
    (observationCursor : ProcessPosition) (observedAt observationAge : Int) (seen denied matched : Nat)
    (leadersOnly : Bool) (usernameUnknown uidUnknown : Nat) (incomplete : Bool)
    (tree : Option TreeCoverage)
deriving DecidableEq, Repr

abbrev ProcessPage (N : Type) :=
  Page ProcessFilters ProcessCoverage (ProcessItem N) ProcessPosition

section

variable {N : Type}

/-! ## What is read -/

/-- `ORDER BY sampled_at_ns DESC,id DESC`. -/
def newestFirst (rows : List (ProcessRow N)) : List (ProcessRow N) :=
  rows.insertionSort fun row row' =>
    row'.sampledAtNs < row.sampledAtNs ∨
      row.sampledAtNs = row'.sampledAtNs ∧ row'.id ≤ row.id

/-- The sample of a page: the latest one, or the one of the cursor. -/
def selectRow (q : ProcessFilters) (position : Option ProcessPosition) (atNs : Int)
    (rows : List (ProcessRow N)) : Option (ProcessRow N) :=
  match position with
  | none => (newestFirst (rows.filter fun row => row.sampledAtNs ≤ atNs)).head?
  | some position =>
    (rows.find? fun row => row.id == position.id).filter fun row =>
      -- SQLite can reuse an id after retention
      q.view != .tree || some (row.sampledAtNs, row.bootId) == position.observation

/-- The samples before it, for the rates. -/
def selectPrevious (q : ProcessFilters) (row : ProcessRow N) (rows : List (ProcessRow N)) :
    List (ProcessRow N) :=
  if q.sort = .rss then []
  else (newestFirst (rows.filter fun old =>
    old.sampledAtNs < row.sampledAtNs && row.sampledAtNs - 30 * nsec ≤ old.sampledAtNs &&
      old.bootId == row.bootId)).take 20

/-! ## Scores -/

variable (nums : ProcessNumbers N)

/-- The objects of a list, with their places in it. -/
def numbered (processes : List (Json N)) : List (Nat × Process N) :=
  processes.zipIdx.filterMap fun
    | (.obj fields, i) => some (i, fields)
    | _ => none

def intField (key : String) (process : Process N) : Option Int :=
  (Json.get process key).int? nums.toNumbers

/-- `observed_ns`. -/
def observedNs (sampleNs : Int) (process : Process N) : Int :=
  match intField nums "observed_at_ns" process with
  | some value => if 0 ≤ value ∧ value ≤ sampleNs then value else sampleNs
  | none => sampleNs

/-- `observed_mono_ns`. -/
def observedMonoNs (process : Process N) : Option Int :=
  (intField nums "observed_monotonic_ns" process).filter (0 ≤ ·)

/-- `prior_by_identity`, as one list: the processes of the samples before, newest first. -/
def priorProcesses (previous : List (ProcessRow N)) :
    Except PyError (List (Int × Process N)) := do
  let samples ← previous.mapM fun old => do
    return (numbered (← old.blob)).map fun p => (observedNs nums old.sampledAtNs p.2, p.2)
  return samples.flatten

/-- The rate of a process since it was seen before. -/
def rateScore (sort : ProcessSort) (sampleNs : Int) (prior : List (Int × Process N))
    (process : Process N) : Option N := do
  let pid ← intField nums "pid" process
  let startTicks ← intField nums "start_ticks" process
  let old ← prior.find? fun old =>
    intField nums "pid" old.2 == some pid && intField nums "start_ticks" old.2 == some startTicks &&
      old.1 < observedNs nums sampleNs process
  let keys := if sort = .cpu then ["cpu_user_ns", "cpu_system_ns"] else ["read_bytes", "write_bytes"]
  let current ← keys.mapM fun key => (Json.get process key).num?
  let before ← keys.mapM fun key => (Json.get old.2 key).num?
  let delta := nums.sub (nums.sum current) (nums.sum before)
  let elapsed := (← observedMonoNs nums process) - (← observedMonoNs nums old.2)
  if nums.lt delta nums.zero || elapsed ≤ 0 then none
  else some (nums.perTime delta (if sort = .cpu then 100 else nsec) elapsed)

/-- `score`. -/
def score (sort : ProcessSort) (sampleNs : Int) (prior : List (Int × Process N))
    (process : Process N) : Option N :=
  match sort with
  | .rss => (Json.get process "rss_bytes").num?.filter fun n => nums.lt nums.zero n || nums.eq n nums.zero
  | _ => rateScore nums sort sampleNs prior process

/-! ## Filters -/

/-- `numeric_user`: the user is given as a number. -/
def numericUser (user : String) : Option Nat :=
  if user ≠ "" ∧ user.toList.all Char.isDigit then some (Nat.ofDigitChars 10 user.toList 0) else none

def userMatches (user : Option String) (process : Process N) : Bool :=
  match user with
  | none => true
  | some user =>
    (Json.get process "user").str? == some user ||
      match intField nums "uid" process, numericUser user with
      | some uid, some n => uid == n
      | _, _ => false

def nameMatches (name : Option String) (process : Process N) : Bool :=
  match name with
  | none => true
  | some name =>
    Str.contains (Str.casefold (nums.text ((process.lookup "name").getD (.str "")))) (Str.casefold name)

def serviceMatches (service : Option String) (process : Process N) : Bool :=
  match service with
  | none => true
  | some service => (Json.get process "service").str? == some service

/-- `selected`, before it is sorted. -/
def selectProcesses (q : ProcessFilters) (processes : List (Json N)) : List (Nat × Process N) :=
  (numbered processes).filter fun p =>
    nameMatches nums q.name p.2 && userMatches nums q.user p.2 && serviceMatches q.service p.2

/-! ## The list -/

/-- The first part of the sort key: high scores first, and those without a score last. -/
def compareScores : Option N → Option N → Ordering
  | some a, some b => if nums.lt b a then .lt else if nums.lt a b then .gt else .eq
  | some _, none => .lt
  | none, some _ => .gt
  | none, none => .eq

def compareIds (default : Int) (p p' : Process N) : Ordering :=
  (compare ((intField nums "pid" p).getD default) ((intField nums "pid" p').getD default)).then
    (compare ((intField nums "start_ticks" p).getD default)
      ((intField nums "start_ticks" p').getD default))

/-- The order of the list view. -/
def listOrder (q : ProcessFilters) (sampleNs : Int) (prior : List (Int × Process N))
    (selected : List (Nat × Process N)) : List (Nat × Process N) :=
  selected.insertionSort fun p p' =>
    ((compareScores nums (score nums q.sort sampleNs prior p.2) (score nums q.sort sampleNs prior p'.2)).then
      (compareIds nums 0 p.2 p'.2)) ≠ .gt

/-! ## The tree -/

/-- The order siblings and roots have in a tree; it needs no samples before. -/
def siblingOrder (selected : List (Nat × Process N)) : List (Nat × Process N) :=
  selected.insertionSort fun p p' => compareIds nums (-1) p.2 p'.2 ≠ .gt

/-- The link of a process to its parent, the identity of the parent, and the place of the
    parent when it is selected. -/
def parentLink (row : ProcessRow N) (processes : List (Json N)) (selected : List (Nat × Process N))
    (process : Process N) : ParentLink × Option (String × Int × Int) × Option Nat :=
  match (intField nums "ppid" process).filter fun ppid =>
    0 < ppid && some ppid != intField nums "pid" process with
  | none => (.root, none, none)
  | some ppid =>
    match (numbered processes).filter fun p => intField nums "pid" p.2 == some ppid with
    | [] => (.unavailableInCapture, none, none)
    | [parent] =>
      match intField nums "start_ticks" process, intField nums "start_ticks" parent.2 with
      | some start, some parentStart =>
        if parentStart ≤ start ∧ observedNs nums row.sampledAtNs parent.2 =
            observedNs nums row.sampledAtNs process then
          let identity := some (row.bootId, ppid, parentStart)
          if parent.1 ∈ selected.map Prod.fst then (.linked, identity, some parent.1)
          else (.filteredOut, identity, none)
        else (.identityOrObservationMismatch, none, none)
      | _, _ => (.identityOrObservationMismatch, none, none)
    | _ => (.ambiguousPid, none, none)

/-- `children`: those of a process, in the order of the siblings. -/
def childrenOf (parents : List (Nat × Option Nat)) (i : Nat) : List Nat :=
  (parents.filter fun p => p.2 == some i).map Prod.fst

/-- `ordered` and `visited`, and where a cycle was entered. -/
def treeOrder (parents : List (Nat × Option Nat)) : List (Nat × Nat) × List Nat :=
  -- each process is a child at most once, so no visit takes more turns than this
  let visitFrom (i : Nat) (visited : List (Nat × Nat)) :=
    DepthFirst.visit (childrenOf parents) (parents.length + 1) [(i, 0)] visited
  let fromRoots := parents.foldl
    (fun visited p => if p.2.isNone then visitFrom p.1 visited else visited) []
  -- malformed source data must not hide rows
  parents.foldl (fun acc p => if p.1 ∈ acc.1.map Prod.fst then acc
    else (visitFrom p.1 acc.1, acc.2 ++ [p.1])) (fromRoots, [])

/-- The processes of a tree in order, with what the tree says of them. -/
def treeProcesses (row : ProcessRow N) (processes : List (Json N))
    (selected : List (Nat × Process N)) : List (Process N × TreeMetadata) :=
  let links := selected.map fun p => (p.1, parentLink nums row processes selected p.2)
  let parents := links.map fun link => (link.1, link.2.2.2)
  let (ordered, cycles) := treeOrder parents
  ordered.filterMap fun (i, depth) => do
    let process ← selected.lookup i
    let (link, identity, _) ← links.lookup i
    return (process, ⟨depth, (childrenOf parents i).length,
      if i ∈ cycles then .invalidCycle else link, identity⟩)

/-! ## Pages -/

/-- The processes of a sample in the order of the pages. -/
def orderedProcesses (q : ProcessFilters) (row : ProcessRow N) (prior : List (Int × Process N))
    (processes : List (Json N)) : List (Process N × Option TreeMetadata) :=
  let selected := selectProcesses nums q processes
  match q.view with
  | .tree => (treeProcesses nums row processes (siblingOrder nums selected)).map fun p => (p.1, some p.2)
  | .list => (listOrder nums q row.sampledAtNs prior selected).map fun p => (p.2, none)

/-- `cadence`, in seconds. -/
def cadence (row : ProcessRow N) : Int := if row.mode = "detail" then 5 else 15

/-- The position after so many processes of a sample. -/
def processPosition (q : ProcessFilters) (row : ProcessRow N) (offset : Nat) : ProcessPosition :=
  ⟨row.id, offset, if q.view = .tree then some (row.sampledAtNs, row.bootId) else none⟩

def sortUnit : ProcessSort → String
  | .cpu => "%"
  | .rss => "bytes"
  | .io => "bytes/s"

/-- The item of a process. -/
def processItem (q : ProcessFilters) (now atNs : Int) (row : ProcessRow N)
    (prior : List (Int × Process N)) (p : Process N × Option TreeMetadata) : ProcessItem N :=
  let observed := observedNs nums row.sampledAtNs p.1
  let value := score nums q.sort row.sampledAtNs prior p.1
  { sampledAt := row.sampledAtNs
    observedAt := observed
    observationAge := max 0 (atNs - observed)
    freshness := if now - observed ≤ 2 * cadence row * nsec then "ok" else "stale"
    source := "sqlite"
    provider := "collector"
    mode := row.mode
    unit := sortUnit q.sort
    availability := if row.mode = "baseline" then "leaders_only" else "ok"
    sortValue := value
    sortAvailability := if value.isSome then "ok" else "not_collected"
    bootId := row.bootId
    pid := Json.get p.1 "pid"
    startTicks := Json.get p.1 "start_ticks"
    process := p.1
    tree := p.2 }

/-- What a request has read when it has selected its sample. -/
structure ProcessReading (N : Type) where
  position : Option ProcessPosition
  now : Int
  atNs : Int
  row : Option (ProcessRow N)
  limit : Nat
  budget : Nat

/-- The coverage, the errors and the candidates of a page. -/
abbrev ProcessAnswer (N : Type) :=
  ProcessCoverage × List PageError × List (ProcessItem N × ProcessPosition)

/-- A page without processes. -/
def noProcesses (coverage : ProcessCoverage) (code message : String) : ProcessAnswer N :=
  (coverage, [⟨code, some message⟩], [])

/-- A filter on what no process has stored. -/
def unsupportedFilter (q : ProcessFilters) (processes : List (Process N)) : Bool :=
  q.user.isSome && !processes.any (fun p => (p.lookup "user").isSome || (p.lookup "uid").isSome) ||
    q.service.isSome && !processes.any fun p => (p.lookup "service").isSome

/-- The page of processes of a sample, before it is packed. -/
def observedAnswer (q : ProcessFilters) (reading : ProcessReading N) (row : ProcessRow N)
    (processes : List (Json N)) (latestObserved : Int) (prior : List (Int × Process N)) :
    ProcessAnswer N :=
  let all := (numbered processes).map Prod.snd
  let usernameUnknown := all.countP fun p => (Json.get p "user").str?.isNone
  let uidUnknown := all.countP fun p => (intField nums "uid" p).isNone
  let incomplete := if q.user.any fun user => (numericUser user).isSome then 0 < uidUnknown
    else 0 < usernameUnknown
  let ordered := orderedProcesses nums q row prior processes
  let tree : TreeCoverage := {
    sampleId := row.id
    valueMetric := q.sort
    capturedRows := processes.length
    observedProcesses := row.seen
    unavailableParentLinks := ordered.countP fun p =>
      p.2.any fun m => m.parentLink == .unavailableInCapture
    permissionDenied := row.denied
    filtered := q.name.isSome || q.user.isSome || q.service.isSome }
  let coverage := .observed (if row.mode = "baseline" then "leaders_only" else "ok") row.sampledAtNs
    (reading.atNs - row.sampledAtNs) (processPosition q row 0) latestObserved
    (reading.atNs - latestObserved) row.seen row.denied ordered.length (row.mode = "baseline")
    usernameUnknown uidUnknown incomplete (if q.view = .tree then some tree else none)
  let errors := if q.user.isSome ∧ incomplete then [⟨"partial_attribution",
    some "some process owners could not be attributed for this filter"⟩] else []
  let offset := reading.position.elim 0 (·.offset)
  let page := (ordered.drop offset).take (reading.limit + 1)
  (coverage, errors, page.zipIdx.map fun p =>
    (processItem nums q reading.now reading.atNs row prior p.1,
      processPosition q row (offset + p.2 + 1)))

/-- The part of `processes` after the samples have been read. -/
def processAnswer (q : ProcessFilters) (reading : ProcessReading N) (previous : List (ProcessRow N)) :
    Except PyError (ProcessAnswer N) :=
  match reading.row with
  | none => .ok (noProcesses .retentionExpired "retention_expired" "no sample at or before time")
  | some row => do
    let age := reading.atNs - row.sampledAtNs
    if reading.position.isNone ∧ age > 2 * cadence row * nsec then
      return noProcesses (.notCollected age row.sampledAtNs) "not_collected"
        "gap exceeds twice process cadence"
    else
      let processes ← row.blob
      let all := (numbered processes).map Prod.snd
      let latestObserved := (all.map (observedNs nums row.sampledAtNs)).max?.getD row.sampledAtNs
      if processes.isEmpty ∧ row.denied ≠ 0 then
        return noProcesses (.permissionDenied row.sampledAtNs row.denied) "permission_denied"
          "process scan was denied"
      else if unsupportedFilter q all then
        return noProcesses (.unsupported row.sampledAtNs) "unsupported"
          "requested process filter is not stored"
      else if reading.position.isNone ∧ reading.atNs - latestObserved > 2 * cadence row * nsec then
        return noProcesses (.notCollected (reading.atNs - latestObserved) latestObserved)
          "not_collected" "process observation gap exceeds twice cadence"
      else
        return observedAnswer nums q reading row processes latestObserved
          (← priorProcesses nums previous)

/-- `_cursor_position` for processes: the positions of the two views differ. -/
def processCursor (cursor : Option (Cursor ProcessFilters ProcessPosition)) (q : ProcessFilters) :
    Except PyError (Option ProcessPosition) := do
  let position ← cursorPosition cursor q
  refuseIf (position.any fun p => p.observation.isSome != (q.view == .tree))
    "invalid cursor or cursor filters changed"
  return position

/-- `processes` up to the selection of the sample. -/
def startProcesses (q : ProcessFilters) (cursor : Option (Cursor ProcessFilters ProcessPosition))
    (limit budget : Nat) (now : Int) (rows : List (ProcessRow N)) :
    Except PyError (ProcessReading N) := do
  checkBudget budget
  checkLimit limit
  let now ← timeNs (some now) 0
  let atNs ← timeNs q.atNs now
  let _ ← textFilter q.name "name"
  let _ ← textFilter q.user "user"
  let _ ← textFilter q.service "service"
  let position ← processCursor cursor q
  return ⟨position, now, atNs, selectRow q position atNs rows, limit, budget⟩

/-- `processes` from the selection of the samples before. -/
def finishProcesses (size : ProcessPage N → Nat) (q : ProcessFilters) (reading : ProcessReading N)
    (rows : List (ProcessRow N)) : Except PyError (ProcessPage N) := do
  let previous := reading.row.elim [] fun row => selectPrevious q row rows
  let (coverage, errors, candidates) ← processAnswer nums q reading previous
  pack size { Page.base q reading.now (some coverage) with errors := errors } candidates q
    reading.limit reading.budget false

end

end SummitFlow.Monitor
