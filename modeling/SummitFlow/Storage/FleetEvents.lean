import Mathlib.Data.List.Sort
import SummitFlow.Python.Error
import SummitFlow.ForStd.AdvisoryLocks
import SummitFlow.ForStd.Run

/-!
# The fleet event stream

Model of `backend/app/storage/fleet_events.py`.  PostgreSQL runs its transactions
at READ COMMITTED: every statement reads what is committed when it starts (and what
its own transaction wrote), and an advisory lock is held until its transaction
commits or rolls back.  A transaction is therefore a sequence of statements, each
one step of the system, and the steps of different transactions interleave in any
order.  A row of the table `events` has its three stream columns all set (`Row`) or
all NULL (a plain event, which the admission checks may also read).

`J` is the JSON content no function here looks into; `hash` is `hashtextextended`,
`contentDigest` is `content_digest` and `encodedLength` the length of the encoded
attributes.
-/

namespace SummitFlow.Fleet

/-- `attributes["scope"]`, of which only `target` is read. -/
structure Scope where
  target : Option String
deriving DecidableEq, Repr

/-- An event's `attributes`: the entries the admission checks read, `none` when absent. -/
structure Attributes (J : Type) where
  role : Option String
  leadRoot : Option String
  facet : Option String
  scope : Option Scope
  rest : J
deriving DecidableEq, Repr

/-- `attributes->'scope'->>'target'`. -/
def Attributes.scopeTarget {J : Type} (a : Attributes J) : Option String :=
  a.scope.bind Scope.target

/-- The columns every event has. -/
structure Event (J : Type) where
  projectId : String
  traceId : String
  eventType : String
  attributes : Attributes J
  timestamp : Int
deriving DecidableEq, Repr

/-- An event of a stream: `stream_sequence`, `source_key` and `source_digest` are set. -/
structure Row (J : Type) extends Event J where
  sequence : Int
  sourceKey : String
  digest : String
deriving DecidableEq, Repr

/-- What `append_fleet_event` returns; `created` is there only when asked for. -/
structure Record (J : Type) where
  row : Row J
  created : Option Bool
deriving DecidableEq, Repr

inductive FleetError where
  | raised (e : PyError)
  | sourceKeyConflict (message : String)
  | staleCursor (cursor nextSequence : Int)
  /-- psycopg's `UniqueViolation`, with the name of the index. -/
  | uniqueViolation (index : String)
deriving DecidableEq, Repr

/-- The arguments of `append_fleet_event`. -/
structure AppendArgs (J : Type) where
  projectId : String
  traceId : String
  sourceKey : String
  eventType : String
  attributes : Attributes J
  digest : Option String
  requireOpen : Bool
  returnCreated : Bool
deriving DecidableEq, Repr

/-- The functions of other libraries the module calls. -/
structure Env (J : Type) where
  hash : String → Int
  contentDigest : String → Attributes J → String
  encodedLength : Attributes J → Nat

variable {J : Type}

/-- `_lock`'s key. -/
def Env.lockKey (env : Env J) (traceId : String) : Int := env.hash ("fleet:" ++ traceId)

/-- What `append_fleet_event` checks before it opens a connection. -/
def checkArgs (env : Env J) (args : AppendArgs J) : Except FleetError Unit :=
  if args.sourceKey = "" ∨ 256 < args.sourceKey.length ∨
      args.eventType = "" ∨ 128 < args.eventType.length then
    .error (.raised (.valueError "A bounded source key and event type are required"))
  else if args.digest.any (· ≠ env.contentDigest args.eventType args.attributes) then
    .error (.sourceKeyConflict "Supplied digest does not match exact event content")
  else if 16384 < env.encodedLength args.attributes then
    .error (.raised (.valueError
      "Fleet attributes must be a compact source reference (maximum 16 KiB)"))
  else .ok ()

/-! ## Statements -/

/-- `WHERE trace_id = … AND source_key = … AND stream_sequence IS NOT NULL`. -/
def selectExisting (table : List (Row J)) (traceId sourceKey : String) : Option (Row J) :=
  table.find? fun row => row.traceId == traceId && row.sourceKey == sourceKey

/-- The root has a `root.closed` or `root.close-uncertain` row in its stream. -/
def streamClosed (table : List (Row J)) (traceId : String) : Bool :=
  table.any fun row => row.traceId == traceId &&
    (row.eventType == "root.closed" || row.eventType == "root.close-uncertain")

/-- `SELECT 1 FROM events WHERE trace_id = … AND event_type = 'root.closed'`. -/
def rootClosed (events : List (Event J)) (traceId : String) : Bool :=
  events.any fun e => e.traceId == traceId && e.eventType == "root.closed"

/-- A `root.started` event the lead has for the facet whose root is not closed. -/
def supportOpen (events : List (Event J)) (lead facet : String) : Bool :=
  events.any fun e => e.eventType == "root.started" &&
    e.attributes.leadRoot == some lead && e.attributes.facet == some facet &&
    !rootClosed events e.traceId

/-- A target root of the project on the target that is not closed. -/
def targetOpen (events : List (Event J)) (projectId target : String) : Bool :=
  events.any fun e => e.projectId == projectId && e.eventType == "root.started" &&
    e.attributes.role == some "neri-target-root" && e.attributes.scopeTarget == some target &&
    !rootClosed events e.traceId

/-- `MAX(stream_sequence)`, NULL when there is no row. -/
def maxSequence (rows : List (Row J)) : Option Int := (rows.map Row.sequence).max?

/-- The rows of one stream. -/
def rowsOf (table : List (Row J)) (traceId : String) : List (Row J) :=
  table.filter fun row => row.traceId = traceId

/-- `COALESCE(MAX(stream_sequence), 0) + 1`. -/
def nextSequence (table : List (Row J)) (traceId : String) : Int :=
  (maxSequence (rowsOf table traceId)).getD 0 + 1

/-- The unique index a new row would violate. -/
def violatedIndex (table : List (Row J)) (row : Row J) : Option String :=
  if table.any fun r => r.traceId == row.traceId && r.sequence == row.sequence then
    some "events_fleet_sequence"
  else if table.any fun r => r.traceId == row.traceId && r.sourceKey == row.sourceKey then
    some "events_fleet_source_key"
  else none

/-- `SELECT DISTINCT trace_id … ORDER BY trace_id`. -/
def selectRoots (table : List (Row J)) : List String :=
  (table.map fun row => row.traceId).dedup.insertionSort (· ≤ ·)

/-- `event_type LIKE 'root.%' OR event_type LIKE 'native.delivery.%'`. -/
def lifecycle (eventType : String) : Bool :=
  "root.".toList.isPrefixOf eventType.toList ||
    "native.delivery.".toList.isPrefixOf eventType.toList

/-- Microseconds in a day. -/
def day : Int := 86400000000

/-- The rows the DELETE of `cleanup_fleet_events` removes from one stream: old ones
    that are no lifecycle rows and not the stream's last. -/
def expired (table : List (Row J)) (root : String) (now : Int) (maxAgeDays : Nat) :
    List (Row J) :=
  (rowsOf table root).filter fun row =>
    !lifecycle row.eventType && row.timestamp < now - maxAgeDays * day &&
      (maxSequence (rowsOf table root)).any (row.sequence < ·)

/-! ## Reading a page -/

/-- The loop over the page that looks for a gap. -/
def checkContiguous : Int → List (Row J) → Except FleetError Unit
  | _, [] => .ok ()
  | expected, row :: rows =>
    if row.sequence ≠ expected then .error (.staleCursor (expected - 1) row.sequence)
    else checkContiguous (expected + 1) rows

/-- The project's rows of a stream after a cursor, in order. -/
def rowsAfter (table : List (Row J)) (projectId traceId : String) (cursor : Int) :
    List (Row J) :=
  (table.filter fun row => row.projectId = projectId ∧ row.traceId = traceId ∧
    cursor < row.sequence).insertionSort (·.sequence ≤ ·.sequence)

/-- `read_fleet_page`. -/
def readFleetPage (table : List (Row J)) (projectId traceId : String) (cursor limit : Int) :
    Except FleetError (List (Row J)) :=
  if cursor < 0 ∨ ¬ (1 ≤ limit ∧ limit ≤ 1000) then
    .error (.raised (.valueError "Invalid fleet cursor or page limit"))
  else do
    let rows := (rowsAfter table projectId traceId cursor).take limit.toNat
    checkContiguous (cursor + 1) rows
    .ok rows

/-! ## Transactions -/

/-- The statement of `append_fleet_event` a transaction is about to run. -/
inductive Phase (J : Type) where
  | lockTrace
  | selectExisting
  | checkOpen
  | lockLead (lead : String)
  | checkLeadClosed (lead : String)
  | checkFacet (lead facet : String)
  | lockTarget (target : String)
  | checkTarget (target : String)
  | selectMax
  | insert (sequence : Int)
  | commitExisting (row : Row J)
  | commitNew (row : Row J)

/-- The statement of `cleanup_fleet_events` a transaction is about to run. -/
inductive CleanupPhase where
  | selectRoots
  | lockRoot (roots : List String)
  | deleteFrom (root : String) (roots : List String)

/-- A transaction in progress: its function with the arguments, the time `NOW()` gives
    in it, the next statement and, for a cleanup, what it has deleted so far. -/
inductive Tx (J : Type) where
  | append (args : AppendArgs J) (now : Int) (phase : Phase J)
  | cleanup (maxAgeDays : Nat) (now : Int) (phase : CleanupPhase) (deleted : List (Row J))

/-- A caller that reads a stream page by page, each time from the last sequence it got. -/
structure Reader (J : Type) where
  projectId : String
  traceId : String
  start : Int
  cursor : Int
  received : List (Row J)

/-- The database and its clients.  `log` is no table: it lists every stream row ever
    committed, in the order of the commits. -/
structure Sys (J : Type) where
  table : List (Row J)
  plain : List (Event J)
  log : List (Row J)
  txs : Nat → Option (Tx J)
  locks : LockTable Int
  readers : Nat → Option (Reader J)

/-- An empty database without clients. -/
def Sys.initial : Sys J where
  table := []
  plain := []
  log := []
  txs := fun _ => none
  locks := fun _ => none
  readers := fun _ => none

/-- Every event a statement without `stream_sequence IS NOT NULL` reads. -/
def Sys.events (s : Sys J) : List (Event J) := s.table.map Row.toEvent ++ s.plain

/-- What a client learns from a step. -/
inductive Answer (J : Type) where
  | silent
  | raised (e : FleetError)
  | appended (record : Record J)
  | cleaned (deleted : Nat)
  | page (rows : List (Row J))

/-- Put the transaction at its next statement. -/
def Sys.setTx (s : Sys J) (id : Nat) (tx : Tx J) : Sys J :=
  { s with txs := Function.update s.txs id (some tx) }

/-- The transaction is over: its locks are free again. -/
def Sys.endTx (s : Sys J) (id : Nat) : Sys J :=
  { s with txs := Function.update s.txs id none, locks := s.locks.releaseAll id }

/-- A raise inside the `with` block rolls the transaction back. -/
def Sys.fail (s : Sys J) (id : Nat) (e : FleetError) : Sys J × Answer J :=
  (s.endTx id, .raised e)

/-- `pg_advisory_xact_lock`: go on with the lock, or wait while another transaction
    has it. -/
def Sys.lockThen (s : Sys J) (id : Nat) (key : Int) (tx : Tx J) : Sys J × Answer J :=
  if s.locks.available id key then
    ({ s with locks := s.locks.take id key }.setTx id tx, .silent)
  else (s, .silent)

/-- The admission check a new event needs: the lock it takes first, or the allocation
    at once. -/
def admission (args : AppendArgs J) : Except FleetError (Phase J) :=
  if args.eventType = "root.started" ∧ args.attributes.role = some "neri-support-root" then
    match args.attributes.leadRoot with
    | none => .error (.raised (.keyError "lead_root"))
    | some lead => .ok (.lockLead lead)
  else if args.eventType = "root.started" ∧ args.attributes.role = some "neri-target-root" then
    match args.attributes.scope with
    | none => .error (.raised (.keyError "scope"))
    | some ⟨none⟩ => .error (.raised (.keyError "target"))
    | some ⟨some target⟩ => .ok (.lockTarget target)
  else .ok .selectMax

/-- The row `append_fleet_event` inserts. -/
def newRow (env : Env J) (args : AppendArgs J) (now sequence : Int) : Row J where
  projectId := args.projectId
  traceId := args.traceId
  eventType := args.eventType
  attributes := args.attributes
  timestamp := now
  sequence := sequence
  sourceKey := args.sourceKey
  digest := env.contentDigest args.eventType args.attributes

/-- The returned record. -/
def AppendArgs.record (args : AppendArgs J) (row : Row J) (created : Bool) : Record J where
  row := row
  created := if args.returnCreated then some created else none

/-- What a statement other than a lock or a commit finds: the next statement, or the
    error the function raises on it. -/
def statement (env : Env J) (s : Sys J) (args : AppendArgs J) (now : Int) :
    Phase J → Except FleetError (Phase J)
  | .selectExisting =>
    match selectExisting s.table args.traceId args.sourceKey with
    | some existing =>
      if existing.projectId ≠ args.projectId ∨
          existing.digest ≠ env.contentDigest args.eventType args.attributes then
        .error (.sourceKeyConflict
          "Source key already retained with different content or scope")
      else .ok (.commitExisting existing)
    | none => if args.requireOpen then .ok .checkOpen else admission args
  | .checkOpen =>
    if streamClosed s.table args.traceId then
      .error (.raised (.valueError "Fleet root is closed"))
    else admission args
  | .checkLeadClosed lead =>
    if rootClosed s.events lead then
      .error (.raised (.valueError "Support lead is closed"))
    else match args.attributes.facet with
    | none => .error (.raised (.keyError "facet"))
    | some facet => .ok (.checkFacet lead facet)
  | .checkFacet lead facet =>
    if supportOpen s.events lead facet then
      .error (.raised (.valueError "Lead already has an open support root for this facet"))
    else .ok .selectMax
  | .checkTarget target =>
    if targetOpen s.events args.projectId target then
      .error (.raised (.valueError "Target already has an open lead root"))
    else .ok .selectMax
  | .selectMax => .ok (.insert (nextSequence s.table args.traceId))
  | .insert sequence =>
    match violatedIndex s.table (newRow env args now sequence) with
    | some index => .error (.uniqueViolation index)
    | none => .ok (.commitNew (newRow env args now sequence))
  | phase => .ok phase

/-- The next statement of an append. -/
def advanceAppend (env : Env J) (s : Sys J) (id : Nat) (args : AppendArgs J) (now : Int) :
    Phase J → Sys J × Answer J
  | .lockTrace => s.lockThen id (env.lockKey args.traceId) (.append args now .selectExisting)
  | .lockLead lead => s.lockThen id (env.lockKey lead) (.append args now (.checkLeadClosed lead))
  | .lockTarget target =>
    s.lockThen id (env.lockKey ("allocation:" ++ args.projectId ++ ":" ++ target))
      (.append args now (.checkTarget target))
  | .commitExisting row => (s.endTx id, .appended (args.record row false))
  | .commitNew row =>
    ({ s with table := s.table ++ [row], log := s.log ++ [row] }.endTx id,
      .appended (args.record row true))
  | phase =>
    match statement env s args now phase with
    | .error e => s.fail id e
    | .ok next => (s.setTx id (.append args now next), .silent)

section

variable [DecidableEq J]

/-- The next statement of a cleanup.  Its deletions are the table's at the commit, after
    the last root. -/
def advanceCleanup (env : Env J) (s : Sys J) (id : Nat) (maxAgeDays : Nat) (now : Int)
    (deleted : List (Row J)) : CleanupPhase → Sys J × Answer J
  | .selectRoots =>
    (s.setTx id (.cleanup maxAgeDays now (.lockRoot (selectRoots s.table)) deleted), .silent)
  | .lockRoot (root :: roots) =>
    s.lockThen id (env.lockKey root)
      (.cleanup maxAgeDays now (.deleteFrom root roots) deleted)
  | .deleteFrom root roots =>
    (s.setTx id (.cleanup maxAgeDays now (.lockRoot roots)
      (deleted ++ expired s.table root now maxAgeDays)), .silent)
  | .lockRoot [] =>
    ({ s with table := s.table.filter fun row => row ∉ deleted }.endTx id,
      .cleaned deleted.length)

/-- The next statement of a transaction. -/
def advance (env : Env J) (s : Sys J) (id : Nat) : Tx J → Sys J × Answer J
  | .append args now phase => advanceAppend env s id args now phase
  | .cleanup maxAgeDays now phase deleted =>
    advanceCleanup env s id maxAgeDays now deleted phase

end

/-- A reader asks for its next page. -/
def Reader.read (table : List (Row J)) (reader : Reader J) (limit : Int) :
    Except FleetError (Reader J × List (Row J)) := do
  let page ← readFleetPage table reader.projectId reader.traceId reader.cursor limit
  .ok ({ reader with
    cursor := (page.getLast?.map Row.sequence).getD reader.cursor
    received := reader.received ++ page }, page)

/-! ## Steps of the system -/

/-- The start of a call, the next statement of a call, the end of a client, a reader's
    request, or a change of the plain events. -/
inductive Action (J : Type) where
  | beginAppend (id : Nat) (args : AppendArgs J) (now : Int)
  | beginCleanup (id : Nat) (maxAgeDays : Int) (now : Int)
  | advance (id : Nat)
  | abort (id : Nat)
  | openReader (id : Nat) (projectId traceId : String) (cursor : Int)
  | read (id : Nat) (limit : Int)
  | setPlain (events : List (Event J))

section

variable [DecidableEq J]

/-- One step: the new state and what the client that took it learns. -/
def step (env : Env J) (s : Sys J) : Action J → Sys J × Answer J
  | .beginAppend id args now =>
    match checkArgs env args, s.txs id with
    | .error e, _ => (s, .raised e)
    | .ok (), none => (s.setTx id (.append args now .lockTrace), .silent)
    | .ok (), some _ => (s, .silent)
  | .beginCleanup id maxAgeDays now =>
    if maxAgeDays < 0 then
      (s, .raised (.raised (.valueError "Retention age must be nonnegative")))
    else match s.txs id with
    | none => (s.setTx id (.cleanup maxAgeDays.toNat now .selectRoots []), .silent)
    | some _ => (s, .silent)
  | .advance id =>
    match s.txs id with
    | none => (s, .silent)
    | some tx => advance env s id tx
  -- a crash, a lost connection or a deadlock victim
  | .abort id => (s.endTx id, .silent)
  | .openReader id projectId traceId cursor =>
    let reader : Reader J := ⟨projectId, traceId, cursor, cursor, []⟩
    ({ s with readers := Function.update s.readers id (some reader) }, .silent)
  | .read id limit =>
    match s.readers id with
    | none => (s, .silent)
    | some reader =>
      match reader.read s.table limit with
      | .error e => (s, .raised e)
      | .ok (reader, page) =>
        ({ s with readers := Function.update s.readers id (some reader) }, .page page)
  | .setPlain events => ({ s with plain := events }, .silent)

/-- The state after one step. -/
def next (env : Env J) (s : Sys J) (a : Action J) : Sys J := (step env s a).1

end

end SummitFlow.Fleet
