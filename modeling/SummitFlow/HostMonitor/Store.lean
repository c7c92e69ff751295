import Mathlib
import SummitFlow.ForStd.Dict
import SummitFlow.ForStd.Run

/-!
# The host monitor's store

Model of `host-monitor/src/store.rs`: samples go into a SQLite database, and every
minute of baseline samples has a rollup row there.  A rollup is rebuilt from its
samples with every third sample of a minute, when the samples move to another minute,
on `flush_rollups`, and when the store is opened.  Eviction is not modelled: a write
that would need it is one that fails.

Times are in nanoseconds, as `i64`; the release build wraps around on overflow.  A
statement or a commit may fail at any point, and a transaction that does not commit
leaves the database as it was.
-/

namespace SummitFlow.HostStore

/-- The value of an `i64` operation whose exact result is `x`. -/
def wrap64 (x : Int) : Int := (x + 2 ^ 63) % 2 ^ 64 - 2 ^ 63

/-- `MINUTE_NS`. -/
def minuteNs : Int := 60000000000

/-- `at.div_euclid(MINUTE_NS) * MINUTE_NS`. -/
def bucketOf (atNs : Int) : Int := wrap64 (atNs / minuteNs * minuteNs)

/-- The floating point operations of a rollup: `as_f64` of a JSON number, which is
    finite, and the step of a running mean. -/
structure Floats (N F : Type) where
  toF64 : N → F
  zero : F
  runningMean : F → Nat → F → F

/-- The value of a host field: a number or anything else. -/
inductive Reading (N : Type) where
  | number (n : N)
  | other
deriving DecidableEq

/-- A host object, one entry per key. -/
structure Fields (N : Type) where
  entries : List (String × Reading N)
  nodup : (entries.map Prod.fst).Nodup
deriving DecidableEq

/-- What rollups and quota read of a sample; the host is `none` when it is no object. -/
structure Sample (N : Type) where
  atNs : Int
  monoNs : Int
  bootId : String
  mode : String
  host : Option (Fields N)
  blobBytes : Nat
deriving DecidableEq

/-- The `values_json` entry of a field. -/
structure Item (N F : Type) where
  min : Option F
  max : Option F
  mean : Option F
  last : Option N
  validCount : Nat
deriving DecidableEq

/-- A row of `host_rollups`; `unavailable` has the `_unavailable_count` entries of the
    coverage, by field. -/
structure Rollup (N F : Type) where
  sampleCount : Nat
  values : List (String × Item N F)
  gapCount : Nat
  unavailable : List (String × Nat)
deriving DecidableEq

/-- The database: the samples in the order of their ids, and the rollups by bucket. -/
structure Db (N F : Type) where
  samples : List (Sample N)
  rollups : List (Int × Rollup N F)
deriving DecidableEq

/-- An open store. -/
structure Store (N F : Type) where
  db : Db N F
  detailBytes : Int
  pendingBucket : Option Int
  pendingCount : Nat
deriving DecidableEq

variable {N F : Type} [LinearOrder F]

/-! ## Rollups -/

/-- The fields a rollup leaves out. -/
def ignoredKeys : List String :=
  ["leaders_sampled_at_ns", "process_scan_observed_at_ns", "process_scan_observed_monotonic_ns",
    "net_source", "disk_source", "net_members", "disk_members"]

/-- The item of a field before its first reading. -/
def Item.empty : Item N F := ⟨none, none, none, none, 0⟩

/-- The item of a field after one more reading. -/
def Item.add (fl : Floats N F) (item : Item N F) : Reading N → Item N F
  | .number n =>
    let number := fl.toF64 n
    { min := some (item.min.elim number (Min.min · number))
      max := some (item.max.elim number (Max.max · number))
      mean := some (fl.runningMean (item.mean.getD fl.zero) item.validCount number)
      last := some n
      validCount := item.validCount + 1 }
  | .other => item

/-- A rollup under construction, with the boot and the clock of the last sample. -/
structure Acc (N F : Type) where
  values : List (String × Item N F)
  unavailable : List (String × Nat)
  gapCount : Nat
  count : Nat
  previous : Option (String × Int)

/-- One field of a sample. -/
def foldField (fl : Floats N F) (acc : Acc N F) (field : String × Reading N) : Acc N F :=
  let (key, raw) := field
  if ignoredKeys.contains key then acc
  else
    { acc with
      values := Dict.set key (((acc.values.lookup key).getD .empty).add fl raw) acc.values
      unavailable := match raw with
        | .number _ => acc.unavailable
        | .other => Dict.set key ((acc.unavailable.lookup key).getD 0 + 1) acc.unavailable }

/-- Whether a sample does not follow on the previous one. -/
def isGap (s : Sample N) (previous : String × Int) : Bool :=
  previous.1 != s.bootId || s.monoNs ≤ previous.2 ||
    wrap64 (s.monoNs - previous.2) > 10000000000

/-- One sample. -/
def foldSample (fl : Floats N F) (acc : Acc N F) (s : Sample N) : Except String (Acc N F) :=
  match s.host with
  | none => .error "host is not object"
  | some fields =>
    let acc := fields.entries.foldl (foldField fl) acc
    .ok { acc with
      gapCount := if acc.previous.any (isGap s) then acc.gapCount + 1 else acc.gapCount
      previous := some (s.bootId, s.monoNs)
      count := acc.count + 1 }

/-- The row `rebuild_rollup` makes of the samples of a bucket, `none` when there are
    none. -/
def rollupOf (fl : Floats N F) (samples : List (Sample N)) :
    Except String (Option (Rollup N F)) := do
  let acc ← samples.foldlM (foldSample fl) ⟨[], [], 0, 0, none⟩
  if acc.count = 0 then return none
  else return some ⟨acc.count, acc.values, acc.gapCount, acc.unavailable⟩

/-- The baseline samples of a bucket, in the order of their times, then of their ids. -/
def selectBucket (bucket : Int) (samples : List (Sample N)) : List (Sample N) :=
  (samples.filter fun s => s.mode == "baseline" && bucket ≤ s.atNs &&
    s.atNs < wrap64 (bucket + minuteNs)).insertionSort fun s s' => s.atNs ≤ s'.atNs

/-- `rebuild_rollup`. -/
def rebuildRollup (fl : Floats N F) (bucket : Int) (db : Db N F) : Except String (Db N F) := do
  match ← rollupOf fl (selectBucket bucket db.samples) with
  | none => return { db with rollups := db.rollups.filter fun row => row.1 ≠ bucket }
  | some row => return { db with rollups := Dict.set bucket row db.rollups }

/-! ## The store -/

/-- Where a call can fail: before its transaction, at a statement of it, at the commit. -/
inductive Point where
  | admission | insert | rebuildPending | rebuildCurrent | commit
deriving DecidableEq, Repr

/-- The calls that fail at this point do so here. -/
def check (fails : Point → Bool) (point : Point) : Except String Unit :=
  if fails point then .error "failed" else .ok ()

/-- The rebuild of the pending bucket when the samples move to another one. -/
def leavePending (fl : Floats N F) (fails : Point → Bool) (store : Store N F) (bucket : Int)
    (db : Db N F) : Except String (Db N F) :=
  match store.pendingBucket with
  | some pending =>
    if pending ≠ bucket ∧ store.pendingCount > 0 then do
      check fails .rebuildPending
      rebuildRollup fl pending db
    else .ok db
  | none => .ok db

/-- How many samples of this bucket are pending with the new one. -/
def nextCount (store : Store N F) (bucket : Int) : Nat :=
  if store.pendingBucket ≠ some bucket then 1 else store.pendingCount + 1

/-- The rollup work of `write_with_limits` for a baseline sample, inside its
    transaction: the database and the next pending count. -/
def writeRollups (fl : Floats N F) (fails : Point → Bool) (store : Store N F) (bucket : Int)
    (db : Db N F) : Except String (Db N F × Nat) := do
  let db ← leavePending fl fails store bucket db
  if nextCount store bucket ≥ 3 then do
    check fails .rebuildCurrent
    return (← rebuildRollup fl bucket db, 0)
  else return (db, nextCount store bucket)

/-- `write_with_limits`. -/
def write (fl : Floats N F) (fails : Point → Bool) (s : Sample N) (store : Store N F) :
    Except String (Store N F) := do
  check fails .admission
  check fails .insert
  let db := { store.db with samples := store.db.samples ++ [s] }
  if s.mode = "baseline" then do
    let bucket := bucketOf s.atNs
    let (db, nextCount) ← writeRollups fl fails store bucket db
    check fails .commit
    return { store with db := db, pendingBucket := some bucket, pendingCount := nextCount }
  else do
    check fails .commit
    return { store with
      db := db
      detailBytes := if s.mode = "detail" then store.detailBytes + s.blobBytes
        else store.detailBytes }

/-- `flush_bucket`, as far as the database. -/
def flushBucket (fl : Floats N F) (fails : Point → Bool) (bucket : Int) (db : Db N F) :
    Except String (Db N F) := do
  check fails .rebuildCurrent
  let db ← rebuildRollup fl bucket db
  check fails .commit
  return db

/-- `flush_rollups`. -/
def flushRollups (fl : Floats N F) (fails : Point → Bool) (store : Store N F) :
    Except String (Store N F) :=
  match store.pendingBucket with
  | some pending =>
    if store.pendingCount > 0 then do
      return { store with db := ← flushBucket fl fails pending store.db, pendingCount := 0 }
    else .ok store
  | none => .ok store

/-- The bucket of the baseline sample inserted last. -/
def latestBucket (db : Db N F) : Option Int :=
  ((db.samples.filter fun s => s.mode == "baseline").getLast?).map fun s => bucketOf s.atNs

/-- The rebuild of the last bucket when a store is opened. -/
def flushLatest (fl : Floats N F) (fails : Point → Bool) (db : Db N F) : Except String (Db N F) :=
  match latestBucket db with
  | some bucket => flushBucket fl fails bucket db
  | none => .ok db

/-- The sum of the process blobs of detail samples. -/
def detailBytes (db : Db N F) : Int :=
  ((db.samples.filter fun s => s.mode == "detail").map fun s => (s.blobBytes : Int)).sum

/-- `Store::open`. -/
def openStore (fl : Floats N F) (fails : Point → Bool) (db : Db N F) :
    Except String (Store N F) := do
  check fails .admission
  return ⟨← flushLatest fl fails db, detailBytes db, none, 0⟩

/-! ## Runs -/

/-- The collector is down, with what it committed, or has the store open. -/
inductive State (N F : Type) where
  | down (db : Db N F)
  | up (store : Store N F)
deriving DecidableEq

inductive Op (N : Type) where
  | open (fails : Point → Bool)
  | write (fails : Point → Bool) (s : Sample N)
  | flushRollups (fails : Point → Bool)
  | crash

/-- The database of a state. -/
def State.db : State N F → Db N F
  | .down db => db
  | .up store => store.db

/-- One call, or a crash, which also stands for the store being closed. -/
def serveStep (fl : Floats N F) (state : State N F) (op : Op N) : State N F :=
  match state, op with
  | .down db, .open fails => ((openStore fl fails db).map State.up).toOption.getD (.down db)
  | .up store, .write fails s => .up ((write fl fails s store).toOption.getD store)
  | .up store, .flushRollups fails => .up ((flushRollups fl fails store).toOption.getD store)
  | .up store, .crash => .down store.db
  | state, _ => state

end SummitFlow.HostStore
