import Mathlib
import SummitFlow.ForStd.History
import SummitFlow.ForStd.OldestFirst
import SummitFlow.HostMonitor.Retention

/-!
# Writing under a quota

Model of `write_with_limits`, `evict_detail_to`, `prune_to`, `event_with_limits` and
`flush_rollups` in `host-monitor/src/store.rs`, each as the sequence of what it asks SQLite,
the file system and the clock.  Any SQLite step may fail; a call then returns with what it
committed before.  A crash within a call leaves the database that a call leaves whose next
step fails.

The rows carry their rowids, and the lengths that the quotas add up.
-/

namespace SummitFlow.HostArchive

open HostStore (wrap64 minuteNs rawAgeNs rollupAgeNs recentBaselineNs retentionBatchRows olderThan
  Rollup Floats bucketOf)

/-! ## Limits -/

/-- `MAX_BYTES` and `MIN_FREE_BYTES`. -/
def maxBytes : Nat := 512 * 1024 * 1024

def minFreeBytes : Nat := 1024 * 1024 * 1024

/-- `BASELINE_HEADROOM_BYTES`. -/
def baselineHeadroomBytes : Nat := 64 * 1024 * 1024

/-- `MAX_SAMPLE_BYTES`. -/
def maxSampleBytes : Nat := 1024 * 1024

/-- `MAX_RETENTION_BATCHES`. -/
def maxRetentionBatches : Nat := 128

/-- `DETAIL_RESERVE_BYTES` and `BASELINE_RESERVE_BYTES`. -/
def detailReserveBytes : Int := 192 * 1024 * 1024

def baselineReserveBytes : Nat := 256 * 1024 * 1024

/-- `u64::saturating_add`. -/
def satAdd (a b : Nat) : Nat := min (a + b) (2 ^ 64 - 1)

/-- `i64::saturating_add`. -/
def satAddSigned (a b : Int) : Int := max (-2 ^ 63) (min (a + b) (2 ^ 63 - 1))

/-- `storage_headroom`. -/
@[irreducible] def storageHeadroom (bytes free maxBytes minFree : Nat) : Bool :=
  satAdd bytes baselineHeadroomBytes < maxBytes && satAdd minFree baselineHeadroomBytes ≤ free

/-! ## The database -/

/-- A sample to write: `textBytes` is the size of its host, services and errors texts, and
    `textChars` what SQLite's `length` makes of them. -/
structure Capture (N : Type) extends HostStore.Sample N where
  textBytes : Nat
  textChars : Nat

/-- A row of `samples`. -/
structure Row (N : Type) extends Capture N where
  id : Nat

/-- The `details_json` of an event. -/
inductive Details where
  | quota (detailSamplesEvicted : Nat)
  | retention (ageSamplesEvicted detailSamplesEvicted baselineSamplesEvicted : Nat)
  | other

/-- A row of `events`. -/
structure Event where
  id : Nat
  atNs : Int
  kind : String
  details : Details

/-- The database; a rowid is used once. -/
structure Archive (N F : Type) where
  samples : List (Row N)
  rollups : List (Int × Rollup N F)
  events : List Event
  sampleIds : (samples.map (·.id)).Nodup
  eventIds : (events.map (·.id)).Nodup

variable {N F : Type}

/-- The rowid of the next row. -/
def nextId (ids : List Nat) : Nat := ids.foldr max 0 + 1

theorem nextId_not_mem (ids : List Nat) : nextId ids ∉ ids := by
  have hle : ∀ id ∈ ids, id ≤ ids.foldr max 0 := by
    induction ids with
    | nil => exact fun id hid => by cases hid
    | cons x ids ih =>
      intro id hid
      rw [List.foldr_cons]
      rcases List.mem_cons.mp hid with rfl | hrest
      · exact le_max_left _ _
      · exact (ih id hrest).trans (le_max_right _ _)
  intro hmem
  have hlt := hle _ hmem
  unfold nextId at hlt
  omega

/-- `ORDER BY sampled_at_ns,id`. -/
def Row.key (row : Row N) : Int ×ₗ Nat := toLex (row.atNs, row.id)

def Event.key (event : Event) : Int ×ₗ Nat := toLex (event.atNs, event.id)

namespace Archive

/-- Delete a batch of the oldest samples of a kind. -/
def dropSamples (p : Row N → Bool) (db : Archive N F) : Archive N F :=
  { db with
    samples := dropOldest Row.key (·.id) p retentionBatchRows db.samples
    sampleIds := db.sampleIds.sublist (dropOldest_sublist.map _) }

/-- The batch of the age limits: samples, rollups and events, in one transaction. -/
def dropAged (now : Int) (db : Archive N F) : Archive N F :=
  { db.dropSamples (fun row => olderThan rawAgeNs now row.atNs) with
    rollups := dropOldest Prod.fst Prod.fst (fun row => olderThan rollupAgeNs now row.1)
      retentionBatchRows db.rollups
    events := dropOldest Event.key (·.id) (fun event => olderThan rollupAgeNs now event.atNs)
      retentionBatchRows db.events
    eventIds := db.eventIds.sublist (dropOldest_sublist.map _) }

/-- A batch of detail samples. -/
def dropDetail (db : Archive N F) : Archive N F := db.dropSamples fun row => row.mode == "detail"

/-- A batch of baseline samples that are not recent. -/
def dropBaseline (now : Int) (db : Archive N F) : Archive N F :=
  db.dropSamples fun row => row.mode == "baseline" && olderThan recentBaselineNs now row.atNs

/-- `INSERT INTO samples`. -/
def insertSample (s : Capture N) (db : Archive N F) : Archive N F :=
  { db with
    samples := db.samples ++ [⟨s, nextId (db.samples.map (·.id))⟩]
    sampleIds := by
      rw [List.map_append, List.nodup_append]
      refine ⟨db.sampleIds, List.nodup_singleton _, ?_⟩
      rintro a ha b hb rfl
      rw [List.map_singleton, List.mem_singleton] at hb
      exact nextId_not_mem _ (hb ▸ ha) }

/-- `INSERT INTO events`. -/
def insertEvent (atNs : Int) (kind : String) (details : Details) (db : Archive N F) : Archive N F :=
  { db with
    events := db.events ++ [⟨nextId (db.events.map (·.id)), atNs, kind, details⟩]
    eventIds := by
      rw [List.map_append, List.nodup_append]
      refine ⟨db.eventIds, List.nodup_singleton _, ?_⟩
      rintro a ha b hb rfl
      rw [List.map_singleton, List.mem_singleton] at hb
      exact nextId_not_mem _ (hb ▸ ha) }

/-- `SUM(length(process_blob))` over the detail samples. -/
def detailBytes (db : Archive N F) : Nat :=
  ((db.samples.filter fun row => row.mode == "detail").map fun row => row.blobBytes).sum

/-- `SUM(length(host_json)+length(services_json)+length(process_blob)+length(errors_json))` over
    the baseline samples. -/
def baselineBytes (db : Archive N F) : Nat :=
  ((db.samples.filter fun row => row.mode == "baseline").map fun row =>
    row.textChars + row.blobBytes).sum

/-- The samples and rollups, as the rollups are made from them. -/
def core (db : Archive N F) : HostStore.Db N F :=
  ⟨db.samples.map fun row => row.toSample, db.rollups⟩

end Archive

/-- An open store. -/
structure Store (N F : Type) where
  archive : Archive N F
  detailBytes : Int
  checkpointBlocked : Bool
  pendingBucket : Option Int
  pendingCount : Nat

/-! ## Steps -/

/-- What the world answers to a step: whether SQLite fails, the sizes of the files and of the
    free space, whether the work budget is used up, whether a checkpoint is busy, the free
    pages, and whether there is one more page to reclaim. -/
structure Answer where
  fails : Bool
  bytes : Nat
  free : Nat
  wal : Nat
  late : Bool
  busy : Bool
  freePages : Nat
  more : Bool

/-- What a step says it did. -/
inductive Note (N F : Type) where
  | headroom (ok : Bool)
  | baseline (bytes : Nat)
  | deleted (before after : Archive N F)
  | quiet

/-- Why a call fails: SQLite does, with a message of the code's own, or because there was no
    room for a baseline sample. -/
inductive Failure where
  | sqlite
  | message (text : String)
  | baselineSkipped (cause : Failure)
  | outOfFuel
deriving DecidableEq

abbrev Call (N F α : Type) := Script (Store N F) Answer (Note N F) Failure α

/-- Something the store or the world is asked. -/
def ask {α : Type} (f : Store N F → Answer → α) : Call N F α :=
  Script.action fun s w => (s, .quiet, .ok (f s w))

/-- A SQLite step: where it fails nothing happens. -/
def sqlite {α : Type} (f : Store N F → Answer → Store N F × Note N F × Except Failure α) :
    Call N F α :=
  Script.action fun s w => if w.fails then (s, .quiet, .error .sqlite) else f s w

/-- A SQLite step that changes nothing the code sees. -/
def attempt {α : Type} (f : Answer → α) : Call N F α := sqlite fun s w => (s, .quiet, .ok (f w))

/-- How many samples and how many rows a deletion took. -/
def taken (before after : Archive N F) : Nat × Nat :=
  let samples := before.samples.length - after.samples.length
  (samples, samples + (before.rollups.length - after.rollups.length) +
    (before.events.length - after.events.length))

/-- A SQLite step that deletes rows. -/
def delete (f : Archive N F → Archive N F) : Call N F (Nat × Nat) :=
  sqlite fun s _ => ({ s with archive := f s.archive }, .deleted s.archive (f s.archive),
    .ok (taken s.archive (f s.archive)))

/-- `has_headroom`. -/
def hasHeadroom (maxBytes minFree : Nat) : Call N F Bool :=
  Script.action fun s w =>
    let ok := storageHeadroom w.bytes w.free maxBytes minFree
    (s, .headroom ok, .ok ok)

/-- The query for the size of the baseline samples. -/
def countBaseline : Call N F Nat :=
  sqlite fun s _ => (s, .baseline s.archive.baselineBytes, .ok s.archive.baselineBytes)

/-- The query for the size of the detail samples. -/
def recount : Call N F Unit :=
  sqlite fun s _ => ({ s with detailBytes := s.archive.detailBytes }, .quiet, .ok ())

def checkpointBlocked : Call N F Bool := ask fun s _ => s.checkpointBlocked

/-- `started.elapsed() >= PRUNE_WORK_BUDGET`. -/
def elapsed : Call N F Bool := ask fun _ w => w.late

/-- `wal_bytes() > 32 * 1024 * 1024`. -/
def walFull : Call N F Bool := ask fun _ w => 32 * 1024 * 1024 < w.wal

/-- `truncate_checkpoint`. -/
def truncateCheckpoint : Call N F Bool :=
  sqlite fun s w => ({ s with checkpointBlocked := w.busy }, .quiet, .ok (!w.busy))

/-- The rows of `incremental_vacuum`. -/
def reclaimRows : Nat → Call N F Unit
  | 0 => pure ()
  | pages + 1 => do
    if ← elapsed then pure ()
    else if ← attempt (·.more) then reclaimRows pages
    else pure ()

/-- `reclaim_pages`. -/
def reclaimPages (pages : Nat) : Call N F Unit := do
  attempt fun _ => ()
  reclaimRows pages

/-! ## Events -/

/-- `event_with_limits`. -/
def eventWithLimits (atNs : Int) (kind : String) (details : Details) (maxBytes minFree : Nat) :
    Call N F Unit := do
  if ← ask fun _ w => maxBytes ≤ w.bytes || w.free < minFree then
    throw (.message "event skipped: storage headroom")
  else
    sqlite fun s _ =>
      ({ s with archive := s.archive.insertEvent atNs kind details }, .quiet, .ok ())

/-- `event`. -/
def event (atNs : Int) (kind : String) (details : Details) : Call N F Unit :=
  eventWithLimits atNs kind details (maxBytes - 64 * 1024 * 1024) minFreeBytes

/-! ## `prune_to` -/

section

variable (now : Int) (maxBytes minFree : Nat)

/-- Whether the call goes on to reclaim and delete. -/
def mayReclaim (pressured : Bool) : Call N F Bool := do
  if (← checkpointBlocked) || pressured then
    if ← truncateCheckpoint then pure true
    else if ← hasHeadroom maxBytes minFree then pure false
    else throw (.message "retention could not restore storage headroom: WAL checkpoint busy")
  else pure true

/-- The loop over the pages that are free already. -/
def reclaimFree : Nat → Call N F Unit
  | 0 => pure ()
  | batches + 1 => do
    if ← elapsed then pure ()
    else do
      let pages ← attempt (·.freePages)
      if pages = 0 then pure ()
      else do
        reclaimPages 500
        if ← truncateCheckpoint then
          if ← hasHeadroom maxBytes minFree then pure () else reclaimFree batches
        else pure ()

/-- Under pressure, first of all. -/
def reclaimFirst (pressured : Bool) : Call N F Unit :=
  if pressured then reclaimFree maxBytes minFree maxRetentionBatches else pure ()

/-- The transaction of an age batch. -/
def agedBatch : Call N F (Nat × Nat) := do
  -- begin, and the three statements; nothing is stored before the commit
  attempt fun _ => ()
  attempt fun _ => ()
  attempt fun _ => ()
  attempt fun _ => ()
  delete (Archive.dropAged now)

/-- Whether the files are to be made smaller after an age batch. -/
def crowded : Call N F Bool := do
  if ← hasHeadroom maxBytes minFree then walFull else pure true

/-- The loop over the age batches; `aged` counts the samples. -/
def agedLoop : Nat → Nat → Call N F Nat
  | 0, aged => pure aged
  | batches + 1, aged => do
    if ← elapsed then pure aged
    else do
      let (samples, rows) ← agedBatch now
      if rows = 0 then pure aged
      else if ← crowded maxBytes minFree then do
        reclaimPages 100
        if ← truncateCheckpoint then agedLoop batches (aged + samples)
        else pure (aged + samples)
      else agedLoop batches (aged + samples)

/-- A batch of detail samples, or of baseline samples when there is no detail left, with
    what was evicted so far; nothing when there is nothing to evict. -/
def evictBatch (evicted : Nat × Nat) : Call N F (Option (Nat × Nat)) := do
  let (detail, _) ← delete Archive.dropDetail
  if 0 < detail then do
    recount
    pure (some (evicted.1 + detail, evicted.2))
  else do
    let (baseline, _) ← delete (Archive.dropBaseline now)
    if baseline = 0 then pure none else pure (some (evicted.1, evicted.2 + baseline))

/-- Whether the storage or the baseline reserve is exceeded. -/
def overLimits : Call N F Bool := do
  let baseline ← countBaseline
  if ← hasHeadroom maxBytes minFree then pure (decide (baselineReserveBytes < baseline))
  else pure true

/-- The loop over the batches under pressure. -/
def evictLoop : Nat → Nat × Nat → Call N F (Nat × Nat)
  | 0, evicted => pure evicted
  | batches + 1, evicted => do
    if ← checkpointBlocked then pure evicted
    else if ← elapsed then pure evicted
    else if ← overLimits maxBytes minFree then do
      match ← evictBatch now evicted with
      | none => pure evicted
      | some evicted => do
        reclaimPages 500
        if ← truncateCheckpoint then evictLoop batches evicted else pure evicted
    else pure evicted

/-- The event about what was evicted; whether it could be written does not matter. -/
def noteGap (aged : Nat) (evicted : Nat × Nat) : Call N F Unit :=
  Script.tryCatch (event now "retention_gap" (.retention aged evicted.1 evicted.2)) fun _ => pure ()

/-- The pages after an eviction. -/
def reclaimEvicted : Call N F Unit := do
  if ← checkpointBlocked then pure () else reclaimPages 100

/-- The event and the pages, when something was evicted. -/
def noteEvicted (aged : Nat) (evicted : Nat × Nat) : Call N F Unit :=
  if 0 < aged ∨ 0 < evicted.1 ∨ 0 < evicted.2 then do
    noteGap now aged evicted
    reclaimEvicted
  else pure ()

/-- Whether the last checkpoint is wanted. -/
def wantsCheckpoint : Call N F Bool := do
  if ← walFull then pure true
  else do
    let ok ← hasHeadroom maxBytes minFree
    pure !ok

/-- The last checkpoint. -/
def lastCheckpoint : Call N F Unit := do
  let wanted ← wantsCheckpoint maxBytes minFree
  let blocked ← checkpointBlocked
  if wanted && !blocked then do
    let _ ← truncateCheckpoint
    pure ()
  else pure ()

/-- The result. -/
def pruneResult : Call N F Unit := do
  if ← hasHeadroom maxBytes minFree then pure ()
  else if ← checkpointBlocked then
    throw (.message "retention could not restore storage headroom: WAL checkpoint busy")
  else if ← elapsed then
    throw (.message "retention could not restore storage headroom: bounded work pending")
  else throw (.message "retention could not restore storage headroom")

/-- `prune_to` after the first checkpoint. -/
def pruneHistory (pressured : Bool) : Call N F Unit := do
  reclaimFirst maxBytes minFree pressured
  let aged ← agedLoop now maxBytes minFree maxRetentionBatches 0
  recount
  let evicted ← evictLoop now maxBytes minFree maxRetentionBatches (0, 0)
  noteEvicted now aged evicted
  lastCheckpoint maxBytes minFree
  pruneResult maxBytes minFree

/-- `prune_to`. -/
def pruneTo : Call N F Unit := do
  let pressured := !(← hasHeadroom maxBytes minFree)
  if ← mayReclaim maxBytes minFree pressured then pruneHistory now maxBytes minFree pressured
  else pure ()

end

/-! ## `evict_detail_to` -/

/-- Whether WAL pages may be added: a checkpoint that was busy is tried again. -/
def checkpointReady : Call N F Bool := do
  if ← checkpointBlocked then truncateCheckpoint else pure true

/-- What a turn of the loop checks before it deletes. -/
def readyToEvict : Call N F Unit := do
  if ← hasHeadroom maxBytes minFreeBytes then
    if ← checkpointReady then pure ()
    else throw (.message "detail skipped: WAL checkpoint busy")
  else throw (.message "detail skipped: storage headroom")

/-- The loop of `evict_detail_to`, with as many turns as there are rows: how many samples were
    evicted, and whether a checkpoint stopped it. -/
def evictDetailLoop (incoming quota : Int) : Nat → Nat → Call N F (Nat × Bool)
  | 0, _ => throw .outOfFuel
  | turns + 1, evicted => do
    if ← ask fun s _ => decide (satAddSigned s.detailBytes incoming ≤ quota) then
      pure (evicted, false)
    else do
      readyToEvict
      let (n, _) ← delete Archive.dropDetail
      if n = 0 then pure (evicted, false)
      else do
        recount
        if ← truncateCheckpoint then evictDetailLoop incoming quota turns (evicted + n)
        else pure (evicted + n, true)

/-- The event about evicted samples. -/
def noteQuota (atNs : Int) (evicted : Nat) : Call N F Unit :=
  if 0 < evicted then event atNs "retention_gap" (.quota evicted) else pure ()

/-- `evict_detail_to`. -/
def evictDetailTo (incoming atNs quota : Int) : Call N F Unit := do
  let rows ← ask fun s _ => s.archive.samples.length
  let (evicted, blocked) ← evictDetailLoop incoming quota (rows + 1) 0
  noteQuota atNs evicted
  if blocked then throw (.message "detail skipped: WAL checkpoint busy") else pure ()

/-! ## `write_with_limits` -/

section

variable (s : Capture N) (maxBytes minFree : Nat)

/-- `self.prune_to(...)` of a baseline write without headroom. -/
def pruneForBaseline : Call N F Unit := do
  if ← hasHeadroom maxBytes minFree then pure ()
  else
    Script.tryCatch (pruneTo s.atNs maxBytes minFree) fun e => throw (.baselineSkipped e)

/-- Whether there is room for the sample. -/
def admission : Call N F Unit := do
  if s.mode = "detail" then do
    if ← hasHeadroom maxBytes minFree then do
      evictDetailTo s.blobBytes s.atNs detailReserveBytes
      if ← ask fun st _ => decide (detailReserveBytes < satAddSigned st.detailBytes s.blobBytes) then
        throw (.message "detail skipped: storage headroom")
      else if ← hasHeadroom maxBytes minFree then pure ()
      else throw (.message "detail skipped: storage headroom")
    else throw (.message "detail skipped: storage headroom")
  else do
    pruneForBaseline s maxBytes minFree
    if ← hasHeadroom maxBytes minFree then pure ()
    else throw (.message "baseline skipped: storage headroom")

/-- The store for the rollup work of a write. -/
def Store.core (store : Store N F) : HostStore.Store N F :=
  ⟨store.archive.core, store.detailBytes, store.pendingBucket, store.pendingCount⟩

variable [LinearOrder F] (fl : Floats N F)

/-- The store after the sample is inserted and the rollups are rebuilt. -/
def withSample (store : Store N F) : Except String (Store N F) := do
  let db := store.archive.insertSample s
  if s.mode = "baseline" then do
    let bucket := bucketOf s.atNs
    let (core, count) ← HostStore.writeRollups fl (fun _ => false) store.core bucket db.core
    return { store with
      archive := { db with rollups := core.rollups }
      pendingBucket := some bucket
      pendingCount := count }
  else
    return { store with
      archive := db
      detailBytes := if s.mode = "detail" then store.detailBytes + s.blobBytes
        else store.detailBytes }

/-- The transaction of a write. -/
def storeSample : Call N F Unit := do
  -- begin, insert, and the statements of the rebuild; nothing is stored before the commit
  attempt fun _ => ()
  attempt fun _ => ()
  attempt fun _ => ()
  sqlite fun store _ =>
    match withSample s fl store with
    | .ok store => (store, .quiet, .ok ())
    | .error _ => (store, .quiet, .error .sqlite)

/-- `write_with_limits`. -/
def writeWithLimits : Call N F Unit := do
  if maxSampleBytes < s.textBytes + s.blobBytes then
    throw (.message (if s.mode = "detail" then "detail sample too large" else "baseline sample too large"))
  else do
    admission s maxBytes minFree
    storeSample s fl

end

/-! ## Rollups and opening -/

section

variable [LinearOrder F] (fl : Floats N F)

/-- `flush_bucket`, and the count that `flush_rollups` resets. -/
def flushBucket (bucket : Int) : Call N F Unit := do
  attempt fun _ => ()
  attempt fun _ => ()
  sqlite fun store _ =>
    match HostStore.rebuildRollup fl bucket store.archive.core with
    | .ok core =>
      ({ store with archive := { store.archive with rollups := core.rollups }, pendingCount := 0 },
        .quiet, .ok ())
    | .error _ => (store, .quiet, .error .sqlite)

/-- `flush_rollups`. -/
def flushRollups : Call N F Unit := do
  let pending ← ask fun s _ => if 0 < s.pendingCount then s.pendingBucket else none
  match pending with
  | some bucket => flushBucket fl bucket
  | none => pure ()

/-- `Store::open`, on a database that is there. -/
def openStore (fails : HostStore.Point → Bool) (db : Archive N F) : Except String (Store N F) := do
  HostStore.check fails .admission
  let core ← HostStore.flushLatest fl fails db.core
  return ⟨{ db with rollups := core.rollups }, db.detailBytes, false, none, 0⟩

/-! ## Runs -/

/-- A call on an open store. -/
inductive Request (N : Type) where
  | write (s : Capture N) (maxBytes minFree : Nat)
  | evictDetailTo (incoming atNs quota : Int)
  | pruneTo (now : Int) (maxBytes minFree : Nat)
  | flushRollups
  | event (atNs : Int) (kind : String) (details : Details)

def Request.program : Request N → Call N F Unit
  | .write s maxBytes minFree => writeWithLimits s maxBytes minFree fl
  | .evictDetailTo incoming atNs quota => HostArchive.evictDetailTo incoming atNs quota
  | .pruneTo now maxBytes minFree => HostArchive.pruneTo now maxBytes minFree
  | .flushRollups => HostArchive.flushRollups fl
  | .event atNs kind details => HostArchive.event atNs kind details

/-- The collector is down, with what it committed, or has the store open. -/
inductive State (N F : Type) where
  | down (db : Archive N F)
  | up (store : Store N F)

/-- The store is opened, a request is served, or the collector dies. -/
inductive Op (N : Type) where
  | open (fails : HostStore.Point → Bool)
  | serve (request : Request N) (world : Nat → Answer)
  | crash

def serveStep (state : State N F) (op : Op N) : State N F :=
  match state, op with
  | .down db, .open fails =>
    match openStore fl fails db with
    | .ok store => .up store
    | .error _ => .down db
  | .up store, .serve request world => .up ((request.program fl).exec store world).1
  | .up store, .crash => .down store.archive
  | state, _ => state

end

end SummitFlow.HostArchive
