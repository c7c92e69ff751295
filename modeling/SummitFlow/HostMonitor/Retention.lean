import SummitFlow.HostMonitor.Store

/-!
# Retention

The deletions of `prune_to` and `evict_detail_to` in `host-monitor/src/store.rs`.  Each
takes a batch of the oldest rows of some kind; how many batches a call makes depends on
the size of the files and on the time it has taken.
-/

namespace SummitFlow.HostStore

/-- `RAW_AGE_NS`, `ROLLUP_AGE_NS` and `RECENT_BASELINE_NS`. -/
def rawAgeNs : Int := 48 * 60 * minuteNs

def rollupAgeNs : Int := 14 * 24 * 60 * minuteNs

def recentBaselineNs : Int := 60 * minuteNs

/-- `RETENTION_BATCH_ROWS`. -/
def retentionBatchRows : Nat := 16

section

variable {α : Type}

/-- The places of the rows that go: the first ones by time, then by id.  The rows are in
    the order of their ids. -/
def oldestPlaces (atNs : α → Int) (p : α → Bool) (rows : List α) : List Nat :=
  (((rows.zipIdx.filter fun row => p row.1).insertionSort fun row row' =>
    atNs row.1 ≤ atNs row'.1).take retentionBatchRows).map Prod.snd

/-- `DELETE FROM samples WHERE id IN (SELECT id FROM samples WHERE ... ORDER BY
    sampled_at_ns,id LIMIT ...)`. -/
def deleteOldest (atNs : α → Int) (p : α → Bool) (rows : List α) : List α :=
  (rows.zipIdx.filter fun row => row.2 ∉ oldestPlaces atNs p rows).map Prod.fst

theorem deleteOldest_sublist (atNs : α → Int) (p : α → Bool) (rows : List α) :
    (deleteOldest atNs p rows).Sublist rows := by
  have hmap : rows = rows.zipIdx.map Prod.fst := by
    rw [List.zipIdx_map_fst]
  conv_rhs => rw [hmap]
  exact List.filter_sublist.map Prod.fst

/-- A row that is not of the kind stays. -/
theorem filter_deleteOldest (atNs : α → Int) (p : α → Bool) (rows : List α) :
    (deleteOldest atNs p rows).filter (fun row => !p row) = rows.filter fun row => !p row := by
  have hplaces : ∀ row ∈ rows.zipIdx, row.2 ∈ oldestPlaces atNs p rows → p row.1 = true := by
    intro row hrow hold
    obtain ⟨row', hrow', hsame⟩ := List.mem_map.mp hold
    have hmem := (List.perm_insertionSort _ _).mem_iff.mp (List.mem_of_mem_take hrow')
    obtain ⟨hmem, hp⟩ := List.mem_filter.mp hmem
    obtain ⟨value, i⟩ := row
    obtain ⟨value', i'⟩ := row'
    obtain rfl : i' = i := hsame
    have hget := List.mem_zipIdx_iff_getElem?.mp hrow
    have hget' := List.mem_zipIdx_iff_getElem?.mp hmem
    obtain rfl : value' = value := Option.some.inj (hget'.symm.trans hget)
    exact hp
  unfold deleteOldest
  rw [List.filter_map, List.filter_filter]
  conv_rhs => rw [← List.zipIdx_map_fst 0 rows, List.filter_map]
  congr 1
  apply List.filter_congr
  intro row hrow
  dsimp only [Function.comp]
  cases hp : p row.1 with
  | true => rfl
  | false =>
    have hkept : row.2 ∉ oldestPlaces atNs p rows := by
      intro hold
      rw [hplaces row hrow hold] at hp
      cases hp
    rw [decide_eq_true hkept]
    rfl

end

/-! ## The deletions -/

/-- What is older than an age at this time. -/
def olderThan (age now atNs : Int) : Bool := atNs < wrap64 (now - age)

variable {N F : Type}

/-- A batch of old samples and old rollups, in one transaction. -/
def deleteAged (now : Int) (db : Db N F) : Db N F where
  samples := deleteOldest (·.atNs) (fun s => olderThan rawAgeNs now s.atNs) db.samples
  rollups := deleteOldest Prod.fst (fun row => olderThan rollupAgeNs now row.1) db.rollups

/-- A batch of detail samples. -/
def deleteDetail (db : Db N F) : Db N F :=
  { db with samples := deleteOldest (·.atNs) (fun s => s.mode == "detail") db.samples }

/-- A batch of baseline samples, when there is no detail left and the space is short. -/
def deleteBaseline (now : Int) (db : Db N F) : Db N F :=
  { db with
    samples := deleteOldest (·.atNs)
      (fun s => s.mode == "baseline" && olderThan recentBaselineNs now s.atNs) db.samples }

/-- A call, a crash, or a batch of a deletion. -/
inductive RetainOp (N : Type) where
  | serve (op : Op N)
  | deleteAged (now : Int)
  | deleteDetail
  | deleteBaseline (now : Int)

/-- The database changes under an open store, which counts its detail bytes again. -/
def Store.retain (store : Store N F) (db : Db N F) : Store N F :=
  { store with db := db, detailBytes := HostStore.detailBytes db }

def retainStep [LinearOrder F] (fl : Floats N F) (state : State N F) (op : RetainOp N) : State N F :=
  match op, state with
  | .serve op, state => serveStep fl state op
  | .deleteAged now, .up store => .up (store.retain (deleteAged now store.db))
  | .deleteDetail, .up store => .up (store.retain (deleteDetail store.db))
  | .deleteBaseline now, .up store => .up (store.retain (deleteBaseline now store.db))
  | _, .down db => .down db

end SummitFlow.HostStore
