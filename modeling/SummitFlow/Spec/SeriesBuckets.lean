import Mathlib.Tactic.Ring
import SummitFlow.ForStd.SortedBy
import SummitFlow.MonitorReader.Series
import SummitFlow.Spec.ReaderPages

/-!
# The buckets of a page

A page of a series reads a slice of the samples and makes the buckets of some indexes of
it.  The rows of a bucket are a range of the samples in the order of their times, the
same whichever page it is on.
-/

namespace SummitFlow.Monitor

variable {N : Type}

/-! ## Buckets as ranges of time -/

/-- The samples in the order of their times. -/
def Content.byTime (content : Content N) : List (Row N) :=
  sortBy Row.sampledAtNs (content.samples.filter fun row => row.mode == "baseline")

/-- Where a bucket ends. -/
def SeriesFilters.bucketEnd (q : SeriesFilters) (index : Int) : Int :=
  min q.until (q.bucketStart (index + 1))

theorem baselineRows_eq (content : Content N) (start stop : Int) :
    baselineRows content start stop = slice Row.sampledAtNs start stop content.byTime := by
  unfold slice Content.byTime
  rw [filter_sortBy, List.filter_filter]
  unfold baselineRows sortBy
  congr 1
  apply List.filter_congr
  intro row _
  rw [Bool.and_comm (decide _ && _), Bool.and_assoc]

namespace SeriesFilters

variable {q : SeriesFilters}

theorem bucketStart_succ (q : SeriesFilters) (index : Int) :
    q.bucketStart (index + 1) = q.bucketStart index + q.stepNs := by
  unfold bucketStart
  ring

theorem bucketStart_mono (hstep : 0 < q.stepNs) {i j : Int} (h : i ≤ j) :
    q.bucketStart i ≤ q.bucketStart j := by
  have hmul := Int.mul_le_mul_of_nonneg_right h hstep.le
  unfold bucketStart
  omega

theorem bucketStart_injective (hstep : 0 < q.stepNs) {i j : Int}
    (h : q.bucketStart i = q.bucketStart j) : i = j := by
  have hi := q.bucketStart_succ i
  have hj := q.bucketStart_succ j
  rcases lt_trichotomy i j with hlt | heq | hgt
  · have hmono := bucketStart_mono hstep (show i + 1 ≤ j by omega)
    omega
  · exact heq
  · have hmono := bucketStart_mono hstep (show j + 1 ≤ i by omega)
    omega

theorem bucketOf_eq_iff (hstep : 0 < q.stepNs) {atNs index : Int} :
    q.bucketOf atNs = index ↔ q.bucketStart index ≤ atNs ∧ atNs < q.bucketStart (index + 1) := by
  unfold bucketOf bucketStart
  have hlow : index ≤ (atNs - q.since) / q.stepNs ↔ index * q.stepNs ≤ atNs - q.since :=
    Int.le_ediv_iff_mul_le hstep
  have hhigh : (atNs - q.since) / q.stepNs < index + 1 ↔ atNs - q.since < (index + 1) * q.stepNs :=
    Int.ediv_lt_iff_lt_mul hstep
  omega

theorem lt_bucketCount_iff (hstep : 0 < q.stepNs) {index : Int} :
    index < q.bucketCount ↔ q.bucketStart index < q.until := by
  unfold bucketCount ceilDiv bucketStart
  have hdiv : -(q.until - q.since) / q.stepNs < -index ↔
      -(q.until - q.since) < -index * q.stepNs := Int.ediv_lt_iff_lt_mul hstep
  have hneg : -index * q.stepNs = -(index * q.stepNs) := by ring
  omega

/-- Buckets of whole minutes start at minutes when the window does. -/
theorem bucketStart_aligned (hsince : q.since % (60 * nsec) = 0) (hstep : q.step % 60 = 0)
    (index : Int) : q.bucketStart index % (60 * nsec) = 0 := by
  obtain ⟨k, hk⟩ := Int.dvd_of_emod_eq_zero hstep
  have hmul : index * (q.step * nsec) = index * k * (60 * nsec) := by
    rw [hk]
    ring
  unfold bucketStart stepNs
  rw [hmul, Int.add_mul_emod_self_right]
  exact hsince

theorem mem_indexes {first index : Int} {limit : Nat} :
    index ∈ q.indexes first limit ↔
      first ≤ index ∧ index < q.bucketCount ∧ index < first + limit + 1 := by
  unfold indexes
  simp only [List.mem_map, List.mem_range]
  constructor
  · rintro ⟨k, hk, rfl⟩
    omega
  · rintro ⟨hfirst, hcount, hlimit⟩
    exact ⟨(index - first).toNat, by omega, by omega⟩

/-- A bucket that a page returns lies inside the slice of the page. -/
theorem bucketEnd_le_queryEnd (hstep : 0 < q.stepNs) {first index : Int} {limit : Nat}
    (h : index ∈ q.indexes first limit) : q.bucketEnd index ≤ q.queryEnd first limit := by
  obtain ⟨-, -, hlimit⟩ := mem_indexes.mp h
  have hmono := bucketStart_mono hstep (show index + 1 ≤ first + limit + 1 by omega)
  unfold bucketEnd queryEnd
  omega

end SeriesFilters

/-! ## Candidates and items -/

theorem take_of_length {α : Type} {l : List α} {n : Nat} (h : ¬ (l.take (n + 1)).length > n) :
    l.take (n + 1) = l := by
  rw [List.length_take] at h
  exact List.take_of_length_le (by omega)

/-- A cursor of a page stands at one of the buckets the page could hold. -/
theorem position_mem_indexes {size : SeriesPage N → Nat} {q : SeriesFilters} {now first : Int}
    {limit budget : Nat} {coverage : SeriesCoverage} {candidates : List (Bucket N × Int)}
    {bucket : Int → Except PyError (Bucket N)} {page : SeriesPage N}
    {cursor : Cursor SeriesFilters Int}
    (hcandidates : (q.indexes first limit).mapM (fun index => do return (← bucket index, index)) =
      .ok candidates)
    (hpack : pack size (.base q now (some coverage)) candidates q limit budget false = .ok page)
    (hcursor : page.nextCursor = some cursor) : cursor.position ∈ q.indexes first limit := by
  obtain ⟨k, -, -, -, hnext, -⟩ := pack_ok rfl hpack
  obtain ⟨-, hlast⟩ := hnext cursor hcursor
  obtain ⟨last, hget, rfl⟩ := Option.map_eq_some_iff.mp hlast
  obtain ⟨index, hindex, hentry⟩ := mem_of_mapM_ok hcandidates (List.mem_of_getElem? hget)
  obtain ⟨b, -, hentry⟩ := bind_ok hentry
  obtain rfl := Except.ok.inj hentry
  exact hindex

/-- An item of a page is the bucket of one of its indexes. -/
theorem bucket_of_mem_items {size : SeriesPage N → Nat} {q : SeriesFilters} {now first : Int}
    {limit budget : Nat} {coverage : SeriesCoverage} {candidates : List (Bucket N × Int)}
    {bucket : Int → Except PyError (Bucket N)} {page : SeriesPage N} {b : Bucket N}
    (hcandidates : (q.indexes first limit).mapM (fun index => do return (← bucket index, index)) =
      .ok candidates)
    (hpack : pack size (.base q now (some coverage)) candidates q limit budget false = .ok page)
    (hb : b ∈ page.items) : ∃ index ∈ q.indexes first limit, bucket index = .ok b := by
  obtain ⟨k, -, -, hitems, -, -⟩ := pack_ok rfl hpack
  rw [hitems] at hb
  obtain ⟨entry, hentry, rfl⟩ := List.mem_map.mp hb
  obtain ⟨index, hindex, hreturn⟩ := mem_of_mapM_ok hcandidates (List.mem_of_mem_take hentry)
  obtain ⟨b, hbucket, hreturn⟩ := bind_ok hreturn
  obtain rfl := Except.ok.inj hreturn
  exact ⟨index, hindex, hbucket⟩

/-! ## Pages of rollups -/

/-- The rollups in the order of their minutes. -/
def Content.byMinute (content : Content N) : List (Int × HostStore.Rollup N N) :=
  sortBy Prod.fst content.rollups

/-- A bucket has the same minutes on every page. -/
theorem filter_pageMinutes {content : Content N} {q : SeriesFilters} (hstep : 0 < q.stepNs)
    {first index : Int} {limit : Nat} (hfirst : 0 ≤ first) (hindex : index ∈ q.indexes first limit) :
    (slice Prod.fst (q.bucketStart first) (q.queryEnd first limit) content.byMinute).filter
        (fun row => max 0 (q.bucketOf row.1) == index) =
      slice Prod.fst (q.bucketStart index) (q.bucketEnd index) content.byMinute := by
  have hstop := SeriesFilters.bucketEnd_le_queryEnd hstep hindex
  have hstart := SeriesFilters.bucketStart_mono hstep (SeriesFilters.mem_indexes.mp hindex).1
  have hzero := SeriesFilters.bucketStart_mono hstep hfirst
  apply slice_slice
  intro row
  have hbucket : q.bucketOf row.1 = index ↔ _ := SeriesFilters.bucketOf_eq_iff hstep
  -- no row of the page is before the window
  have hnonneg : q.bucketStart 0 ≤ row.1 → 0 ≤ q.bucketOf row.1 := by
    intro hrow
    unfold SeriesFilters.bucketOf SeriesFilters.bucketStart at *
    exact Int.ediv_nonneg (by omega) hstep.le
  rw [beq_iff_eq]
  unfold SeriesFilters.bucketEnd SeriesFilters.queryEnd at *
  omega

/-- A page reads a slice of the rollups. -/
theorem rollupRows_eq {content : Content N} {q : SeriesFilters}
    (haligned : ∀ index, q.bucketStart index % (60 * nsec) = 0) (first stop : Int) :
    rollupRows content (q.bucketStart first / (60 * nsec) * (60 * nsec)) stop =
      slice Prod.fst (q.bucketStart first) stop content.byMinute := by
  rw [Int.ediv_mul_cancel_of_emod_eq_zero (haligned first)]
  unfold slice Content.byMinute
  rw [filter_sortBy]
  rfl

/-- The bucket of an index, with its minutes. -/
theorem rollupBuckets_eq {nums : Numbers N} {content : Content N} {q : SeriesFilters}
    (hstep : 0 < q.stepNs) {unit : String} {now first : Int} (hfirst : 0 ≤ first) {limit : Nat} :
    rollupBuckets nums q unit now
        (slice Prod.fst (q.bucketStart first) (q.queryEnd first limit) content.byMinute)
        (q.indexes first limit) =
      (q.indexes first limit).mapM fun index => do
        return (← rollupBucket nums q unit now
          ((slice Prod.fst (q.bucketStart index) (q.bucketEnd index) content.byMinute).map Prod.snd)
          index, index) := by
  apply mapM_congr
  intro index hindex
  rw [filter_pageMinutes hstep hfirst hindex]

/-- A page of rollups: its candidates, with the minutes of each. -/
theorem rollupSeries_ok {nums : Numbers N} {size : SeriesPage N → Nat} {content : Content N}
    {q : SeriesFilters} (hstep : 0 < q.stepNs)
    (haligned : ∀ index, q.bucketStart index % (60 * nsec) = 0) {unit : String} {now : Int}
    {after : Option Int} (hafter : 0 ≤ firstIndex after) {limit budget : Nat} {page : SeriesPage N}
    (h : rollupSeries nums size content q unit now after limit budget = .ok page) :
    ∃ candidates coverage,
      (q.indexes (firstIndex after) limit).mapM (fun index => do
        return (← rollupBucket nums q unit now
          ((slice Prod.fst (q.bucketStart index) (q.bucketEnd index) content.byMinute).map Prod.snd)
          index, index)) = .ok candidates ∧
      pack size (.base q now (some coverage)) candidates q limit budget false = .ok page := by
  unfold rollupSeries at h
  dsimp only at h
  obtain ⟨_, hcap, h⟩ := bind_ok h
  rw [take_of_length (refuseIf_ok hcap), rollupRows_eq haligned] at h
  obtain ⟨candidates, hcandidates, hpack⟩ := bind_ok h
  rw [rollupBuckets_eq hstep hafter] at hcandidates
  exact ⟨candidates, _, hcandidates, hpack⟩

end SummitFlow.Monitor
