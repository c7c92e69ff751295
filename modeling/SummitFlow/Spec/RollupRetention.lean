import SummitFlow.HostMonitor.Retention
import SummitFlow.Spec.RollupRecovery

/-!
# Rollups under retention

Rollups outlive the samples they were made from, but the bucket of the last baseline
sample may still be rebuilt: when the samples move on, on a flush, or when the store is
opened.  As long as no deletion takes some of the samples of that bucket, a row keeps its
samples until it is 14 days old itself.

The times of a run do not decrease, and `i64` has room for the ages of retention.
-/

namespace SummitFlow.HostStore

variable {N F : Type}

/-! ## The condition -/

/-- A time whose minute and whose ages fit into `i64`. -/
def Fits (atNs : Int) : Prop := -2 ^ 63 + rollupAgeNs ≤ atNs ∧ InRange atNs

instance (atNs : Int) : Decidable (Fits atNs) := inferInstanceAs (Decidable (_ ∧ _))

/-- A state with the time of the last call. -/
structure Clocked (N F : Type) where
  state : State N F
  clock : Int

/-- The time of a call. -/
def RetainOp.time : RetainOp N → Option Int
  | .serve (.write _ s) => some s.atNs
  | .deleteAged now | .deleteBaseline now => some now
  | _ => none

def clockedStep [LinearOrder F] (fl : Floats N F) (s : Clocked N F) (op : RetainOp N) : Clocked N F :=
  ⟨retainStep fl s.state op, op.time.getD s.clock⟩

/-- A deletion leaves the samples of the last bucket, or no baseline sample at all when
    there is nothing to rebuild and the clock has left the bucket. -/
def SparesLatest (now : Int) (store : Store N F) (db : Db N F) : Prop :=
  ∀ b, latestBucket store.db = some b →
    bucketSamples b db.samples = bucketSamples b store.db.samples ∨
      latestBucket db = none ∧ store.pendingCount = 0 ∧ bucketOf now ≠ b

/-- The times do not decrease, and no deletion takes some of the samples that may still be
    rolled up. -/
def Spares (s : Clocked N F) (op : RetainOp N) : Prop :=
  (∀ t ∈ op.time, s.clock ≤ t ∧ Fits t) ∧
    match op, s.state with
    | .deleteAged now, .up store => SparesLatest now store (deleteAged now store.db)
    | .deleteBaseline now, .up store => SparesLatest now store (deleteBaseline now store.db)
    | _, _ => True

/-! ## Buckets and times -/

theorem bucketOf_le {atNs : Int} (h : InRange atNs) : bucketOf atNs ≤ atNs := by
  rw [bucketOf_of_range h]
  unfold minuteNs
  omega

theorem bucketOf_mono {a a' : Int} (ha : InRange a) (ha' : InRange a') (h : a ≤ a') :
    bucketOf a ≤ bucketOf a' := by
  rw [bucketOf_of_range ha, bucketOf_of_range ha']
  unfold minuteNs
  omega

/-! ## The invariant -/

/-- The baseline samples of a bucket, counted. -/
def stored (b : Int) (db : Db N F) : Nat := (bucketSamples b db.samples).length

/-- The row of the bucket does not lose anything when it is rebuilt. -/
def Rebuildable (b : Int) (db : Db N F) : Prop :=
  ∀ row, db.rollups.lookup b = some row → row.sampleCount ≤ stored b db

/-- Nothing will rebuild the bucket. -/
def Closed (b : Int) (db : Db N F) (clock : Int) : Prop :=
  latestBucket db ≠ some b ∧ ∀ t, clock ≤ t → Fits t → bucketOf t ≠ b

structure Db.Kept (db : Db N F) (clock : Int) : Prop where
  ordered : (db.samples.filter fun s => s.mode == "baseline").Pairwise fun s s' => s.atNs ≤ s'.atNs
  past : ∀ s ∈ db.samples, s.mode = "baseline" → s.atNs ≤ clock ∧ Fits s.atNs
  keys : (db.rollups.map Prod.fst).Nodup
  positive : ∀ b row, db.rollups.lookup b = some row → 0 < row.sampleCount
  rows : ∀ b, Rebuildable b db ∨ Closed b db clock

structure Store.Kept (store : Store N F) (clock : Int) : Prop where
  db : store.db.Kept clock
  pending : ∀ b, store.pendingBucket = some b → 0 < store.pendingCount →
    latestBucket store.db = some b

def Clocked.Kept (s : Clocked N F) : Prop :=
  match s.state with
  | .down db => db.Kept s.clock
  | .up store => store.Kept s.clock

/-- Every row is kept, with at least as many samples. -/
def Grows (db db' : Db N F) : Prop :=
  ∀ b row, db.rollups.lookup b = some row →
    ∃ row', db'.rollups.lookup b = some row' ∧ row.sampleCount ≤ row'.sampleCount

theorem Grows.refl (db : Db N F) : Grows db db := fun _ row h => ⟨row, h, Nat.le_refl _⟩

theorem Grows.trans {db db' db'' : Db N F} (h : Grows db db') (h' : Grows db' db'') :
    Grows db db'' := by
  intro b row hrow
  obtain ⟨row', hrow', hle⟩ := h b row hrow
  obtain ⟨row'', hrow'', hle'⟩ := h' b row' hrow'
  exact ⟨row'', hrow'', hle.trans hle'⟩

theorem Db.Kept.samplesInRange {db : Db N F} {clock : Int} (h : db.Kept clock) :
    SamplesInRange db.samples := fun s hs hmode => (h.past s hs hmode).2.2

/-- The last bucket may be rebuilt. -/
theorem Db.Kept.rebuildable_latest {db : Db N F} {clock : Int} (h : db.Kept clock) {b : Int}
    (hb : latestBucket db = some b) : Rebuildable b db := by
  rcases h.rows b with hrow | hclosed
  · exact hrow
  · exact absurd hb hclosed.1

/-- So may the bucket of a sample to come. -/
theorem Db.Kept.rebuildable_next {db : Db N F} {clock : Int} (h : db.Kept clock) {t : Int}
    (hclock : clock ≤ t) (ht : Fits t) : Rebuildable (bucketOf t) db := by
  rcases h.rows (bucketOf t) with hrow | hclosed
  · exact hrow
  · exact absurd rfl (hclosed.2 t hclock ht)

section

variable [LinearOrder F]

/-! ## Rebuilding -/

/-- A rebuild counts what is stored. -/
theorem sampleCount_rebuild {fl : Floats N F} {db db' : Db N F} {t : Int}
    (hrange : SamplesInRange db.samples) (ht : InRange t)
    (h : rebuildRollup fl (bucketOf t) db = .ok db') :
    (db'.rollups.lookup (bucketOf t)).elim (stored (bucketOf t) db = 0)
      fun row => row.sampleCount = stored (bucketOf t) db ∧ 0 < row.sampleCount := by
  obtain ⟨-, hrow, -⟩ := rebuildRollup_ok h
  rw [selectBucket_eq hrange ht] at hrow
  have hsummary := summarises_rollupOf hrow
  have hlength : (byTime (bucketSamples (bucketOf t) db.samples)).length = stored (bucketOf t) db :=
    List.length_insertionSort _ _
  cases hlookup : db'.rollups.lookup (bucketOf t) with
  | none =>
    rw [hlookup] at hsummary
    have hnil : byTime (bucketSamples (bucketOf t) db.samples) = [] := hsummary
    rw [hnil] at hlength
    exact hlength.symm
  | some row =>
    rw [hlookup] at hsummary hrow
    have hcount := (Summarises.sampleCount hsummary).trans hlength
    refine ⟨hcount, ?_⟩
    -- no row is made of no samples
    by_contra hzero
    have hnil : byTime (bucketSamples (bucketOf t) db.samples) = [] := by
      apply List.length_eq_zero_iff.mp
      omega
    rw [hnil] at hrow
    cases hrow

theorem nodup_rebuild {fl : Floats N F} {bucket : Int} {db db' : Db N F}
    (hkeys : (db.rollups.map Prod.fst).Nodup) (h : rebuildRollup fl bucket db = .ok db') :
    (db'.rollups.map Prod.fst).Nodup := by
  obtain ⟨row, -, hdb⟩ := bind_ok h
  cases row with
  | none =>
    obtain rfl := Except.ok.inj hdb
    exact hkeys.sublist (List.filter_sublist.map Prod.fst)
  | some row =>
    obtain rfl := Except.ok.inj hdb
    exact Dict.nodup_set hkeys

/-- A rebuild of a bucket that loses nothing by it. -/
theorem Db.Kept.rebuild {fl : Floats N F} {db db' : Db N F} {clock t : Int} (h : db.Kept clock)
    (ht : InRange t) (hrow : Rebuildable (bucketOf t) db)
    (hok : rebuildRollup fl (bucketOf t) db = .ok db') :
    db'.samples = db.samples ∧ db'.Kept clock ∧ Grows db db' ∧
      ∀ b, Rebuildable b db → Rebuildable b db' := by
  have hcount := sampleCount_rebuild h.samplesInRange ht hok
  obtain ⟨hsamples, -, hothers⟩ := rebuildRollup_ok hok
  have hstored : ∀ b, stored b db' = stored b db := by
    intro b
    unfold stored
    rw [hsamples]
  have hkeeps : ∀ b, Rebuildable b db → Rebuildable b db' := by
    intro b hb row hlookup
    rw [hstored]
    by_cases heq : b = bucketOf t
    · subst heq
      rw [hlookup] at hcount
      exact Nat.le_of_eq hcount.1
    · rw [hothers b heq] at hlookup
      exact hb row hlookup
  refine ⟨hsamples, ⟨?_, ?_, nodup_rebuild h.keys hok, ?_, ?_⟩, ?_, hkeeps⟩
  · rw [hsamples]
    exact h.ordered
  · rw [hsamples]
    exact h.past
  · intro b row hlookup
    by_cases heq : b = bucketOf t
    · subst heq
      rw [hlookup] at hcount
      exact hcount.2
    · rw [hothers b heq] at hlookup
      exact h.positive b row hlookup
  · intro b
    rcases h.rows b with hb | hclosed
    · exact .inl (hkeeps b hb)
    · right
      unfold Closed latestBucket
      rw [hsamples]
      exact hclosed
  · intro b row hlookup
    by_cases heq : b = bucketOf t
    · subst heq
      have hpositive := h.positive _ row hlookup
      have hle := hrow row hlookup
      cases hnew : db'.rollups.lookup (bucketOf t) with
      | none =>
        rw [hnew] at hcount
        have hzero : stored (bucketOf t) db = 0 := hcount
        omega
      | some row' =>
        rw [hnew] at hcount
        exact ⟨row', rfl, hle.trans (Nat.le_of_eq hcount.1.symm)⟩
    · exact ⟨row, by rw [hothers b heq, hlookup], Nat.le_refl _⟩

/-! ## Writing -/

omit [LinearOrder F] in
/-- A sample more. -/
theorem Db.Kept.insert {db : Db N F} {clock : Int} (h : db.Kept clock) {s : Sample N}
    (hclock : clock ≤ s.atNs) (hs : Fits s.atNs) :
    (db.insert s).Kept s.atNs ∧ ∀ b, Rebuildable b db → Rebuildable b (db.insert s) := by
  have hgrows : ∀ b, stored b db ≤ stored b (db.insert s) := by
    intro b
    unfold stored Db.insert bucketSamples
    rw [List.filter_append, List.length_append]
    omega
  have hkeeps : ∀ b, Rebuildable b db → Rebuildable b (db.insert s) :=
    fun b hb row hlookup => (hb row hlookup).trans (hgrows b)
  refine ⟨⟨?_, ?_, h.keys, h.positive, ?_⟩, hkeeps⟩
  · unfold Db.insert
    rw [List.filter_append, List.pairwise_append]
    refine ⟨h.ordered, List.Pairwise.filter _ (List.pairwise_singleton _ _), ?_⟩
    intro a ha a' ha'
    obtain ⟨ha, hmode⟩ := List.mem_filter.mp ha
    obtain rfl := List.mem_singleton.mp (List.mem_of_mem_filter ha')
    have hpast := (h.past a ha (beq_iff_eq.mp hmode)).1
    omega
  · intro a ha hmode
    rcases List.mem_append.mp ha with hold | hnew
    · obtain ⟨hpast, hfits⟩ := h.past a hold hmode
      exact ⟨hpast.trans hclock, hfits⟩
    · obtain rfl := List.mem_singleton.mp hnew
      exact ⟨Int.le_refl _, hs⟩
  · intro b
    rcases h.rows b with hb | hclosed
    · exact .inl (hkeeps b hb)
    · right
      refine ⟨?_, fun t ht => hclosed.2 t (hclock.trans ht)⟩
      rw [latestBucket_insert]
      split
      · exact fun heq => hclosed.2 s.atNs hclock hs (Option.some.inj heq)
      · exact hclosed.1

/-- The rebuild of the pending bucket. -/
theorem Store.Kept.leavePending {fl : Floats N F} {store : Store N F} {clock : Int}
    (h : store.Kept clock) {s : Sample N} (hclock : clock ≤ s.atNs) (hs : Fits s.atNs)
    {fails : Point → Bool} {db : Db N F}
    (hok : leavePending fl fails store (bucketOf s.atNs) (store.db.insert s) = .ok db) :
    db.samples = (store.db.insert s).samples ∧ db.Kept s.atNs ∧ Grows store.db db ∧
      Rebuildable (bucketOf s.atNs) db := by
  obtain ⟨hinsert, hkeeps⟩ := h.db.insert hclock hs
  have hnext := hkeeps _ (h.db.rebuildable_next hclock hs)
  have hgrows : Grows store.db (store.db.insert s) := Grows.refl store.db
  unfold HostStore.leavePending at hok
  cases hpending : store.pendingBucket with
  | none =>
    rw [hpending] at hok
    obtain rfl := Except.ok.inj hok
    exact ⟨rfl, hinsert, hgrows, hnext⟩
  | some pending =>
    rw [hpending] at hok
    dsimp only at hok
    split at hok
    · next hleave =>
      have hlatest := h.pending pending hpending hleave.2
      have hrow := hkeeps _ (h.db.rebuildable_latest hlatest)
      obtain ⟨t, ht, rfl⟩ := latestBucket_range h.db.samplesInRange hlatest
      obtain ⟨hsamples, hkept, hmore, hothers⟩ := hinsert.rebuild ht hrow (of_check hok)
      exact ⟨hsamples, hkept, hgrows.trans hmore, hothers _ hnext⟩
    · obtain rfl := Except.ok.inj hok
      exact ⟨rfl, hinsert, hgrows, hnext⟩

/-- A write. -/
theorem Store.Kept.write {fl : Floats N F} {store store' : Store N F} {clock : Int}
    (h : store.Kept clock) {s : Sample N} (hclock : clock ≤ s.atNs) (hs : Fits s.atNs)
    {fails : Point → Bool} (hok : write fl fails s store = .ok store') :
    store'.Kept s.atNs ∧ Grows store.db store'.db := by
  have hok₁ := of_check (of_check hok)
  dsimp only at hok₁
  split at hok₁
  · next hmode =>
    obtain ⟨⟨db, count⟩, hrollups, hok₂⟩ := bind_ok hok₁
    obtain rfl := Except.ok.inj (of_check hok₂)
    obtain ⟨db₁, hleave, hrollups⟩ := bind_ok hrollups
    obtain ⟨hsamples, hkept, hgrows, hnext⟩ := h.leavePending hclock hs hleave
    have hlatest : ∀ db' : Db N F, db'.samples = (store.db.insert s).samples →
        latestBucket db' = some (bucketOf s.atNs) := by
      intro db' hdb'
      have hinsert := latestBucket_insert store.db s
      rw [if_pos hmode] at hinsert
      rw [← hinsert]
      unfold latestBucket
      rw [hdb']
    split at hrollups
    · obtain ⟨db₂, hrebuild, hpair⟩ := bind_ok (of_check hrollups)
      obtain ⟨rfl, rfl⟩ := Prod.mk.inj (Except.ok.inj hpair)
      obtain ⟨hsamples', hkept', hgrows', -⟩ := hkept.rebuild hs.2 hnext hrebuild
      refine ⟨⟨hkept', ?_⟩, hgrows.trans hgrows'⟩
      intro b hb _
      rw [← (show some (bucketOf s.atNs) = some b from hb)]
      exact hlatest _ (hsamples'.trans hsamples)
    · obtain ⟨rfl, rfl⟩ := Prod.mk.inj (Except.ok.inj hrollups)
      refine ⟨⟨hkept, ?_⟩, hgrows⟩
      intro b hb _
      rw [← (show some (bucketOf s.atNs) = some b from hb)]
      exact hlatest _ hsamples
  · next hmode =>
    obtain rfl := Except.ok.inj (of_check hok₁)
    obtain ⟨hinsert, -⟩ := h.db.insert hclock hs
    refine ⟨⟨hinsert, ?_⟩, Grows.refl store.db⟩
    intro b hb hcount
    have hlatest := latestBucket_insert store.db s
    rw [if_neg hmode] at hlatest
    exact hlatest.trans (h.pending b hb hcount)

/-! ## Flushing and opening -/

/-- The rebuild of the last bucket. -/
theorem Db.Kept.flush {fl : Floats N F} {db db' : Db N F} {clock : Int} (h : db.Kept clock)
    {bucket : Int} (hlatest : latestBucket db = some bucket) {fails : Point → Bool}
    (hok : flushBucket fl fails bucket db = .ok db') :
    db'.samples = db.samples ∧ db'.Kept clock ∧ Grows db db' := by
  have hrow := h.rebuildable_latest hlatest
  obtain ⟨t, ht, rfl⟩ := latestBucket_range h.samplesInRange hlatest
  obtain ⟨hsamples, hkept, hgrows, -⟩ := h.rebuild ht hrow (flushBucket_ok hok)
  exact ⟨hsamples, hkept, hgrows⟩

theorem Store.Kept.flushRollups {fl : Floats N F} {store store' : Store N F} {clock : Int}
    (h : store.Kept clock) {fails : Point → Bool} (hok : flushRollups fl fails store = .ok store') :
    store'.Kept clock ∧ Grows store.db store'.db := by
  unfold HostStore.flushRollups at hok
  cases hpending : store.pendingBucket with
  | none =>
    rw [hpending] at hok
    obtain rfl := Except.ok.inj hok
    exact ⟨h, Grows.refl store.db⟩
  | some pending =>
    rw [hpending] at hok
    dsimp only at hok
    split at hok
    · next hcount =>
      obtain ⟨db, hflush, hstore⟩ := bind_ok hok
      obtain rfl := Except.ok.inj hstore
      obtain ⟨-, hkept, hgrows⟩ := h.db.flush (h.pending pending hpending hcount) hflush
      exact ⟨⟨hkept, fun _ _ hzero => absurd hzero (Nat.lt_irrefl 0)⟩, hgrows⟩
    · obtain rfl := Except.ok.inj hok
      exact ⟨h, Grows.refl store.db⟩

theorem Db.Kept.openStore {fl : Floats N F} {db : Db N F} {store : Store N F} {clock : Int}
    (h : db.Kept clock) {fails : Point → Bool} (hok : openStore fl fails db = .ok store) :
    store.Kept clock ∧ Grows db store.db := by
  obtain ⟨db', hdb, hstore⟩ := bind_ok (of_check hok)
  obtain rfl := Except.ok.inj hstore
  unfold flushLatest at hdb
  have hflushed : db'.Kept clock ∧ Grows db db' := by
    cases hlatest : latestBucket db with
    | none =>
      rw [hlatest] at hdb
      obtain rfl := Except.ok.inj hdb
      exact ⟨h, Grows.refl db⟩
    | some bucket =>
      rw [hlatest] at hdb
      obtain ⟨-, hkept, hgrows⟩ := h.flush hlatest hdb
      exact ⟨hkept, hgrows⟩
  exact ⟨⟨hflushed.1, fun _ hb => by cases hb⟩, hflushed.2⟩

end

/-! ## Deleting -/

/-- The samples of a bucket are among the baseline samples. -/
theorem bucketSamples_eq (b : Int) (samples : List (Sample N)) :
    bucketSamples b samples =
      (samples.filter fun s => s.mode == "baseline").filter fun s => bucketOf s.atNs == b := by
  unfold bucketSamples
  rw [List.filter_filter]
  apply List.filter_congr
  intro s _
  rw [Bool.and_comm]

/-- The last bucket is that of the last baseline sample. -/
theorem latestBucket_split {db : Db N F} {b : Int} (h : latestBucket db = some b) :
    ∃ before last, (db.samples.filter fun s => s.mode == "baseline") = before ++ [last] ∧
      bucketOf last.atNs = b := by
  unfold latestBucket at h
  obtain ⟨last, hlast, hb⟩ := Option.map_eq_some_iff.mp h
  obtain ⟨before, hsplit⟩ := List.getLast?_eq_some_iff.mp hlast
  exact ⟨before, last, hsplit, hb⟩

/-- A deletion that leaves the samples of the last bucket leaves it the last bucket. -/
theorem latestBucket_of_spared {db db' : Db N F} (hsublist : db'.samples.Sublist db.samples) {b : Int}
    (hlatest : latestBucket db = some b)
    (hspared : bucketSamples b db'.samples = bucketSamples b db.samples) :
    latestBucket db' = some b := by
  obtain ⟨before, last, hsplit, rfl⟩ := latestBucket_split hlatest
  have hbaseline := hsublist.filter fun s => s.mode == "baseline"
  rw [bucketSamples_eq, bucketSamples_eq, hsplit] at hspared
  rw [hsplit] at hbaseline
  obtain ⟨before', rest, heq, hbefore, hrest⟩ := List.sublist_append_iff.mp hbaseline
  rcases List.sublist_singleton.mp hrest with rfl | rfl
  · -- the last sample would be missing from its bucket
    have hlast : [last].filter (fun s => bucketOf s.atNs == bucketOf last.atNs) = [last] := by
      rw [List.filter_singleton, beq_self_eq_true]
      rfl
    rw [heq, List.append_nil, List.filter_append, hlast] at hspared
    have hlength := (hbefore.filter fun s => bucketOf s.atNs == bucketOf last.atNs).length_le
    rw [hspared, List.length_append, List.length_singleton] at hlength
    omega
  · unfold latestBucket
    rw [heq, List.getLast?_append_of_ne_nil _ (List.cons_ne_nil _ _)]
    rfl

/-- No deletion makes another bucket the last one. -/
theorem latestBucket_of_sublist {now : Int} {store : Store N F} {db : Db N F}
    (hsublist : db.samples.Sublist store.db.samples) (hspares : SparesLatest now store db) {b : Int}
    (h : latestBucket db = some b) :
    latestBucket store.db = some b ∧ bucketSamples b db.samples = bucketSamples b store.db.samples := by
  cases hlatest : latestBucket store.db with
  | none =>
    obtain ⟨before, last, hsplit, -⟩ := latestBucket_split h
    have hnone : (store.db.samples.filter fun s => s.mode == "baseline") = [] := by
      unfold latestBucket at hlatest
      exact List.getLast?_eq_none_iff.mp (Option.map_eq_none_iff.mp hlatest)
    have hbaseline := hsublist.filter fun s => s.mode == "baseline"
    rw [hnone, hsplit] at hbaseline
    exact absurd (List.eq_nil_of_sublist_nil hbaseline) (List.append_ne_nil_of_right_ne_nil _ (List.cons_ne_nil _ _))
  | some b' =>
    rcases hspares b' hlatest with hspared | ⟨hnone, -, -⟩
    · have hsame := latestBucket_of_spared hsublist hlatest hspared
      rw [h] at hsame
      obtain rfl := Option.some.inj hsame
      exact ⟨rfl, hspared⟩
    · rw [h] at hnone
      cases hnone

/-- Where a bucket has lost samples, nothing will rebuild it. -/
theorem Store.Kept.closed {store : Store N F} {clock now : Int} (h : store.Kept clock)
    (hclock : clock ≤ now) (hnow : Fits now) {db : Db N F}
    (hsublist : db.samples.Sublist store.db.samples) (hspares : SparesLatest now store db) {b : Int}
    (hlost : bucketSamples b db.samples ≠ bucketSamples b store.db.samples) : Closed b db now := by
  refine ⟨fun hlatest => hlost (latestBucket_of_sublist hsublist hspares hlatest).2, ?_⟩
  intro t ht hfits hb
  -- the bucket had a sample, and so a last bucket, which is not before it
  obtain ⟨s, hs⟩ : ∃ s, s ∈ bucketSamples b store.db.samples := by
    apply List.exists_mem_of_ne_nil
    intro hnil
    have hless := hsublist.filter fun s => s.mode == "baseline" && bucketOf s.atNs == b
    change (bucketSamples b db.samples).Sublist (bucketSamples b store.db.samples) at hless
    rw [hnil] at hless hlost
    exact hlost (List.eq_nil_of_sublist_nil hless)
  rw [bucketSamples_eq] at hs
  obtain ⟨hbaseline, hsb⟩ := List.mem_filter.mp hs
  obtain ⟨hmem, hmode⟩ := List.mem_filter.mp hbaseline
  obtain ⟨b', hlatest⟩ : ∃ b', latestBucket store.db = some b' := by
    cases hlatest : latestBucket store.db with
    | some b' => exact ⟨b', rfl⟩
    | none =>
      unfold latestBucket at hlatest
      rw [List.getLast?_eq_none_iff.mp (Option.map_eq_none_iff.mp hlatest)] at hbaseline
      cases hbaseline
  obtain ⟨before, last, hsplit, rfl⟩ := latestBucket_split hlatest
  have hlastMem : last ∈ store.db.samples.filter fun s => s.mode == "baseline" := by
    rw [hsplit]
    exact List.mem_append_right _ (List.mem_singleton_self _)
  obtain ⟨hlastMem, hlastMode⟩ := List.mem_filter.mp hlastMem
  have hle : s.atNs ≤ last.atNs := by
    have hordered := h.db.ordered
    rw [hsplit] at hordered hbaseline
    rcases List.mem_append.mp hbaseline with hbefore | hlast
    · exact (List.pairwise_append.mp hordered).2.2 s hbefore last (List.mem_singleton_self _)
    · rw [List.mem_singleton.mp hlast]
  obtain ⟨-, hsfits⟩ := h.db.past s hmem (beq_iff_eq.mp hmode)
  obtain ⟨hpast, hlastFits⟩ := h.db.past last hlastMem (beq_iff_eq.mp hlastMode)
  have hfirst := bucketOf_mono hsfits.2 hlastFits.2 hle
  have hsecond := bucketOf_mono hlastFits.2 hnow.2 (hpast.trans hclock)
  have hthird := bucketOf_mono hnow.2 hfits.2 ht
  rw [beq_iff_eq.mp hsb] at hfirst
  have heq : bucketOf last.atNs = b := by omega
  rcases hspares _ hlatest with hspared | ⟨-, -, hleft⟩
  · exact hlost (heq ▸ hspared)
  · omega

/-- A deletion keeps the invariant. -/
theorem Store.Kept.delete {store : Store N F} {clock now : Int} (h : store.Kept clock)
    (hclock : clock ≤ now) (hnow : Fits now) {db : Db N F}
    (hsublist : db.samples.Sublist store.db.samples)
    (hrollups : db.rollups.Sublist store.db.rollups) (hspares : SparesLatest now store db) :
    (store.retain db).Kept now := by
  have hlookup : ∀ b row, db.rollups.lookup b = some row →
      store.db.rollups.lookup b = some row := by
    intro b row hrow
    exact Dict.lookup_of_mem h.db.keys (hrollups.subset (Dict.mem_of_lookup hrow))
  refine ⟨⟨?_, ?_, h.db.keys.sublist (hrollups.map _), ?_, ?_⟩, ?_⟩
  · exact h.db.ordered.sublist (hsublist.filter _)
  · intro s hs hmode
    obtain ⟨hpast, hfits⟩ := h.db.past s (hsublist.subset hs) hmode
    exact ⟨hpast.trans hclock, hfits⟩
  · intro b row hrow
    exact h.db.positive b row (hlookup b row hrow)
  · intro b
    by_cases hsame : bucketSamples b db.samples = bucketSamples b store.db.samples
    · rcases h.db.rows b with hb | hclosed
      · left
        intro row hrow
        show _ ≤ (bucketSamples b db.samples).length
        rw [hsame]
        exact hb row (hlookup b row hrow)
      · right
        refine ⟨fun hlatest => ?_, fun t ht => hclosed.2 t (hclock.trans ht)⟩
        exact hclosed.1 (latestBucket_of_sublist hsublist hspares hlatest).1
    · exact .inr (h.closed hclock hnow hsublist hspares hsame)
  · intro b hb hcount
    have hlatest := h.pending b hb hcount
    rcases hspares b hlatest with hspared | ⟨-, hzero, -⟩
    · exact latestBucket_of_spared hsublist hlatest hspared
    · exact absurd hzero (Nat.ne_of_gt hcount)

theorem Db.Kept.mono {db : Db N F} {clock clock' : Int} (h : db.Kept clock) (hle : clock ≤ clock') :
    db.Kept clock' where
  ordered := h.ordered
  past s hs hmode := ⟨(h.past s hs hmode).1.trans hle, (h.past s hs hmode).2⟩
  keys := h.keys
  positive := h.positive
  rows b := (h.rows b).imp_right fun hclosed =>
    ⟨hclosed.1, fun t ht => hclosed.2 t (hle.trans ht)⟩

/-- Detail samples have no part in rollups. -/
theorem filter_deleteDetail (db : Db N F) :
    ((deleteDetail db).samples.filter fun s => s.mode == "baseline") =
      db.samples.filter fun s => s.mode == "baseline" := by
  have hkept := filter_deleteOldest (·.atNs) (fun s : Sample N => s.mode == "detail") db.samples
  have hbaseline : ∀ samples : List (Sample N),
      samples.filter (fun s => s.mode == "baseline") =
        (samples.filter fun s => !(s.mode == "detail")).filter fun s => s.mode == "baseline" := by
    intro samples
    rw [List.filter_filter]
    apply List.filter_congr
    intro s _
    by_cases hmode : s.mode = "baseline"
    · rw [hmode]
      rfl
    · rw [beq_false_of_ne hmode]
      rfl
  rw [hbaseline, hbaseline db.samples]
  exact congrArg (List.filter fun s => s.mode == "baseline") hkept

theorem Store.Kept.deleteDetail {store : Store N F} {clock : Int} (h : store.Kept clock) :
    (store.retain (deleteDetail store.db)).Kept clock := by
  have hbaseline := filter_deleteDetail store.db
  have hlatest : latestBucket (HostStore.deleteDetail store.db) = latestBucket store.db := by
    unfold latestBucket
    rw [hbaseline]
  have hstored : ∀ b, stored b (HostStore.deleteDetail store.db) = stored b store.db := by
    intro b
    unfold stored
    rw [bucketSamples_eq, hbaseline, ← bucketSamples_eq]
  refine ⟨⟨?_, ?_, h.db.keys, h.db.positive, ?_⟩, ?_⟩
  · show List.Pairwise _ (List.filter _ (HostStore.deleteDetail store.db).samples)
    rw [hbaseline]
    exact h.db.ordered
  · intro s hs hmode
    exact h.db.past s ((deleteOldest_sublist _ _ _).subset hs) hmode
  · intro b
    rcases h.db.rows b with hb | hclosed
    · exact .inl fun row hrow => (hb row hrow).trans (Nat.le_of_eq (hstored b).symm)
    · exact .inr ⟨fun heq => hclosed.1 (hlatest ▸ heq), hclosed.2⟩
  · intro b hb hcount
    exact hlatest.trans (h.pending b hb hcount)

/-- A batch of old rows leaves those that are at most 14 days old. -/
theorem lookup_deleteAged {db : Db N F} (hkeys : (db.rollups.map Prod.fst).Nodup) {now b : Int}
    (hnow : Fits now) (hb : now - b ≤ rollupAgeNs) {row : Rollup N F}
    (h : db.rollups.lookup b = some row) : (deleteAged now db).rollups.lookup b = some row := by
  have hold : olderThan rollupAgeNs now b = false := by
    obtain ⟨hlow, -, hhigh⟩ := hnow
    unfold olderThan
    rw [wrap64_of_range (by omega) (by unfold rollupAgeNs minuteNs at *; omega)]
    exact decide_eq_false (by omega)
  have hsublist := deleteOldest_sublist Prod.fst (fun row => olderThan rollupAgeNs now row.1) db.rollups
  have hkept := filter_deleteOldest Prod.fst (fun row => olderThan rollupAgeNs now row.1) db.rollups
  have hmem : (b, row) ∈ db.rollups.filter fun row => !olderThan rollupAgeNs now row.1 := by
    apply List.mem_filter.mpr
    exact ⟨Dict.mem_of_lookup h, by rw [hold]; rfl⟩
  rw [← hkept] at hmem
  exact Dict.lookup_of_mem (hkeys.sublist (hsublist.map _)) (List.mem_of_mem_filter hmem)

/-! ## Runs -/

section

variable [LinearOrder F]

omit [LinearOrder F] in
theorem Store.Kept.mono {store : Store N F} {clock clock' : Int} (h : store.Kept clock)
    (hle : clock ≤ clock') : store.Kept clock' := ⟨h.db.mono hle, h.pending⟩

/-- A call. -/
theorem Clocked.Kept.serve {fl : Floats N F} {s : Clocked N F} (h : s.Kept) {op : Op N}
    (hop : Spares s (.serve op)) :
    (clockedStep fl s (.serve op)).Kept ∧
      Grows s.state.db (clockedStep fl s (.serve op)).state.db := by
  obtain ⟨state, clock⟩ := s
  obtain ⟨htime, -⟩ := hop
  cases state with
  | down db =>
    have hdb : db.Kept clock := h
    cases op with
    | «open» fails =>
      cases hok : openStore fl fails db with
      | error e =>
        simp only [clockedStep, retainStep, serveStep, hok]
        exact ⟨hdb, Grows.refl db⟩
      | ok store =>
        simp only [clockedStep, retainStep, serveStep, hok]
        exact hdb.openStore hok
    | write fails s => exact ⟨hdb.mono (htime s.atNs rfl).1, Grows.refl db⟩
    | flushRollups fails => exact ⟨hdb, Grows.refl db⟩
    | crash => exact ⟨hdb, Grows.refl db⟩
  | up store =>
    have hstore : store.Kept clock := h
    cases op with
    | «open» fails => exact ⟨hstore, Grows.refl store.db⟩
    | write fails s =>
      obtain ⟨hclock, hfits⟩ := htime s.atNs rfl
      cases hok : HostStore.write fl fails s store with
      | error e =>
        simp only [clockedStep, retainStep, serveStep, hok]
        exact ⟨hstore.mono hclock, Grows.refl store.db⟩
      | ok store' =>
        simp only [clockedStep, retainStep, serveStep, hok]
        exact hstore.write hclock hfits hok
    | flushRollups fails =>
      cases hok : HostStore.flushRollups fl fails store with
      | error e =>
        simp only [clockedStep, retainStep, serveStep, hok]
        exact ⟨hstore, Grows.refl store.db⟩
      | ok store' =>
        simp only [clockedStep, retainStep, serveStep, hok]
        exact hstore.flushRollups hok
    | crash => exact ⟨hstore.db, Grows.refl store.db⟩

/-- One step: the invariant, and what becomes of a row. -/
theorem Clocked.Kept.step {fl : Floats N F} {s : Clocked N F} (h : s.Kept) {op : RetainOp N}
    (hop : Spares s op) :
    (clockedStep fl s op).Kept ∧ ∀ b row, (∀ now, op = .deleteAged now → now - b ≤ rollupAgeNs) →
      s.state.db.rollups.lookup b = some row →
      ∃ row', (clockedStep fl s op).state.db.rollups.lookup b = some row' ∧
        row.sampleCount ≤ row'.sampleCount := by
  cases op with
  | serve op =>
    have hserve : (clockedStep fl s (.serve op)).Kept ∧ Grows s.state.db _ := h.serve hop
    exact ⟨hserve.1, fun b row _ hrow => hserve.2 b row hrow⟩
  | deleteAged now =>
    obtain ⟨state, clock⟩ := s
    obtain ⟨hclock, hfits⟩ := hop.1 now rfl
    cases state with
    | down db =>
      have hdb : db.Kept clock := h
      exact ⟨hdb.mono hclock, fun b row _ hrow => ⟨row, hrow, Nat.le_refl _⟩⟩
    | up store =>
      have hstore : store.Kept clock := h
      refine ⟨hstore.delete hclock hfits (deleteOldest_sublist _ _ _) (deleteOldest_sublist _ _ _)
        hop.2, ?_⟩
      intro b row hage hrow
      exact ⟨row, lookup_deleteAged hstore.db.keys hfits (hage now rfl) hrow, Nat.le_refl _⟩
  | deleteDetail =>
    obtain ⟨state, clock⟩ := s
    cases state with
    | down db => exact ⟨h, fun b row _ hrow => ⟨row, hrow, Nat.le_refl _⟩⟩
    | up store =>
      have hstore : store.Kept clock := h
      exact ⟨hstore.deleteDetail, fun b row _ hrow => ⟨row, hrow, Nat.le_refl _⟩⟩
  | deleteBaseline now =>
    obtain ⟨state, clock⟩ := s
    obtain ⟨hclock, hfits⟩ := hop.1 now rfl
    cases state with
    | down db =>
      have hdb : db.Kept clock := h
      exact ⟨hdb.mono hclock, fun b row _ hrow => ⟨row, hrow, Nat.le_refl _⟩⟩
    | up store =>
      have hstore : store.Kept clock := h
      refine ⟨hstore.delete hclock hfits (deleteOldest_sublist _ _ _) (List.Sublist.refl _) hop.2, ?_⟩
      intro b row _ hrow
      exact ⟨row, hrow, Nat.le_refl _⟩

/-- A store that has never been opened. -/
def Clocked.init (clock : Int) : Clocked N F := ⟨.down ⟨[], []⟩, clock⟩

end

/-! ## Two runs -/

end SummitFlow.HostStore
