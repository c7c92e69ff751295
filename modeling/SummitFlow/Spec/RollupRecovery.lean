import SummitFlow.Spec.HostRollups

/-!
# Rollups are complete after every restart

Between two rebuilds the row of the pending bucket lags behind its samples, by as many
as the store has counted since.  Every other row is complete.  The pending bucket is
that of the baseline sample inserted last, so a restart, which has lost the count,
still finds the only row to rebuild.

A bucket has to fit into `i64`, with the end of its minute: the last minute of the
range has no end to select up to.
-/

namespace SummitFlow.HostStore

variable {N F : Type} [LinearOrder F]

/-! ## Buckets -/

/-- The minute of a time and its end fit into `i64`. -/
def InRange (atNs : Int) : Prop :=
  -2 ^ 63 ≤ atNs / minuteNs * minuteNs ∧ atNs / minuteNs * minuteNs + minuteNs < 2 ^ 63

instance (atNs : Int) : Decidable (InRange atNs) := inferInstanceAs (Decidable (_ ∧ _))

theorem wrap64_of_range {x : Int} (hlow : -2 ^ 63 ≤ x) (hhigh : x < 2 ^ 63) : wrap64 x = x := by
  unfold wrap64
  omega

theorem bucketOf_of_range {atNs : Int} (h : InRange atNs) :
    bucketOf atNs = atNs / minuteNs * minuteNs := by
  obtain ⟨hlow, hhigh⟩ := h
  unfold bucketOf
  apply wrap64_of_range hlow
  have hminute : 0 < minuteNs := by decide
  omega

/-- The range `rebuild_rollup` selects is the bucket. -/
theorem mem_bucket_iff {b a : Int} (hb : InRange b) (ha : InRange a) :
    bucketOf b ≤ a ∧ a < wrap64 (bucketOf b + minuteNs) ↔ bucketOf a = bucketOf b := by
  rw [bucketOf_of_range hb, bucketOf_of_range ha]
  obtain ⟨hlow, hhigh⟩ := hb
  have hminute : 0 < minuteNs := by decide
  rw [wrap64_of_range (by omega) hhigh]
  unfold minuteNs at *
  omega

/-- The baseline samples of a bucket, in the order of their ids. -/
def bucketSamples (bucket : Int) (samples : List (Sample N)) : List (Sample N) :=
  samples.filter fun s => s.mode == "baseline" && bucketOf s.atNs == bucket

/-- The samples in the order of their times, then of their ids. -/
def byTime (samples : List (Sample N)) : List (Sample N) :=
  samples.insertionSort fun s s' => s.atNs ≤ s'.atNs

/-- The baseline samples are in range. -/
def SamplesInRange (samples : List (Sample N)) : Prop :=
  ∀ s ∈ samples, s.mode = "baseline" → InRange s.atNs

theorem selectBucket_eq {samples : List (Sample N)} (hrange : SamplesInRange samples) {b : Int}
    (hb : InRange b) :
    selectBucket (bucketOf b) samples = byTime (bucketSamples (bucketOf b) samples) := by
  unfold selectBucket byTime bucketSamples
  congr 1
  apply List.filter_congr
  intro s hs
  by_cases hmode : s.mode = "baseline"
  · have hiff := mem_bucket_iff hb (hrange s hs hmode)
    rw [hmode, beq_self_eq_true, Bool.true_and, Bool.true_and]
    rw [Bool.eq_iff_iff, Bool.and_eq_true, decide_eq_true_iff, decide_eq_true_iff, beq_iff_eq]
    exact hiff
  · rw [beq_false_of_ne hmode]
    rfl

theorem bucketSamples_concat (b : Int) (samples : List (Sample N)) (s : Sample N) :
    bucketSamples b (samples ++ [s]) =
      if s.mode = "baseline" ∧ bucketOf s.atNs = b then bucketSamples b samples ++ [s]
      else bucketSamples b samples := by
  unfold bucketSamples
  rw [List.filter_append]
  split
  · next h => simp [h.1, h.2]
  · next h =>
    have hfalse : (s.mode == "baseline" && bucketOf s.atNs == b) = false := by
      simpa using h
    simp [hfalse]

/-! ## Rows -/

/-- The row of a bucket is the rollup of all its samples but the `late` inserted last. -/
def Short (fl : Floats N F) (db : Db N F) (bucket : Int) (late : Nat) : Prop :=
  ∃ done rest, bucketSamples bucket db.samples = done ++ rest ∧ rest.length = late ∧
    rollupOf fl (byTime done) = .ok (db.rollups.lookup bucket)

/-- What a rebuild does: the row of its bucket, and no other. -/
theorem rebuildRollup_ok {fl : Floats N F} {bucket : Int} {db db' : Db N F}
    (h : rebuildRollup fl bucket db = .ok db') :
    db'.samples = db.samples ∧
      rollupOf fl (selectBucket bucket db.samples) = .ok (db'.rollups.lookup bucket) ∧
      ∀ b, b ≠ bucket → db'.rollups.lookup b = db.rollups.lookup b := by
  obtain ⟨row, hrow, hdb⟩ := bind_ok h
  cases row with
  | none =>
    obtain rfl := Except.ok.inj hdb
    refine ⟨rfl, ?_, ?_⟩
    · dsimp only
      rw [Dict.lookup_filter_ne, if_pos rfl, hrow]
    · intro b hb
      dsimp only
      rw [Dict.lookup_filter_ne, if_neg hb]
  | some row =>
    obtain rfl := Except.ok.inj hdb
    refine ⟨rfl, ?_, ?_⟩
    · dsimp only
      rw [Dict.lookup_set_self, hrow]
    · intro b hb
      exact Dict.lookup_set_of_ne hb _ _

/-- A rebuild makes the row of its bucket complete. -/
theorem short_rebuild {fl : Floats N F} {db db' : Db N F} {atNs : Int}
    (hrange : SamplesInRange db.samples) (hat : InRange atNs)
    (h : rebuildRollup fl (bucketOf atNs) db = .ok db') : Short fl db' (bucketOf atNs) 0 := by
  obtain ⟨hsamples, hrow, -⟩ := rebuildRollup_ok h
  refine ⟨bucketSamples (bucketOf atNs) db'.samples, [], by simp, rfl, ?_⟩
  rw [hsamples, ← selectBucket_eq hrange hat]
  exact hrow

/-- It keeps the others as they are. -/
theorem Short.rebuild {fl : Floats N F} {db db' : Db N F} {bucket b : Int} {late : Nat}
    (hshort : Short fl db b late) (hb : b ≠ bucket) (h : rebuildRollup fl bucket db = .ok db') :
    Short fl db' b late := by
  obtain ⟨hsamples, -, hothers⟩ := rebuildRollup_ok h
  obtain ⟨done, rest, hsplit, hlength, hrow⟩ := hshort
  refine ⟨done, rest, ?_, hlength, ?_⟩
  · rw [hsamples, hsplit]
  · rw [hothers b hb, hrow]

/-- The database with a sample more. -/
def Db.insert (db : Db N F) (s : Sample N) : Db N F := { db with samples := db.samples ++ [s] }

/-- A sample more puts its bucket one further behind, and no other. -/
theorem Short.insert {fl : Floats N F} {db : Db N F} {b : Int} {late : Nat}
    (hshort : Short fl db b late) (s : Sample N) :
    Short fl (db.insert s) b
      (if s.mode = "baseline" ∧ bucketOf s.atNs = b then late + 1 else late) := by
  obtain ⟨done, rest, hsplit, hlength, hrow⟩ := hshort
  have hconcat := bucketSamples_concat b db.samples s
  split
  · next hs =>
    rw [if_pos hs, hsplit, List.append_assoc] at hconcat
    exact ⟨done, rest ++ [s], hconcat, by simp [hlength], hrow⟩
  · next hs =>
    rw [if_neg hs, hsplit] at hconcat
    exact ⟨done, rest, hconcat, hlength, hrow⟩

omit [LinearOrder F] in
theorem latestBucket_insert (db : Db N F) (s : Sample N) :
    latestBucket (db.insert s) =
      if s.mode = "baseline" then some (bucketOf s.atNs) else latestBucket db := by
  unfold latestBucket Db.insert
  dsimp only
  rw [List.filter_append]
  split
  · next hmode => simp [hmode]
  · next hmode => simp [hmode]

omit [LinearOrder F] in
theorem samplesInRange_insert {db : Db N F} {s : Sample N} (h : SamplesInRange db.samples)
    (hs : s.mode = "baseline" → InRange s.atNs) : SamplesInRange (db.insert s).samples := by
  intro x hx
  rcases List.mem_append.mp hx with hx | hx
  · exact h x hx
  · obtain rfl := List.mem_singleton.mp hx
    exact hs

/-! ## The invariants -/

/-- By how many samples the row of a bucket lags behind. -/
def Store.late (store : Store N F) (b : Int) : Nat :=
  if store.pendingBucket = some b then store.pendingCount else 0

/-- An open store. -/
structure Store.Inv (fl : Floats N F) (store : Store N F) : Prop where
  range : SamplesInRange store.db.samples
  count : store.pendingCount < 3
  pending : store.pendingBucket = none ∧ store.pendingCount = 0 ∨
    ∃ b, store.pendingBucket = some b ∧ latestBucket store.db = some b
  rows : ∀ b, Short fl store.db b (store.late b)

/-- A database without a store: only the row of the sample inserted last may lag. -/
structure Db.Inv (fl : Floats N F) (db : Db N F) : Prop where
  range : SamplesInRange db.samples
  rows : ∀ b, ∃ late < 3, Short fl db b late ∧ (latestBucket db ≠ some b → late = 0)

omit [LinearOrder F] in
/-- A pending bucket is that of an inserted sample. -/
theorem latestBucket_range {db : Db N F} (hrange : SamplesInRange db.samples) {b : Int}
    (h : latestBucket db = some b) : ∃ atNs, InRange atNs ∧ b = bucketOf atNs := by
  unfold latestBucket at h
  obtain ⟨s, hlast, rfl⟩ := Option.map_eq_some_iff.mp h
  have hmem := List.mem_filter.mp (List.mem_of_getLast? hlast)
  exact ⟨s.atNs, hrange s hmem.1 (by simpa using hmem.2), rfl⟩

theorem Store.Inv.db {fl : Floats N F} {store : Store N F} (h : store.Inv fl) :
    store.db.Inv fl := by
  refine ⟨h.range, ?_⟩
  intro b
  refine ⟨store.late b, ?_, h.rows b, ?_⟩
  · unfold Store.late
    split
    · exact h.count
    · decide
  · intro hlatest
    unfold Store.late
    rcases h.pending with ⟨-, hcount⟩ | ⟨b', hpending, hlatest'⟩
    · rw [hcount, ite_self]
    · rw [hpending, ← hlatest', if_neg hlatest]

/-! ## Writing -/

theorem of_check {fails : Point → Bool} {point : Point} {α : Type} {x : Except String α} {a : α}
    (h : (check fails point >>= fun _ => x) = .ok a) : x = .ok a := by
  unfold check at h
  split at h
  · cases h
  · exact h

/-- The rows after the pending bucket was rebuilt where the samples leave it: the bucket
    of the new sample is one further behind, and the others are complete. -/
theorem leavePending_rows {fl : Floats N F} {store : Store N F} (h : store.Inv fl)
    {s : Sample N} (hs : s.mode = "baseline") (hat : InRange s.atNs) {fails : Point → Bool}
    {db : Db N F}
    (hok : leavePending fl fails store (bucketOf s.atNs) (store.db.insert s) = .ok db) :
    db.samples = (store.db.insert s).samples ∧
      ∀ b, Short fl db b (if b = bucketOf s.atNs then store.late b + 1 else 0) := by
  have hrange := samplesInRange_insert h.range (s := s) (fun _ => hat)
  -- without a rebuild, every bucket is as late as before but for the sample's own
  have hinserted : ∀ b, b = bucketOf s.atNs ∨ store.late b = 0 →
      Short fl (store.db.insert s) b (if b = bucketOf s.atNs then store.late b + 1 else 0) := by
    intro b hb
    have hshort := (h.rows b).insert s
    by_cases hbucket : b = bucketOf s.atNs
    · rw [if_pos hbucket]
      rwa [if_pos ⟨hs, hbucket.symm⟩] at hshort
    · rw [if_neg hbucket]
      rw [if_neg fun hand => hbucket hand.2.symm] at hshort
      rwa [hb.resolve_left hbucket] at hshort
  unfold leavePending at hok
  cases hpending : store.pendingBucket with
  | none =>
    rw [hpending] at hok
    obtain rfl := Except.ok.inj hok
    exact ⟨rfl, fun b => hinserted b (.inr (by simp [Store.late, hpending]))⟩
  | some pending =>
    rw [hpending] at hok
    dsimp only at hok
    split at hok
    · next hleave =>
      have hrebuild := of_check hok
      have hlatest : latestBucket store.db = some pending := by
        rcases h.pending with ⟨hnone, -⟩ | ⟨b, hb, hlatest⟩
        · rw [hnone] at hpending
          cases hpending
        · rw [hlatest, ← hb, hpending]
      obtain ⟨atNs, hatNs, rfl⟩ := latestBucket_range h.range hlatest
      refine ⟨(rebuildRollup_ok hrebuild).1, ?_⟩
      intro b
      by_cases hb : b = bucketOf atNs
      · rw [hb, if_neg hleave.1]
        exact short_rebuild hrange hatNs hrebuild
      · have hlate : store.late b = 0 := by
          unfold Store.late
          rw [hpending, if_neg fun heq => hb (Option.some.inj heq).symm]
        exact (hinserted b (.inr hlate)).rebuild hb hrebuild
    · next hstay =>
      obtain rfl := Except.ok.inj hok
      refine ⟨rfl, fun b => hinserted b ?_⟩
      by_cases hb : b = bucketOf s.atNs
      · exact .inl hb
      · right
        unfold Store.late
        split
        · next heq =>
          rw [hpending] at heq
          obtain rfl := Option.some.inj heq
          -- the pending bucket is left with nothing to rebuild
          have hcount : ¬ store.pendingCount > 0 := fun hpos => hstay ⟨hb, hpos⟩
          omega
        · rfl

omit [LinearOrder F] in
theorem nextCount_eq (store : Store N F) (bucket : Int) :
    nextCount store bucket = store.late bucket + 1 := by
  unfold nextCount Store.late
  by_cases h : store.pendingBucket = some bucket
  · rw [if_neg (not_not.mpr h), if_pos h]
  · rw [if_pos h, if_neg h]

theorem writeRollups_rows {fl : Floats N F} {store : Store N F} (h : store.Inv fl)
    {s : Sample N} (hs : s.mode = "baseline") (hat : InRange s.atNs) {fails : Point → Bool}
    {db : Db N F} {count : Nat}
    (hok : writeRollups fl fails store (bucketOf s.atNs) (store.db.insert s) = .ok (db, count)) :
    db.samples = (store.db.insert s).samples ∧ count < 3 ∧
      ∀ b, Short fl db b (if some (bucketOf s.atNs) = some b then count else 0) := by
  obtain ⟨db₁, hleave, hok₁⟩ := bind_ok hok
  obtain ⟨hsamples, hrows⟩ := leavePending_rows h hs hat hleave
  split at hok₁
  · -- the third sample: its bucket is rebuilt
    obtain ⟨db₂, hdb, hpair⟩ := bind_ok (of_check hok₁)
    obtain ⟨rfl, rfl⟩ := Prod.mk.inj (Except.ok.inj hpair)
    have hrange : SamplesInRange db₁.samples := by
      rw [hsamples]
      exact samplesInRange_insert h.range fun _ => hat
    refine ⟨(rebuildRollup_ok hdb).1.trans hsamples, by decide, ?_⟩
    intro b
    rw [ite_self]
    by_cases hb : b = bucketOf s.atNs
    · rw [hb]
      exact short_rebuild hrange hat hdb
    · have hshort := hrows b
      rw [if_neg hb] at hshort
      exact hshort.rebuild hb hdb
  · next hcount =>
    obtain ⟨rfl, rfl⟩ := Prod.mk.inj (Except.ok.inj hok₁)
    refine ⟨hsamples, by omega, ?_⟩
    intro b
    have hshort := hrows b
    by_cases hb : b = bucketOf s.atNs
    · rw [if_pos hb] at hshort
      rw [if_pos (congrArg some hb.symm), nextCount_eq, ← hb]
      exact hshort
    · rw [if_neg hb] at hshort
      rw [if_neg fun heq => hb (Option.some.inj heq).symm]
      exact hshort

/-- A write keeps the invariant. -/
theorem Store.Inv.write {fl : Floats N F} {store store' : Store N F} (h : store.Inv fl)
    {s : Sample N} (hs : s.mode = "baseline" → InRange s.atNs) {fails : Point → Bool}
    (hok : write fl fails s store = .ok store') : store'.Inv fl := by
  have hok₁ := of_check (of_check hok)
  dsimp only at hok₁
  split at hok₁
  · next hmode =>
    obtain ⟨⟨db, count⟩, hrollups, hok₂⟩ := bind_ok hok₁
    obtain rfl := Except.ok.inj (of_check hok₂)
    obtain ⟨hsamples, hcount, hrows⟩ := writeRollups_rows h hmode (hs hmode) hrollups
    refine ⟨?_, hcount, .inr ?_, hrows⟩
    · dsimp only
      rw [hsamples]
      exact samplesInRange_insert h.range hs
    · have hlatest := latestBucket_insert store.db s
      rw [if_pos hmode] at hlatest
      refine ⟨_, rfl, ?_⟩
      rw [← hlatest]
      unfold latestBucket
      rw [hsamples]
  · next hmode =>
    obtain rfl := Except.ok.inj (of_check hok₁)
    refine ⟨samplesInRange_insert h.range hs, h.count, ?_, ?_⟩
    · have hlatest := latestBucket_insert store.db s
      rw [if_neg hmode] at hlatest
      rcases h.pending with hnone | ⟨b, hpending, hb⟩
      · exact .inl hnone
      · exact .inr ⟨b, hpending, hlatest.trans hb⟩
    · intro b
      have hshort := (h.rows b).insert s
      rw [if_neg fun hand => hmode hand.1] at hshort
      exact hshort

/-! ## Flushing and opening -/

theorem flushBucket_ok {fl : Floats N F} {fails : Point → Bool} {bucket : Int} {db db' : Db N F}
    (h : flushBucket fl fails bucket db = .ok db') : rebuildRollup fl bucket db = .ok db' := by
  obtain ⟨db₁, hrebuild, hcommit⟩ := bind_ok (of_check h)
  obtain rfl := Except.ok.inj (of_check hcommit)
  exact hrebuild

/-- Rebuilding the row of the sample inserted last leaves no row behind. -/
theorem Db.Inv.flush {fl : Floats N F} {db db' : Db N F} (h : db.Inv fl) {bucket : Int}
    (hlatest : latestBucket db = some bucket) (hok : rebuildRollup fl bucket db = .ok db') :
    db'.samples = db.samples ∧ ∀ b, Short fl db' b 0 := by
  obtain ⟨atNs, hat, rfl⟩ := latestBucket_range h.range hlatest
  refine ⟨(rebuildRollup_ok hok).1, ?_⟩
  intro b
  by_cases hb : b = bucketOf atNs
  · rw [hb]
    exact short_rebuild h.range hat hok
  · obtain ⟨late, -, hshort, hzero⟩ := h.rows b
    have hlate : late = 0 := by
      apply hzero
      rw [hlatest]
      exact fun heq => hb (Option.some.inj heq).symm
    rw [hlate] at hshort
    exact hshort.rebuild hb hok

/-- An open store with complete rows. -/
structure Store.Flushed (fl : Floats N F) (store : Store N F) : Prop extends store.Inv fl where
  flushed : store.pendingCount = 0

theorem Store.Flushed.rows_complete {fl : Floats N F} {store : Store N F} (h : store.Flushed fl)
    (b : Int) : Short fl store.db b 0 := by
  have hshort := h.rows b
  unfold Store.late at hshort
  rwa [h.flushed, ite_self] at hshort

theorem Store.Inv.flushRollups {fl : Floats N F} {store store' : Store N F} (h : store.Inv fl)
    {fails : Point → Bool} (hok : flushRollups fl fails store = .ok store') :
    store'.Flushed fl := by
  unfold HostStore.flushRollups at hok
  rcases h.pending with ⟨hnone, hcount⟩ | ⟨bucket, hpending, hlatest⟩
  · rw [hnone] at hok
    obtain rfl := Except.ok.inj hok
    exact ⟨h, hcount⟩
  · rw [hpending] at hok
    dsimp only at hok
    split at hok
    · obtain ⟨db, hflush, hstore⟩ := bind_ok hok
      obtain rfl := Except.ok.inj hstore
      obtain ⟨hsamples, hrows⟩ := h.db.flush hlatest (flushBucket_ok hflush)
      refine ⟨⟨?_, Nat.zero_lt_succ 2, .inr ⟨bucket, rfl, ?_⟩, ?_⟩, rfl⟩
      · dsimp only
        rw [hsamples]
        exact h.range
      · rw [← hlatest]
        unfold latestBucket
        rw [hsamples]
      · intro b
        simpa [Store.late] using hrows b
    · next hcount =>
      obtain rfl := Except.ok.inj hok
      exact ⟨h, by omega⟩

theorem Db.Inv.openStore {fl : Floats N F} {db : Db N F} {store : Store N F} (h : db.Inv fl)
    {fails : Point → Bool} (hok : openStore fl fails db = .ok store) : store.Flushed fl := by
  obtain ⟨db', hdb, hstore⟩ := bind_ok (of_check hok)
  obtain rfl := Except.ok.inj hstore
  unfold flushLatest at hdb
  have hcomplete : db'.samples = db.samples ∧ ∀ b, Short fl db' b 0 := by
    cases hlatest : latestBucket db with
    | none =>
      rw [hlatest] at hdb
      obtain rfl := Except.ok.inj hdb
      refine ⟨rfl, ?_⟩
      intro b
      obtain ⟨late, -, hshort, hzero⟩ := h.rows b
      rwa [hzero (by rw [hlatest]; simp)] at hshort
    | some bucket =>
      rw [hlatest] at hdb
      exact h.flush hlatest (flushBucket_ok hdb)
  refine ⟨⟨?_, Nat.zero_lt_succ 2, .inl ⟨rfl, rfl⟩, ?_⟩, rfl⟩
  · dsimp only
    rw [hcomplete.1]
    exact h.range
  · intro b
    exact hcomplete.2 b

/-! ## Whole runs -/

/-- The samples written are in range. -/
def Op.InRange : Op N → Prop
  | .write _ s => s.mode = "baseline" → HostStore.InRange s.atNs
  | _ => True

/-- The invariant of a state. -/
def State.Inv (fl : Floats N F) : State N F → Prop
  | .down db => db.Inv fl
  | .up store => store.Inv fl

theorem State.Inv.serveStep {fl : Floats N F} {state : State N F} (h : state.Inv fl) {op : Op N}
    (hop : op.InRange) : (serveStep fl state op).Inv fl := by
  cases state with
  | down db =>
    cases op with
    | «open» fails =>
      simp only [HostStore.serveStep]
      cases hok : openStore fl fails db with
      | error e => exact h
      | ok store => exact (h.openStore hok).toInv
    | write fails s => exact h
    | flushRollups fails => exact h
    | crash => exact h
  | up store =>
    cases op with
    | «open» fails => exact h
    | write fails s =>
      simp only [HostStore.serveStep]
      cases hok : HostStore.write fl fails s store with
      | error e => exact h
      | ok store' => exact Store.Inv.write h hop hok
    | flushRollups fails =>
      simp only [HostStore.serveStep]
      cases hok : HostStore.flushRollups fl fails store with
      | error e => exact h
      | ok store' => exact (Store.Inv.flushRollups h hok).toInv
    | crash => exact Store.Inv.db h

/-- The row of a bucket summarises all its samples but the `late` inserted last; there is
    no row when there are no such samples. -/
def RowShort (fl : Floats N F) (db : Db N F) (bucket : Int) (late : Nat) : Prop :=
  ∃ done rest, bucketSamples bucket db.samples = done ++ rest ∧ rest.length = late ∧
    (db.rollups.lookup bucket).elim (done = []) (Summarises fl (byTime done))

theorem Short.rowShort {fl : Floats N F} {db : Db N F} {bucket : Int} {late : Nat}
    (h : Short fl db bucket late) : RowShort fl db bucket late := by
  obtain ⟨done, rest, hsplit, hlength, hrow⟩ := h
  refine ⟨done, rest, hsplit, hlength, ?_⟩
  have hsummary := summarises_rollupOf hrow
  cases hlookup : db.rollups.lookup bucket with
  | none =>
    rw [hlookup] at hsummary
    have hlen : (byTime done).length = done.length := List.length_insertionSort _ _
    rw [show byTime done = [] from hsummary] at hlen
    exact List.length_eq_zero_iff.mp hlen.symm
  | some row =>
    rw [hlookup] at hsummary
    exact hsummary

/-- The state after some calls, crashes and reopenings from an empty database. -/
def stateAfter (fl : Floats N F) (ops : List (Op N)) : State N F :=
  run (serveStep fl) (.down ⟨[], []⟩) ops

theorem inv_stateAfter (fl : Floats N F) {ops : List (Op N)} (hops : ∀ op ∈ ops, op.InRange) :
    (stateAfter fl ops).Inv fl := by
  apply run_invariant
  · intro state op hop h
    exact h.serveStep (hops op hop)
  · refine ⟨by simp [SamplesInRange], ?_⟩
    intro b
    exact ⟨0, by decide, ⟨[], [], rfl, rfl, rfl⟩, fun _ => rfl⟩

/-- Rollups are complete: at every moment of every run, the row of each bucket summarises
    all its committed samples, except that the pending bucket of an open store is short
    by its pending count, less than three, and that after a crash the bucket of the last
    sample may be.  Right after an open or a flush there is no exception. -/
theorem rollups_complete (fl : Floats N F) (ops : List (Op N)) (hops : ∀ op ∈ ops, op.InRange) :
    (∀ store, stateAfter fl ops = .up store → store.pendingCount < 3 ∧
      ∀ b, RowShort fl store.db b
        (if store.pendingBucket = some b then store.pendingCount else 0)) ∧
    (∀ db, stateAfter fl ops = .down db → ∀ b, ∃ late < 3, RowShort fl db b late ∧
      (latestBucket db ≠ some b → late = 0)) ∧
    (∀ db fails store, stateAfter fl ops = .down db → openStore fl fails db = .ok store →
      ∀ b, RowShort fl store.db b 0) ∧
    ∀ store fails store', stateAfter fl ops = .up store →
      flushRollups fl fails store = .ok store' → ∀ b, RowShort fl store'.db b 0 := by
  have hinv := inv_stateAfter fl hops
  refine ⟨?_, ?_, ?_, ?_⟩
  · intro store hstate
    rw [hstate] at hinv
    have hstore : store.Inv fl := hinv
    exact ⟨hstore.count, fun b => (hstore.rows b).rowShort⟩
  · intro db hstate b
    rw [hstate] at hinv
    have hdb : db.Inv fl := hinv
    obtain ⟨late, hlate, hshort, hzero⟩ := hdb.rows b
    exact ⟨late, hlate, hshort.rowShort, hzero⟩
  · intro db fails store hstate hok b
    rw [hstate] at hinv
    exact ((Db.Inv.openStore hinv hok).rows_complete b).rowShort
  · intro store fails store' hstate hok b
    rw [hstate] at hinv
    exact ((Store.Inv.flushRollups hinv hok).rows_complete b).rowShort

/-- Integers for numbers. -/
def intFloats : Floats Int Int := ⟨id, 0, fun mean n x => (mean * n + x) / (n + 1)⟩

/-- A baseline sample with one reading of the processor. -/
def cpuSample (atNs : Int) (reading : Reading Int) : Sample Int :=
  ⟨atNs, atNs, "boot-a", "baseline", some ⟨[("cpu_busy_pct", reading)], by simp⟩, 0⟩

/-- Nothing fails. -/
def never : Point → Bool := fun _ => false

/-- Four samples of one minute, the store closed after them. -/
def minuteRun : List (Op Int) :=
  [.open never, .write never (cpuSample 3600000000000 (.number 10)),
    .write never (cpuSample 3605000000000 .other),
    .write never (cpuSample 3616000000000 (.number 30)),
    .write never (cpuSample 3620000000000 (.number 50)), .crash]

/-- The restart completes the row the fourth sample is missing from. -/
theorem rollups_complete_restart :
    (∃ db, stateAfter intFloats minuteRun = .down db ∧
      (db.rollups.lookup 3600000000000).map Rollup.sampleCount = some 3) ∧
    ∃ db store, stateAfter intFloats minuteRun = .down db ∧
      openStore intFloats never db = .ok store ∧
      (store.db.rollups.lookup 3600000000000).map Rollup.sampleCount = some 4 ∧
      ∀ b, RowShort intFloats store.db b 0 := by
  have hops : ∀ op ∈ minuteRun, op.InRange := by
    simp only [minuteRun, List.forall_mem_cons]
    refine ⟨trivial, ?_, ?_, ?_, ?_, trivial, by simp⟩
    all_goals
      intro _
      decide
  refine ⟨⟨_, rfl, rfl⟩, _, _, rfl, rfl, rfl, ?_⟩
  exact (rollups_complete intFloats minuteRun hops).2.2.1 _ never _ rfl rfl

/-- Three samples in the last minute of `i64`: the end of the minute wraps around, the
    rebuild selects nothing, and the row is missing though nothing is pending. -/
theorem last_minute_not_rolled_up :
    ∃ store, stateAfter intFloats
        [.open never, .write never (cpuSample 9223372036854775807 (.number 1)),
          .write never (cpuSample 9223372036854775807 (.number 2)),
          .write never (cpuSample 9223372036854775807 (.number 3))] = .up store ∧
      store.pendingCount = 0 ∧
      ¬ RowShort intFloats store.db (bucketOf 9223372036854775807) 0 := by
  refine ⟨_, rfl, rfl, ?_⟩
  rintro ⟨done, rest, hsplit, hlength, hrow⟩
  obtain rfl := List.length_eq_zero_iff.mp hlength
  have hdone : done = [] := hrow
  rw [hdone] at hsplit
  exact absurd hsplit (by decide)

end SummitFlow.HostStore
