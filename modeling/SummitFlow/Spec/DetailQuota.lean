import Mathlib.Algebra.Order.BigOperators.Group.List
import Mathlib.Algebra.Order.Group.Nat
import SummitFlow.Spec.PruneSteps

/-!
# The detail quota

The store keeps the size of its detail samples in `detail_bytes`, adds every new sample to it
and counts again after a deletion.  The count is never too low, and writes respect it, so the
samples never exceed their reserve.  It is exact wherever no SQLite step fails between the
deletion of detail samples and the next count; where one does, the call returns with a count
that is too high, until the next one.
-/

namespace SummitFlow.HostArchive

open Script

variable {N F α : Type}

/-! ## Counts -/

/-- The count is what is stored. -/
def Exact (s : Store N F) : Prop := s.detailBytes = s.archive.detailBytes

/-- The count is at least what is stored, and at most the reserve. -/
def Bounded (s : Store N F) : Prop :=
  (s.archive.detailBytes : Int) ≤ s.detailBytes ∧ s.detailBytes ≤ detailReserveBytes

/-- A SQLite step fails only while the count is exact. -/
def Steady (s : Store N F) (w : Answer) : Prop := s.detailBytes ≠ s.archive.detailBytes → w.fails = false

/-- Bounded, and exact as long as no step fails while the count is not. -/
def Sound (A : Store N F → Answer → Prop) (s : Store N F) : Prop :=
  Bounded s ∧ ((∀ t w, A t w → Steady t w) → Exact s)

theorem stable_bounded : Stable fun (s : Store N F) _ => Bounded s where
  blocked := fun _ _ _ h => h
  note := fun _ _ _ _ h => h

variable {A : Store N F → Answer → Prop} {s : Store N F} {l : List (Note N F)}

theorem stable_sound (A : Store N F → Answer → Prop) : Stable fun s _ => Sound A s where
  blocked := fun _ _ _ h => h
  note := fun _ _ _ _ h => h

theorem Bounded.sound_of_fails (h : Bounded s) {w : Answer} (hw : A s w) (hfails : w.fails = true) :
    Sound A s := by
  refine ⟨h, fun hsteady => ?_⟩
  by_contra hstale
  have hok := hsteady s w hw hstale
  rw [hfails] at hok
  cases hok

theorem Bounded.sound_of_exact (h : Bounded s) (hexact : Exact s) : Sound A s := ⟨h, fun _ => hexact⟩

/-- Where the count may be too high, steps that delete nothing fail only when it is not. -/
theorem bounded_guarded {c : Call N F α} (hc : Guarded c) (h : Bounded s) :
    Ends A (fun _ s _ => Bounded s) (fun _ s _ => Sound A s) c s l :=
  (hc A _ stable_bounded s l h).mono (fun _ _ _ h => h) fun _ _ _ ⟨h, _, _, hw, hfails⟩ =>
    h.sound_of_fails hw hfails

/-! ## Deletions and the count -/

/-- The samples of other modes do not count. -/
theorem detailBytes_eq_of_filter {db db' : Archive N F}
    (h : (db'.samples.filter fun row => row.mode == "detail") =
      db.samples.filter fun row => row.mode == "detail") : db'.detailBytes = db.detailBytes := by
  unfold Archive.detailBytes
  rw [h]

theorem detailBytes_dropSamples_le (p : Row N → Bool) (db : Archive N F) :
    (db.dropSamples p).detailBytes ≤ db.detailBytes := by
  have hsublist : (db.dropSamples p).samples.Sublist db.samples := dropOldest_sublist
  exact ((hsublist.filter _).map _).sum_le_sum fun _ _ => Nat.zero_le _

theorem detailBytes_dropAged_le (now : Int) (db : Archive N F) :
    (db.dropAged now).detailBytes ≤ db.detailBytes :=
  detailBytes_dropSamples_le _ db

/-- Where nothing went nothing is different. -/
theorem samples_dropSamples_of_none {p : Row N → Bool} {db : Archive N F}
    (h : (taken db (db.dropSamples p)).1 = 0) : (db.dropSamples p).samples = db.samples := by
  have hle : (db.dropSamples p).samples.length ≤ db.samples.length := length_dropOldest_le
  have hzero : db.samples.length - (db.dropSamples p).samples.length = 0 := h
  exact (none_of_length_eq (by decide) (by omega : (db.dropSamples p).samples.length = _)).1

/-- Deleting baseline samples leaves the details. -/
theorem detailBytes_dropBaseline (now : Int) (db : Archive N F) :
    (db.dropBaseline now).detailBytes = db.detailBytes := by
  apply detailBytes_eq_of_filter
  show (List.filter _ (dropOldest Row.key (·.id) _ _ db.samples)) = _
  unfold dropOldest
  rw [List.filter_filter]
  apply List.filter_congr
  intro row hrow
  cases hmode : row.mode == "detail" with
  | false => rfl
  | true =>
    have hkept : row.id ∉ (oldest Row.key (fun row => row.mode == "baseline" &&
        HostStore.olderThan HostStore.recentBaselineNs now row.atNs) HostStore.retentionBatchRows
        db.samples).map (·.id) := by
      intro hid
      obtain ⟨old, hold, hsame⟩ := List.mem_map.mp hid
      obtain rfl := List.inj_on_of_nodup_map db.sampleIds (mem_of_oldest hold).1 hrow hsame
      have hbaseline := (Bool.and_eq_true_iff.mp (mem_of_oldest hold).2).1
      rw [beq_iff_eq] at hmode hbaseline
      rw [hmode] at hbaseline
      exact absurd hbaseline (by decide)
    simpa using hkept

theorem bounded_delete {f : Archive N F → Archive N F}
    (hf : ∀ db : Archive N F, (f db).detailBytes ≤ db.detailBytes) (h : Bounded s) :
    Ends A (fun _ s _ => Bounded s) (fun _ s _ => Sound A s) (delete f) s l := by
  apply ends_delete
  · have hle : ((f s.archive).detailBytes : Int) ≤ s.archive.detailBytes := by exact_mod_cast hf _
    exact ⟨hle.trans h.1, h.2⟩
  · exact fun w hw hfails => h.sound_of_fails hw hfails

/-- The next count is exact again. -/
theorem sound_recount (h : Bounded s) :
    Ends A (fun _ s _ => Sound A s) (fun _ s _ => Sound A s) recount s l := by
  apply ends_sqlite
  · intro w _ _ a _
    exact Bounded.sound_of_exact ⟨le_rfl, h.1.trans h.2⟩ rfl
  · intro w _ _ e he
    cases he
  · exact fun w hw hfails => h.sound_of_fails hw hfails

/-- A batch of details: where none went the count is as good as before. -/
theorem sound_dropDetail (h : Sound A s) :
    Ends A (fun n s _ => Bounded s ∧ (n.1 = 0 → Sound A s)) (fun _ s _ => Sound A s)
      (delete Archive.dropDetail) s l := by
  have hle : ((s.archive.dropDetail).detailBytes : Int) ≤ s.archive.detailBytes := by
    exact_mod_cast detailBytes_dropSamples_le _ s.archive
  have hbounded : Bounded { s with archive := s.archive.dropDetail } := ⟨hle.trans h.1.1, h.1.2⟩
  apply ends_delete
  · refine ⟨hbounded, fun hnone => ⟨hbounded, fun hsteady => ?_⟩⟩
    have hsame : s.archive.dropDetail.detailBytes = s.archive.detailBytes := by
      apply detailBytes_eq_of_filter
      rw [Archive.dropDetail, samples_dropSamples_of_none hnone]
    show s.detailBytes = s.archive.dropDetail.detailBytes
    rw [hsame]
    exact h.2 hsteady
  · exact fun w hw hfails => h.1.sound_of_fails hw hfails

theorem sound_dropBaseline (now : Int) (h : Sound A s) :
    Ends A (fun _ s _ => Sound A s) (fun _ s _ => Sound A s) (delete (Archive.dropBaseline now)) s l := by
  have hsame := detailBytes_dropBaseline now s.archive
  apply ends_delete
  · refine ⟨⟨?_, h.1.2⟩, fun hsteady => ?_⟩
    · show ((s.archive.dropBaseline now).detailBytes : Int) ≤ s.detailBytes
      rw [hsame]
      exact h.1.1
    · show s.detailBytes = (s.archive.dropBaseline now).detailBytes
      rw [hsame]
      exact h.2 hsteady
  · exact fun w hw hfails => h.1.sound_of_fails hw hfails

/-- Events do not count. -/
theorem sound_event (atNs : Int) (kind : String) (details : Details) (h : Sound A s) :
    Ends A (fun _ s _ => Sound A s) (fun _ s _ => Sound A s) (event atNs kind details) s l := by
  apply Ends.bind ((guarded_ask _).quiet.ends A (stable_sound A) h)
  intro full s l h
  split
  · exact h
  · apply ends_sqlite
    · exact fun w _ _ a _ => h
    · intro w _ _ e he
      cases he
    · exact fun w _ _ => h

/-! ## Pruning -/

section

variable {now : Int} {maxBytes minFree : Nat}

theorem bounded_agedBatch (h : Bounded s) :
    Ends A (fun _ s _ => Bounded s) (fun _ s _ => Sound A s) (agedBatch now) s l := by
  have hattempt := guarded_attempt (N := N) (F := F) fun _ => ()
  apply Ends.bind (bounded_guarded hattempt h)
  intro _ s l h
  apply Ends.bind (bounded_guarded hattempt h)
  intro _ s l h
  apply Ends.bind (bounded_guarded hattempt h)
  intro _ s l h
  apply Ends.bind (bounded_guarded hattempt h)
  intro _ s l h
  exact bounded_delete (detailBytes_dropAged_le now) h

/-- From the first age batch on the count may be too high. -/
theorem bounded_agedLoop (batches aged : Nat) (h : Bounded s) :
    Ends A (fun _ s _ => Bounded s) (fun _ s _ => Sound A s)
      (agedLoop now maxBytes minFree batches aged) s l := by
  induction batches generalizing aged s l with
  | zero => exact h
  | succ batches ih =>
    apply Ends.bind (bounded_guarded (guarded_ask _) h)
    intro late s l h
    split
    · exact h
    · apply Ends.bind (bounded_agedBatch h)
      rintro ⟨samples, rows⟩ s l h
      dsimp only
      split
      · exact h
      · apply Ends.bind (bounded_guarded guarded_crowded h)
        intro crowded s l h
        split
        · apply Ends.bind (bounded_guarded (guarded_reclaimPages 100) h)
          intro _ s l h
          apply Ends.bind (bounded_guarded guarded_truncateCheckpoint h)
          intro done s l h
          split
          · exact ih _ h
          · exact h
        · exact ih _ h

theorem sound_evictBatch (evicted : Nat × Nat) (h : Sound A s) :
    Ends A (fun _ s _ => Sound A s) (fun _ s _ => Sound A s) (evictBatch now evicted) s l := by
  apply Ends.bind (sound_dropDetail h)
  rintro ⟨detail, rows⟩ s l ⟨hbounded, hnone⟩
  dsimp only at hnone ⊢
  split
  · exact Ends.bind (sound_recount hbounded) fun _ _ _ h => h
  · next hzero =>
    apply Ends.bind (sound_dropBaseline now (hnone (by omega)))
    rintro ⟨baseline, rows⟩ s l h
    dsimp only
    split
    · exact h
    · exact h

theorem sound_evictLoop (batches : Nat) (evicted : Nat × Nat) (h : Sound A s) :
    Ends A (fun _ s _ => Sound A s) (fun _ s _ => Sound A s)
      (evictLoop now maxBytes minFree batches evicted) s l := by
  have hstable := stable_sound A
  induction batches generalizing evicted s l with
  | zero => exact h
  | succ batches ih =>
    apply Ends.bind ((guarded_ask _).quiet.ends A hstable h)
    intro blocked s l h
    split
    · exact h
    apply Ends.bind ((guarded_ask _).quiet.ends A hstable h)
    intro late s l h
    split
    · exact h
    apply Ends.bind (guarded_overLimits.quiet.ends A hstable h)
    intro exceeds s l h
    split
    · apply Ends.bind (sound_evictBatch evicted h)
      intro next s l h
      cases next with
      | none => exact h
      | some evicted =>
        apply Ends.bind ((guarded_reclaimPages 500).quiet.ends A hstable h)
        intro _ s l h
        apply Ends.bind (guarded_truncateCheckpoint.quiet.ends A hstable h)
        intro done s l h
        split
        · exact ih _ h
        · exact h
    · exact h

theorem sound_noteEvicted (aged : Nat) (evicted : Nat × Nat) (h : Sound A s) :
    Ends A (fun _ s _ => Sound A s) (fun _ s _ => Sound A s) (noteEvicted now aged evicted) s l := by
  unfold noteEvicted
  split
  · have hnote : Ends A (fun _ s _ => Sound A s) (fun _ s _ => Sound A s) (noteGap now aged evicted)
        s l := Ends.tryCatch (sound_event _ _ _ h) fun _ _ _ h => ends_pure h
    apply Ends.bind hnote
    intro _ s l h
    exact guarded_reclaimEvicted.quiet.ends A (stable_sound A) h
  · exact h

theorem sound_pruneTo (h : Sound A s) :
    Ends A (fun _ s _ => Sound A s) (fun _ s _ => Sound A s) (pruneTo now maxBytes minFree) s l := by
  have hstable := stable_sound A
  apply Ends.bind ((guarded_hasHeadroom _ _).quiet.ends A hstable h)
  intro ok s l h
  apply Ends.bind ((quiet_mayReclaim _).ends A hstable h)
  intro goes s l h
  split
  · apply Ends.bind ((guarded_reclaimFirst _).quiet.ends A hstable h)
    intro _ s l h
    apply Ends.bind (bounded_agedLoop _ _ h.1)
    intro aged s l h
    apply Ends.bind (sound_recount h)
    intro _ s l h
    apply Ends.bind (sound_evictLoop _ _ h)
    intro evicted s l h
    apply Ends.bind (sound_noteEvicted _ _ h)
    intro _ s l h
    apply Ends.bind (guarded_lastCheckpoint.quiet.ends A hstable h)
    intro _ s l h
    exact quiet_pruneResult.ends A hstable h
  · exact h

end

/-! ## Eviction and writes -/

theorem quiet_readyToEvict : Quiet (readyToEvict : Call N F Unit) := by
  apply Quiet.bind (guarded_hasHeadroom _ _).quiet
  intro ok
  apply Quiet.ite _ (quiet_message _)
  apply Quiet.bind guarded_checkpointReady.quiet
  intro ready
  exact Quiet.ite (quiet_pure ()) (quiet_message _)

theorem sound_evictDetailLoop (incoming quota : Int) (turns evicted : Nat) (h : Sound A s) :
    Ends A (fun _ s _ => Sound A s) (fun _ s _ => Sound A s)
      (evictDetailLoop incoming quota turns evicted) s l := by
  have hstable := stable_sound A
  induction turns generalizing evicted s l with
  | zero => exact h
  | succ turns ih =>
    unfold evictDetailLoop
    apply Ends.bind ((guarded_ask _).quiet.ends A hstable h)
    intro fits s l h
    split
    · exact h
    apply Ends.bind (quiet_readyToEvict.ends A hstable h)
    intro _ s l h
    apply Ends.bind (sound_dropDetail h)
    rintro ⟨n, rows⟩ s l ⟨hbounded, hnone⟩
    dsimp only at hnone ⊢
    split
    · next hzero => exact hnone hzero
    · apply Ends.bind (sound_recount hbounded)
      intro _ s l h
      apply Ends.bind (guarded_truncateCheckpoint.quiet.ends A hstable h)
      intro done s l h
      split
      · exact ih _ h
      · exact h

theorem sound_evictDetailTo (incoming atNs quota : Int) (h : Sound A s) :
    Ends A (fun _ s _ => Sound A s) (fun _ s _ => Sound A s) (evictDetailTo incoming atNs quota)
      s l := by
  apply Ends.bind ((guarded_ask _).quiet.ends A (stable_sound A) h)
  intro rows s l h
  apply Ends.bind (sound_evictDetailLoop incoming quota (rows + 1) 0 h)
  rintro ⟨evicted, blocked⟩ s l h
  have hnote : Ends A (fun _ s _ => Sound A s) (fun _ s _ => Sound A s) (noteQuota atNs evicted)
      s l := by
    unfold noteQuota
    split
    · exact sound_event _ _ _ h
    · exact h
  apply Ends.bind hnote
  intro _ s l h
  split
  · exact h
  · exact h

/-- A sample that passes the check has room. -/
theorem le_of_satAddSigned_le {a b : Int} (h : satAddSigned a b ≤ detailReserveBytes) :
    a + b ≤ detailReserveBytes := by
  unfold satAddSigned detailReserveBytes at *
  omega

section

variable {c : Capture N} {maxBytes minFree : Nat}

/-- The count leaves room for the sample. -/
def HasRoom (c : Capture N) (s : Store N F) : Prop :=
  c.mode = "detail" → s.detailBytes + c.blobBytes ≤ detailReserveBytes

theorem stable_room (A : Store N F → Answer → Prop) (c : Capture N) :
    Stable fun s _ => Sound A s ∧ HasRoom c s where
  blocked := fun _ _ _ h => h
  note := fun _ _ _ _ h => h

/-- The check before a write. -/
theorem room_admission (h : Sound A s) :
    Ends A (fun _ s _ => Sound A s ∧ HasRoom c s) (fun _ s _ => Sound A s)
      (admission c maxBytes minFree) s l := by
  have hstable := stable_sound A
  unfold admission
  split
  · apply Ends.bind ((guarded_hasHeadroom _ _).quiet.ends A hstable h)
    intro ok s l h
    split
    · apply Ends.bind (sound_evictDetailTo _ _ _ h)
      intro _ s l h
      have hasked : Ends A (fun exceeds s _ => Sound A s ∧ (exceeds = false → HasRoom c s))
          (fun _ s _ => Sound A s)
          (ask fun st _ => decide (detailReserveBytes < satAddSigned st.detailBytes c.blobBytes))
          s l := by
        apply ends_ask
        intro w _
        refine ⟨h, fun hfits _ => ?_⟩
        rw [decide_eq_false_iff_not, not_lt] at hfits
        exact le_of_satAddSigned_le hfits
      apply Ends.bind hasked
      rintro exceeds s l ⟨h, hroom⟩
      split
      · exact h
      · next hover =>
        have hboth : Sound A s ∧ HasRoom c s := ⟨h, hroom (by simpa using hover)⟩
        have hheadroom : Ends A (fun _ s _ => Sound A s ∧ HasRoom c s)
            (fun _ s _ => Sound A s ∧ HasRoom c s) (hasHeadroom maxBytes minFree) s l :=
          (guarded_hasHeadroom _ _).quiet.ends A (stable_room A c) hboth
        apply Ends.bind (hheadroom.mono (fun _ _ _ h => h) fun _ _ _ h => h.1)
        intro ok s l hboth
        split
        · exact hboth
        · exact hboth.1
    · exact h
  · next hmode =>
    have hprune : Ends A (fun _ s _ => Sound A s) (fun _ s _ => Sound A s)
        (pruneForBaseline c maxBytes minFree) s l := by
      apply Ends.bind ((guarded_hasHeadroom _ _).quiet.ends A hstable h)
      intro ok s l h
      split
      · exact h
      · exact Ends.tryCatch (sound_pruneTo h) fun _ _ _ h => ends_throw h
    apply Ends.bind hprune
    intro _ s l h
    apply Ends.bind ((guarded_hasHeadroom _ _).quiet.ends A hstable h)
    intro ok s l h
    split
    · exact ⟨h, fun hdetail => absurd hdetail hmode⟩
    · exact h

theorem detailBytes_insertSample (c : Capture N) (db : Archive N F) :
    (db.insertSample c).detailBytes =
      db.detailBytes + if c.mode = "detail" then c.blobBytes else 0 := by
  unfold Archive.detailBytes Archive.insertSample
  rw [List.filter_append, List.map_append, List.sum_append]
  congr 1
  by_cases hmode : c.mode = "detail"
  · rw [List.filter_cons_of_pos (by simpa using hmode), if_pos hmode]
    simp
  · rw [List.filter_cons_of_neg (by simpa using hmode), if_neg hmode]
    rfl

section

variable [LinearOrder F] {fl : HostStore.Floats N F}

/-- A write changes the samples and the count by the same. -/
theorem withSample_ok {store : Store N F} (h : withSample c fl s = .ok store) :
    store.archive.detailBytes = (s.archive.insertSample c).detailBytes ∧
      store.detailBytes = s.detailBytes + if c.mode = "detail" then (c.blobBytes : Int) else 0 := by
  unfold withSample at h
  split at h
  · next hmode =>
    obtain ⟨⟨core, count⟩, -, h⟩ := bind_ok h
    obtain rfl := Except.ok.inj h
    rw [if_neg (by rw [hmode]; decide), add_zero]
    exact ⟨rfl, rfl⟩
  · obtain rfl := Except.ok.inj h
    refine ⟨rfl, ?_⟩
    dsimp only
    split
    · rfl
    · rw [add_zero]

theorem sound_withSample {store : Store N F} (hstored : withSample c fl s = .ok store)
    (h : Sound A s) (hroom : HasRoom c s) : Sound A store := by
  obtain ⟨hsum, hcount⟩ := withSample_ok hstored
  rw [detailBytes_insertSample] at hsum
  obtain ⟨⟨hlow, hhigh⟩, hexact⟩ := h
  by_cases hmode : c.mode = "detail"
  · have hfits := hroom hmode
    rw [if_pos hmode] at hsum hcount
    refine ⟨⟨by omega, by omega⟩, fun hsteady => ?_⟩
    have hold : s.detailBytes = s.archive.detailBytes := hexact hsteady
    show store.detailBytes = store.archive.detailBytes
    omega
  · rw [if_neg hmode] at hsum hcount
    refine ⟨⟨by omega, by omega⟩, fun hsteady => ?_⟩
    have hold : s.detailBytes = s.archive.detailBytes := hexact hsteady
    show store.detailBytes = store.archive.detailBytes
    omega

theorem sound_storeSample (h : Sound A s) (hroom : HasRoom c s) :
    Ends A (fun _ s _ => Sound A s) (fun _ s _ => Sound A s) (storeSample c fl) s l := by
  have hattempt : ∀ s l, Sound A s ∧ HasRoom c s →
      Ends A (fun _ s _ => Sound A s ∧ HasRoom c s) (fun _ s _ => Sound A s)
        (attempt fun _ => ()) s l := fun s l hboth =>
    ((guarded_attempt fun _ => ()).quiet.ends A (stable_room A c) hboth).mono (fun _ _ _ h => h)
      fun _ _ _ h => h.1
  apply Ends.bind (hattempt s l ⟨h, hroom⟩)
  intro _ s l hboth
  apply Ends.bind (hattempt s l hboth)
  intro _ s l hboth
  apply Ends.bind (hattempt s l hboth)
  rintro _ s l ⟨h, hroom⟩
  cases hstored : withSample c fl s with
  | ok store =>
    have hstore := sound_withSample hstored h hroom
    apply ends_sqlite
    · intro w _ _ a _
      rw [hstored]
      exact hstore
    · intro w _ _ e he
      rw [hstored] at he
      cases he
    · exact fun w _ _ => h
  | error e =>
    apply ends_sqlite
    · intro w _ _ a ha
      rw [hstored] at ha
      cases ha
    · intro w _ _ e _
      rw [hstored]
      exact h
    · exact fun w _ _ => h

theorem sound_writeWithLimits (h : Sound A s) :
    Ends A (fun _ s _ => Sound A s) (fun _ s _ => Sound A s)
      (writeWithLimits c maxBytes minFree fl) s l := by
  unfold writeWithLimits
  split
  · exact h
  · apply Ends.bind (room_admission h)
    rintro _ s l ⟨h, hroom⟩
    exact sound_storeSample h hroom

theorem sound_flushRollups (h : Sound A s) :
    Ends A (fun _ s _ => Sound A s) (fun _ s _ => Sound A s) (flushRollups fl) s l := by
  have hstable := stable_sound A
  apply Ends.bind ((guarded_ask _).quiet.ends A hstable h)
  intro pending s l h
  cases pending with
  | none => exact h
  | some bucket =>
    apply Ends.bind ((guarded_attempt _).quiet.ends A hstable h)
    intro _ s l h
    apply Ends.bind ((guarded_attempt _).quiet.ends A hstable h)
    intro _ s l h
    cases hrebuilt : HostStore.rebuildRollup fl bucket s.archive.core with
    | ok core =>
      apply ends_sqlite
      · intro w _ _ a _
        rw [hrebuilt]
        exact h
      · intro w _ _ e he
        rw [hrebuilt] at he
        cases he
      · exact fun w _ _ => h
    | error e =>
      apply ends_sqlite
      · intro w _ _ a ha
        rw [hrebuilt] at ha
        cases ha
      · intro w _ _ e _
        rw [hrebuilt]
        exact h
      · exact fun w _ _ => h

/-- Every request. -/
theorem sound_program (request : Request N) (h : Sound A s) :
    Ends A (fun _ s _ => Sound A s) (fun _ s _ => Sound A s) (request.program fl) s l := by
  cases request with
  | write c maxBytes minFree => exact sound_writeWithLimits h
  | evictDetailTo incoming atNs quota => exact sound_evictDetailTo incoming atNs quota h
  | pruneTo now maxBytes minFree => exact sound_pruneTo h
  | flushRollups => exact sound_flushRollups h
  | event atNs kind details => exact sound_event atNs kind details h

end

end

/-! ## Turns of the eviction loop -/

/-- On the turns left: each takes a row. -/
theorem turns_evictDetailLoop (incoming quota : Int) (turns evicted : Nat)
    (h : s.archive.samples.length < turns) :
    Ends A (fun _ _ _ => True) (fun e _ _ => e ≠ .outOfFuel)
      (evictDetailLoop incoming quota turns evicted) s l := by
  have hkeep : ∀ (k : Nat), Stable fun (t : Store N F) (_ : List (Note N F)) =>
      t.archive.samples.length < k := fun k => ⟨fun _ _ _ h => h, fun _ _ _ _ h => h⟩
  have hends : ∀ {α : Type} {c : Call N F α} (k : Nat) {s : Store N F} {l : List (Note N F)},
      Quiet c → s.archive.samples.length < k → Ends A (fun _ t _ => t.archive.samples.length < k)
        (fun e _ _ => e ≠ .outOfFuel) c s l := fun k s l hc hk =>
    (hc A _ (hkeep k) s l hk).mono (fun _ _ _ h => h) fun _ _ _ h => h.2
  induction turns generalizing evicted s l with
  | zero => exact absurd h (by omega)
  | succ turns ih =>
    unfold evictDetailLoop
    apply Ends.bind (hends (turns + 1) (guarded_ask _).quiet h)
    intro fits s l h
    split
    · trivial
    apply Ends.bind (hends (turns + 1) quiet_readyToEvict h)
    intro _ s l h
    have hdelete : Ends A (fun n t _ => n.1 = 0 ∨ t.archive.samples.length < turns)
        (fun e _ _ => e ≠ .outOfFuel) (delete Archive.dropDetail) s l := by
      apply ends_delete
      · have htaken : (taken s.archive s.archive.dropDetail).1 =
            s.archive.samples.length - s.archive.dropDetail.samples.length := rfl
        show (taken s.archive s.archive.dropDetail).1 = 0 ∨
          s.archive.dropDetail.samples.length < turns
        omega
      · exact fun w _ _ => by decide
    apply Ends.bind hdelete
    rintro ⟨n, rows⟩ s l hn
    dsimp only at hn ⊢
    split
    · trivial
    · next hne =>
      have hrecount : Ends A (fun _ t _ => t.archive.samples.length < turns)
          (fun e _ _ => e ≠ .outOfFuel) recount s l := by
        apply ends_sqlite
        · exact fun w _ _ _ _ => hn.resolve_left hne
        · intro w _ _ e he
          cases he
        · exact fun w _ _ => by decide
      apply Ends.bind hrecount
      intro _ s l h
      apply Ends.bind (hends turns guarded_truncateCheckpoint.quiet h)
      intro done s l h
      split
      · exact ih _ h
      · trivial

/-- The loop has turns enough. -/
theorem evictDetailTo_returns (incoming atNs quota : Int) (store : Store N F)
    (world : Nat → Answer) :
    ((evictDetailTo incoming atNs quota).exec store world).2 ≠ .error .outOfFuel := by
  have hends : Ends (fun _ _ => True) (fun _ _ _ => True) (fun e _ _ => e ≠ .outOfFuel)
      (evictDetailTo incoming atNs quota) store [] := by
    have hrows : Ends (fun _ _ => True) (fun n (t : Store N F) _ => t.archive.samples.length < n + 1)
        (fun e _ _ => e ≠ .outOfFuel) (ask fun s _ => s.archive.samples.length) store
        ([] : List (Note N F)) := ends_ask fun _ _ => Nat.lt_succ_self _
    apply Ends.bind hrows
    intro rows s l h
    apply Ends.bind (turns_evictDetailLoop incoming quota (rows + 1) 0 h)
    rintro ⟨evicted, blocked⟩ s l -
    have hnote : Ends (fun _ _ => True) (fun _ _ _ => True) (fun e _ _ => e ≠ .outOfFuel)
        (noteQuota atNs evicted) s l := by
      unfold noteQuota
      split
      · have hfull : Ends (fun _ _ => True) (fun _ _ _ => True) (fun e _ _ => e ≠ .outOfFuel)
            (ask fun _ w => decide (maxBytes - 64 * 1024 * 1024 ≤ w.bytes) ||
              decide (w.free < minFreeBytes)) s l := ends_ask fun _ _ => trivial
        apply Ends.bind hfull
        intro full s l _
        split
        · exact fun h => (by cases h)
        · apply ends_sqlite
          · exact fun w _ _ _ _ => trivial
          · intro w _ _ e he
            cases he
          · exact fun w _ _ => by decide
      · trivial
    apply Ends.bind hnote
    intro _ s l _
    split
    · exact fun h => (by cases h)
    · trivial
  have hafter := (hends.exec (along_true _ store world)).2
  intro herror
  exact hafter _ herror rfl

/-! ## Runs -/

/-- A count that is too high may always be met by a failure. -/
theorem Bounded.sound_true (h : Bounded s) : Sound (fun _ _ => True) s := by
  refine ⟨h, fun hsteady => ?_⟩
  by_contra hstale
  have hok := hsteady s ⟨true, 0, 0, 0, false, false, 0, false⟩ trivial hstale
  cases hok

section

variable [LinearOrder F] (fl : HostStore.Floats N F)

/-- The database of a state. -/
def State.archive : State N F → Archive N F
  | .down db => db
  | .up store => store.archive

/-- No SQLite step of the operation fails while the count is not what is stored. -/
def Unbroken (state : State N F) (op : Op N) : Prop :=
  match state, op with
  | .up store, .serve request world => (request.program fl).Along Steady store world
  | _, _ => True

/-- None of the run's does. -/
def UnbrokenRun : State N F → List (Op N) → Prop
  | _, [] => True
  | state, op :: ops => Unbroken fl state op ∧ UnbrokenRun (serveStep fl state op) ops

/-- The database is within the reserve, and so is the count, which is exact under the
    condition. -/
def Kept (C : Prop) : State N F → Prop
  | .down db => (db.detailBytes : Int) ≤ detailReserveBytes
  | .up store => Bounded store ∧ (C → Exact store)

variable {fl}

theorem openStore_ok {fails : HostStore.Point → Bool} {db : Archive N F} {store : Store N F}
    (h : openStore fl fails db = .ok store) :
    store.archive.detailBytes = db.detailBytes ∧ store.detailBytes = db.detailBytes := by
  unfold openStore at h
  obtain ⟨_, -, h⟩ := bind_ok h
  obtain ⟨core, -, h⟩ := bind_ok h
  obtain rfl := Except.ok.inj h
  exact ⟨rfl, rfl⟩

/-- One operation. -/
theorem Kept.step {C : Prop} {state : State N F} (h : Kept C state) (op : Op N) :
    Kept (C ∧ Unbroken fl state op) (serveStep fl state op) := by
  cases state with
  | down db =>
    cases op with
    | «open» fails =>
      simp only [serveStep]
      cases hopen : openStore fl fails db with
      | error e => exact h
      | ok store =>
        obtain ⟨hsum, hcount⟩ := openStore_ok hopen
        have hle : (db.detailBytes : Int) ≤ detailReserveBytes := h
        have hexact : Exact store := by
          unfold Exact
          rw [hsum, hcount]
        exact ⟨⟨by rw [hexact], by rw [hcount]; exact hle⟩, fun _ => hexact⟩
    | serve request world => exact h
    | crash => exact h
  | up store =>
    obtain ⟨hbounded, hexact⟩ := h
    cases op with
    | «open» fails => exact ⟨hbounded, fun hc => hexact hc.1⟩
    | crash =>
      show (store.archive.detailBytes : Int) ≤ detailReserveBytes
      exact hbounded.1.trans hbounded.2
    | serve request world =>
      show Bounded ((request.program fl).exec store world).1 ∧ _
      have hends : ∀ {A : Store N F → Answer → Prop}, Sound A store →
          (request.program fl).Along A store world →
            Sound A ((request.program fl).exec store world).1 := by
        intro A hsound halong
        have hprogram : Ends A (fun _ s _ => Sound A s) (fun _ s _ => Sound A s)
            (request.program fl) store [] := sound_program request hsound
        exact hprogram.after halong
      refine ⟨(hends hbounded.sound_true (along_true _ store world)).1, ?_⟩
      rintro ⟨hc, hsteady⟩
      have hsound : Sound Steady store := hbounded.sound_of_exact (hexact hc)
      exact (hends hsound hsteady).2 fun _ _ h => h

/-- A run. -/
theorem Kept.run {C : Prop} {state : State N F} (h : Kept C state) (ops : List (Op N)) :
    Kept (C ∧ UnbrokenRun fl state ops) (SummitFlow.run (serveStep fl) state ops) := by
  induction ops generalizing state C with
  | nil =>
    cases state with
    | down db => exact h
    | up store => exact ⟨h.1, fun hc => h.2 hc.1⟩
  | cons op ops ih =>
    have hstep : Kept (C ∧ Unbroken fl state op) (serveStep fl state op) := h.step op
    have hrest := ih hstep
    rw [run_cons]
    cases hfinal : SummitFlow.run (serveStep fl) (serveStep fl state op) ops with
    | down db =>
      rw [hfinal] at hrest
      exact hrest
    | up store =>
      rw [hfinal] at hrest
      exact ⟨hrest.1, fun hc => hrest.2 ⟨⟨hc.1, hc.2.1⟩, hc.2.2⟩⟩

/-- Nothing is stored. -/
def Archive.empty : Archive N F := ⟨[], [], [], List.nodup_nil, List.nodup_nil⟩

end

/-! ## A failure before the count -/

/-- Integers for floating point numbers. -/
def intFloats : HostStore.Floats Int Int := ⟨id, 0, fun mean count x => (mean * count + x) / (count + 1)⟩

/-- Every step succeeds. -/
def succeeds (_ : Nat) : Answer := ⟨false, 0, 2 ^ 40, 0, false, false, 0, false⟩

end SummitFlow.HostArchive
