import SummitFlow.Spec.PruneSteps

/-!
# What pruning keeps

Wherever `prune_to` stops, what it deleted was old, or was deleted under pressure: samples of
the last 48 hours only without storage headroom or over the baseline reserve, details before
baseline samples, and no baseline sample of the last hour; each mode, the rollups and the
events oldest first; rollups and events only after 14 days.  The clock has to be one from
which these ages can be subtracted in `i64`.
-/

namespace SummitFlow.HostArchive

open Script

open HostStore (wrap64 rawAgeNs rollupAgeNs recentBaselineNs minuteNs olderThan
  retentionBatchRows wrap64_of_range)

variable {N F : Type}

/-! ## The promise -/

/-- The last answer about storage headroom. -/
def lastHeadroom (log : List (Note N F)) : Option Bool :=
  log.reverse.findSome? fun
    | .headroom ok => some ok
    | _ => none

/-- The last size of the baseline samples. -/
def lastBaseline (log : List (Note N F)) : Option Nat :=
  log.reverse.findSome? fun
    | .baseline bytes => some bytes
    | _ => none

/-- Storage headroom was found missing, or the baseline samples beyond their reserve. -/
def Short (log : List (Note N F)) : Prop :=
  lastHeadroom log = some false ∨
    ∃ bytes, lastBaseline log = some bytes ∧ baselineReserveBytes < bytes

/-- The batch of the log that took the sample. -/
structure TakenUnderPressure (log : List (Note N F)) (row : Row N) (earlier : List (Note N F))
    (before after : Archive N F) : Prop where
  batch : ∃ later, log = earlier ++ .deleted before after :: later
  present : row ∈ before.samples
  gone : row ∉ after.samples
  short : Short earlier
  noDetail : row.mode = "baseline" → ∀ kept ∈ before.samples, kept.mode ≠ "detail"

/-- What a call that began with one database, said this and has come to another one deleted. -/
structure Promise (now : Int) (start : Archive N F) (log : List (Note N F)) (db : Archive N F) :
    Prop where
  young : ∀ row ∈ start.samples, row ∉ db.samples → now - rawAgeNs ≤ row.atNs →
    ∃ earlier before after, TakenUnderPressure log row earlier before after
  recent : ∀ row ∈ start.samples, row ∉ db.samples → row.mode = "baseline" →
    row.atNs < now - recentBaselineNs
  samplesInOrder : ∀ row ∈ start.samples, row ∉ db.samples →
    ∀ kept ∈ db.samples, kept.mode = row.mode → row.key < kept.key
  rollups : ∀ row ∈ start.rollups, row ∉ db.rollups →
    row.1 < now - rollupAgeNs ∧ ∀ kept ∈ db.rollups, row.1 < kept.1
  events : ∀ event ∈ start.events, event ∉ db.events →
    event.atNs < now - rollupAgeNs ∧ ∀ kept ∈ db.events, event.key < kept.key

theorem promise_start (now : Int) (db : Archive N F) : Promise now db [] db where
  young := fun _ h h' => absurd h h'
  recent := fun _ h h' => absurd h h'
  samplesInOrder := fun _ h h' => absurd h h'
  rollups := fun _ h h' => absurd h h'
  events := fun _ h h' => absurd h h'

section

variable {now : Int} {start db db' : Archive N F} {log : List (Note N F)}

theorem TakenUnderPressure.concat {row : Row N} {earlier : List (Note N F)}
    {before after : Archive N F} (h : TakenUnderPressure log row earlier before after)
    (note : Note N F) : TakenUnderPressure (log ++ [note]) row earlier before after where
  batch := by
    obtain ⟨later, hlog⟩ := h.batch
    exact ⟨later ++ [note], by rw [hlog, List.append_assoc, List.cons_append]⟩
  present := h.present
  gone := h.gone
  short := h.short
  noDetail := h.noDetail

theorem Promise.concat (h : Promise now start log db) (note : Note N F) :
    Promise now start (log ++ [note]) db where
  young := fun row hrow hgone hyoung => by
    obtain ⟨earlier, before, after, htaken⟩ := h.young row hrow hgone hyoung
    exact ⟨earlier, before, after, htaken.concat note⟩
  recent := h.recent
  samplesInOrder := h.samplesInOrder
  rollups := h.rollups
  events := h.events

theorem stable_promise (now : Int) (start : Archive N F) :
    Stable fun s log => Promise now start log s.archive where
  blocked := fun _ _ _ h => h
  note := fun _ _ note _ h => h.concat note

/-! ## One batch -/

/-- A batch that a call may delete after it said this. -/
structure Allowed (now : Int) (log : List (Note N F)) (db db' : Archive N F) : Prop where
  samplesSubset : ∀ row ∈ db'.samples, row ∈ db.samples
  young : ∀ row ∈ db.samples, row ∉ db'.samples → now - rawAgeNs ≤ row.atNs →
    Short log ∧ (row.mode = "baseline" → ∀ kept ∈ db.samples, kept.mode ≠ "detail")
  recent : ∀ row ∈ db.samples, row ∉ db'.samples → row.mode = "baseline" →
    row.atNs < now - recentBaselineNs
  samplesInOrder : ∀ row ∈ db.samples, row ∉ db'.samples →
    ∀ kept ∈ db'.samples, kept.mode = row.mode → row.key < kept.key
  rollupsSubset : ∀ row ∈ db'.rollups, row ∈ db.rollups
  rollups : ∀ row ∈ db.rollups, row ∉ db'.rollups →
    row.1 < now - rollupAgeNs ∧ ∀ kept ∈ db'.rollups, row.1 < kept.1
  eventsSubset : ∀ event ∈ db'.events, event ∈ db.events
  events : ∀ event ∈ db.events, event ∉ db'.events →
    event.atNs < now - rollupAgeNs ∧ ∀ kept ∈ db'.events, event.key < kept.key

/-- An allowed batch keeps the promise. -/
theorem Promise.delete (h : Promise now start log db) (hbatch : Allowed now log db db') :
    Promise now start (log ++ [.deleted db db']) db' where
  young := fun row hrow hgone hyoung => by
    by_cases hthere : row ∈ db.samples
    · obtain ⟨hshort, hdetail⟩ := hbatch.young row hthere hgone hyoung
      exact ⟨log, db, db', ⟨[], rfl⟩, hthere, hgone, hshort, hdetail⟩
    · obtain ⟨earlier, before, after, htaken⟩ := h.young row hrow hthere hyoung
      exact ⟨earlier, before, after, htaken.concat _⟩
  recent := fun row hrow hgone hmode => by
    by_cases hthere : row ∈ db.samples
    · exact hbatch.recent row hthere hgone hmode
    · exact h.recent row hrow hthere hmode
  samplesInOrder := fun row hrow hgone kept hkept hmode => by
    by_cases hthere : row ∈ db.samples
    · exact hbatch.samplesInOrder row hthere hgone kept hkept hmode
    · exact h.samplesInOrder row hrow hthere kept (hbatch.samplesSubset kept hkept) hmode
  rollups := fun row hrow hgone => by
    by_cases hthere : row ∈ db.rollups
    · exact hbatch.rollups row hthere hgone
    · obtain ⟨hold, horder⟩ := h.rollups row hrow hthere
      exact ⟨hold, fun kept hkept => horder kept (hbatch.rollupsSubset kept hkept)⟩
  events := fun event hevent hgone => by
    by_cases hthere : event ∈ db.events
    · exact hbatch.events event hthere hgone
    · obtain ⟨hold, horder⟩ := h.events event hevent hthere
      exact ⟨hold, fun kept hkept => horder kept (hbatch.eventsSubset kept hkept)⟩

/-- A new event is younger than every deleted one. -/
theorem Promise.insertEvent (h : Promise now start log db) (kind : String) (details : Details) :
    Promise now start log (db.insertEvent now kind details) where
  young := h.young
  recent := h.recent
  samplesInOrder := h.samplesInOrder
  rollups := h.rollups
  events := fun event hevent hgone => by
    have hgone' : event ∉ db.events := fun hmem => hgone (List.mem_append_left _ hmem)
    obtain ⟨hold, horder⟩ := h.events event hevent hgone'
    refine ⟨hold, fun kept hkept => ?_⟩
    rcases List.mem_append.mp hkept with hkept | hnew
    · exact horder kept hkept
    · obtain rfl := List.mem_singleton.mp hnew
      apply Prod.Lex.toLex_lt_toLex.mpr
      left
      show event.atNs < now
      unfold rollupAgeNs minuteNs at hold
      omega

theorem key_injective_row (a b : Row N) (h : a.key = b.key) : a.id = b.id :=
  (Prod.mk.inj (toLex_inj.mp h)).2

theorem key_injective_event (a b : Event) (h : a.key = b.key) : a.id = b.id :=
  (Prod.mk.inj (toLex_inj.mp h)).2

/-- A deletion of samples is allowed where what it takes is old enough, comes first within its
    mode, and is young only under pressure. -/
theorem allowed_dropSamples {p : Row N → Bool}
    (hyoung : ∀ row ∈ db.samples, p row = true → now - rawAgeNs ≤ row.atNs →
      Short log ∧ (row.mode = "baseline" → ∀ kept ∈ db.samples, kept.mode ≠ "detail"))
    (hrecent : ∀ row, p row = true → row.mode = "baseline" → row.atNs < now - recentBaselineNs)
    (hkind : ∀ row kept, p row = true → kept.mode = row.mode → p kept = false →
      row.atNs < kept.atNs) :
    Allowed now log db (db.dropSamples p) where
  samplesSubset := fun _ h => dropOldest_sublist.subset h
  young := fun row hrow hgone => hyoung row hrow (mem_of_oldest (oldest_of_dropped db.sampleIds hrow hgone)).2
  recent := fun row hrow hgone => hrecent row (mem_of_oldest (oldest_of_dropped db.sampleIds hrow hgone)).2
  samplesInOrder := fun row hrow hgone kept hkept hmode => by
    have hp := (mem_of_oldest (oldest_of_dropped db.sampleIds hrow hgone)).2
    cases hkeptKind : p kept with
    | true => exact key_lt_of_dropped db.sampleIds key_injective_row hrow hgone hkept hkeptKind
    | false => exact Prod.Lex.toLex_lt_toLex.mpr (.inl (hkind row kept hp hmode hkeptKind))
  rollupsSubset := fun _ h => h
  rollups := fun _ h h' => absurd h h'
  eventsSubset := fun _ h => h
  events := fun _ h h' => absurd h h'

theorem olderThan_iff {age atNs : Int} (hlow : -2 ^ 63 + age ≤ now) (hage : 0 ≤ age)
    (hhigh : now < 2 ^ 63) : olderThan age now atNs = true ↔ atNs < now - age := by
  unfold olderThan
  rw [decide_eq_true_eq, wrap64_of_range (by omega) (by omega)]

section

variable (hlow : -2 ^ 63 + rollupAgeNs ≤ now) (hhigh : now < 2 ^ 63)
include hlow hhigh

theorem olderThan_raw {atNs : Int} : olderThan rawAgeNs now atNs = true ↔ atNs < now - rawAgeNs := by
  unfold rollupAgeNs minuteNs at hlow
  exact olderThan_iff (by unfold rawAgeNs minuteNs; omega) (by decide) hhigh

theorem olderThan_recent {atNs : Int} :
    olderThan recentBaselineNs now atNs = true ↔ atNs < now - recentBaselineNs := by
  unfold rollupAgeNs minuteNs at hlow
  exact olderThan_iff (by unfold recentBaselineNs minuteNs; omega) (by decide) hhigh

theorem olderThan_rollup {atNs : Int} :
    olderThan rollupAgeNs now atNs = true ↔ atNs < now - rollupAgeNs :=
  olderThan_iff hlow (by decide) hhigh

/-- The age batch. -/
theorem allowed_dropAged (log : List (Note N F)) (db : Archive N F) :
    Allowed now log db (db.dropAged now) := by
  have hsamples : Allowed now log db
      (db.dropSamples fun row => olderThan rawAgeNs now row.atNs) := by
    apply allowed_dropSamples
    · intro row _ hp hyoung
      have hold := (olderThan_raw hlow hhigh).mp hp
      omega
    · intro row hp _
      have hold := (olderThan_raw hlow hhigh).mp hp
      unfold recentBaselineNs rawAgeNs minuteNs at *
      omega
    · intro row kept hp _ hkept
      have hold := (olderThan_raw hlow hhigh).mp hp
      rw [Bool.eq_false_iff, ne_eq, olderThan_raw hlow hhigh] at hkept
      omega
  exact {
    hsamples with
    rollupsSubset := fun _ h => dropOldest_sublist.subset h
    rollups := fun row hrow hgone => by
      -- a rollup is told apart by its bucket, which is also what it is sorted by
      obtain ⟨old, hmem, hsame⟩ := oldest_of_dropped_key hrow hgone
      have hold := (mem_of_oldest hmem).2
      rw [olderThan_rollup hlow hhigh, hsame] at hold
      refine ⟨hold, fun kept hkept => ?_⟩
      cases hkind : olderThan rollupAgeNs now kept.1 with
      | true => exact lt_of_dropped_key hrow hgone hkept hkind
      | false =>
        rw [Bool.eq_false_iff, ne_eq, olderThan_rollup hlow hhigh] at hkind
        omega
    eventsSubset := fun _ h => dropOldest_sublist.subset h
    events := fun event hevent hgone => by
      have hp := (mem_of_oldest (oldest_of_dropped db.eventIds hevent hgone)).2
      rw [olderThan_rollup hlow hhigh] at hp
      refine ⟨hp, fun kept hkept => ?_⟩
      cases hkind : olderThan rollupAgeNs now kept.atNs with
      | true => exact key_lt_of_dropped db.eventIds key_injective_event hevent hgone hkept hkind
      | false =>
        rw [Bool.eq_false_iff, ne_eq, olderThan_rollup hlow hhigh] at hkind
        apply Prod.Lex.toLex_lt_toLex.mpr
        left
        omega }

/-! ## The call -/

variable {maxBytes minFree : Nat} {A : Store N F → Answer → Prop} {s : Store N F}

theorem promise_agedBatch (h : Promise now start log s.archive) :
    Ends A (fun _ s log => Promise now start log s.archive)
      (fun _ s log => Promise now start log s.archive) (agedBatch now) s log := by
  have hstable := stable_promise now start
  have hattempt := (guarded_attempt (N := N) (F := F) fun _ => ()).quiet
  apply Ends.bind (hattempt.ends A hstable h)
  intro _ s log h
  apply Ends.bind (hattempt.ends A hstable h)
  intro _ s log h
  apply Ends.bind (hattempt.ends A hstable h)
  intro _ s log h
  apply Ends.bind (hattempt.ends A hstable h)
  intro _ s log h
  apply ends_delete
  · exact h.delete (allowed_dropAged hlow hhigh log s.archive)
  · exact fun w _ _ => h.concat .quiet

/-- On the number of batches left. -/
theorem promise_agedLoop (batches aged : Nat) (h : Promise now start log s.archive) :
    Ends A (fun _ s log => Promise now start log s.archive)
      (fun _ s log => Promise now start log s.archive)
      (agedLoop now maxBytes minFree batches aged) s log := by
  have hstable := stable_promise (N := N) (F := F) now start
  induction batches generalizing aged s log with
  | zero => exact h
  | succ batches ih =>
    apply Ends.bind ((guarded_ask _).quiet.ends A hstable h)
    intro late s log h
    split
    · exact h
    · apply Ends.bind (promise_agedBatch hlow hhigh h)
      rintro ⟨samples, rows⟩ s log h
      dsimp only
      split
      · exact h
      · apply Ends.bind (guarded_crowded.quiet.ends A hstable h)
        intro crowded s log h
        split
        · apply Ends.bind ((guarded_reclaimPages 100).quiet.ends A hstable h)
          intro _ s log h
          apply Ends.bind (guarded_truncateCheckpoint.quiet.ends A hstable h)
          intro done s log h
          split
          · exact ih _ h
          · exact h
        · exact ih _ h

end

theorem lastHeadroom_concat (log : List (Note N F)) (ok : Bool) :
    lastHeadroom (log ++ [.headroom ok]) = some ok := by
  unfold lastHeadroom
  rw [List.reverse_append]
  rfl

theorem short_concat_deleted {log : List (Note N F)} (h : Short log) (before after : Archive N F) :
    Short (log ++ [.deleted before after]) := by
  unfold Short lastHeadroom lastBaseline at h ⊢
  rw [List.reverse_append]
  exact h

variable {maxBytes minFree : Nat} {A : Store N F → Answer → Prop} {s : Store N F}

/-- Going on means that the storage is short. -/
theorem promise_overLimits (h : Promise now start log s.archive) :
    Ends A (fun exceeds s log => Promise now start log s.archive ∧ (exceeds = true → Short log))
      (fun _ s log => Promise now start log s.archive) (overLimits maxBytes minFree) s log := by
  have hcount : Ends A
      (fun bytes s log => Promise now start log s.archive ∧ ∃ log', log = log' ++ [.baseline bytes])
      (fun _ s log => Promise now start log s.archive) countBaseline s log := by
    apply ends_sqlite
    · intro w _ _ bytes hbytes
      obtain rfl := Except.ok.inj hbytes
      exact ⟨h.concat _, log, rfl⟩
    · intro w _ _ e he
      cases he
    · exact fun w _ _ => h.concat _
  apply Ends.bind hcount
  rintro bytes s _ ⟨h, log, rfl⟩
  have hasked : Ends A (fun ok s log' => Promise now start log' s.archive ∧
        log' = log ++ [.baseline bytes] ++ [.headroom ok])
      (fun _ s log => Promise now start log s.archive) (hasHeadroom maxBytes minFree) s
      (log ++ [.baseline bytes]) := ends_hasHeadroom fun ok => ⟨h.concat _, rfl⟩
  apply Ends.bind hasked
  rintro ok s _ ⟨h, rfl⟩
  split
  · refine ⟨h, fun hover => .inr ⟨bytes, ?_, of_decide_eq_true hover⟩⟩
    unfold lastBaseline
    rw [List.reverse_append, List.reverse_append]
    rfl
  · next hno =>
    have hfalse : ok = false := by simpa using hno
    exact ⟨h, fun _ => .inl (hfalse ▸ lastHeadroom_concat _ _)⟩

/-- Details may go under pressure. -/
theorem allowed_dropDetail (hshort : Short log) (db : Archive N F) :
    Allowed now log db db.dropDetail := by
  apply allowed_dropSamples
  · intro row _ hp _
    refine ⟨hshort, fun hbaseline => ?_⟩
    rw [hbaseline] at hp
    exact absurd hp (by decide)
  · intro row hp hbaseline
    rw [hbaseline] at hp
    exact absurd hp (by decide)
  · intro row kept hp hmode hkept
    rw [hmode, hp] at hkept
    cases hkept

theorem promise_noteEvicted (aged : Nat) (evicted : Nat × Nat)
    (h : Promise now start log s.archive) :
    Ends A (fun _ s log => Promise now start log s.archive)
      (fun _ s log => Promise now start log s.archive) (noteEvicted now aged evicted) s log := by
  have hstable := stable_promise (N := N) (F := F) now start
  unfold noteEvicted
  split
  · have hevent : ∀ details, Ends A (fun _ s log => Promise now start log s.archive)
        (fun _ s log => Promise now start log s.archive) (event now "retention_gap" details) s log := by
      intro details
      apply Ends.bind ((guarded_ask _).quiet.ends A hstable h)
      intro full s log h
      split
      · exact h
      · apply ends_sqlite
        · exact fun w _ _ _ _ => (h.insertEvent _ _).concat _
        · intro w _ _ e he
          cases he
        · exact fun w _ _ => h.concat _
    have hnote : Ends A (fun _ s log => Promise now start log s.archive)
        (fun _ s log => Promise now start log s.archive) (noteGap now aged evicted) s log :=
      Ends.tryCatch (hevent _) fun _ _ _ h => ends_pure h
    apply Ends.bind hnote
    intro _ s log h
    exact guarded_reclaimEvicted.quiet.ends A hstable h
  · exact h

section

variable (hlow : -2 ^ 63 + rollupAgeNs ≤ now) (hhigh : now < 2 ^ 63)
include hlow hhigh

/-- Baseline samples may go under pressure when there is no detail. -/
theorem allowed_dropBaseline (hshort : Short log) {db : Archive N F}
    (hdetail : ∀ kept ∈ db.samples, kept.mode ≠ "detail") :
    Allowed now log db (db.dropBaseline now) := by
  apply allowed_dropSamples
  · exact fun row _ _ _ => ⟨hshort, fun _ => hdetail⟩
  · intro row hp _
    rw [Bool.and_eq_true, olderThan_recent hlow hhigh] at hp
    exact hp.2
  · intro row kept hp hmode hkept
    rw [Bool.and_eq_true, olderThan_recent hlow hhigh] at hp
    rw [hmode, hp.1, Bool.true_and, Bool.eq_false_iff, ne_eq, olderThan_recent hlow hhigh] at hkept
    omega

theorem promise_evictBatch (evicted : Nat × Nat) (h : Promise now start log s.archive)
    (hshort : Short log) :
    Ends A (fun _ s log => Promise now start log s.archive)
      (fun _ s log => Promise now start log s.archive) (evictBatch now evicted) s log := by
  have hdetail : Ends A (fun n s log => Promise now start log s.archive ∧
        (n.1 = 0 → Short log ∧ ∀ kept ∈ s.archive.samples, kept.mode ≠ "detail"))
      (fun _ s log => Promise now start log s.archive) (delete Archive.dropDetail) s log := by
    apply ends_delete
    · refine ⟨h.delete (allowed_dropDetail hshort s.archive), fun hnone => ?_⟩
      refine ⟨short_concat_deleted hshort _ _, fun kept hkept => ?_⟩
      -- no row went, so there was no detail
      have hlength : s.archive.dropDetail.samples.length = s.archive.samples.length := by
        have hle : s.archive.dropDetail.samples.length ≤ s.archive.samples.length :=
          length_dropOldest_le
        have hzero : s.archive.samples.length - s.archive.dropDetail.samples.length = 0 := hnone
        omega
      obtain ⟨hsame, hnodetail⟩ := none_of_length_eq (by decide) hlength
      have hmem : kept ∈ s.archive.samples := hsame ▸ hkept
      intro hmode
      have hkind := hnodetail kept hmem
      rw [hmode] at hkind
      exact absurd hkind (by decide)
    · exact fun w _ _ => h.concat _
  apply Ends.bind hdetail
  rintro ⟨detail, rows⟩ s log ⟨h, hnone⟩
  dsimp only at hnone ⊢
  split
  · have hrecount : Ends A (fun _ s log => Promise now start log s.archive)
        (fun _ s log => Promise now start log s.archive) recount s log := by
      apply ends_sqlite
      · exact fun w _ _ _ _ => h.concat _
      · exact fun w _ _ _ _ => h.concat _
      · exact fun w _ _ => h.concat _
    exact Ends.bind hrecount fun _ _ _ h => h
  · next hzero =>
    obtain ⟨hshort, hdetail⟩ := hnone (by omega)
    have hbaseline : Ends A (fun _ s log => Promise now start log s.archive)
        (fun _ s log => Promise now start log s.archive) (delete (Archive.dropBaseline now)) s log := by
      apply ends_delete
      · exact h.delete (allowed_dropBaseline hlow hhigh hshort hdetail)
      · exact fun w _ _ => h.concat _
    apply Ends.bind hbaseline
    rintro ⟨baseline, rows⟩ s log h
    dsimp only
    split
    · exact h
    · exact h

/-- On the number of batches left. -/
theorem promise_evictLoop (batches : Nat) (evicted : Nat × Nat)
    (h : Promise now start log s.archive) :
    Ends A (fun _ s log => Promise now start log s.archive)
      (fun _ s log => Promise now start log s.archive)
      (evictLoop now maxBytes minFree batches evicted) s log := by
  have hstable := stable_promise (N := N) (F := F) now start
  induction batches generalizing evicted s log with
  | zero => exact h
  | succ batches ih =>
    apply Ends.bind ((guarded_ask _).quiet.ends A hstable h)
    intro blocked s log h
    split
    · exact h
    apply Ends.bind ((guarded_ask _).quiet.ends A hstable h)
    intro late s log h
    split
    · exact h
    apply Ends.bind (promise_overLimits h)
    rintro exceeds s log ⟨h, hshort⟩
    split
    · next hover =>
      apply Ends.bind (promise_evictBatch hlow hhigh evicted h (hshort hover))
      intro next s log h
      cases next with
      | none => exact h
      | some evicted =>
        apply Ends.bind ((guarded_reclaimPages 500).quiet.ends A hstable h)
        intro _ s log h
        apply Ends.bind (guarded_truncateCheckpoint.quiet.ends A hstable h)
        intro done s log h
        split
        · exact ih _ h
        · exact h
    · exact h

theorem promise_pruneTo (h : Promise now start log s.archive) :
    Ends A (fun _ s log => Promise now start log s.archive)
      (fun _ s log => Promise now start log s.archive) (pruneTo now maxBytes minFree) s log := by
  have hstable := stable_promise (N := N) (F := F) now start
  apply Ends.bind ((guarded_hasHeadroom _ _).quiet.ends A hstable h)
  intro ok s log h
  apply Ends.bind ((quiet_mayReclaim _).ends A hstable h)
  intro goes s log h
  split
  · apply Ends.bind ((guarded_reclaimFirst _).quiet.ends A hstable h)
    intro _ s log h
    apply Ends.bind (promise_agedLoop hlow hhigh _ _ h)
    intro aged s log h
    have hrecount : Ends A (fun _ s log => Promise now start log s.archive)
        (fun _ s log => Promise now start log s.archive) recount s log := by
      apply ends_sqlite
      · exact fun w _ _ _ _ => h.concat _
      · exact fun w _ _ _ _ => h.concat _
      · exact fun w _ _ => h.concat _
    apply Ends.bind hrecount
    intro _ s log h
    apply Ends.bind (promise_evictLoop hlow hhigh _ _ h)
    intro evicted s log h
    apply Ends.bind (promise_noteEvicted _ _ h)
    intro _ s log h
    apply Ends.bind (guarded_lastCheckpoint.quiet.ends A hstable h)
    intro _ s log h
    exact quiet_pruneResult.ends A hstable h
  · exact h

end

end

/-- Wherever `prune_to` stops, it deleted nothing else. -/
theorem prune_keeps_promise {now : Int} (hlow : -2 ^ 63 + rollupAgeNs ≤ now) (hhigh : now < 2 ^ 63)
    (maxBytes minFree : Nat) (store : Store N F) (world : Nat → Answer) :
    Promise now store.archive ((pruneTo now maxBytes minFree).log store world)
      ((pruneTo now maxBytes minFree).exec store world).1.archive := by
  have hends : Ends (fun _ _ => True) (fun _ s log => Promise now store.archive log s.archive)
      (fun _ s log => Promise now store.archive log s.archive) (pruneTo now maxBytes minFree) store [] :=
    promise_pruneTo hlow hhigh (promise_start now store.archive)
  have hafter := hends.after (along_true _ store world)
  rw [List.nil_append] at hafter
  exact hafter

/-! ## A clock at the end of its range -/

/-- Nothing fails, nothing is late and there is room. -/
def calm : Answer where
  fails := false
  bytes := 0
  free := 2 ^ 40
  wal := 0
  late := false
  busy := false
  freePages := 0
  more := false

/-- A store with one sample. -/
def storeOf (atNs : Int) (mode : String) : Store Int Int where
  archive :=
    { samples := [⟨⟨⟨atNs, 0, "boot", mode, none, 10⟩, 0, 0⟩, 1⟩]
      rollups := []
      events := []
      sampleIds := List.nodup_singleton _
      eventIds := List.nodup_nil }
  detailBytes := 0
  checkpointBlocked := false
  pendingBucket := none
  pendingCount := 0

theorem prune_keeps_promise_aged :
    Promise rawAgeNs (storeOf 0 "baseline").archive
      ((pruneTo rawAgeNs maxBytes minFreeBytes).log (storeOf 0 "baseline") fun _ => calm)
      ((pruneTo rawAgeNs maxBytes minFreeBytes).exec (storeOf 0 "baseline") fun _ => calm).1.archive :=
  prune_keeps_promise (by decide) (by decide) maxBytes minFreeBytes (storeOf 0 "baseline") fun _ => calm

/-- The first time that `i64` can hold is older than itself. -/
theorem prune_breaks_promise :
    ¬ ∀ (now : Int) (maxBytes minFree : Nat) (store : Store Int Int) (world : Nat → Answer),
      -2 ^ 63 ≤ now → now < 2 ^ 63 →
        Promise now store.archive ((pruneTo now maxBytes minFree).log store world)
          ((pruneTo now maxBytes minFree).exec store world).1.archive := by
  intro hall
  have hpromise := hall (-2 ^ 63) maxBytes minFreeBytes (storeOf (-2 ^ 63) "baseline") (fun _ => calm)
    (by decide) (by decide)
  have hgone : ((pruneTo (-2 ^ 63) maxBytes minFreeBytes).exec (storeOf (-2 ^ 63) "baseline")
      fun _ => calm).1.archive.samples.length = 0 := by decide +kernel
  have hrow : ∀ row ∈ (storeOf (-2 ^ 63) "baseline").archive.samples, row.atNs = -2 ^ 63 ∧
      row.mode = "baseline" := by
    intro row hrow
    obtain rfl := List.mem_singleton.mp hrow
    exact ⟨rfl, rfl⟩
  obtain ⟨row, hmem⟩ : ∃ row, row ∈ (storeOf (-2 ^ 63) "baseline").archive.samples :=
    ⟨_, List.mem_cons_self⟩
  have hold := hpromise.recent row hmem (by rw [List.eq_nil_of_length_eq_zero hgone]; simp)
    (hrow row hmem).2
  rw [(hrow row hmem).1] at hold
  unfold recentBaselineNs minuteNs at hold
  omega

end SummitFlow.HostArchive
