import SummitFlow.Cli.NativeChecks

/-!
# Reused stage verdicts

The receipts and failure records of the stage cache, next to everything that was recorded.
A failure record counts the failures since the last pass, and a pass removes it; a failure
leaves the receipt of an earlier pass where it is.
-/

namespace SummitFlow.NativeCheck

variable (readers : Readers)

/-! ## What was recorded -/

abbrev StageKey := KeyInputs × String

/-- The cache, and every fresh execution that was recorded, oldest first. -/
structure Ledger where
  store : Store
  recorded : List (StageKey × Outcome)

/-- What a run leaves. -/
def Run.storeAfter (r : Run) (store : Store) : Store :=
  match r.runNative readers store with
  | .ok result => result.2
  | .error _ => store

/-- The executions that a run records. -/
def Run.records (r : Run) (store : Store) : List (StageKey × Outcome) :=
  match r.cacheSource with
  | none => []
  | some source => (r.saved (r.loop readers store).observed).map fun observed =>
    ((r.stageKey source observed.1, observed.1.id), observed.2)

/-- Whether a run gets to its stages. -/
def Run.starts (r : Run) : Bool :=
  decide (r.stages ≠ []) && r.plan.prepared &&
    !r.stages.any fun stage => (stage.required || r.stageId.isSome) && !r.available stage

/-- One run after the others. -/
def Ledger.step (ledger : Ledger) (r : Run) : Ledger where
  store := r.storeAfter readers ledger.store
  recorded := ledger.recorded ++ if r.starts then r.records readers ledger.store else []

/-- Nothing recorded yet. -/
def Ledger.empty : Ledger := ⟨⟨[], [], []⟩, []⟩

/-- The recorded executions of a stage key, oldest first. -/
def Ledger.log (ledger : Ledger) (key : StageKey) : List Outcome :=
  (ledger.recorded.filter fun entry => entry.1 = key).map Prod.snd

/-! ## The invariant -/

/-- What is recorded is a pass or a deterministic failure. -/
def Recordable (outcome : Outcome) : Prop :=
  outcome.state = .pass ∨ outcome.state ≠ .pass ∧ deterministicFailure outcome = true

/-- What the two files of a stage key say about its log. -/
structure Tracks (receipt : Option Outcome) (failure : Option FailureRecord) (log : List Outcome) :
    Prop where
  passed : ∀ outcome, receipt = some outcome → outcome ∈ log ∧ outcome.state = .pass
  settled : failure = none → ∀ last, log.getLast? = some last → last.state = .pass
  failed : ∀ record, failure = some record → ∃ before runs, log = before ++ runs ∧
    runs.length = record.repeats ∧ runs ≠ [] ∧ ∀ outcome ∈ runs, deterministicFailure outcome = true

/-- The files of the cache and the record. -/
def Ledger.Sound (ledger : Ledger) : Prop :=
  ∀ key, Tracks (Dict.get? key ledger.store.receipts) (Dict.get? key ledger.store.failures)
    (ledger.log key)

theorem state_of_deterministicFailure {outcome : Outcome} (h : deterministicFailure outcome = true) :
    outcome.state = .fail := by
  unfold deterministicFailure at h
  rw [Bool.and_eq_true, Bool.and_eq_true, decide_eq_true_eq] at h
  exact h.1.1

section

variable {receipt : Option Outcome} {failure : Option FailureRecord} {log : List Outcome}
  {outcome : Outcome}

/-- A failure counts on, and leaves the receipt. -/
theorem Tracks.fail (h : Tracks receipt failure log) (hfails : deterministicFailure outcome = true) :
    Tracks receipt (some ⟨nextRepeats failure, outcome⟩) (log ++ [outcome]) where
  passed := fun o ho => ⟨List.mem_append_left _ (h.passed o ho).1, (h.passed o ho).2⟩
  settled := fun h => by cases h
  failed := by
    rintro record ⟨⟩
    cases failure with
    | none =>
      refine ⟨log, [outcome], rfl, rfl, List.cons_ne_nil _ _, ?_⟩
      intro o ho
      obtain rfl := List.mem_singleton.mp ho
      exact hfails
    | some previous =>
      obtain ⟨before, runs, hlog, hlength, hne, hruns⟩ := h.failed previous rfl
      refine ⟨before, runs ++ [outcome], by rw [hlog, List.append_assoc], ?_, by simp, ?_⟩
      · rw [List.length_append, hlength]
        rfl
      · intro o ho
        rcases List.mem_append.mp ho with hmem | hmem
        · exact hruns o hmem
        · obtain rfl := List.mem_singleton.mp hmem
          exact hfails

/-- A pass removes the failure record; its receipt is written if its artifacts are retained. -/
theorem Tracks.pass (h : Tracks receipt failure log) (hpass : outcome.state = .pass)
    (retained : Bool) :
    Tracks (if retained then some outcome else receipt) none (log ++ [outcome]) where
  passed := by
    intro o ho
    cases retained with
    | true =>
      obtain rfl := Option.some.inj ho
      exact ⟨List.mem_append_right _ List.mem_cons_self, hpass⟩
    | false => exact ⟨List.mem_append_left _ (h.passed o ho).1, (h.passed o ho).2⟩
  settled := by
    intro _ last hlast
    rw [List.getLast?_append, List.getLast?_singleton] at hlast
    obtain rfl := Option.some.inj hlast
    exact hpass
  failed := fun _ h => by cases h

end

/-! ## Saving -/

section

variable {readers : Readers} {r : Run} {source : String}

/-- One saved observation. -/
theorem sound_saveStage {ledger : Ledger} (h : ledger.Sound) {observed : Stage × Outcome}
    (hrecordable : Recordable observed.2) :
    (⟨r.saveStage source ledger.store observed, ledger.recorded ++
      [((r.stageKey source observed.1, observed.1.id), observed.2)]⟩ : Ledger).Sound := by
  intro key
  by_cases hkey : (r.stageKey source observed.1, observed.1.id) = key
  · subst hkey
    have hlog : (⟨r.saveStage source ledger.store observed, ledger.recorded ++
        [((r.stageKey source observed.1, observed.1.id), observed.2)]⟩ : Ledger).log
          (r.stageKey source observed.1, observed.1.id) =
        ledger.log (r.stageKey source observed.1, observed.1.id) ++ [observed.2] := by
      simp [Ledger.log]
    rw [hlog]
    have htracks := h (r.stageKey source observed.1, observed.1.id)
    unfold Run.saveStage
    rcases hrecordable with hpass | ⟨hfail, hdet⟩
    · dsimp only
      rw [if_neg (not_not_intro hpass)]
      have hfailures : Dict.get? (r.stageKey source observed.1, observed.1.id)
          (ledger.store.failures.filter fun entry =>
            entry.1 ≠ (r.stageKey source observed.1, observed.1.id)) = none := by
        rw [Dict.get?_filter_ne, if_pos rfl]
      have hpassed := htracks.pass hpass (observed.2.artifacts.all (·.retained))
      split
      next hretained =>
        rw [hretained, if_pos rfl] at hpassed
        dsimp only
        rw [hfailures, Dict.get?_set_self]
        exact hpassed
      next hretained =>
        rw [if_neg hretained] at hpassed
        dsimp only
        rw [hfailures]
        exact hpassed
    · dsimp only
      rw [if_pos hfail]
      dsimp only
      rw [Dict.get?_set_self]
      exact htracks.fail hdet
  · -- the files of another key stay
    have hlog : (⟨r.saveStage source ledger.store observed, ledger.recorded ++
        [((r.stageKey source observed.1, observed.1.id), observed.2)]⟩ : Ledger).log key =
        ledger.log key := by
      simp [Ledger.log, hkey]
    rw [hlog]
    have hne : key ≠ (r.stageKey source observed.1, observed.1.id) := Ne.symm hkey
    unfold Run.saveStage
    dsimp only
    split
    · dsimp only
      rw [Dict.get?_set_of_ne hne]
      exact h key
    · split
      · dsimp only
        rw [Dict.get?_filter_ne, if_neg hne, Dict.get?_set_of_ne hne]
        exact h key
      · dsimp only
        rw [Dict.get?_filter_ne, if_neg hne]
        exact h key

theorem sound_saves {ledger : Ledger} (h : ledger.Sound) {observed : List (Stage × Outcome)}
    (hrecordable : ∀ pair ∈ observed, Recordable pair.2) :
    (⟨observed.foldl (r.saveStage source) ledger.store, ledger.recorded ++
      observed.map fun pair => ((r.stageKey source pair.1, pair.1.id), pair.2)⟩ : Ledger).Sound := by
  induction observed generalizing ledger with
  | nil => simpa using h
  | cons pair observed ih =>
    have hfirst : (⟨r.saveStage source ledger.store pair, ledger.recorded ++
        [((r.stageKey source pair.1, pair.1.id), pair.2)]⟩ : Ledger).Sound :=
      sound_saveStage h (hrecordable pair List.mem_cons_self)
    have hrest := ih hfirst fun other hother => hrecordable other (List.mem_cons_of_mem _ hother)
    simpa [List.append_assoc] using hrest

/-! ## The loop -/

/-- A stage reads the files of the cache and may add artifacts; what it observes is recordable. -/
structure Progress.From (store : Store) (done : Progress) : Prop where
  receipts : done.store.receipts = store.receipts
  failures : done.store.failures = store.failures
  observed : ∀ pair ∈ done.observed, Recordable pair.2

theorem recordable_of_caches {stage : Stage} {outcome : Outcome} (h : r.caches stage outcome = true) :
    Recordable outcome := by
  unfold Run.caches at h
  rw [Bool.and_eq_true, Bool.or_eq_true, decide_eq_true_eq] at h
  rcases h.2 with hpass | hfails
  · exact .inl hpass
  · refine .inr ⟨?_, hfails⟩
    rw [state_of_deterministicFailure hfails]
    decide

theorem Progress.From.step {store : Store} {done : Progress} (h : done.From store) (stage : Stage) :
    (r.stageStep readers done stage).From store := by
  unfold Run.stageStep
  split
  · exact ⟨h.receipts, h.failures, h.observed⟩
  · split
    · exact ⟨h.receipts, h.failures, h.observed⟩
    · split
      · exact ⟨h.receipts, h.failures, h.observed⟩
      · refine ⟨h.receipts, h.failures, ?_⟩
        intro pair hpair
        rcases List.mem_append.mp hpair with hmem | hmem
        · exact h.observed pair hmem
        · split at hmem
          next hcaches =>
            obtain rfl := List.mem_singleton.mp hmem
            exact recordable_of_caches hcaches
          next => cases hmem

theorem from_stages (store : Store) (stages : List Stage) {done : Progress} (h : done.From store) :
    (stages.foldl (r.stageStep readers) done).From store := by
  induction stages generalizing done with
  | nil => exact h
  | cons stage stages ih => exact ih (h.step stage)

theorem from_start (store : Store) : (⟨store, [], []⟩ : Progress).From store :=
  ⟨rfl, rfl, fun pair hpair => by cases hpair⟩

/-- What only the artifacts of the cache differ in. -/
theorem Ledger.Sound.of_files {ledger : Ledger} (h : ledger.Sound) {store : Store}
    (hreceipts : store.receipts = ledger.store.receipts)
    (hfailures : store.failures = ledger.store.failures) :
    (⟨store, ledger.recorded⟩ : Ledger).Sound := by
  intro key
  dsimp only
  rw [hreceipts, hfailures]
  exact h key

/-- A run that gets to its stages saves what it observed; another one leaves the cache alone. -/
theorem storeAfter_eq (r : Run) (store : Store) :
    r.storeAfter readers store = if r.starts then r.save (r.loop readers store) else store := by
  unfold Run.storeAfter Run.runNative Run.starts
  by_cases hempty : r.stages = []
  · simp [hempty]
  · rw [if_neg hempty]
    cases hprepared : r.plan.prepared with
    | false => simp
    | true =>
      simp only [Bool.not_true, Bool.false_eq_true, if_false]
      cases hblocked : r.stages.any fun stage =>
        (stage.required || r.stageId.isSome) && !r.available stage with
      | true => simp
      | false => simp [hempty]

theorem mem_saved {observed : List (Stage × Outcome)} {pair : Stage × Outcome}
    (h : pair ∈ r.saved observed) : pair ∈ observed := by
  unfold Run.saved at h
  split at h
  · cases h
  · exact List.mem_of_mem_take h

/-- A run keeps the files and the record in step. -/
theorem Ledger.Sound.step {ledger : Ledger} (h : ledger.Sound) (r : Run) :
    (ledger.step readers r).Sound := by
  have hloop : (r.loop readers ledger.store).From ledger.store :=
    from_stages ledger.store r.stages (from_start ledger.store)
  have hfiles := h.of_files hloop.receipts hloop.failures
  unfold Ledger.step
  rw [storeAfter_eq]
  cases hstarts : r.starts with
  | false =>
    simp only [Bool.false_eq_true, if_false, List.append_nil]
    exact h
  | true =>
    rw [if_pos rfl, if_pos rfl]
    unfold Run.save Run.records
    cases hsource : r.cacheSource with
    | none =>
      simp only [List.append_nil]
      exact hfiles
    | some source =>
      exact sound_saves hfiles fun pair hpair => hloop.observed pair (mem_saved hpair)

theorem sound_history (runs : List Run) :
    (run (Ledger.step readers) Ledger.empty runs).Sound := by
  apply run_invariant (fun ledger r _ h => h.step r)
  intro key
  exact ⟨fun _ h => (by cases h), fun _ _ h => (by cases h), fun _ h => (by cases h)⟩

/-! ## Verdicts from the cache -/

/-- What a lookup for a stage that counts in full looked at. -/
theorem cached_cases {store : Store} {stage : Stage} {outcome : Outcome}
    (h : r.cached store stage = some outcome) :
    ∃ source, r.cacheSource = some source ∧
      ((Dict.get? (r.stageKey source stage, stage.id) store.receipts = some outcome) ∨
        ∃ record, Dict.get? (r.stageKey source stage, stage.id) store.failures = some record ∧
          failureRepeats ≤ record.repeats ∧ record.outcome.state = .fail ∧
          outcome = { record.outcome with reason := repeatedReason record }) := by
  unfold Run.cached at h
  split at h
  · rcases Option.or_eq_some_iff.mp h with hreuse | ⟨-, hprior⟩
    · unfold Run.reuseStage at hreuse
      cases hsource : r.cacheSource with
      | none => simp [hsource] at hreuse
      | some source =>
        simp only [hsource] at hreuse
        split at hreuse
        · exact ⟨source, rfl, .inl (Option.filter_eq_some_iff.mp hreuse).1⟩
        · cases hreuse
    · unfold Run.priorFailure at hprior
      cases hsource : r.cacheSource with
      | none => simp [hsource] at hprior
      | some source =>
        simp only [hsource] at hprior
        split at hprior
        · obtain ⟨record, hrecord, rfl⟩ := Option.map_eq_some_iff.mp hprior
          obtain ⟨hget, hchecks⟩ := Option.filter_eq_some_iff.mp hrecord
          simp only [Bool.and_eq_true, decide_eq_true_eq] at hchecks
          have hfail : record.outcome.state = .fail := state_of_deterministicFailure hchecks.1.1.2
          exact ⟨source, rfl, .inr ⟨record, hget, hchecks.1.1.1, hfail, rfl⟩⟩
        · cases hprior
  · cases h

section

variable {receipt : Option Outcome} {failure : Option FailureRecord} {log : List Outcome}

/-- A receipt is the last verdict exactly when no failure is on file. -/
theorem Tracks.last_pass (h : Tracks receipt failure log) {outcome : Outcome}
    (hreceipt : receipt = some outcome) :
    (∃ last, log.getLast? = some last ∧ last.state = outcome.state) ↔ failure = none := by
  obtain ⟨hmem, hpass⟩ := h.passed outcome hreceipt
  rw [hpass]
  constructor
  · rintro ⟨last, hlast, hstate⟩
    cases failure with
    | none => rfl
    | some record =>
      obtain ⟨before, runs, hlog, -, hne, hruns⟩ := h.failed record rfl
      obtain ⟨front, final, rfl⟩ := (List.eq_nil_or_concat' runs).resolve_left hne
      have hfinal : last = final := by
        rw [hlog, ← List.append_assoc, List.getLast?_append, List.getLast?_singleton] at hlast
        exact (Option.some.inj hlast).symm
      have hfails := hruns final (List.mem_append_right _ List.mem_cons_self)
      rw [hfinal, state_of_deterministicFailure hfails] at hstate
      cases hstate
  · intro hnone
    obtain ⟨front, final, rfl⟩ :=
      (List.eq_nil_or_concat' log).resolve_left (List.ne_nil_of_mem hmem)
    have hlast : (front ++ [final]).getLast? = some final := by
      rw [List.getLast?_append, List.getLast?_singleton]
      rfl
    exact ⟨final, hlast, h.settled hnone final hlast⟩

/-- A failure record is the last verdict. -/
theorem Tracks.last_fail (h : Tracks receipt failure log) {record : FailureRecord}
    (hfailure : failure = some record) :
    ∃ last, log.getLast? = some last ∧ last.state = .fail := by
  obtain ⟨before, runs, hlog, -, hne, hruns⟩ := h.failed record hfailure
  obtain ⟨front, final, rfl⟩ := (List.eq_nil_or_concat' runs).resolve_left hne
  refine ⟨final, ?_, ?_⟩
  · rw [hlog, ← List.append_assoc, List.getLast?_append, List.getLast?_singleton]
    rfl
  · exact state_of_deterministicFailure
      (hruns final (List.mem_append_right _ List.mem_cons_self))

end

/-- After any runs, and in the loop of the next one: a verdict from the cache is that of the
    last recorded execution exactly when it is no pass with a failure record on file; and a
    failure comes from at least two recorded executions that were the last and failed
    deterministically. -/
theorem cached_verdict_latest (readers : Readers) (runs : List Run) (r : Run)
    (before : List Stage) (stage : Stage) (outcome : Outcome)
    (h : r.cached (before.foldl (r.stageStep readers)
      ⟨(run (Ledger.step readers) Ledger.empty runs).store, [], []⟩).store stage = some outcome) :
    ∃ source, r.cacheSource = some source ∧
      ((∃ last, ((run (Ledger.step readers) Ledger.empty runs).log
            (r.stageKey source stage, stage.id)).getLast? = some last ∧
          last.state = outcome.state) ↔
        (outcome.state = .pass → Dict.get? (r.stageKey source stage, stage.id)
          (run (Ledger.step readers) Ledger.empty runs).store.failures = none)) ∧
      (outcome.state = .fail → ∃ earlier latest,
        (run (Ledger.step readers) Ledger.empty runs).log (r.stageKey source stage, stage.id) =
          earlier ++ latest ∧ 2 ≤ latest.length ∧
        ∀ execution ∈ latest, deterministicFailure execution = true) := by
  have hsound : (run (Ledger.step readers) Ledger.empty runs).Sound := sound_history runs
  generalize run (Ledger.step readers) Ledger.empty runs = ledger at h hsound ⊢
  have hloop : (before.foldl (r.stageStep readers) ⟨ledger.store, [], []⟩).From ledger.store :=
    from_stages ledger.store before (from_start ledger.store)
  obtain ⟨source, hsource, hcases⟩ := cached_cases h
  refine ⟨source, hsource, ?_⟩
  have htracks := hsound (r.stageKey source stage, stage.id)
  rw [hloop.receipts, hloop.failures] at hcases
  rcases hcases with hreceipt | ⟨record, hrecord, hrepeats, hfail, rfl⟩
  · have hpass := (htracks.passed outcome hreceipt).2
    constructor
    · rw [htracks.last_pass hreceipt]
      exact ⟨fun hnone _ => hnone, fun himp => himp hpass⟩
    · intro hfail
      rw [hpass] at hfail
      cases hfail
  · constructor
    · constructor
      · intro _ hpass
        have hpass : record.outcome.state = .pass := hpass
        rw [hfail] at hpass
        cases hpass
      · intro _
        show ∃ last : Outcome, _ ∧ last.state = record.outcome.state
        rw [hfail]
        exact htracks.last_fail hrecord
    · intro _
      obtain ⟨earlier, latest, hlog, hlength, -, hlatest⟩ := htracks.failed record hrecord
      refine ⟨earlier, latest, hlog, ?_, hlatest⟩
      rw [hlength]
      exact hrepeats

end

/-! ## A receipt that outlives a failure -/

/-- The digest of the empty text. -/
def emptyDigest : String := "e3b0c44298fc1c149afbf4c8996fb92427ae41e4649b934ca495991b7852b855"

theorem isDigest_emptyDigest : isDigest emptyDigest = true := by decide +kernel

/-- Readers for commands without reports or output. -/
def silentReaders : Readers where
  junit _ := .error "no element found"
  json _ := .error "Expecting value"
  goEvents _ := .ok []
  searches _ _ := false
  findAll _ _ := 0
  sha256 _ := emptyDigest
  hex := by
    intro text
    have h := isDigest_emptyDigest
    simp only [isDigest, Bool.and_eq_true, decide_eq_true_eq, List.all_eq_true, Bool.or_eq_true] at h
    exact h

/-- A required check without a report. -/
def lintStage : Stage where
  id := "lint"
  argv := ["tools/lint"]
  cwd := "."
  kind := .check
  coverage := .full
  required := true
  applicable := true
  reason := ""
  coveredBy := none
  evidence := none
  timeout := 600
  inputs := []
  exclude := []
  tool := "lint-1"
  executable := "tools/lint"

/-- A full gate of a plan on an unchanged clean source, where every command ends with the
    given code and without output. -/
def gateRun (stages : List Stage) (reuse : Bool) (returncode : Int) : Run where
  plan := ⟨stages, [], true, ""⟩
  stageId := none
  reuse := reuse
  fullGate := true
  available := fun _ => true
  source := some ("tree", true)
  cacheReady := true
  implementation := "1"
  materials := fun _ => ""
  execution := fun _ => ⟨true, .finished returncode "" "" ⟨false, .ok ""⟩, 1, 0⟩
  changed := false
  saves := stages.length

/-- A pass is recorded, then a run without reuse records a failure: the next run still reuses
    the pass. -/
theorem not_every_verdict_latest :
    ¬ ∀ (readers : Readers) (runs : List Run) (r : Run) (before : List Stage) (stage : Stage)
      (outcome : Outcome),
      r.cached (before.foldl (r.stageStep readers)
        ⟨(run (Ledger.step readers) Ledger.empty runs).store, [], []⟩).store stage = some outcome →
      ∃ source, r.cacheSource = some source ∧
        ∃ last, ((run (Ledger.step readers) Ledger.empty runs).log
            (r.stageKey source stage, stage.id)).getLast? = some last ∧
          last.state = outcome.state := by
  intro h
  have hcached : ((gateRun [lintStage] true 0).cached (run (Ledger.step silentReaders) Ledger.empty
      [gateRun [lintStage] true 0, gateRun [lintStage] false 1]).store lintStage).map
        (fun outcome => outcome.state) = some .pass := by decide +kernel
  have hlast : (((run (Ledger.step silentReaders) Ledger.empty
      [gateRun [lintStage] true 0, gateRun [lintStage] false 1]).log
        ((gateRun [lintStage] true 0).stageKey "tree" lintStage, "lint")).getLast?).map
        (fun outcome => outcome.state) = some .fail := by decide +kernel
  obtain ⟨outcome, houtcome, hpass⟩ := Option.map_eq_some_iff.mp hcached
  obtain ⟨source, hsource, last, hget, hstate⟩ := h silentReaders
    [gateRun [lintStage] true 0, gateRun [lintStage] false 1] (gateRun [lintStage] true 0) []
    lintStage outcome houtcome
  obtain rfl : "tree" = source := Option.some.inj hsource
  rw [show lintStage.id = "lint" from rfl] at hget
  rw [hget, Option.map_some, hstate, hpass] at hlast
  cases hlast

/-- The third of three failing runs reports the failure from its record. -/
theorem cached_verdict_latest_repeated :
    ∃ outcome, (gateRun [lintStage] true 1).cached (run (Ledger.step silentReaders) Ledger.empty
        [gateRun [lintStage] true 1, gateRun [lintStage] true 1]).store lintStage = some outcome ∧
      ∃ last, ((run (Ledger.step silentReaders) Ledger.empty
          [gateRun [lintStage] true 1, gateRun [lintStage] true 1]).log
            ((gateRun [lintStage] true 1).stageKey "tree" lintStage, "lint")).getLast? = some last ∧
        last.state = outcome.state := by
  have hcached : ((gateRun [lintStage] true 1).cached (run (Ledger.step silentReaders) Ledger.empty
      [gateRun [lintStage] true 1, gateRun [lintStage] true 1]).store lintStage).map
        (fun outcome => outcome.state) = some .fail := by decide +kernel
  obtain ⟨outcome, houtcome, hfail⟩ := Option.map_eq_some_iff.mp hcached
  obtain ⟨source, hsource, hlatest, -⟩ := cached_verdict_latest silentReaders
    [gateRun [lintStage] true 1, gateRun [lintStage] true 1] (gateRun [lintStage] true 1) []
    lintStage outcome houtcome
  obtain rfl : "tree" = source := Option.some.inj hsource
  refine ⟨outcome, houtcome, hlatest.mpr fun hpass => ?_⟩
  rw [hfail] at hpass
  cases hpass

end SummitFlow.NativeCheck
