import SummitFlow.Spec.StageVerdicts
import Mathlib.Data.List.Nodup
import Mathlib.Data.List.Forall2

/-!
# Native evidence and its validator

The result of a native run against the validator's own reading of the declaration.  A
validated plan fixes identities, coverage and suites; a fresh outcome fits its stage, and so
does one from the cache, since a stage key determines the stage.  Two things may differ: the
path a report is declared by, and a covered stage whose covering pass does not stand.
-/

namespace SummitFlow.NativeCheck

/-! ## Checks in sequence -/

theorem require_ok {b : Bool} {message : String} : require b message = .ok () ↔ b = true := by
  cases b with
  | true => exact ⟨fun _ => rfl, fun _ => rfl⟩
  | false =>
    constructor
    · intro h
      cases h
    · intro h
      cases h

theorem seq_eq_ok {x y : Except String Unit} :
    (x >>= fun _ => y) = .ok () ↔ x = .ok () ∧ y = .ok () := by
  constructor
  · intro h
    obtain ⟨⟨⟩, hx, hy⟩ := bind_ok h
    exact ⟨hx, hy⟩
  · rintro ⟨hx, hy⟩
    rw [hx]
    exact hy

theorem requireSome_ok {α : Type} {value : Option α} {message : String} {a : α}
    (h : requireSome value message = .ok a) : value = some a := by
  cases value with
  | none => cases h
  | some a' => rw [Except.ok.inj h]

/-! ## Plans -/

/-- The stages of a plan are those of a declaration on some machine. -/
def Plan.Declared (plan : Plan) : Prop :=
  ∃ files tools paths values, planStages files tools paths values = .ok plan.stages

section

variable {files : Files} {tools : List (String × String)} {paths : List String}

theorem stageEvidence_isSome {stageId : String} {value : Option Toml} {evidence : Option Evidence}
    (h : stageEvidence files stageId value = .ok evidence) (htable : isTable value = true) :
    evidence.isSome = true := by
  cases value with
  | none => cases htable
  | some value =>
    have h : (validateStageEvidence files stageId value).map some = .ok evidence := h
    cases hresult : validateStageEvidence files stageId value with
    | error message => rw [hresult] at h; cases h
    | ok validated =>
      rw [hresult] at h
      obtain rfl := Except.ok.inj h
      rfl

/-- A stage has an id of its own, and a suite has evidence. -/
theorem normalizeStage_ok {ids : List String} {value : Toml} {stage : Stage}
    (h : normalizeStage files ids tools paths value = .ok stage) :
    stage.id ∉ ids ∧ (stage.kind = .test → stage.evidence.isSome = true) := by
  cases value with
  | table table =>
    obtain ⟨stageId, hid, h⟩ := bind_ok h
    obtain ⟨argv, -, h⟩ := bind_ok h
    obtain ⟨_, -, h⟩ := bind_ok h
    obtain ⟨required, -, h⟩ := bind_ok h
    obtain ⟨applicable, -, h⟩ := bind_ok h
    obtain ⟨kind, -, h⟩ := bind_ok h
    obtain ⟨coverage, -, h⟩ := bind_ok h
    obtain ⟨timeout, -, h⟩ := bind_ok h
    obtain ⟨_, -, h⟩ := bind_ok h
    obtain ⟨cwd, -, h⟩ := bind_ok h
    obtain ⟨_, -, h⟩ := bind_ok h
    obtain ⟨_, -, h⟩ := bind_ok h
    obtain ⟨executable, -, h⟩ := bind_ok h
    obtain ⟨_, htable, h⟩ := bind_ok h
    obtain ⟨evidence, hevidence, h⟩ := bind_ok h
    obtain ⟨inputs, -, h⟩ := bind_ok h
    obtain ⟨exclude, -, h⟩ := bind_ok h
    obtain ⟨_, -, h⟩ := bind_ok h
    obtain ⟨_, -, h⟩ := bind_ok h
    obtain rfl := Except.ok.inj h
    constructor
    · obtain ⟨-, hnew⟩ := Option.filter_eq_some_iff.mp (requireSome_ok hid)
      rw [Bool.and_eq_true, decide_eq_true_eq] at hnew
      exact hnew.2
    · intro hkind
      have hkind : kind = .test := hkind
      rw [hkind] at htable
      have htable : isTable (table.lookup "evidence") = true := by
        simpa using require_ok.mp htable
      exact stageEvidence_isSome hevidence htable
  | _ => cases h

/-- The ids of a plan are distinct, and its suites have evidence. -/
theorem normalizeStages_ok {ids : List String} {values : List Toml} {stages : List Stage}
    (hids : ids.Nodup) (h : normalizeStages files tools paths ids values = .ok stages) :
    (ids ++ stages.map (·.id)).Nodup ∧
      ∀ stage ∈ stages, stage.kind = .test → stage.evidence.isSome = true := by
  induction values generalizing ids stages with
  | nil =>
    obtain rfl := Except.ok.inj h
    exact ⟨by simpa using hids, fun stage hstage => by cases hstage⟩
  | cons value values ih =>
    obtain ⟨stage, hstage, h⟩ := bind_ok h
    obtain ⟨rest, hrest, h⟩ := bind_ok h
    obtain rfl := Except.ok.inj h
    obtain ⟨hnew, hevidence⟩ := normalizeStage_ok hstage
    have hids' : (ids ++ [stage.id]).Nodup := by
      refine List.nodup_append.mpr ⟨hids, List.nodup_singleton _, ?_⟩
      rintro id hid other hother rfl
      rw [List.mem_singleton.mp hother] at hid
      exact hnew hid
    obtain ⟨hnodup, hall⟩ := ih hids' hrest
    constructor
    · simpa [List.append_assoc] using hnodup
    · intro other hother
      rcases List.mem_cons.mp hother with rfl | hmem
      · exact hevidence
      · exact hall other hmem

/-- What a stage that declares a covering stage comes after. -/
theorem checkCovered_ok {preceding stages : List Stage} (h : checkCovered preceding stages = true)
    {stage : Stage} (hstage : stage ∈ stages) {id : String} (hid : stage.coveredBy = some id) :
    stage.required = false ∧ ∃ other ∈ preceding ++ stages, other.id = id ∧
      covers other stage = true := by
  induction stages generalizing preceding with
  | nil => cases hstage
  | cons first rest ih =>
    unfold checkCovered at h
    rw [Bool.and_eq_true] at h
    rcases List.mem_cons.mp hstage with rfl | hmem
    · rw [hid] at h
      simp only [Bool.and_eq_true, Bool.not_eq_true', Option.any_eq_true] at h
      obtain ⟨⟨⟨hrequired, -⟩, other, hother, hcovers⟩, -⟩ := h
      have hname : other.id = id := by simpa using List.find?_some hother
      exact ⟨hrequired, other, List.mem_append_left _ (List.mem_of_find?_eq_some hother), hname,
        hcovers⟩
    · obtain ⟨hrequired, other, hother, hrest⟩ := ih h.2 hmem
      refine ⟨hrequired, other, ?_, hrest⟩
      rwa [List.append_assoc] at hother

end

theorem Plan.Declared.stages {plan : Plan} (h : plan.Declared) :
    (plan.stages.map (·.id)).Nodup ∧
      (∀ stage ∈ plan.stages, stage.kind = .test → stage.evidence.isSome = true) ∧
      ∀ stage ∈ plan.stages, ∀ id, stage.coveredBy = some id → stage.required = false ∧
        ∃ other ∈ plan.stages, other.id = id ∧ covers other stage = true := by
  obtain ⟨files, tools, paths, values, h⟩ := h
  obtain ⟨normalized, hnormalized, h⟩ := bind_ok h
  obtain ⟨_, -, h⟩ := bind_ok h
  obtain ⟨_, -, h⟩ := bind_ok h
  obtain ⟨_, hcovered, h⟩ := bind_ok h
  obtain rfl := Except.ok.inj h
  obtain ⟨hnodup, hevidence⟩ := normalizeStages_ok List.nodup_nil hnormalized
  refine ⟨by simpa using hnodup, hevidence, ?_⟩
  intro stage hstage id hid
  simpa using checkCovered_ok (require_ok.mp hcovered) hstage hid

/-! ## Outcomes that fit their stage -/

/-- The path of the first artifact of a stage's evidence. -/
def Evidence.readPath (evidence : Evidence) : String :=
  match evidence.source with
  | .stdout => "stdout"
  | .combined => "combined"
  | .file => PosixPath.pathStr evidence.path

/-- What a pass shows: its code, the artifacts of its evidence, and the counts of a suite. -/
structure Shown (stage : Stage) (outcome : Outcome) : Prop where
  returncode : outcome.returncode = some 0
  digests : outcome.artifacts.all (fun item => isDigest item.sha256) = true
  artifact : ∀ evidence, stage.evidence = some evidence →
    outcome.artifacts.head?.map (·.path) = some evidence.readPath
  counts : stage.kind = .test → outcome.counts.any suiteCounted = true ∧
    outcome.counts.any (skipsDeclared stage) = true

/-- An outcome reports its stage, and a pass shows what the stage declares. -/
structure Fits (stage : Stage) (outcome : Outcome) : Prop where
  identity : sameIdentity outcome stage = true
  pass : outcome.state = .pass → Shown stage outcome

theorem sameIdentity_outcome (stage : Stage) : sameIdentity stage.outcome stage = true := by
  simp [sameIdentity, Stage.outcome]

/-- An outcome with the identity of another. -/
theorem sameIdentity_of {outcome outcome' : Outcome} {stage : Stage}
    (h : sameIdentity outcome stage = true) (hid : outcome'.id = outcome.id)
    (hrequired : outcome'.required = outcome.required)
    (hcoverage : outcome'.coverage = outcome.coverage) (hcwd : outcome'.cwd = outcome.cwd)
    (htool : outcome'.tool = outcome.tool) (hcommand : outcome'.command = outcome.command) :
    sameIdentity outcome' stage = true := by
  unfold sameIdentity at h ⊢
  rw [hid, hrequired, hcoverage, hcwd, htool, hcommand]
  exact h

section

variable {readers : Readers}

theorem isDigest_sha256 (text : String) : isDigest (readers.sha256 text) = true := by
  obtain ⟨hlength, hchars⟩ := readers.hex text
  unfold isDigest
  rw [Bool.and_eq_true, decide_eq_true_eq, List.all_eq_true]
  refine ⟨hlength, fun c hc => ?_⟩
  have hc := hchars c hc
  simpa using hc

/-- Counts are not negative, exempt cases are declared, and they are skipped ones. -/
theorem countsOf_ok {evidence : Evidence} {content : String} {counts : Counts}
    (h : countsOf readers evidence content = .ok counts) :
    0 ≤ counts.executed ∧ 0 ≤ counts.failed ∧ 0 ≤ counts.skipped ∧
      ∀ n, counts.notApplicable = some n → evidence.notApplicableTests ≠ [] ∧ n ≤ counts.skipped := by
  unfold countsOf at h
  split at h
  · obtain ⟨cases', -, h⟩ := bind_ok h
    obtain rfl := Except.ok.inj h
    exact ⟨Int.natCast_nonneg _, Int.natCast_nonneg _, Int.natCast_nonneg _, fun n hn => by cases hn⟩
  · obtain ⟨value, -, h⟩ := bind_ok h
    cases value with
    | none => cases h
    | some value =>
      obtain ⟨passed, failed, skipped⟩ := value
      dsimp only at h
      split at h
      next hnonneg =>
        obtain rfl := Except.ok.inj h
        refine ⟨?_, hnonneg.2.1, hnonneg.2.2, fun n hn => by cases hn⟩
        show 0 ≤ passed + failed
        omega
      next => cases h
  · obtain ⟨events, -, h⟩ := bind_ok h
    obtain rfl := Except.ok.inj h
    refine ⟨Int.natCast_nonneg _, Int.natCast_nonneg _, Int.natCast_nonneg _, ?_⟩
    intro n hn
    dsimp only at hn
    split at hn
    · cases hn
    next hdeclared =>
      obtain rfl := Option.some.inj hn
      refine ⟨hdeclared, ?_⟩
      exact Int.ofNat_le.mpr (List.length_filter_le _ _)
  · split at h
    · obtain rfl := Except.ok.inj h
      exact ⟨Int.natCast_nonneg _, Int.natCast_nonneg _, Int.le_refl 0, fun n hn => by cases hn⟩
    · cases h

/-- Counts that pass are those of a suite that ran. -/
theorem fits_withCounts {stage : Stage} {outcome : Outcome} {evidence : Evidence} {counts : Counts}
    {content : String} (hcounts : countsOf readers evidence content = .ok counts)
    (hidentity : sameIdentity outcome stage = true) (hevidence : stage.evidence = some evidence)
    (hreturncode : outcome.state = .pass → outcome.returncode = some 0)
    (hdigests : outcome.artifacts.all (fun item => isDigest item.sha256) = true)
    (hpath : outcome.artifacts.head?.map (·.path) = some evidence.readPath) :
    Fits stage (outcome.withCounts stage.kind evidence counts) := by
  obtain ⟨hexecuted, hfailed, hskipped, hexempt⟩ := countsOf_ok hcounts
  unfold Outcome.withCounts
  dsimp only
  split
  next => exact ⟨sameIdentity_of hidentity rfl rfl rfl rfl rfl rfl, fun h => by cases h⟩
  next hnone =>
    split
    next => exact ⟨sameIdentity_of hidentity rfl rfl rfl rfl rfl rfl, fun h => by cases h⟩
    next hcounted =>
      refine ⟨sameIdentity_of hidentity rfl rfl rfl rfl rfl rfl, fun hpass => ?_⟩
      refine ⟨hreturncode hpass, hdigests, ?_, ?_⟩
      · intro other hother
        rw [hevidence] at hother
        obtain rfl := Option.some.inj hother
        exact hpath
      · intro hkind
        have hran : ¬ (counts.executed = 0 ∨ counts.notApplicable.getD 0 < counts.skipped) :=
          fun h => hcounted ⟨hpass, hkind, h⟩
        rw [not_or] at hran
        constructor
        · show suiteCounted counts = true
          simp only [suiteCounted, Bool.and_eq_true, decide_eq_true_eq]
          omega
        · show skipsDeclared stage counts = true
          unfold skipsDeclared
          rw [hevidence]
          cases hn : counts.notApplicable with
          | none => rfl
          | some n =>
            obtain ⟨hdeclared, hle⟩ := hexempt n hn
            simp [hdeclared, hle]

/-- An exception leaves no pass. -/
theorem fits_raise {stage : Stage} {outcome : Outcome} (h : sameIdentity outcome stage = true)
    (message : String) : Fits stage (outcome.raise message) := by
  refine ⟨sameIdentity_of h rfl rfl rfl rfl rfl rfl, fun hpass => ?_⟩
  unfold Outcome.raise at hpass
  dsimp only at hpass
  split at hpass
  · cases hpass
  · cases hpass

theorem evidenceContent_ok {evidence : Evidence} {stdout output : String} {report : Report}
    {read : Artifact} {content : String}
    (h : evidenceContent readers evidence stdout output report = .ok (read, content)) :
    read.path = evidence.readPath ∧ isDigest read.sha256 = true := by
  unfold evidenceContent at h
  unfold Evidence.readPath
  cases hsource : evidence.source with
  | file =>
    simp only [hsource] at h
    split at h
    · obtain ⟨text, -, h⟩ := bind_ok h
      obtain ⟨rfl, -⟩ := Prod.mk.inj (Except.ok.inj h)
      exact ⟨rfl, isDigest_sha256 text⟩
    · cases h
  | stdout =>
    simp only [hsource] at h
    obtain ⟨rfl, -⟩ := Prod.mk.inj (Except.ok.inj h)
    exact ⟨rfl, isDigest_sha256 stdout⟩
  | combined =>
    simp only [hsource] at h
    obtain ⟨rfl, -⟩ := Prod.mk.inj (Except.ok.inj h)
    exact ⟨rfl, isDigest_sha256 output⟩

theorem fits_withEvidence {stage : Stage} {outcome : Outcome} {evidence : Evidence}
    (hidentity : sameIdentity outcome stage = true) (hevidence : stage.evidence = some evidence)
    (hreturncode : outcome.state = .pass → outcome.returncode = some 0)
    (hartifacts : outcome.artifacts = []) (stdout output : String) (report : Report) :
    Fits stage (outcome.withEvidence readers stage.kind evidence stdout output report) := by
  unfold Outcome.withEvidence
  cases hcontent : evidenceContent readers evidence stdout output report with
  | error message => exact fits_raise hidentity message
  | ok result =>
    obtain ⟨read, content⟩ := result
    obtain ⟨hpath, hdigest⟩ := evidenceContent_ok hcontent
    have hidentity' : sameIdentity { outcome with artifacts := outcome.artifacts ++ [read] } stage =
        true := sameIdentity_of hidentity rfl rfl rfl rfl rfl rfl
    dsimp only
    cases hcounts : countsOf readers evidence content with
    | error message => exact fits_raise hidentity' message
    | ok counts =>
      apply fits_withCounts hcounts hidentity' hevidence hreturncode
      · show (outcome.artifacts ++ [read]).all (fun item => isDigest item.sha256) = true
        rw [hartifacts]
        simpa using hdigest
      · show (outcome.artifacts ++ [read]).head?.map (·.path) = some evidence.readPath
        rw [hartifacts]
        exact congrArg some hpath

/-- A command that finished. -/
theorem fits_finished {stage : Stage} (hsuite : stage.kind = .test → stage.evidence.isSome = true)
    (returncode : Int) (stdout output : String) (report : Report) :
    Fits stage (stage.finished readers returncode stdout output report) := by
  have hidentity := sameIdentity_outcome stage
  unfold Stage.finished
  dsimp only
  split
  · exact ⟨sameIdentity_of hidentity rfl rfl rfl rfl rfl rfl, fun h => by cases h⟩
  · have hstate : (if returncode = 0 then State.pass else State.fail) = .pass →
        some returncode = some 0 := by
      intro h
      split at h
      next hzero => rw [hzero]
      next => cases h
    cases hevidence : stage.evidence with
    | some evidence =>
      apply @fits_withEvidence readers stage { stage.outcome with
        returncode := some returncode, state := if returncode = 0 then .pass else .fail } evidence
      · exact sameIdentity_of hidentity rfl rfl rfl rfl rfl rfl
      · exact hevidence
      · exact hstate
      · rfl
    | none =>
      refine ⟨sameIdentity_of hidentity rfl rfl rfl rfl rfl rfl, fun hpass => ?_⟩
      refine ⟨hstate hpass, rfl, fun evidence h => ?_, fun hkind => ?_⟩
      · rw [hevidence] at h
        cases h
      · rw [hevidence] at hsuite
        cases hsuite hkind

theorem fits_attempt {stage : Stage} (hsuite : stage.kind = .test → stage.evidence.isSome = true)
    (prepared : Bool) (execution : Execution) :
    Fits stage (stage.attempt readers prepared execution).1 := by
  have hidentity := sameIdentity_outcome stage
  unfold Stage.attempt
  split
  · exact ⟨sameIdentity_of hidentity rfl rfl rfl rfl rfl rfl, fun h => by cases h⟩
  · split
    · exact ⟨sameIdentity_of hidentity rfl rfl rfl rfl rfl rfl, fun h => by cases h⟩
    · split
      · exact fits_raise hidentity _
      · exact ⟨sameIdentity_of hidentity rfl rfl rfl rfl rfl rfl, fun h => by cases h⟩
      · exact fits_finished hsuite _ _ _ _

theorem all_retain (retains : Nat) (artifacts : List Artifact) :
    (retain retains artifacts).all (fun item => isDigest item.sha256) =
      artifacts.all fun item => isDigest item.sha256 := by
  unfold retain
  rw [List.all_append, List.all_map]
  show ((artifacts.take retains).all (fun item => isDigest item.sha256) && _) = _
  rw [← List.all_append, List.take_append_drop]

theorem head?_retain (retains : Nat) (artifacts : List Artifact) :
    (retain retains artifacts).head?.map (·.path) = artifacts.head?.map (·.path) := by
  cases retains with
  | zero => rfl
  | succ retains =>
    cases artifacts with
    | nil => rfl
    | cons item artifacts => rfl

/-- A fresh outcome fits its stage. -/
theorem fits_execute {stage : Stage} (hsuite : stage.kind = .test → stage.evidence.isSome = true)
    (prepared : Bool) (execution : Execution) :
    Fits stage (stage.execute readers prepared execution) := by
  have h : Fits stage (stage.attempt readers prepared execution).1 :=
    fits_attempt hsuite prepared execution
  unfold Stage.execute
  dsimp only
  refine ⟨sameIdentity_of h.identity rfl rfl rfl rfl rfl rfl, fun hpass => ?_⟩
  obtain ⟨hreturncode, hdigests, hartifact, hcounts⟩ := h.pass hpass
  refine ⟨hreturncode, ?_, ?_, hcounts⟩
  · show (retain _ _).all (fun item => isDigest item.sha256) = true
    rw [all_retain, List.all_append, hdigests, Bool.true_and]
    split
    · rfl
    · simp [artifact, isDigest_sha256]
  · intro evidence hevidence
    show (retain _ _).head?.map (·.path) = some evidence.readPath
    rw [head?_retain]
    have hfirst := hartifact evidence hevidence
    cases hread : (stage.attempt readers prepared execution).1.artifacts with
    | nil =>
      rw [hread] at hfirst
      cases hfirst
    | cons first rest =>
      rw [hread] at hfirst
      exact hfirst

/-! ### Fresh outcomes are not covered -/

@[simp] theorem coveredBy_raise (outcome : Outcome) (message : String) :
    (outcome.raise message).coveredBy = outcome.coveredBy := rfl

@[simp] theorem coveredBy_withCounts (outcome : Outcome) (kind : Kind) (evidence : Evidence)
    (counts : Counts) :
    (outcome.withCounts kind evidence counts).coveredBy = outcome.coveredBy := by
  unfold Outcome.withCounts
  dsimp only
  split
  · rfl
  · split
    · rfl
    · rfl

@[simp] theorem coveredBy_withEvidence (outcome : Outcome) (kind : Kind) (evidence : Evidence)
    (stdout output : String) (report : Report) :
    (outcome.withEvidence readers kind evidence stdout output report).coveredBy =
      outcome.coveredBy := by
  unfold Outcome.withEvidence
  split
  · rfl
  · dsimp only
    split
    · rfl
    · exact coveredBy_withCounts _ _ _ _

theorem coveredBy_execute (stage : Stage) (prepared : Bool) (execution : Execution) :
    (stage.execute readers prepared execution).coveredBy = none := by
  show (stage.attempt readers prepared execution).1.coveredBy = none
  unfold Stage.attempt
  split
  · rfl
  · split
    · rfl
    · split
      · rfl
      · rfl
      · dsimp only
        unfold Stage.finished
        dsimp only
        split
        · rfl
        · split
          · rfl
          · exact coveredBy_withEvidence _ _ _ _ _ _

/-! ## The cache -/

/-- A fresh outcome, also when it comes from the cache. -/
structure Observed (stage : Stage) (outcome : Outcome) : Prop extends Fits stage outcome where
  uncovered : outcome.coveredBy = none

/-- Every record of the cache fits the stage that its key stands for. -/
def Store.Fitting (store : Store) : Prop :=
  ∀ (r : Run) (source : String) (stage : Stage), r.plan.Declared → stage ∈ r.plan.stages →
    (∀ outcome, Dict.get? (r.stageKey source stage, stage.id) store.receipts = some outcome →
      Observed stage outcome) ∧
    ∀ record, Dict.get? (r.stageKey source stage, stage.id) store.failures = some record →
      Observed stage record.outcome

theorem eq_of_id {stages : List Stage} (h : (stages.map (·.id)).Nodup) {stage stage' : Stage}
    (hstage : stage ∈ stages) (hstage' : stage' ∈ stages) (hid : stage.id = stage'.id) :
    stage = stage' :=
  List.inj_on_of_nodup_map h hstage hstage' hid

/-- A stage key and an id determine the stage. -/
theorem stage_of_key {r r' : Run} {source source' : String} {stage stage' : Stage}
    (hdeclared : r.plan.Declared) (hstage : stage ∈ r.plan.stages) (hstage' : stage' ∈ r'.plan.stages)
    (hkey : r.stageKey source stage = r'.stageKey source' stage') (hid : stage.id = stage'.id) :
    stage = stage' := by
  unfold Run.stageKey at hkey
  split at hkey
  · split at hkey
    · obtain ⟨-, hplan, -⟩ := KeyInputs.whole.inj hkey
      rw [← hplan] at hstage'
      exact eq_of_id hdeclared.stages.1 hstage hstage' hid
    · cases hkey
  · split at hkey
    · cases hkey
    · exact (KeyInputs.declared.inj hkey).1

/-- A record under another key stays. -/
theorem fitting_saveStage {store : Store} (h : store.Fitting) {r : Run} (source : String)
    {observed : Stage × Outcome} (hmem : observed.1 ∈ r.plan.stages)
    (hobserved : Observed observed.1 observed.2) : (r.saveStage source store observed).Fitting := by
  intro r' source' stage hdeclared hstage
  obtain ⟨hreceipts, hfailures⟩ := h r' source' stage hdeclared hstage
  by_cases hkey : (r'.stageKey source' stage, stage.id) =
      (r.stageKey source observed.1, observed.1.id)
  · obtain ⟨hkeys, hids⟩ := Prod.mk.inj hkey
    obtain rfl := stage_of_key hdeclared hstage hmem hkeys hids
    rw [hkey] at hreceipts hfailures ⊢
    unfold Run.saveStage
    dsimp only
    split
    · refine ⟨hreceipts, fun record hrecord => ?_⟩
      dsimp only at hrecord
      rw [Dict.get?_set_self] at hrecord
      obtain rfl := Option.some.inj hrecord
      exact hobserved
    · split
      · constructor
        · intro outcome houtcome
          dsimp only at houtcome
          rw [Dict.get?_set_self] at houtcome
          obtain rfl := Option.some.inj houtcome
          exact hobserved
        · intro record hrecord
          dsimp only at hrecord
          rw [Dict.get?_filter_ne, if_pos rfl] at hrecord
          cases hrecord
      · refine ⟨hreceipts, fun record hrecord => ?_⟩
        dsimp only at hrecord
        rw [Dict.get?_filter_ne, if_pos rfl] at hrecord
        cases hrecord
  · unfold Run.saveStage
    dsimp only
    split
    · refine ⟨hreceipts, fun record hrecord => hfailures record ?_⟩
      dsimp only at hrecord
      rwa [Dict.get?_set_of_ne hkey] at hrecord
    · split
      · constructor
        · intro outcome houtcome
          dsimp only at houtcome
          rw [Dict.get?_set_of_ne hkey] at houtcome
          exact hreceipts outcome houtcome
        · intro record hrecord
          dsimp only at hrecord
          rw [Dict.get?_filter_ne, if_neg hkey] at hrecord
          exact hfailures record hrecord
      · refine ⟨hreceipts, fun record hrecord => hfailures record ?_⟩
        dsimp only at hrecord
        rwa [Dict.get?_filter_ne, if_neg hkey] at hrecord

/-- A verdict from the cache fits the stage it is looked up for. -/
theorem observed_cached {store : Store} (h : store.Fitting) {r : Run} (hdeclared : r.plan.Declared)
    {stage : Stage} (hstage : stage ∈ r.plan.stages) {outcome : Outcome}
    (hcached : r.cached store stage = some outcome) : Observed stage outcome := by
  obtain ⟨source, -, hcases⟩ := cached_cases hcached
  obtain ⟨hreceipts, hfailures⟩ := h r source stage hdeclared hstage
  rcases hcases with hreceipt | ⟨record, hrecord, -, hfail, rfl⟩
  · exact hreceipts outcome hreceipt
  · have hobserved := hfailures record hrecord
    refine ⟨⟨sameIdentity_of hobserved.identity rfl rfl rfl rfl rfl rfl, fun hpass => ?_⟩,
      hobserved.uncovered⟩
    -- a failure record holds no pass
    have hpass : record.outcome.state = .pass := hpass
    rw [hfail] at hpass
    cases hpass

/-! ## The loop -/

/-- The outcome of a stage in the loop; a covered one names the stage that the declaration
    names. -/
structure Reported (r : Run) (stage : Stage) (outcome : Outcome) : Prop extends
    Fits stage outcome where
  covered : ∀ id, outcome.coveredBy = some id → r.stageId = none ∧ stage.coveredBy = some id ∧
    outcome.state = .notApplicable ∧ outcome.reason = "coverage_provided_by:" ++ id

/-- The outcomes of the stages done so far. -/
structure Progress.Reports (r : Run) (before : List Stage) (done : Progress) : Prop where
  reported : List.Forall₂ (Reported r) before done.outcomes
  covering : ∀ outcome ∈ done.outcomes, ∀ id, outcome.coveredBy = some id →
    ∃ item ∈ done.outcomes, item.id = id ∧ item.state = .pass
  observed : ∀ pair ∈ done.observed, pair.1 ∈ r.plan.stages ∧ Observed pair.1 pair.2

theorem Observed.reported {r : Run} {stage : Stage} {outcome : Outcome} (h : Observed stage outcome) :
    Reported r stage outcome := by
  refine ⟨h.toFits, fun id hid => ?_⟩
  rw [h.uncovered] at hid
  cases hid

/-- An outcome that no other one is covered by adds to the outcomes. -/
theorem Progress.Reports.add {r : Run} {before : List Stage} {done done' : Progress}
    {stage : Stage} {outcome : Outcome} (h : done.Reports r before)
    (houtcomes : done'.outcomes = done.outcomes ++ [outcome]) (hreported : Reported r stage outcome)
    (hcovering : ∀ id, outcome.coveredBy = some id →
      ∃ item ∈ done.outcomes, item.id = id ∧ item.state = .pass)
    (hobserved : ∀ pair ∈ done'.observed, pair.1 ∈ r.plan.stages ∧ Observed pair.1 pair.2) :
    done'.Reports r (before ++ [stage]) where
  reported := by
    rw [houtcomes]
    exact List.rel_append h.reported (.cons hreported .nil)
  covering := by
    intro other hother id hid
    rw [houtcomes] at hother ⊢
    have hitem : ∃ item ∈ done.outcomes, item.id = id ∧ item.state = .pass := by
      rcases List.mem_append.mp hother with hmem | hmem
      · exact h.covering other hmem id hid
      · rw [List.mem_singleton.mp hmem] at hid
        exact hcovering id hid
    obtain ⟨item, hitem, hpass⟩ := hitem
    exact ⟨item, List.mem_append_left _ hitem, hpass⟩
  observed := hobserved

theorem Store.Fitting.of_files {store store' : Store} (h : store.Fitting)
    (hreceipts : store'.receipts = store.receipts) (hfailures : store'.failures = store.failures) :
    store'.Fitting := by
  intro r source stage hdeclared hstage
  rw [hreceipts, hfailures]
  exact h r source stage hdeclared hstage

/-- One stage, on each of its paths. -/
theorem Progress.Reports.step {r : Run} {before : List Stage} {done : Progress}
    (h : done.Reports r before) (hfitting : done.store.Fitting) (hdeclared : r.plan.Declared)
    {stage : Stage} (hstage : stage ∈ r.plan.stages) :
    (r.stageStep readers done stage).Reports r (before ++ [stage]) := by
  have hidentity := sameIdentity_outcome stage
  unfold Run.stageStep
  split
  · -- declared inapplicability
    apply h.add rfl
    · exact ⟨⟨hidentity, fun hpass => by cases hpass⟩, fun id hid => by cases hid⟩
    · intro id hid
      cases hid
    · exact h.observed
  · split
    next cached hcached =>
      have hobserved := observed_cached hfitting hdeclared hstage hcached
      apply h.add rfl
      · apply Observed.reported
        refine ⟨⟨hobserved.identity, fun hpass => ?_⟩, hobserved.uncovered⟩
        obtain ⟨hreturncode, hdigests, hartifact, hcounts⟩ := hobserved.pass hpass
        exact ⟨hreturncode, hdigests, hartifact, hcounts⟩
      · intro id hid
        have hid : cached.coveredBy = some id := hid
        rw [hobserved.uncovered] at hid
        cases hid
      · exact h.observed
    next hcached =>
      split
      next id hcovered =>
        -- a stage before it passed
        unfold Run.coveredBy at hcovered
        split at hcovered
        next hfull =>
          obtain ⟨hid, hpassed⟩ := Option.filter_eq_some_iff.mp hcovered
          obtain ⟨item, hitem, hpass⟩ := List.any_eq_true.mp hpassed
          simp only [Bool.and_eq_true, decide_eq_true_eq] at hpass
          apply h.add rfl
          · refine ⟨⟨hidentity, fun hpass => by cases hpass⟩, fun id' hid' => ?_⟩
            obtain rfl : id = id' := Option.some.inj hid'
            exact ⟨hfull.1, hid, rfl, rfl⟩
          · intro id' hid'
            obtain rfl : id = id' := Option.some.inj hid'
            exact ⟨item, hitem, hpass⟩
          · exact h.observed
        next => cases hcovered
      next huncovered =>
        have hobserved : Observed stage (stage.execute readers r.plan.prepared (r.execution stage.id)) :=
          ⟨fits_execute (hdeclared.stages.2.1 stage hstage) _ _, coveredBy_execute _ _ _⟩
        apply h.add rfl hobserved.reported
        · intro id hid
          rw [hobserved.uncovered] at hid
          cases hid
        · intro pair hpair
          rcases List.mem_append.mp hpair with hmem | hmem
          · exact h.observed pair hmem
          · split at hmem
            · rw [List.mem_singleton.mp hmem]
              exact ⟨hstage, hobserved⟩
            · cases hmem

theorem reports_stages {r : Run} (hdeclared : r.plan.Declared) {store : Store}
    (hfitting : store.Fitting) {before : List Stage} (stages : List Stage)
    (hstages : ∀ stage ∈ stages, stage ∈ r.plan.stages) {done : Progress}
    (h : done.Reports r before) (hfrom : done.From store) :
    (stages.foldl (r.stageStep readers) done).Reports r (before ++ stages) := by
  induction stages generalizing before done with
  | nil => simpa using h
  | cons stage stages ih =>
    have hstep : (r.stageStep readers done stage).Reports r (before ++ [stage]) :=
      h.step (hfitting.of_files hfrom.receipts hfrom.failures) hdeclared
        (hstages stage List.mem_cons_self)
    have hrest := ih (fun other hother => hstages other (List.mem_cons_of_mem _ hother)) hstep
      (hfrom.step stage)
    simpa [List.append_assoc] using hrest

theorem mem_stages {r : Run} {stage : Stage} (h : stage ∈ r.stages) : stage ∈ r.plan.stages :=
  (List.mem_filter.mp h).1

/-- The loop reports each selected stage. -/
theorem reports_loop {r : Run} (hdeclared : r.plan.Declared) {store : Store}
    (hfitting : store.Fitting) : (r.loop readers store).Reports r r.stages := by
  have hstart : (⟨store, [], []⟩ : Progress).Reports r [] :=
    ⟨.nil, fun outcome h => (by cases h), fun pair h => (by cases h)⟩
  exact reports_stages hdeclared hfitting r.stages (fun stage h => mem_stages h) hstart
    (from_start store)

/-! ## Runs -/

theorem fitting_saves {r : Run} (source : String) {observed : List (Stage × Outcome)}
    (hobserved : ∀ pair ∈ observed, pair.1 ∈ r.plan.stages ∧ Observed pair.1 pair.2)
    {store : Store} (h : store.Fitting) : (observed.foldl (r.saveStage source) store).Fitting := by
  induction observed generalizing store with
  | nil => exact h
  | cons pair observed ih =>
    obtain ⟨hmem, hpair⟩ := hobserved pair List.mem_cons_self
    exact ih (fun other hother => hobserved other (List.mem_cons_of_mem _ hother))
      (fitting_saveStage h source hmem hpair)

/-- A run leaves records that fit. -/
theorem Store.Fitting.step {store : Store} (h : store.Fitting) {r : Run}
    (hdeclared : r.plan.Declared) : (r.storeAfter readers store).Fitting := by
  rw [storeAfter_eq]
  split
  · have hloop : (r.loop readers store).Reports r r.stages := reports_loop hdeclared h
    have hfrom : (r.loop readers store).From store :=
      from_stages store r.stages (from_start store)
    have hfitting := h.of_files hfrom.receipts hfrom.failures
    unfold Run.save
    split
    · exact hfitting
    next source _ => exact fitting_saves source (fun pair hpair => hloop.observed pair (mem_saved hpair)) hfitting
  · exact h

/-- The store after some runs. -/
def storeOf (readers : Readers) (runs : List Run) : Store :=
  run (fun store r => r.storeAfter readers store) ⟨[], [], []⟩ runs

theorem fitting_storeOf {runs : List Run} (h : ∀ r ∈ runs, r.plan.Declared) :
    (storeOf readers runs).Fitting := by
  apply run_invariant (fun store r hr hfitting => hfitting.step (h r hr))
  intro r source stage _ _
  exact ⟨fun outcome h => (by cases h), fun record h => (by cases h)⟩

end

/-! ## The validator -/

/-- What the validator checks of one stage. -/
theorem validateStage_ok {requireSuccess : Bool} {outcomes : List Outcome} {declared : List Stage}
    {outcome : Outcome} {stage : Stage} :
    validateStage requireSuccess outcomes declared outcome stage = .ok () ↔
      sameIdentity outcome stage = true ∧
      (requireSuccess = true → stage.required = true → succeeded outcome = true) ∧
      coverageProvided outcomes declared outcome stage = true ∧
      (stage.required = true → outcome.state = .pass →
        (∀ evidence, stage.evidence = some evidence →
          artifactsIdentified evidence outcome.artifacts = true) ∧
        (stage.kind = .test → outcome.counts.any suiteCounted = true ∧
          outcome.counts.any (skipsDeclared stage) = true)) := by
  unfold validateStage
  simp only [seq_eq_ok, require_ok, Bool.or_eq_true, Bool.not_eq_true', Bool.and_eq_false_iff,
    decide_eq_true_eq, decide_eq_false_iff_not, Option.all_eq_true]
  have hkind : stage.kind = .check ↔ ¬ stage.kind = .test := by
    cases stage.kind with
    | check => simp
    | test => simp
  cases stage.required with
  | false => simp
  | true =>
    rw [hkind]
    cases requireSuccess with
    | false => grind
    | true => grind

theorem validateStages_ok {requireSuccess : Bool} {outcomes : List Outcome} {declared : List Stage}
    {pairs : List (Outcome × Stage)} :
    validateStages requireSuccess outcomes declared pairs = .ok () ↔
      ∀ pair ∈ pairs, validateStage requireSuccess outcomes declared pair.1 pair.2 = .ok () := by
  induction pairs with
  | nil => exact ⟨fun _ pair h => (by cases h), fun _ => rfl⟩
  | cons pair pairs ih =>
    show (validateStage requireSuccess outcomes declared pair.1 pair.2 >>= fun _ =>
      validateStages requireSuccess outcomes declared pairs) = .ok () ↔ _
    rw [seq_eq_ok, ih, List.forall_mem_cons]

/-- Accepted, also as a success if it is one. -/
def Accepted (evidence : NativeEvidence) (native : Declared) : Prop :=
  validateNativeEvidence evidence native false = .ok () ∧
    (evidence.state = .pass ∧ evidence.coverage = .full →
      validateNativeEvidence evidence native true = .ok ())

/-- Accepted evidence is what the gate records. -/
theorem gateEvidence_eq_some {evidence : NativeEvidence} {native : Declared} :
    gateEvidence evidence native = some evidence ↔ Accepted evidence native := by
  unfold gateEvidence Accepted
  cases hfalse : validateNativeEvidence evidence native false with
  | error message => simp
  | ok _ =>
    by_cases hpass : evidence.state = .pass ∧ evidence.coverage = .full
    · cases htrue : validateNativeEvidence evidence native true with
      | error message => simp [hpass]
      | ok _ => simp [hpass]
    · simp [hpass]

/-- What the validator is given for a run. -/
def Run.declared (r : Run) : Declared := ⟨r.stages, r.plan.legacyTools⟩

/-- Evidence with as many stages as were selected is accepted with its stages. -/
theorem validateNativeEvidence_ok {evidence : NativeEvidence} {r : Run} {requireSuccess : Bool}
    (hversion : evidence.schemaVersion = 1)
    (hstate : evidence.state = .pass ∨ evidence.state = .fail)
    (hsuccess : requireSuccess = true → evidence.coverage = .full ∧ evidence.state = .pass)
    (hlength : evidence.stages.length = r.stages.length) :
    validateNativeEvidence (evidence.withLegacy r.plan) r.declared requireSuccess = .ok () ↔
      ∀ pair ∈ evidence.stages.zip r.stages,
        validateStage requireSuccess evidence.stages r.stages pair.1 pair.2 = .ok () := by
  have hstages : (evidence.withLegacy r.plan).stages = evidence.stages := by
    unfold NativeEvidence.withLegacy
    split
    · rfl
    · rfl
  have henvelope : (evidence.withLegacy r.plan).schemaVersion = 1 ∧
      (evidence.withLegacy r.plan).state = evidence.state ∧
      (evidence.withLegacy r.plan).coverage = evidence.coverage := by
    unfold NativeEvidence.withLegacy
    split
    · exact ⟨hversion, rfl, rfl⟩
    · exact ⟨hversion, rfl, rfl⟩
  have hlegacy : (decide (r.plan.legacyTools = []) ||
      (evidence.withLegacy r.plan).legacy.any fun legacy =>
        decide (legacy.coverage = .full) && (!requireSuccess || decide (legacy.state = .pass))) =
      true := by
    unfold NativeEvidence.withLegacy
    split
    next h => simp [h]
    next => simp
  unfold validateNativeEvidence
  simp only [seq_eq_ok, require_ok, validateStages_ok]
  rw [hstages, henvelope.1, henvelope.2.1, henvelope.2.2]
  show _ ∧ _ ∧ (decide (r.plan.legacyTools = []) || _) = true ∧
    decide (evidence.stages.length = r.stages.length) = true ∧ _ ↔ _
  rw [hlegacy, hlength]
  cases requireSuccess with
  | false => simp [hstate, Run.declared]
  | true => simp [hsuccess rfl, Run.declared]

section

variable {readers : Readers} {r : Run}

@[simp] theorem coveredBy_unlessChanged (outcome : Outcome) (changed : Bool) :
    (outcome.unlessChanged changed).coveredBy = outcome.coveredBy := by
  unfold Outcome.unlessChanged
  split
  · rfl
  · rfl

theorem unlessChanged_false (outcome : Outcome) : outcome.unlessChanged false = outcome := rfl

theorem state_unlessChanged (outcome : Outcome) : (outcome.unlessChanged true).state ≠ .pass := by
  unfold Outcome.unlessChanged
  split
  · exact fun h => by cases h
  next h => simpa using h

theorem sameIdentity_unlessChanged {outcome : Outcome} {stage : Stage}
    (h : sameIdentity outcome stage = true) (changed : Bool) :
    sameIdentity (outcome.unlessChanged changed) stage = true := by
  unfold Outcome.unlessChanged
  split
  · exact sameIdentity_of h rfl rfl rfl rfl rfl rfl
  · exact h

/-- The selected stages are some of the plan, in its order. -/
theorem nodup_stages (hdeclared : r.plan.Declared) : (r.stages.map (·.id)).Nodup :=
  (List.filter_sublist.map _).nodup hdeclared.stages.1

theorem id_of_sameIdentity {outcome : Outcome} {stage : Stage}
    (h : sameIdentity outcome stage = true) : outcome.id = stage.id := by
  unfold sameIdentity at h
  simp only [Bool.and_eq_true, decide_eq_true_eq] at h
  exact h.1.1.1.1.1

theorem map_id_of_reported {stages : List Stage} {outcomes : List Outcome}
    (h : List.Forall₂ (Reported r) stages outcomes) :
    outcomes.map (·.id) = stages.map (·.id) := by
  induction h with
  | nil => rfl
  | cons hreported _ ih =>
    rw [List.map_cons, List.map_cons, id_of_sameIdentity hreported.identity, ih]

theorem find?_of_id {α : Type} {id : α → String} {items : List α} (hnodup : (items.map id).Nodup)
    {item : α} (hitem : item ∈ items) :
    (items.find? fun other => decide (id other = id item)) = some item := by
  cases hfind : items.find? fun other => decide (id other = id item) with
  | none =>
    have hne := List.find?_eq_none.mp hfind item hitem
    simp at hne
  | some other =>
    have hid : id other = id item := by simpa using List.find?_some hfind
    rw [List.inj_on_of_nodup_map hnodup (List.mem_of_find?_eq_some hfind) hitem hid]

/-- A covered stage is accepted while the pass that covers it stands. -/
theorem coverageProvided_of_covering (hdeclared : r.plan.Declared) {outcomes : List Outcome}
    (hreported : List.Forall₂ (Reported r) r.stages outcomes)
    (hcovering : ∀ outcome ∈ outcomes, ∀ id, outcome.coveredBy = some id →
      ∃ item ∈ outcomes, item.id = id ∧ item.state = .pass)
    {outcome : Outcome} (houtcome : outcome ∈ outcomes) {stage : Stage} (hstage : stage ∈ r.stages)
    (h : Reported r stage outcome) :
    coverageProvided outcomes r.stages outcome stage = true := by
  unfold coverageProvided
  cases hid : outcome.coveredBy with
  | none => rfl
  | some id =>
    obtain ⟨hall, hstageId, hstate, hreason⟩ := h.covered id hid
    obtain ⟨item, hitem, rfl, hpass⟩ := hcovering outcome houtcome id hid
    obtain ⟨hrequired, other, hother, hname, hcovers⟩ :=
      hdeclared.stages.2.2 stage (mem_stages hstage) item.id hstageId
    have hother : other ∈ r.stages := by
      unfold Run.stages
      rw [hall]
      simpa using hother
    have hnodup : (outcomes.map (·.id)).Nodup := by
      rw [map_id_of_reported hreported]
      exact nodup_stages hdeclared
    have hfind : (outcomes.find? fun other => decide (other.id = item.id)) = some item :=
      find?_of_id hnodup hitem
    have hfind' : (r.stages.find? fun stage => decide (stage.id = item.id)) = some other := by
      rw [← hname]
      exact find?_of_id (nodup_stages hdeclared) hother
    simp only [covers, Bool.and_eq_true, decide_eq_true_eq] at hcovers
    obtain ⟨⟨⟨hother, -⟩, hfull⟩, hkind⟩ := hcovers
    dsimp only
    rw [hfind, hfind', hstageId, hstate, hreason, hrequired]
    simp [hpass, hother, hfull, hkind]

/-- No pass stands, so nothing is covered. -/
theorem coverageProvided_of_changed {outcomes : List Outcome} {outcome : Outcome} {stage : Stage}
    {declared : List Stage} :
    coverageProvided (outcomes.map fun item => item.unlessChanged true) declared outcome stage =
      true ↔ outcome.coveredBy = none := by
  unfold coverageProvided
  cases hid : outcome.coveredBy with
  | none => simp
  | some id =>
    have hnone : ((outcomes.map fun item => item.unlessChanged true).find? fun item =>
        decide (item.id = id)).any (fun item => decide (item.state = .pass)) = false := by
      rw [Option.any_eq_false]
      intro item hitem
      obtain ⟨before, -, rfl⟩ := List.mem_map.mp (List.mem_of_find?_eq_some hitem)
      simpa using state_unlessChanged before
    dsimp only
    rw [hnone]
    simp

/-- What the validator needs of a stage's outcome: that it is not covered when the source
    changed, and that the report behind a required pass is declared by the path it is read
    from. -/
def Agrees (changed : Bool) (outcome : Outcome) (stage : Stage) : Prop :=
  (changed = true → outcome.coveredBy = none) ∧
    (changed = false → stage.required = true → outcome.state = .pass →
      ∀ evidence, stage.evidence = some evidence → evidence.readPath = evidence.expectedPath)

theorem artifactsIdentified_iff {stage : Stage} {outcome : Outcome} (h : Shown stage outcome)
    {evidence : Evidence} (hevidence : stage.evidence = some evidence) :
    artifactsIdentified evidence outcome.artifacts = true ↔
      evidence.readPath = evidence.expectedPath := by
  have hpath := h.artifact evidence hevidence
  unfold artifactsIdentified
  rw [h.digests, Bool.true_and]
  cases hfirst : outcome.artifacts.head? with
  | none =>
    rw [hfirst] at hpath
    cases hpath
  | some first =>
    rw [hfirst] at hpath
    have hpath : first.path = evidence.readPath := Option.some.inj hpath
    simp [hpath]

/-- One stage of the evidence. -/
theorem validateStage_iff (hdeclared : r.plan.Declared) {outcomes : List Outcome}
    (hreported : List.Forall₂ (Reported r) r.stages outcomes)
    (hcovering : ∀ outcome ∈ outcomes, ∀ id, outcome.coveredBy = some id →
      ∃ item ∈ outcomes, item.id = id ∧ item.state = .pass)
    {outcome : Outcome} (houtcome : outcome ∈ outcomes) {stage : Stage} (hstage : stage ∈ r.stages)
    (h : Reported r stage outcome) (changed : Bool) :
    validateStage false (outcomes.map fun item => item.unlessChanged changed) r.stages
      (outcome.unlessChanged changed) stage = .ok () ↔ Agrees changed outcome stage := by
  rw [validateStage_ok]
  have hidentity := sameIdentity_unlessChanged h.identity changed
  unfold Agrees
  cases changed with
  | true =>
    rw [coverageProvided_of_changed, coveredBy_unlessChanged]
    have hstate := state_unlessChanged outcome
    simp [hidentity, hstate]
  | false =>
    have hsame : (outcomes.map fun item => item.unlessChanged false) = outcomes :=
      List.map_id _
    have hprovided := coverageProvided_of_covering hdeclared hreported hcovering houtcome hstage h
    rw [hsame, unlessChanged_false, hprovided]
    constructor
    · rintro ⟨-, -, -, hpassed⟩
      refine ⟨fun h => (by cases h), fun _ hrequired hpass evidence hevidence => ?_⟩
      exact (artifactsIdentified_iff (h.pass hpass) hevidence).mp
        ((hpassed hrequired hpass).1 evidence hevidence)
    · rintro ⟨-, hagrees⟩
      refine ⟨h.identity, fun h => (by cases h), rfl, fun hrequired hpass => ⟨?_, ?_⟩⟩
      · intro evidence hevidence
        exact (artifactsIdentified_iff (h.pass hpass) hevidence).mpr
          (hagrees rfl hrequired hpass evidence hevidence)
      · exact (h.pass hpass).counts

/-- A stage of a success, when the rest is accepted. -/
theorem validateStage_true {outcomes : List Outcome} {declared : List Stage} {outcome : Outcome}
    {stage : Stage} (h : validateStage false outcomes declared outcome stage = .ok ())
    (hsucceeded : stage.required = true → succeeded outcome = true) :
    validateStage true outcomes declared outcome stage = .ok () := by
  obtain ⟨hidentity, -, hprovided, hpassed⟩ := validateStage_ok.mp h
  exact validateStage_ok.mpr ⟨hidentity, fun _ => hsucceeded, hprovided, hpassed⟩

/-- Every stage's outcome agrees with its declaration. -/
def Run.Agrees (readers : Readers) (r : Run) (store : Store) : Prop :=
  r.starts = true → ∀ pair ∈ (r.loop readers store).outcomes.zip r.stages,
    NativeCheck.Agrees (r.source.isSome && r.changed) pair.1 pair.2

/-- A run is blocked before its stages, or reports them. -/
theorem runNative_cases {store : Store} {evidence : NativeEvidence} {store' : Store}
    (h : r.runNative readers store = .ok (evidence, store')) :
    (r.starts = false ∧ ∃ reason, evidence = r.blocked reason) ∨
      (r.starts = true ∧ evidence = r.evidence (r.loop readers store).outcomes) := by
  unfold Run.runNative at h
  unfold Run.starts
  split at h
  · cases h
  next hstages =>
    split at h
    next hprepared =>
      obtain ⟨rfl, -⟩ := Prod.mk.inj (Except.ok.inj h)
      rw [Bool.not_eq_true'] at hprepared
      exact .inl ⟨by simp [hprepared], _, rfl⟩
    next hprepared =>
      split at h
      next hblocked =>
        obtain ⟨rfl, -⟩ := Prod.mk.inj (Except.ok.inj h)
        exact .inl ⟨by rw [hblocked]; simp, _, rfl⟩
      next hblocked =>
        obtain ⟨rfl, -⟩ := Prod.mk.inj (Except.ok.inj h)
        rw [Bool.not_eq_true', Bool.not_eq_false] at hprepared
        rw [Bool.not_eq_true] at hblocked
        exact .inr ⟨by rw [hblocked, hprepared]; simp [hstages], rfl⟩

/-- A blocked run is accepted; it is no success. -/
theorem accepted_blocked (r : Run) (reason : String) :
    Accepted ((r.blocked reason).withLegacy r.plan) r.declared := by
  have hstate : ((r.blocked reason).withLegacy r.plan).state = .fail := by
    unfold NativeEvidence.withLegacy
    split
    · rfl
    · rfl
  constructor
  · rw [validateNativeEvidence_ok rfl (.inr rfl) (fun h => by cases h) (by simp [Run.blocked])]
    intro pair hpair
    have hpair : pair ∈ (r.stages.map fun stage => { stage.outcome with reason := reason }).zip
        (r.stages.map id) := by
      rw [List.map_id]
      exact hpair
    rw [List.zip_map', List.mem_map] at hpair
    obtain ⟨stage, -, rfl⟩ := hpair
    rw [validateStage_ok]
    refine ⟨sameIdentity_of (sameIdentity_outcome stage) rfl rfl rfl rfl rfl rfl,
      fun h => (by cases h), rfl, fun _ hpass => ?_⟩
    cases hpass
  · rintro ⟨hpass, -⟩
    rw [hstate] at hpass
    cases hpass

/-- A success has only passes of full coverage among its required stages. -/
theorem succeeded_of_evidence {outcomes : List Outcome}
    (hpass : (r.evidence outcomes).state = .pass) (hfull : (r.evidence outcomes).coverage = .full)
    {outcome : Outcome} (houtcome : outcome ∈ outcomes) {stage : Stage} (hstage : stage ∈ r.stages)
    (hreported : Reported r stage outcome) (hrequired : stage.required = true) :
    succeeded (outcome.unlessChanged (r.source.isSome && r.changed)) = true := by
  generalize hchanged : (r.source.isSome && r.changed) = changed
  have hidentity := sameIdentity_unlessChanged hreported.identity changed
  simp only [sameIdentity, Bool.and_eq_true, decide_eq_true_eq] at hidentity
  have hstate : (outcome.unlessChanged changed).state = .pass := by
    unfold Run.evidence at hpass
    rw [hchanged] at hpass
    dsimp only at hpass
    split at hpass
    next hall =>
      rw [List.all_eq_true] at hall
      have hmem : outcome.unlessChanged changed ∈
          (outcomes.map fun outcome => outcome.unlessChanged changed).filter (·.required) := by
        rw [List.mem_filter]
        exact ⟨List.mem_map_of_mem houtcome, by rw [hidentity.1.1.1.1.2, hrequired]⟩
      simpa using hall _ hmem
    next => cases hpass
  have hcoverage : stage.coverage = .full := by
    unfold Run.evidence at hfull
    dsimp only at hfull
    split at hfull
    next hall =>
      rw [Bool.and_eq_true, List.all_eq_true] at hall
      simpa using hall.2 stage (List.mem_filter.mpr ⟨hstage, hrequired⟩)
    next => cases hfull
  have hreturncode : (outcome.unlessChanged changed).returncode = some 0 := by
    cases changed with
    | true => exact absurd hstate (state_unlessChanged outcome)
    | false => exact (hreported.pass hstate).returncode
  unfold succeeded
  rw [hstate, hreturncode, hidentity.1.1.1.2, hcoverage]
  rfl

/-- The outcomes of a loop, as they are reported. -/
theorem accepted_evidence (hdeclared : r.plan.Declared) {done : Progress}
    (h : done.Reports r r.stages) :
    Accepted ((r.evidence done.outcomes).withLegacy r.plan) r.declared ↔
      ∀ pair ∈ done.outcomes.zip r.stages,
        Agrees (r.source.isSome && r.changed) pair.1 pair.2 := by
  obtain ⟨hlength, hpairs⟩ := List.forall₂_iff_zip.mp h.reported.flip
  have hstate : (r.evidence done.outcomes).state = .pass ∨
      (r.evidence done.outcomes).state = .fail := by
    unfold Run.evidence
    dsimp only
    split
    · exact .inl rfl
    · exact .inr rfl
  have hstages : (r.evidence done.outcomes).stages =
      done.outcomes.map fun item => item.unlessChanged (r.source.isSome && r.changed) := rfl
  have hlength' : (r.evidence done.outcomes).stages.length = r.stages.length := by
    rw [hstages, List.length_map, hlength]
  have hone : ∀ pair ∈ done.outcomes.zip r.stages,
      (validateStage false (r.evidence done.outcomes).stages r.stages
        (pair.1.unlessChanged (r.source.isSome && r.changed)) pair.2 = .ok () ↔
        Agrees (r.source.isSome && r.changed) pair.1 pair.2) := by
    intro pair hpair
    exact validateStage_iff hdeclared h.reported h.covering (List.of_mem_zip hpair).1
      (List.of_mem_zip hpair).2 (hpairs hpair) _
  have hfalse : validateNativeEvidence ((r.evidence done.outcomes).withLegacy r.plan) r.declared
      false = .ok () ↔ ∀ pair ∈ done.outcomes.zip r.stages,
        Agrees (r.source.isSome && r.changed) pair.1 pair.2 := by
    rw [validateNativeEvidence_ok rfl hstate (fun h => by cases h) hlength', hstages,
      List.zip_map_left, List.forall_mem_map]
    exact forall₂_congr hone
  unfold Accepted
  rw [hfalse]
  apply and_iff_left_of_imp
  intro hagrees hsuccess
  have hpass : (r.evidence done.outcomes).state = .pass ∧
      (r.evidence done.outcomes).coverage = .full := by
    unfold NativeEvidence.withLegacy at hsuccess
    split at hsuccess
    · exact hsuccess
    · exact hsuccess
  rw [validateNativeEvidence_ok rfl hstate (fun _ => ⟨hpass.2, hpass.1⟩) hlength', hstages,
    List.zip_map_left, List.forall_mem_map]
  intro pair hpair
  exact validateStage_true ((hone pair hpair).mpr (hagrees pair hpair))
    (succeeded_of_evidence hpass.1 hpass.2 (List.of_mem_zip hpair).1 (List.of_mem_zip hpair).2
      (hpairs hpair))

/-- The result of a run, after any runs: the validator accepts it, also as a success if it is
    one, and the gate records it, exactly when every stage's outcome agrees with its
    declaration. -/
theorem evidence_accepted (readers : Readers) (runs : List Run) (r : Run)
    (hruns : ∀ r ∈ runs, r.plan.Declared) (hdeclared : r.plan.Declared)
    (evidence : NativeEvidence) (store : Store)
    (h : r.runNative readers (storeOf readers runs) = .ok (evidence, store)) :
    (Accepted (evidence.withLegacy r.plan) r.declared ↔
        r.Agrees readers (storeOf readers runs)) ∧
      (gateEvidence (evidence.withLegacy r.plan) r.declared = some (evidence.withLegacy r.plan) ↔
        r.Agrees readers (storeOf readers runs)) := by
  have haccepted : Accepted (evidence.withLegacy r.plan) r.declared ↔
      r.Agrees readers (storeOf readers runs) := by
    unfold Run.Agrees
    rcases runNative_cases h with ⟨hstarts, reason, rfl⟩ | ⟨hstarts, rfl⟩
    · rw [hstarts]
      exact ⟨fun _ h => (by cases h), fun _ => accepted_blocked r reason⟩
    · rw [accepted_evidence hdeclared (reports_loop hdeclared (fitting_storeOf hruns))]
      exact ⟨fun hagrees _ => hagrees, fun hagrees => hagrees hstarts⟩
  exact ⟨haccepted, gateEvidence_eq_some.trans haccepted⟩

end

/-! ## A covered stage whose cover falls -/

/-- A machine on which every path is in the project. -/
def lintFiles : Files where
  parentInside _ := true
  inside _ := true
  identity _ := "lint-1"
  isFile _ := true
  compiles _ := true
  isIdentifier _ := true

/-- A required check and a focused one that it covers. -/
def coverTables : List Toml :=
  [.table [("id", .str "lint"), ("argv", .arr [.str "tools/lint"]), ("coverage", .str "full")],
    .table [("id", .str "quick"), ("argv", .arr [.str "tools/lint"]), ("coverage", .str "focused"),
      ("required", .bool false), ("covered_by", .str "lint")]]

/-- The focused check. -/
def quickStage : Stage := { lintStage with
  id := "quick", coverage := .focused, required := false, coveredBy := some "lint" }

theorem declared_cover {r : Run} (h : r.plan.stages = [lintStage, quickStage]) :
    r.plan.Declared := by
  refine ⟨lintFiles, [], [], coverTables, ?_⟩
  rw [h]
  rfl

/-- The source changes during a run in which a passing check covers a focused one: the pass no
    longer stands, and the gate has no evidence. -/
theorem not_every_evidence_accepted :
    ¬ ∀ (readers : Readers) (runs : List Run) (r : Run), (∀ r ∈ runs, r.plan.Declared) →
      r.plan.Declared → ∀ (evidence : NativeEvidence) (store : Store),
        r.runNative readers (storeOf readers runs) = .ok (evidence, store) →
        Accepted (evidence.withLegacy r.plan) r.declared := by
  intro h
  let r : Run := { gateRun [lintStage, quickStage] true 0 with changed := true }
  have haccepted := h silentReaders [] r (fun r h => by cases h) (declared_cover rfl) _ _ rfl
  have hrejected : gateEvidence ((r.evidence
      (r.loop silentReaders (storeOf silentReaders [])).outcomes).withLegacy r.plan) r.declared =
        none := by decide +kernel
  rw [gateEvidence_eq_some.mpr haccepted] at hrejected
  cases hrejected

/-- The second run reports the pass of the first, and covers the focused check with it. -/
theorem evidence_accepted_reused :
    ∃ evidence, (gateRun [lintStage, quickStage] true 0).runNative silentReaders
        (storeOf silentReaders [gateRun [lintStage, quickStage] true 0]) = .ok evidence ∧
      gateEvidence (evidence.1.withLegacy ⟨[lintStage, quickStage], [], true, ""⟩)
        ⟨[lintStage, quickStage], []⟩ =
          some (evidence.1.withLegacy ⟨[lintStage, quickStage], [], true, ""⟩) := by
  have hdeclared : (gateRun [lintStage, quickStage] true 0).plan.Declared := declared_cover rfl
  refine ⟨_, rfl, (evidence_accepted silentReaders [gateRun [lintStage, quickStage] true 0]
    (gateRun [lintStage, quickStage] true 0) ?_ hdeclared _ _ rfl).2.mpr ?_⟩
  · intro r hr
    rw [List.mem_singleton.mp hr]
    exact hdeclared
  · intro _ pair hpair
    refine ⟨fun h => (by cases h), fun _ _ _ evidence hevidence => ?_⟩
    have hstage : pair.2 ∈ [lintStage, quickStage] := (List.of_mem_zip hpair).2
    have hnone : ∀ stage ∈ [lintStage, quickStage], stage.evidence = none := by decide +kernel
    rw [hnone pair.2 hstage] at hevidence
    cases hevidence

end SummitFlow.NativeCheck
