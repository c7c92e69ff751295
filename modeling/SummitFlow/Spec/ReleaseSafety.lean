import SummitFlow.Spec.ReleaseSteps

/-!
# The functions of a rebuild

The functions of a rebuild, each safe while others run.  Up to the completion of the release
they add to its receipt; a failure is recorded only of a release that is not live.

## Key results

- `passes_prepareAcceptedRelease`: what is prepared goes forward
- `passes_buildRelease`: what is built is still prepared
- `passes_pruneOldReleases`: what pointers and references name is not pruned
-/

namespace SummitFlow.ServiceRelease

open Script (Safe Keeps Passes)

section

variable {git : Ancestry} {uuid : Nat → String} {i : Nat} {P : State → Prop}
  {release : PreparedRelease}

/-! ## Previous units -/

theorem keeps_previousSourceRoot (hP : Stable uuid i P) :
    Keeps (Rely uuid i) (Guarantee git uuid i) P (previousSourceRoot release) := by
  apply Keeps.bind (fun _ => Rely.rfl) (keeps_readReceipt hP)
  intro receipt
  split
  · exact Script.keeps_pure hP none
  · exact Script.keeps_pure hP none
  · exact Keeps.bind (fun _ => Rely.rfl) (keeps_check hP _) fun _ => Script.keeps_pure hP _

theorem keeps_restorePreviousUnits (huuid : Function.Injective uuid)
    (hid : release.buildId = uuid i) (hP : Marked uuid i P) :
    Keeps (Rely uuid i) (Guarantee git uuid i) P (restorePreviousUnits release) := by
  have hrefl : ∀ s, Rely uuid i s s := fun _ => Rely.rfl
  apply Keeps.tryCatch hrefl
  · apply Keeps.bind hrefl (keeps_previousSourceRoot hP.stable)
    intro root
    split
    · exact Keeps.bind hrefl (keeps_markPhase huuid hid hP ..) fun _ => Script.keeps_pure hP.stable _
    · apply Keeps.bind hrefl (keeps_say hP.stable)
      intro _
      apply Keeps.bind hrefl (keeps_say hP.stable)
      intro _
      apply Keeps.bind hrefl (keeps_command hP.stable)
      intro code
      exact Keeps.bind hrefl (keeps_markPhase huuid hid hP ..) fun _ => Script.keeps_pure hP.stable _
  · intro e
    split
    · exact Keeps.bind hrefl (keeps_markPhase huuid hid hP ..) fun _ => Script.keeps_pure hP.stable _
    · exact Script.keeps_throw hP.stable e

theorem keeps_retainCandidate (hP : Stable uuid i P) :
    Keeps (Rely uuid i) (Guarantee git uuid i) P retainCandidate := by
  apply Keeps.bind (fun _ => Rely.rfl) (keeps_command hP)
  intro restored
  split
  · exact Keeps.bind (fun _ => Rely.rfl) (keeps_command hP) fun _ => keeps_say hP
  · exact keeps_say hP

theorem keeps_restartAttempted (hP : Stable uuid i P) (attempted : Bool) :
    Keeps (Rely uuid i) (Guarantee git uuid i) P (restartAttempted attempted) := by
  unfold restartAttempted
  split
  · exact keeps_command hP
  · exact Script.keeps_pure hP 0

theorem keeps_rollbackMonitorAndReader (huuid : Function.Injective uuid)
    (hid : release.buildId = uuid i) (hP : Marked uuid i P) (attempted : Bool) :
    Keeps (Rely uuid i) (Guarantee git uuid i) P (rollbackMonitorAndReader release attempted) := by
  have hrefl : ∀ s, Rely uuid i s s := fun _ => Rely.rfl
  have hretained : ∀ result : Bool, Keeps (Rely uuid i) (Guarantee git uuid i) P (do
      retainCandidate
      pure result) := fun result =>
    Keeps.bind hrefl (keeps_retainCandidate hP.stable) fun _ => Script.keeps_pure hP.stable result
  apply Keeps.bind hrefl (keeps_restorePreviousUnits huuid hid hP)
  intro restored
  split
  · exact Keeps.bind hrefl (keeps_say hP.stable) fun _ => Script.keeps_pure hP.stable false
  · apply Keeps.bind hrefl (keeps_previousSourceRoot hP.stable)
    intro root
    split
    · exact Script.keeps_pure hP.stable false
    · apply Keeps.bind hrefl (keeps_say hP.stable)
      intro _
      apply Keeps.bind hrefl (keeps_restartAttempted hP.stable attempted)
      intro restarted
      split
      · exact hretained false
      · apply Keeps.bind hrefl (keeps_command hP.stable)
        intro rolledBack
        split
        · exact hretained false
        · exact Keeps.bind hrefl (keeps_markPhase huuid hid hP ..) fun _ =>
            Script.keeps_pure hP.stable true

theorem keeps_printing {α : Type} (hP : Stable uuid i P) (instead : α) {body : Step α}
    (h : Keeps (Rely uuid i) (Guarantee git uuid i) P body) :
    Keeps (Rely uuid i) (Guarantee git uuid i) P (printing instead body) :=
  keeps_handled hP h (Keeps.bind (fun _ => Rely.rfl) (keeps_say hP) fun _ => Script.keeps_pure hP instead)

theorem keeps_rollbackMonitorAfterUnexpectedFailure (huuid : Function.Injective uuid)
    (hid : release.buildId = uuid i) (hP : Marked uuid i P) (attempted : Bool) :
    Keeps (Rely uuid i) (Guarantee git uuid i) P
      (rollbackMonitorAfterUnexpectedFailure release attempted) := by
  have hrefl : ∀ s, Rely uuid i s s := fun _ => Rely.rfl
  apply Keeps.bind hrefl (keeps_say hP.stable)
  intro _
  apply Keeps.bind hrefl
  · apply keeps_printing hP.stable
    apply Keeps.bind hrefl (keeps_rollbackMonitorAndReader huuid hid hP attempted)
    intro rolledBack
    exact Keeps.bind hrefl (keeps_whenever hP.stable _ (keeps_say hP.stable)) fun _ =>
      Script.keeps_pure hP.stable true
  · intro handled
    split
    · exact Script.keeps_pure hP.stable ()
    · exact Keeps.bind hrefl (keeps_printing hP.stable _ (keeps_command hP.stable)) fun _ =>
        keeps_whenever hP.stable _ (keeps_say hP.stable)

/-! ## Phases -/

theorem keeps_timedPhase (huuid : Function.Injective uuid) (hid : release.buildId = uuid i)
    (hP : Marked uuid i P) (name : String) :
    Keeps (Rely uuid i) (Guarantee git uuid i) P (timedPhase release name) := by
  have hrefl : ∀ s, Rely uuid i s s := fun _ => Rely.rfl
  apply Keeps.bind hrefl (keeps_command hP.stable)
  intro code
  exact Keeps.bind hrefl (keeps_markPhase huuid hid hP ..) fun _ => Script.keeps_pure hP.stable code

theorem keeps_releaseSteps (huuid : Function.Injective uuid) (hid : release.buildId = uuid i)
    (hP : Marked uuid i P) (call : Call) :
    Keeps (Rely uuid i) (Guarantee git uuid i) P (releaseSteps call release) :=
  Keeps.bind (fun _ => Rely.rfl)
    (keeps_whenever hP.stable _ (keeps_markPhase huuid hid hP ..)) fun _ =>
      Script.keeps_pure hP.stable _

theorem keeps_restartOne (hP : Stable uuid i P) (restart : Bool) (errors : Int) :
    Keeps (Rely uuid i) (Guarantee git uuid i) P (restartOne restart errors) := by
  unfold restartOne
  split
  · exact Keeps.bind (fun _ => Rely.rfl) (keeps_command hP) fun _ => Script.keeps_pure hP _
  · exact Script.keeps_pure hP errors

theorem keeps_restartWorkers (hP : Stable uuid i P) (activated : Bool) (errors : Int)
    (workers : List Bool) :
    Keeps (Rely uuid i) (Guarantee git uuid i) P (restartWorkers activated errors workers) := by
  induction workers generalizing errors with
  | nil => exact Script.keeps_pure hP errors
  | cons isMonitor workers ih =>
    exact Keeps.bind (fun _ => Rely.rfl) (keeps_restartOne hP _ errors) fun errors => ih errors

theorem keeps_restartServices (huuid : Function.Injective uuid) (hid : release.buildId = uuid i)
    (hP : Marked uuid i P) (call : Call) (restart activated : Bool) :
    Keeps (Rely uuid i) (Guarantee git uuid i) P
      (restartServices call release restart activated) := by
  have hrefl : ∀ s, Rely uuid i s s := fun _ => Rely.rfl
  apply Keeps.bind hrefl (keeps_restartOne hP.stable ..)
  intro errors
  apply Keeps.bind hrefl (keeps_restartWorkers hP.stable ..)
  intro errors
  apply Keeps.bind hrefl (keeps_restartOne hP.stable ..)
  intro errors
  exact Keeps.bind hrefl (keeps_markPhase huuid hid hP ..) fun _ => Script.keeps_pure hP.stable errors

theorem keeps_inactiveWorkers (hP : Stable uuid i P) (workers : List Bool) :
    Keeps (Rely uuid i) (Guarantee git uuid i) P (inactiveWorkers workers) := by
  have hrefl : ∀ s, Rely uuid i s s := fun _ => Rely.rfl
  induction workers with
  | nil => exact Script.keeps_pure hP 0
  | cons worker workers ih =>
    apply Keeps.bind hrefl (keeps_outside hP _)
    intro active
    apply Keeps.bind hrefl (keeps_say hP)
    intro _
    exact Keeps.bind hrefl ih fun _ => Script.keeps_pure hP _

theorem keeps_verifyAndSeed (huuid : Function.Injective uuid) (hid : release.buildId = uuid i)
    (hP : Marked uuid i P) (call : Call) (errors : Int) :
    Keeps (Rely uuid i) (Guarantee git uuid i) P (verifyAndSeed call release errors) := by
  have hrefl : ∀ s, Rely uuid i s s := fun _ => Rely.rfl
  have hhealth : Keeps (Rely uuid i) (Guarantee git uuid i) P (verifyHealth call release) := by
    unfold verifyHealth
    split
    · exact keeps_timedPhase huuid hid hP _
    · exact Script.keeps_pure hP.stable 0
  apply Keeps.bind hrefl hhealth
  intro health
  apply Keeps.bind hrefl (keeps_inactiveWorkers hP.stable call.workers)
  intro workerErrors
  dsimp only
  split
  · apply Keeps.bind hrefl (keeps_markPhase huuid hid hP ..)
    intro _
    exact Keeps.bind hrefl (keeps_markPhase huuid hid hP ..) fun _ => Script.keeps_pure hP.stable _
  · split
    · exact Keeps.bind hrefl (keeps_timedPhase huuid hid hP _) fun _ => Script.keeps_pure hP.stable _
    · exact Script.keeps_pure hP.stable _

/-! ## Up to the completion -/

theorem keeps_restartAndVerify (huuid : Function.Injective uuid) (hid : release.buildId = uuid i)
    (hP : Marked uuid i P) (call : Call) (activated : Bool) :
    Keeps (Rely uuid i) (Guarantee git uuid i) P (restartAndVerify call release activated) :=
  Keeps.bind (fun _ => Rely.rfl) (keeps_restartServices huuid hid hP ..) fun errors =>
    keeps_verifyAndSeed huuid hid hP call errors

theorem keeps_ensure (hP : Stable uuid i P) (message : String) :
    Keeps (Rely uuid i) (Guarantee git uuid i) P (ensure message) := by
  apply Keeps.bind (fun _ => Rely.rfl) (keeps_command hP)
  intro code
  split
  · exact Script.keeps_throw hP _
  · exact Script.keeps_pure hP ()

theorem keeps_verifyMonitor (huuid : Function.Injective uuid) (hid : release.buildId = uuid i)
    (hP : Marked uuid i P) :
    Keeps (Rely uuid i) (Guarantee git uuid i) P (verifyMonitor release) :=
  Keeps.bind (fun _ => Rely.rfl) (keeps_markPhase huuid hid hP ..) fun _ => keeps_ensure hP.stable _

theorem keeps_finalizeMonitor (hP : Stable uuid i P) :
    Keeps (Rely uuid i) (Guarantee git uuid i) P finalizeMonitor :=
  Keeps.bind (fun _ => Rely.rfl) (keeps_ensure hP _) fun _ => keeps_ensure hP _

theorem keeps_rollBack (huuid : Function.Injective uuid) (hid : release.buildId = uuid i)
    (hP : Marked uuid i P) (activated attempted : Bool) :
    Keeps (Rely uuid i) (Guarantee git uuid i) P (rollBack release activated attempted) := by
  have hrefl : ∀ s, Rely uuid i s s := fun _ => Rely.rfl
  unfold rollBack
  split
  · exact Keeps.bind hrefl (keeps_rollbackMonitorAndReader huuid hid hP attempted) fun _ =>
      Script.keeps_pure hP.stable ()
  · exact Keeps.bind hrefl (keeps_restorePreviousUnits huuid hid hP) fun _ =>
      Script.keeps_pure hP.stable ()

end

/-! ## Preparing -/

theorem fromDescriptor_ok {requireFull : Bool} {descriptor : Descriptor} {source : AcceptedSource}
    (h : AcceptedSource.fromDescriptor requireFull descriptor = .ok source) :
    descriptor.sourceCommit = some source.sourceCommit ∧ source.sourceCommit ≠ "" := by
  unfold AcceptedSource.fromDescriptor at h
  split at h
  · cases h
  · obtain ⟨acceptanceId, -, h⟩ := bind_ok h
    obtain ⟨sourceCommit, hcommit, h⟩ := bind_ok h
    obtain ⟨sourceTree, -, h⟩ := bind_ok h
    split at h
    · cases h
    · split at h
      · cases h
      · next hfilled =>
        obtain rfl := Except.ok.inj h
        refine ⟨?_, fun hempty => hfilled (.inr (.inl hempty))⟩
        unfold required at hcommit
        split at hcommit
        · next text heq =>
          obtain rfl := Except.ok.inj hcommit
          exact heq
        · cases hcommit

/-- The live commit is what the code reads. -/
theorem currentReleaseCommit_eq {s : State} (hs : Sound s) :
    currentReleaseCommit s = .ok s.commit := by
  unfold currentReleaseCommit currentBuild State.commit
  rcases hs.usable .current with habsent | ⟨name, hname, hthere⟩
  · have hcurrent : s.current = .absent := habsent
    rw [hcurrent]
    rfl
  · have hcurrent : s.current = .link (some name) := hname
    rw [hcurrent]
    dsimp only
    rw [hthere]
    rfl

section

variable {git : Ancestry} {uuid : Nat → String} {i : Nat} {rollback : Bool} {d : String}

/-- Git answers zero only for an ancestor. -/
theorem passes_mergeBase {P : State → Prop} (hP : Stable uuid i P) (current : String) :
    Passes (Rely uuid i) (Guarantee git uuid i) P (mergeBase git current d) fun code s =>
      P s ∧ (code = 0 → git.isAncestor current d = true) := by
  apply (passes_asking hP _).weaken (fun _ => id)
  rintro code s ⟨hs, w, hw⟩
  refine ⟨hs, ?_⟩
  rintro rfl
  have hanswer : (if (!w.yes) = true then (128 : Int)
      else if git.isAncestor current d = true then 0 else 1) = 0 := Except.ok.inj hw
  by_contra hnot
  rw [if_neg hnot] at hanswer
  split at hanswer
  · omega
  · omega

/-- The deployment goes on only where the commit goes forward. -/
theorem passes_requireForwardDeploy (project : String) :
    Passes (Rely uuid i) (Guarantee git uuid i) (Locked uuid i)
      (requireForwardDeploy git project d rollback) fun _ => Cleared git uuid i rollback d := by
  have hrefl : ∀ s, Rely uuid i s s := fun _ => Rely.rfl
  have hcleared : ∀ _ : Unit, Stable uuid i (Cleared git uuid i rollback d) := fun _ => stable_cleared
  have hstable : ∀ found, Stable uuid i fun s => Locked uuid i s ∧ s.commit = found := by
    intro found s t hs h
    exact ⟨stable_locked s t hs.1 h, (commit_of_rely hs.1.sound hs.1.lock h).trans hs.2⟩
  have hread : Passes (Rely uuid i) (Guarantee git uuid i) (Locked uuid i)
      (reading currentReleaseCommit) fun found s => Locked uuid i s ∧ s.commit = found := by
    apply passes_reading stable_locked hstable
    intro s found hs hfound
    rw [currentReleaseCommit_eq hs.sound] at hfound
    exact ⟨hs, Except.ok.inj hfound⟩
  apply Passes.bind hrefl hread
  intro found
  cases found with
  | none =>
    apply Script.passes_pure hcleared
    intro s hs
    refine ⟨hs.1, ?_⟩
    intro c hc
    rw [hs.2] at hc
    cases hc
  | some current =>
    dsimp only
    split
    · next hfine =>
      apply Script.passes_pure hcleared
      intro s hs
      refine ⟨hs.1, ?_⟩
      intro c hc
      obtain rfl := Option.some.inj (hs.2.symm.trans hc)
      rcases Bool.or_eq_true_iff.mp hfine with hrollback | hsame
      · exact .inr hrollback
      · rw [beq_iff_eq.mp hsame]
        exact .inl (git.refl d)
    · apply Passes.bind hrefl (passes_mergeBase (hstable _) current)
      intro code
      split
      · next hzero =>
        apply Script.passes_pure hcleared
        rintro s ⟨hs, hancestor⟩
        refine ⟨hs.1, ?_⟩
        intro c hc
        obtain rfl := Option.some.inj (hs.2.symm.trans hc)
        exact .inl (hancestor hzero)
      · exact Script.passes_throw _ _

theorem passes_installRelease :
    Passes (Rely uuid i) (Guarantee git uuid i) (Cleared git uuid i rollback d)
      (installRelease (uuid i)) fun _ => Installed git uuid i rollback d := by
  apply passes_changing stable_cleared stable_installed
  intro s t hs ht
  rw [hs.entry] at ht
  obtain rfl := Except.ok.inj ht
  have hG : Guarantee git uuid i s .step
      { s with releases := Dict.set (uuid i) .release s.releases } := by
    refine guarantee_releases hs.lock ?_ ?_ fun _ => nofun
    · intro name hname hnone
      rw [Dict.lookup_set_of_ne hname]
      exact hnone
    · intro name hthere hgone
      have hname : name ≠ uuid i := by
        rintro rfl
        rw [hs.entry] at hthere
        cases hthere
      rw [Dict.lookup_set_of_ne hname] at hgone
      exact absurd hthere hgone
  exact ⟨hG, hG.sound hs.sound, hs.lock, Dict.lookup_set_self .., hs.receipt, hs.switched, hs.forward⟩

theorem passes_writePrepared (huuid : Function.Injective uuid) {source : AcceptedSource}
    (hsource : source.sourceCommit = d) (hfilled : d ≠ "") (previousUsable : Option String) :
    Passes (Rely uuid i) (Guarantee git uuid i) (Installed git uuid i rollback d)
      (writeReceipt (uuid i) (.prepared source previousUsable))
      fun _ => Prepared git uuid i rollback ⟨uuid i, source⟩ := by
  apply passes_changing stable_installed marked_prepared.stable
  intro s t hs ht
  obtain rfl := Except.ok.inj ht
  have hnone : ∀ old, s.receipts (uuid i) = some old →
      (Receipt.prepared source previousUsable).source = old.source := by
    intro old hold
    rw [hs.receipt] at hold
    cases hold
  have hG : Guarantee git uuid i s .step
      (s.withReceipt (uuid i) (.prepared source previousUsable)) :=
    guarantee_receipt huuid hnone (.first hs.receipt rfl)
  refine ⟨hG, rfl, ?_, hG.sound hs.sound, hs.lock, hs.entry, ?_, hs.switched, ?_⟩
  · rw [hsource]
    exact hfilled
  · exact ⟨_, receipts_withReceipt s _ _, rfl, rfl⟩
  · intro c hc
    have hlive := commit_withReceipt hs.sound hnone
    rw [hsource]
    exact hs.forward c (hlive.symm.trans hc)

theorem passes_materializeRelease (huuid : Function.Injective uuid) {descriptor : Descriptor}
    (hcommit : descriptor.sourceCommit = some d) :
    Passes (Rely uuid i) (Guarantee git uuid i) (Cleared git uuid i rollback d)
      (materializeRelease (uuid i) descriptor) fun release => Prepared git uuid i rollback release := by
  have hrefl : ∀ s, Rely uuid i s s := fun _ => Rely.rfl
  have hchecked : ∀ message, Passes (Rely uuid i) (Guarantee git uuid i)
      (Cleared git uuid i rollback d) (check message) fun _ => Cleared git uuid i rollback d :=
    fun message => (keeps_check stable_cleared message).passes
  apply Passes.bind hrefl (passes_known stable_cleared _)
  intro source
  constructor
  rintro s ⟨hs, hsource⟩
  obtain ⟨hsame, hfilled⟩ := fromDescriptor_ok hsource
  obtain rfl : d = source.sourceCommit := Option.some.inj (hcommit.symm.trans hsame)
  apply Passes.safe _ s hs
  apply Passes.bind hrefl (hchecked _)
  intro _
  apply Passes.bind hrefl (hchecked _)
  intro _
  apply Passes.bind hrefl (hchecked _)
  intro _
  apply Passes.bind hrefl (keeps_say stable_cleared).passes
  intro _
  apply Passes.bind hrefl (hchecked _)
  intro _
  apply Passes.bind hrefl (keeps_say stable_cleared).passes
  intro _
  apply Passes.bind hrefl passes_installRelease
  intro _
  apply Passes.bind hrefl (keeps_reading stable_installed _).passes
  intro previousUsable
  apply Passes.bind hrefl (passes_writePrepared huuid rfl hfilled previousUsable)
  intro _
  exact Script.passes_pure stable_prepared fun _ => id

theorem passes_prepareRelease (huuid : Function.Injective uuid) (project : String) :
    Passes (Rely uuid i) (Guarantee git uuid i) (Locked uuid i)
      (prepareRelease git project (uuid i) rollback)
      fun release => Prepared git uuid i rollback release := by
  have hrefl : ∀ s, Rely uuid i s s := fun _ => Rely.rfl
  apply Passes.bind hrefl (keeps_say stable_locked).passes
  intro _
  apply Passes.bind hrefl (keeps_outside stable_locked _).passes
  intro descriptor
  apply Passes.bind hrefl (keeps_known stable_locked _).passes
  intro _
  apply Passes.bind hrefl (passes_known stable_locked _)
  intro commit
  constructor
  rintro s ⟨hs, hrequired⟩
  have hcommit : descriptor.sourceCommit = some commit := by
    unfold required at hrequired
    split at hrequired
    · next text heq =>
      obtain rfl := Except.ok.inj hrequired
      exact heq
    · cases hrequired
  apply Passes.safe _ s hs
  apply Passes.bind hrefl (passes_requireForwardDeploy project)
  intro _
  exact passes_materializeRelease huuid hcommit

theorem passes_prepareAcceptedRelease (huuid : Function.Injective uuid) (call : Call) :
    Passes (Rely uuid i) (Guarantee git uuid i) (Locked uuid i)
      (prepareAcceptedRelease git call (uuid i))
      fun release => Prepared git uuid i call.rollback release := by
  have hrefl : ∀ s, Rely uuid i s s := fun _ => Rely.rfl
  apply Passes.bind hrefl (keeps_say stable_locked).passes
  intro _
  apply Passes.bind hrefl
  · apply Passes.tryCatch hrefl (passes_prepareRelease huuid call.project)
    intro e
    split
    · exact Script.passes_throw e _
    · exact Script.passes_throw _ _
  · intro release
    apply Passes.bind hrefl (keeps_say marked_prepared.stable).passes
    intro _
    exact Script.passes_pure stable_prepared fun _ => id

end

/-! ## Building -/

section

variable {git : Ancestry} {uuid : Nat → String} {i : Nat} {rollback : Bool}
  {release : PreparedRelease} {α : Type}

/-- A failure of a release that is not live is recorded, and an exception follows. -/
theorem passes_stopAt (huuid : Function.Injective uuid) (hid : release.buildId = uuid i)
    (phase : String) (migrations : Option String) (Q : Unit → State → Prop) :
    Passes (Rely uuid i) (Guarantee git uuid i) (Spared i) (stopAt release phase migrations) Q := by
  apply Passes.bind (fun _ => Rely.rfl) (keeps_failRelease huuid hid phase migrations).passes
  intro _
  apply Passes.bind (fun _ => Rely.rfl) (keeps_say stable_spared).passes
  intro _
  exact Script.passes_throw _ Q

theorem passes_runReleaseSteps (huuid : Function.Injective uuid) (hid : release.buildId = uuid i)
    (steps : List String) :
    Passes (Rely uuid i) (Guarantee git uuid i) (Prepared git uuid i rollback release)
      (runReleaseSteps release steps) fun _ => Prepared git uuid i rollback release := by
  have hrefl : ∀ s, Rely uuid i s s := fun _ => Rely.rfl
  induction steps with
  | nil => exact Script.passes_pure (fun _ => marked_prepared.stable) fun _ => id
  | cons name steps ih =>
    apply Passes.bind hrefl (keeps_timedPhase huuid hid marked_prepared name).passes
    intro code
    split
    · have hrestore : Keeps (Rely uuid i) (Guarantee git uuid i) (Prepared git uuid i rollback release)
          (do let _ ← restorePreviousUnits release) :=
        Keeps.bind hrefl (keeps_restorePreviousUnits huuid hid marked_prepared) fun _ =>
          Script.keeps_pure marked_prepared.stable ()
      apply Passes.bind hrefl (keeps_whenever marked_prepared.stable _ hrestore).passes
      intro _
      exact (passes_stopAt huuid hid name none _).weaken (fun _ => Prepared.spared) fun _ _ => id
    · exact ih

theorem passes_migrateMonitorStore (huuid : Function.Injective uuid)
    (hid : release.buildId = uuid i) :
    Passes (Rely uuid i) (Guarantee git uuid i) (Prepared git uuid i rollback release)
      (migrateMonitorStore release) fun _ => Prepared git uuid i rollback release := by
  have hrefl : ∀ s, Rely uuid i s s := fun _ => Rely.rfl
  apply Passes.bind hrefl
  · apply Keeps.handled hrefl (keeps_outside marked_prepared.stable _)
    intro e
    split
    · apply Passes.bind hrefl (keeps_markPhase huuid hid marked_prepared ..).passes
      intro _
      apply Passes.bind hrefl (keeps_restorePreviousUnits huuid hid marked_prepared).passes
      intro _
      apply Passes.bind hrefl
      · exact (keeps_failRelease huuid hid _ none).passes.weaken (fun _ => Prepared.spared)
          fun _ _ => id
      · exact fun _ => Script.passes_throw _ _
    · exact Script.passes_throw e _
  · intro status
    exact (keeps_markPhase huuid hid marked_prepared ..).passes

theorem passes_buildRelease (huuid : Function.Injective uuid) (hid : release.buildId = uuid i)
    (call : Call) :
    Passes (Rely uuid i) (Guarantee git uuid i) (Prepared git uuid i rollback release)
      (buildRelease call release) fun _ => Prepared git uuid i rollback release := by
  have hrefl : ∀ s, Rely uuid i s s := fun _ => Rely.rfl
  have hsay : Passes (Rely uuid i) (Guarantee git uuid i) (Prepared git uuid i rollback release) say
      fun _ => Prepared git uuid i rollback release := (keeps_say marked_prepared.stable).passes
  apply Passes.bind hrefl hsay
  intro _
  apply Passes.bind hrefl hsay
  intro _
  apply Passes.bind hrefl (keeps_markPhase huuid hid marked_prepared ..).passes
  intro _
  apply Passes.bind hrefl hsay
  intro _
  apply Passes.bind hrefl (keeps_releaseSteps huuid hid marked_prepared call).passes
  intro steps
  apply Passes.bind hrefl (passes_runReleaseSteps huuid hid steps)
  intro _
  unfold whenever
  split
  · exact passes_migrateMonitorStore huuid hid
  · exact Script.passes_pure (fun _ => marked_prepared.stable) fun _ => id

theorem passes_installMonitor (huuid : Function.Injective uuid) (hid : release.buildId = uuid i) :
    Passes (Rely uuid i) (Guarantee git uuid i) (Prepared git uuid i rollback release)
      (installMonitor release) fun _ => Prepared git uuid i rollback release := by
  have hrefl : ∀ s, Rely uuid i s s := fun _ => Rely.rfl
  apply Passes.bind hrefl (keeps_command marked_prepared.stable).passes
  intro code
  split
  · apply Passes.bind hrefl (keeps_restorePreviousUnits huuid hid marked_prepared).passes
    intro _
    apply Passes.bind hrefl
    · exact (keeps_failRelease huuid hid _ none).passes.weaken (fun _ => Prepared.spared)
        fun _ _ => id
    · exact fun _ => Script.passes_throw _ _
  · exact Script.passes_pure (fun _ => marked_prepared.stable) fun _ => id

end

/-! ## Pruning -/

/-- The process holds the deployment lock. -/
def Holding (i : Nat) (s : State) : Prop := s.lock = some i

/-- The pointers lead to names that are kept. -/
structure Guarded (i : Nat) (kept : List String) (s : State) : Prop where
  lock : s.lock = some i
  pointers : ∀ p name, s.pointer p = .link (some name) → name ∈ kept

/-- What a pointer is where this was found. -/
def Found (s : State) (p : PointerName) (found : Option String) : Prop :=
  ∀ name, s.pointer p = .link (some name) ↔ found = some name

section

variable {git : Ancestry} {uuid : Nat → String} {i : Nat}

theorem stable_holding : Stable uuid i (Holding i) := fun _ _ hs h => h.lock.mpr hs

theorem pointer_of_rely {s t : State} (hlock : s.lock = some i) (h : Rely uuid i s t)
    (p : PointerName) : t.pointer p = s.pointer p := by
  obtain ⟨-, hcurrent, hprevious⟩ := h.still hlock
  cases p with
  | current => exact hcurrent
  | previous => exact hprevious

theorem stable_guarded {kept : List String} : Stable uuid i (Guarded i kept) := by
  intro s t hs h
  refine ⟨h.lock.mpr hs.lock, ?_⟩
  intro p name hname
  rw [pointer_of_rely hs.lock h] at hname
  exact hs.pointers p name hname

/-- A pointer that is read stays what it is. -/
theorem passes_pointerRelease {P : State → Prop} (hP : Stable uuid i P)
    (hlock : ∀ s, P s → s.lock = some i) (p : PointerName) :
    Passes (Rely uuid i) (Guarantee git uuid i) P (pointerRelease p) fun found s =>
      P s ∧ Found s p found := by
  apply passes_reading hP
  · intro found s t hs h
    refine ⟨hP s t hs.1 h, ?_⟩
    unfold Found
    rw [pointer_of_rely (hlock s hs.1) h]
    exact hs.2
  · intro s found hs hfound
    refine ⟨hs, ?_⟩
    unfold Found
    cases hpointer : s.pointer p with
    | absent =>
      rw [hpointer] at hfound
      obtain rfl := Except.ok.inj hfound
      exact fun name => ⟨nofun, nofun⟩
    | plain =>
      rw [hpointer] at hfound
      cases hfound
    | link target =>
      rw [hpointer] at hfound
      cases target with
      | none => cases hfound
      | some target =>
        have hname : found = some target := by
          dsimp only at hfound
          split at hfound
          · cases hfound
          · cases hfound
          · cases hfound
          · split at hfound
            · exact (Except.ok.inj hfound).symm
            · cases hfound
        intro name
        rw [hname]
        exact ⟨fun h => Pointer.link.inj h, fun h => congrArg Pointer.link h⟩

theorem passes_resolveReferences {P : State → Prop} (hP : Stable uuid i P)
    (references : List Reference) :
    Passes (Rely uuid i) (Guarantee git uuid i) P (resolveReferences references) fun names s =>
      P s ∧ ∀ name, .release name ∈ references → name ∈ names := by
  have hrefl : ∀ s, Rely uuid i s s := fun _ => Rely.rfl
  induction references with
  | nil =>
    apply Script.passes_pure (fun _ s t hs h => ⟨hP s t hs.1 h, hs.2⟩)
    exact fun s hs => ⟨hs, nofun⟩
  | cons reference rest ih =>
    have hresolve : Passes (Rely uuid i) (Guarantee git uuid i) P (resolveReference reference)
        fun name s => P s ∧ ∀ other, reference = .release other → other = name := by
      apply passes_reading hP fun _ s t hs h => ⟨hP s t hs.1 h, hs.2⟩
      intro s name hs hread
      refine ⟨hs, ?_⟩
      rintro other rfl
      dsimp only at hread
      split at hread
      · cases hread
      · cases hread
      · cases hread
      · split at hread
        · exact Except.ok.inj hread
        · cases hread
    apply Passes.bind hrefl hresolve
    intro name
    constructor
    rintro s ⟨hs, hname⟩
    apply Passes.safe _ s hs
    apply Passes.bind hrefl ih
    intro names
    apply Script.passes_pure (fun _ s t hs h => ⟨hP s t hs.1 h, hs.2⟩)
    rintro t ⟨ht, hrest⟩
    refine ⟨ht, ?_⟩
    intro other hother
    rcases List.mem_cons.mp hother with heq | hmem
    · rw [hname other heq.symm]
      exact List.mem_cons_self
    · exact List.mem_cons_of_mem _ (hrest other hmem)

theorem candidatesOf_ok {kept : List String} {entries : List (String × Entry)} {names : List String}
    (h : candidatesOf kept entries = .ok names) : ∀ name ∈ names, name ∉ kept := by
  induction entries generalizing names with
  | nil =>
    obtain rfl := Except.ok.inj h
    exact nofun
  | cons e rest ih =>
    obtain ⟨name, entry⟩ := e
    unfold candidatesOf at h
    split at h
    · exact ih h
    · split at h
      · cases h
      · obtain ⟨others, hothers, h⟩ := bind_ok h
        obtain rfl := Except.ok.inj h
        split
        · exact ih hothers
        · next hfree =>
          intro other hmem
          rcases List.mem_cons.mp hmem with rfl | hrest
          · exact hfree
          · exact ih hothers other hrest

/-- The candidates are none of the names that are kept, and those are what pointers and
    references name. -/
def Chosen (i : Nat) (references : List Reference) (names : List String) (s : State) : Prop :=
  ∃ kept, Guarded i kept s ∧ (∀ name ∈ names, name ∉ kept) ∧
    ∀ name, .release name ∈ references → name ∈ kept

theorem stable_chosen {references : List Reference} (names : List String) :
    Stable uuid i (Chosen i references names) := by
  rintro s t ⟨kept, hs, hnames, hreferences⟩ h
  exact ⟨kept, stable_guarded s t hs h, hnames, hreferences⟩

theorem passes_pruneCandidates (release : PreparedRelease) (references : List Reference) :
    Passes (Rely uuid i) (Guarantee git uuid i) (Holding i) (pruneCandidates release references)
      (Chosen i references) := by
  have hrefl : ∀ s, Rely uuid i s s := fun _ => Rely.rfl
  apply Passes.bind hrefl (keeps_reading stable_holding _).passes
  intro _
  apply Passes.bind hrefl (passes_pointerRelease stable_holding (fun _ => id) .current)
  intro current
  have hcurrent : Stable uuid i fun s => Holding i s ∧ Found s .current current := by
    intro s t hs h
    refine ⟨stable_holding s t hs.1 h, ?_⟩
    unfold Found
    rw [pointer_of_rely hs.1 h]
    exact hs.2
  apply Passes.bind hrefl (passes_pointerRelease hcurrent (fun _ hs => hs.1) .previous)
  intro previous
  have hprevious : Stable uuid i fun s =>
      (Holding i s ∧ Found s .current current) ∧ Found s .previous previous := by
    intro s t hs h
    refine ⟨hcurrent s t hs.1 h, ?_⟩
    unfold Found
    rw [pointer_of_rely hs.1.1 h]
    exact hs.2
  apply Passes.bind hrefl (passes_resolveReferences hprevious references)
  intro named
  apply passes_reading (fun s t hs h => ⟨hprevious s t hs.1 h, hs.2⟩) stable_chosen
  rintro s names ⟨⟨⟨hlock, hcurrent⟩, hprevious⟩, hnamed⟩ hread
  refine ⟨_, ⟨hlock, ?_⟩, candidatesOf_ok hread, ?_⟩
  · intro p name hname
    cases p with
    | current =>
      rw [(hcurrent name).mp hname]
      simp
    | previous =>
      rw [(hprevious name).mp hname]
      simp
  · intro name hname
    simp [hnamed name hname]

/-- What is not kept can go. -/
theorem keeps_removeTree {kept : List String} {references : List Reference} {name : String}
    (hfree : name ∉ kept) (hreferences : ∀ name, .release name ∈ references → name ∈ kept) :
    Keeps (Rely uuid i) (Guarantee git uuid i) (Guarded i kept) (removeTree references name) := by
  have hremoved : ∀ s releases, Guarded i kept s →
      (∀ other, other ≠ name → releases.lookup other = s.releases.lookup other) →
      (s.releases.lookup name = none → releases.lookup name = none) →
      Guarantee git uuid i s (.removed name references) { s with releases := releases } ∧
        Guarded i kept { s with releases := releases } := by
    intro s releases hs hsame hnone
    refine ⟨guarantee_releases hs.lock ?_ ?_ fun _ => nofun, hs.lock, ?_⟩
    · intro other _ hother
      by_cases heq : other = name
      · subst heq
        exact hnone hother
      · rw [hsame other heq]
        exact hother
    · intro other hthere hgone
      -- only the candidate is touched
      obtain rfl : other = name := by
        by_contra heq
        rw [hsame other heq] at hgone
        exact hgone hthere
      refine ⟨fun p hp => hfree (hs.pointers p other hp), references, rfl, ?_⟩
      exact fun hmem => hfree (hreferences other hmem)
    · intro p other hp
      apply hs.pointers p other
      cases p <;> exact hp
  apply Keeps.bind fun _ => Rely.rfl
  · apply keeps_changing stable_guarded
    intro s t hs ht
    split at ht
    · cases ht
    · next entry hthere =>
      obtain rfl := Except.ok.inj ht
      apply hremoved s _ hs
      · exact fun other hne => Dict.lookup_set_of_ne hne _ _
      · intro hnone
        rw [hthere] at hnone
        cases hnone
  · intro _
    apply keeps_changing stable_guarded
    intro s t hs ht
    obtain rfl := Except.ok.inj ht
    apply hremoved s _ hs
    · intro other hne
      rw [Dict.lookup_filter_ne, if_neg hne]
    · intro _
      rw [Dict.lookup_filter_ne, if_pos rfl]

theorem keeps_removeCandidates {kept : List String} {references : List Reference}
    (hreferences : ∀ name, .release name ∈ references → name ∈ kept) {names : List String}
    (hnames : ∀ name ∈ names, name ∉ kept) :
    Keeps (Rely uuid i) (Guarantee git uuid i) (Guarded i kept)
      (removeCandidates references names) := by
  have hrefl : ∀ s, Rely uuid i s s := fun _ => Rely.rfl
  have hsay : Keeps (Rely uuid i) (Guarantee git uuid i) (Guarded i kept) say :=
    keeps_say stable_guarded
  induction names with
  | nil => exact Script.keeps_pure stable_guarded []
  | cons name rest ih =>
    have hrest := ih fun other hmem => hnames other (List.mem_cons_of_mem _ hmem)
    apply Keeps.bind hrefl (keeps_outside stable_guarded _)
    intro inUse
    split
    · exact Keeps.bind hrefl hsay fun _ => hrest
    · have htree : Keeps (Rely uuid i) (Guarantee git uuid i) (Guarded i kept)
          (removeTree references name) := keeps_removeTree (hnames name List.mem_cons_self) hreferences
      apply Keeps.bind hrefl
      · exact keeps_handled stable_guarded
          (Keeps.bind hrefl htree fun _ => Script.keeps_pure stable_guarded true)
          (Script.keeps_pure stable_guarded false)
      · intro removed
        split
        · apply Keeps.bind hrefl hsay
          intro _
          exact Keeps.bind hrefl hrest fun _ => Script.keeps_pure stable_guarded _
        · exact Keeps.bind hrefl hsay fun _ => Script.keeps_pure stable_guarded []

/-- Pruning removes nothing that a pointer or a reference names. -/
theorem passes_pruneOldReleases (release : PreparedRelease)
    (serviceReferences : Option (List Reference)) :
    Passes (Rely uuid i) (Guarantee git uuid i) (Holding i)
      (pruneOldReleases release serviceReferences) fun _ _ => True := by
  have hrefl : ∀ s, Rely uuid i s s := fun _ => Rely.rfl
  have hdone : ∀ names : List String, Passes (Rely uuid i) (Guarantee git uuid i)
      (fun _ => True) (pure names : Step (List String)) fun _ _ => True :=
    fun names => (Script.keeps_pure stable_true names).passes
  have hsay : Passes (Rely uuid i) (Guarantee git uuid i) (fun _ => True) say fun _ _ => True :=
    (keeps_say stable_true).passes
  cases serviceReferences with
  | none =>
    apply Passes.bind hrefl (hsay.weaken (fun _ _ => trivial) fun _ _ => id)
    exact fun _ => hdone []
  | some references =>
    let Q : Option (List String) → State → Prop := fun found s =>
      ∀ names, found = some names → Chosen i references names s
    have hQ : ∀ found s t, Q found s → Rely uuid i s t → Q found t :=
      fun found s t hs h names heq => stable_chosen names s t (hs names heq) h
    have hfound : Passes (Rely uuid i) (Guarantee git uuid i) (Holding i)
        (tryCatch (do return some (← pruneCandidates release references)) fun e =>
          if e = .os ∨ e.isRelease = true then do
            say
            pure none
          else throw e) Q := by
      apply Passes.tryCatch hrefl
      · apply Passes.bind hrefl (passes_pruneCandidates release references)
        intro names
        apply Script.passes_pure hQ
        intro s hs other hother
        obtain rfl := Option.some.inj hother
        exact hs
      · intro e
        split
        · apply Passes.bind hrefl hsay
          intro _
          exact Script.passes_pure hQ fun _ _ _ => nofun
        · exact Script.passes_throw e _
    apply Passes.bind hrefl hfound
    intro found
    cases found with
    | none => exact (hdone []).weaken (fun _ _ => trivial) fun _ _ => id
    | some names =>
      constructor
      intro s hs
      obtain ⟨kept, hguarded, hnames, hreferences⟩ := hs names rfl
      have hsorted : ∀ name ∈ sortBy id names, name ∉ kept :=
        fun name hmem => hnames name (mem_sortBy.mp hmem)
      exact ((keeps_removeCandidates hreferences hsorted).safe s hguarded).mono
        (fun _ _ _ => trivial) fun _ _ _ => trivial

end

end SummitFlow.ServiceRelease
