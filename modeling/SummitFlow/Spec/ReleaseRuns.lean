import SummitFlow.Spec.ReleaseSafety

/-!
# Rebuilds that run together

A rebuild from its lock to its handlers is safe while others run, so any number of them run
safely together, in every order and with crashes.

## Key results

- `passes_completeRelease`: the pointers are replaced and the release is recorded
- `safe_rebuild`: a rebuild, however it ends
- `protocol`: rebuilds that run together
-/

namespace SummitFlow.ServiceRelease

open Script (Safe Keeps Passes)

/-! ## Completion -/

/-- `current` was replaced by the process that holds the lock. -/
structure Live (i : Nat) (s : State) : Prop where
  lock : s.lock = some i
  switched : i ∈ s.history.switched

section

variable {git : Ancestry} {uuid : Nat → String} {i : Nat} {rollback : Bool}
  {release : PreparedRelease}

theorem stable_live : Stable uuid i (Live i) :=
  fun _ _ hs h => ⟨h.lock.mpr hs.lock, h.switched.mpr hs.switched⟩

theorem stable_and_receipt {P : State → Prop} (hP : Stable uuid i P) (receipt : Receipt) :
    Stable uuid i fun s => P s ∧ s.receipts (uuid i) = some receipt :=
  fun s t hs h => ⟨hP s t hs.1 h, h.receipt.trans hs.2⟩

theorem passes_smokeTestSt {P : State → Prop} (hP : Stable uuid i P) :
    Keeps (Rely uuid i) (Guarantee git uuid i) P smokeTestSt := by
  have hrefl : ∀ s, Rely uuid i s s := fun _ => Rely.rfl
  have hrun : ∀ arguments, Keeps (Rely uuid i) (Guarantee git uuid i) P (smokeRun arguments) := by
    intro arguments
    apply Keeps.bind hrefl
    · exact keeps_handled hP (keeps_command hP) (Script.keeps_throw hP _)
    · intro code
      split
      · exact Script.keeps_pure hP ()
      · exact Script.keeps_throw hP _
  exact Keeps.bind hrefl (hrun _) fun _ => hrun _

/-- `previous` gets what `current` leads to. -/
theorem passes_replacePrevious {receipt : Receipt} {old : String} :
    Passes (Rely uuid i) (Guarantee git uuid i)
      (fun s => (Prepared git uuid i rollback release s ∧ s.receipts (uuid i) = some receipt) ∧
        Found s .current (some old))
      (replacePrevious old)
      fun _ s => Prepared git uuid i rollback release s ∧ s.receipts (uuid i) = some receipt := by
  have hafter : Stable uuid i fun s =>
      Prepared git uuid i rollback release s ∧ s.receipts (uuid i) = some receipt :=
    stable_and_receipt (stable_prepared release) receipt
  have hbefore : Stable uuid i fun s =>
      (Prepared git uuid i rollback release s ∧ s.receipts (uuid i) = some receipt) ∧
        Found s .current (some old) := by
    intro s t hs h
    refine ⟨hafter s t hs.1 h, ?_⟩
    unfold Found
    rw [pointer_of_rely hs.1.1.lock h]
    exact hs.2
  apply passes_changing hbefore hafter
  rintro s t ⟨⟨hs, hreceipt⟩, hfound⟩ ht
  obtain rfl := Except.ok.inj ht
  have hold : s.pointer .current = .link (some old) := (hfound old).mpr rfl
  -- the live release stands
  have hthere : s.releases.lookup old = some .release := by
    rcases hs.sound.usable .current with habsent | ⟨name, hname, hthere⟩
    · rw [hold] at habsent
      cases habsent
    · rw [hold] at hname
      obtain rfl := Option.some.inj (Pointer.link.inj hname)
      exact hthere
  have hG : Guarantee git uuid i s .step { s with previous := .link (some old) } :=
    guarantee_previous hs.lock hthere
  exact ⟨hG, ⟨hs.buildId, hs.commit, hG.sound hs.sound, hs.lock, hs.entry, hs.receipt, hs.switched,
    hs.forward⟩, hreceipt⟩

/-- `current` gets the release. -/
theorem passes_replaceCurrent (huuid : Function.Injective uuid) {receipt : Receipt} :
    Passes (Rely uuid i) (Guarantee git uuid i)
      (fun s => Prepared git uuid i rollback release s ∧ s.receipts (uuid i) = some receipt)
      (replaceCurrent i rollback release.buildId)
      fun _ s => Live i s ∧ s.receipts (uuid i) = some receipt := by
  apply passes_changing (stable_and_receipt marked_prepared.stable receipt)
    (stable_and_receipt stable_live receipt)
  rintro s t ⟨hs, hreceipt⟩ ht
  obtain rfl := Except.ok.inj ht
  rw [hs.buildId]
  obtain ⟨own, hown, hprepared, hsource⟩ := hs.receipt
  have hcommit : buildCommit s (uuid i) = some release.source.sourceCommit := by
    unfold buildCommit
    rw [hown]
    dsimp only
    rw [hsource, if_neg hs.commit]
  have hG : Guarantee git uuid i s (.switched rollback) (s.switch i (uuid i)) :=
    guarantee_current huuid hs.lock hs.entry hown hprepared hcommit hs.forward
  exact ⟨hG, ⟨hs.lock, List.mem_cons_self⟩, hreceipt⟩

/-- The release is recorded as succeeded. -/
theorem passes_writeCompleted (huuid : Function.Injective uuid) (hid : release.buildId = uuid i)
    {receipt new : Receipt} (hsource : new.source = receipt.source) (hnew : new.state = .succeeded) :
    Passes (Rely uuid i) (Guarantee git uuid i)
      (fun s => Live i s ∧ s.receipts (uuid i) = some receipt)
      (writeReceipt release.buildId new) fun _ => Holding i := by
  apply passes_changing (stable_and_receipt stable_live receipt) stable_holding
  rintro s t ⟨hs, hreceipt⟩ ht
  obtain rfl := Except.ok.inj ht
  rw [hid]
  have hsame : ∀ old, s.receipts (uuid i) = some old → new.source = old.source := by
    intro old hold
    obtain rfl := Option.some.inj (hreceipt.symm.trans hold)
    exact hsource
  have hG : Guarantee git uuid i s .step (s.withReceipt (uuid i) new) :=
    guarantee_receipt huuid hsame (.succeeded hnew hs.switched)
  exact ⟨hG, hs.lock⟩

/-- The pointers are replaced, the release is recorded and the older ones are pruned. -/
theorem passes_completeRelease (huuid : Function.Injective uuid) (hid : release.buildId = uuid i)
    (project : String) (serviceReferences : Option (List Reference)) :
    Passes (Rely uuid i) (Guarantee git uuid i) (Prepared git uuid i rollback release)
      (completeRelease project i rollback release serviceReferences) fun _ _ => True := by
  have hrefl : ∀ s, Rely uuid i s s := fun _ => Rely.rfl
  have hprepared : Stable uuid i (Prepared git uuid i rollback release) := marked_prepared.stable
  have hread : Passes (Rely uuid i) (Guarantee git uuid i) (Prepared git uuid i rollback release)
      (readReceipt release)
      fun receipt s => Prepared git uuid i rollback release s ∧ s.receipts (uuid i) = some receipt :=
    ⟨fun s hs => (safe_readReceipt hid hprepared hs).mono (fun _ _ => id) fun _ _ _ => trivial⟩
  apply Passes.bind hrefl hread
  intro receipt
  have hknown := stable_and_receipt hprepared receipt
  apply Passes.bind hrefl (passes_pointerRelease hknown (fun _ hs => hs.1.lock) .current)
  intro oldTarget
  have hfound : Stable uuid i fun s =>
      (Prepared git uuid i rollback release s ∧ s.receipts (uuid i) = some receipt) ∧
        Found s .current oldTarget := by
    intro s t hs h
    refine ⟨hknown s t hs.1 h, ?_⟩
    unfold Found
    rw [pointer_of_rely hs.1.1.lock h]
    exact hs.2
  apply Passes.bind hrefl (keeps_reading hfound _).passes
  intro _
  apply Passes.bind hrefl (keeps_whenever hfound _ (passes_smokeTestSt hfound)).passes
  intro _
  have hrest : ∀ new : Receipt, new.source = receipt.source → new.state = .succeeded →
      Passes (Rely uuid i) (Guarantee git uuid i)
        (fun s => Prepared git uuid i rollback release s ∧ s.receipts (uuid i) = some receipt)
        (do
          replaceCurrent i rollback release.buildId
          writeReceipt release.buildId new
          let _ ← pruneOldReleases release serviceReferences)
        fun _ _ => True := by
    intro new hsource hnew
    apply Passes.bind hrefl (passes_replaceCurrent huuid)
    intro _
    apply Passes.bind hrefl (passes_writeCompleted huuid hid hsource hnew)
    intro _
    apply Passes.bind hrefl (passes_pruneOldReleases release serviceReferences)
    exact fun _ => (Script.keeps_pure stable_true ()).passes
  cases oldTarget with
  | none =>
    have hsame := hrest { receipt with previousUsable := receipt.previousUsable }.complete rfl rfl
    exact hsame.weaken (fun _ hs => hs.1) fun _ _ => id
  | some old =>
    apply Passes.bind hrefl passes_replacePrevious
    intro _
    exact hrest { receipt with previousUsable := some old }.complete rfl rfl

theorem passes_finish (huuid : Function.Injective uuid) (hid : release.buildId = uuid i)
    (call : Call) :
    Passes (Rely uuid i) (Guarantee git uuid i) (Prepared git uuid i call.rollback release)
      (finish call i release) fun _ _ => True := by
  have hrefl : ∀ s, Rely uuid i s s := fun _ => Rely.rfl
  have hprepared : Stable uuid i (Prepared git uuid i call.rollback release) := marked_prepared.stable
  have htrue : Stable uuid i fun _ => True := stable_true
  have hreferences : Keeps (Rely uuid i) (Guarantee git uuid i)
      (Prepared git uuid i call.rollback release) serviceReferences := by
    apply Keeps.bind hrefl (keeps_outside hprepared _)
    intro units
    exact Keeps.bind hrefl (keeps_outside hprepared _) fun _ => Script.keeps_pure hprepared _
  have hpublish : Keeps (Rely uuid i) (Guarantee git uuid i) (fun _ => True)
      (publishDeploymentResult release call.result) := by
    apply Keeps.bind hrefl (keeps_readReceipt htrue)
    intro receipt
    apply Keeps.bind hrefl (keeps_known htrue _)
    intro _
    apply Keeps.bind hrefl (keeps_check htrue _)
    intro _
    exact keeps_whenever htrue _ (Keeps.bind hrefl (keeps_readReceipt htrue) fun _ => keeps_say htrue)
  apply Passes.bind hrefl hreferences.passes
  intro references
  apply Passes.bind hrefl (passes_completeRelease huuid hid call.project references)
  intro _
  apply Passes.bind hrefl hpublish.passes
  intro _
  apply Passes.bind hrefl (keeps_say htrue).passes
  intro _
  apply Passes.bind hrefl (keeps_command htrue).passes
  intro code
  split
  · apply Passes.bind hrefl (keeps_say htrue).passes
    exact fun _ => Script.passes_throw _ _
  · exact (keeps_say htrue).passes

end

/-! ## The rebuild -/

/-- The release that an exception carries is the one of the process. -/
def Named (uuid : Nat → String) (i : Nat) (locals : Locals) : Prop :=
  ∀ release, locals.release = some release → release.buildId = uuid i

section

variable {git : Ancestry} {uuid : Nat → String} {i : Nat}

theorem safe_leaving {α : Type} {P : State → Prop} {Q : α → State → Prop} {c : Step α}
    {locals : Locals} (hlocals : Named uuid i locals)
    (h : Passes (Rely uuid i) (Guarantee git uuid i) P c Q) {s : State} (hs : P s) :
    Safe (Rely uuid i) (Guarantee git uuid i) Q (fun x _ => Named uuid i x.2) (leaving locals c) s :=
  Safe.catching (fun _ => Rely.rfl) (h.safe s hs) fun _ _ _ _ _ => hlocals

theorem safe_activateMonitor (huuid : Function.Injective uuid) {rollback : Bool}
    {release : PreparedRelease} (monitor : Bool) {s : State}
    (hs : Prepared git uuid i rollback release s) :
    Safe (Rely uuid i) (Guarantee git uuid i) (fun _ => Prepared git uuid i rollback release)
      (fun x _ => Named uuid i x.2) (activateMonitor release monitor) s := by
  have hlocals : ∀ activated, Named uuid i ⟨some release, activated, false⟩ := by
    intro activated other hother
    obtain rfl := Option.some.inj hother
    exact hs.buildId
  unfold activateMonitor
  split
  · apply Safe.bind (fun _ => Rely.rfl)
    · exact safe_leaving (hlocals false) (passes_installMonitor huuid hs.buildId) hs
    · intro _ t ht
      exact safe_leaving (hlocals true)
        (keeps_verifyMonitor huuid hs.buildId marked_prepared).passes ht
  · exact fun t ht => marked_prepared.stable s t hs ht

theorem safe_settleMonitor {rollback : Bool} {release : PreparedRelease} (monitor attempted : Bool)
    {s : State} (hs : Prepared git uuid i rollback release s) :
    Safe (Rely uuid i) (Guarantee git uuid i) (fun _ => Prepared git uuid i rollback release)
      (fun x _ => Named uuid i x.2) (settleMonitor release monitor attempted) s := by
  unfold settleMonitor
  split
  · apply safe_leaving _ (keeps_finalizeMonitor marked_prepared.stable).passes hs
    intro other hother
    obtain rfl := Option.some.inj hother
    exact hs.buildId
  · exact fun t ht => marked_prepared.stable s t hs ht

theorem safe_deploy (huuid : Function.Injective uuid) (call : Call) {s : State}
    (hs : Locked uuid i s) :
    Safe (Rely uuid i) (Guarantee git uuid i) (fun _ _ => True) (fun x _ => Named uuid i x.2)
      (deploy git call (uuid i) i) s := by
  have hrefl : ∀ s, Rely uuid i s s := fun _ => Rely.rfl
  have hnone : Named uuid i ⟨none, false, false⟩ := fun _ h => nomatch h
  apply Safe.bind hrefl
  · exact safe_leaving hnone (passes_prepareAcceptedRelease huuid call) hs
  intro release t ht
  have hid := ht.buildId
  have hlocals : ∀ activated attempted, Named uuid i ⟨some release, activated, attempted⟩ := by
    intro activated attempted other hother
    obtain rfl := Option.some.inj hother
    exact hid
  have hprepared : Marked uuid i (Prepared git uuid i call.rollback release) := marked_prepared
  apply Safe.bind hrefl (safe_leaving (hlocals _ _) (passes_buildRelease huuid hid call) ht)
  intro _ t ht
  apply Safe.bind hrefl (safe_activateMonitor huuid _ ht)
  intro _ t ht
  have hnamed : Keeps (Rely uuid i) (Guarantee git uuid i)
      (Prepared git uuid i call.rollback release) (do say; say) :=
    Keeps.bind hrefl (keeps_say hprepared.stable) fun _ => keeps_say hprepared.stable
  apply Safe.bind hrefl (safe_leaving (hlocals _ _) hnamed.passes ht)
  intro _ t ht
  apply Safe.bind hrefl
    (safe_leaving (hlocals _ _) (keeps_restartAndVerify huuid hid hprepared call _).passes ht)
  intro errors t ht
  split
  · apply Safe.bind hrefl
      (safe_leaving (hlocals _ _) (keeps_rollBack huuid hid hprepared _ _).passes ht)
    intro _ t ht
    exact safe_leaving (hlocals _ _) (passes_stopAt huuid hid _ _ _) ht.spared
  · apply Safe.bind hrefl (safe_settleMonitor _ _ ht)
    intro _ t ht
    exact safe_leaving (hlocals _ _) (passes_finish huuid hid call) ht

theorem passes_takeLock (project : String) :
    Passes (Rely uuid i) (Guarantee git uuid i) (Unborn uuid i) (takeLock project i)
      fun _ => Locked uuid i := by
  constructor
  intro s hs
  apply Script.safe_action
  intro t ht w
  have hunborn := stable_unborn s t hs ht
  have hrefused : Guarantee git uuid i t .step t := guarantee_nothing nofun
  cases hraised : w.raised with
  | some e => exact ⟨hrefused, fun u hu => ⟨nofun, fun _ _ => trivial⟩⟩
  | none =>
    cases hlock : t.lock with
    | some other =>
      dsimp only
      exact ⟨hrefused, fun u hu => ⟨nofun, fun _ _ => trivial⟩⟩
    | none =>
      dsimp only
      have hG : Guarantee git uuid i t .step { t with lock := some i } :=
        guarantee_lock (.inl ⟨hlock, rfl⟩)
      refine ⟨hG, fun u hu => ⟨fun _ _ => ?_, nofun⟩⟩
      have htaken : Locked uuid i { t with lock := some i } :=
        ⟨⟨hG.sound hunborn.sound, hunborn.entry, hunborn.receipt, hunborn.switched⟩, rfl⟩
      exact stable_locked _ u htaken hu

theorem safe_deploymentLock (project : String) {body : Body Unit}
    (hbody : ∀ s, Locked uuid i s → Safe (Rely uuid i) (Guarantee git uuid i) (fun _ _ => True)
      (fun x _ => Named uuid i x.2) body s) {s : State} (hs : Unborn uuid i s) :
    Safe (Rely uuid i) (Guarantee git uuid i) (fun _ _ => True) (fun x _ => Named uuid i x.2)
      (deploymentLock project i body) s := by
  have hrefl : ∀ s, Rely uuid i s s := fun _ => Rely.rfl
  have htake : Passes (Rely uuid i) (Guarantee git uuid i) (Unborn uuid i) (do
      say
      takeLock project i) fun _ => Locked uuid i :=
    Passes.bind hrefl (keeps_say stable_unborn).passes fun _ => passes_takeLock project
  have hunlock : ∀ (E : Exc × Locals → State → Prop) (Q : State → Prop), (∀ t, Q t) →
      ∀ t, Safe (Rely uuid i) (Guarantee git uuid i) (fun _ => Q) E
        (Script.action fun s (_ : Answer) => (unlocked i s, Label.step, .ok ()) : Body Unit) t := by
    intro E Q hQ t
    apply Script.safe_action
    intro u hu w
    exact ⟨guarantee_unlocked, fun v hv => ⟨fun _ _ => hQ v, nofun⟩⟩
  have hnone : Named uuid i ⟨none, false, false⟩ := fun _ h => nomatch h
  apply Safe.bind hrefl (safe_leaving hnone htake hs)
  intro _ t ht
  apply Safe.andFinally hrefl (fun _ _ _ _ => id) (fun _ _ _ _ => id) (hbody t ht)
  · exact fun _ u _ => hunlock _ _ (fun _ => trivial) u
  · exact fun x u hx => hunlock _ _ (fun _ => hx) u

/-! ## The handlers -/

theorem passes_caught (e : Exc) :
    Passes (Rely uuid i) (Guarantee git uuid i) (fun _ => True) (caught i e)
      fun _ s => e.isExit = false → Spared i s := by
  constructor
  intro s _
  apply Script.safe_action
  intro t ht w
  dsimp only
  split
  · next hstray =>
    have hspared : Spared i { t with history :=
        { t.history with strayed := i :: t.history.strayed } } := fun _ => List.mem_cons_self
    exact ⟨guarantee_stray hstray.1 hstray.2, fun u hu =>
      ⟨fun _ _ _ => stable_spared _ u hspared hu, nofun⟩⟩
  · next hfine =>
    refine ⟨?_, fun u hu => ⟨fun _ _ hexit => ?_, nofun⟩⟩
    · apply guarantee_nothing
      rintro e' heq hswitched
      obtain rfl := Label.caught.inj heq
      by_contra hexit
      exact hfine ⟨hswitched, Bool.eq_false_iff.mpr hexit⟩
    · have hspared : Spared i t := fun hswitched => absurd ⟨hswitched, hexit⟩ hfine
      exact stable_spared t u hspared hu

theorem passes_handleDeployment (huuid : Function.Injective uuid) {locals : Locals}
    (hlocals : Named uuid i locals) :
    Passes (Rely uuid i) (Guarantee git uuid i) (Spared i) (handleDeployment locals)
      fun _ _ => True := by
  have hrefl : ∀ s, Rely uuid i s s := fun _ => Rely.rfl
  have hsay : Keeps (Rely uuid i) (Guarantee git uuid i) (Spared i) say := keeps_say stable_spared
  have hlast : Passes (Rely uuid i) (Guarantee git uuid i) (Spared i) (do
      say
      throw (.exit 1)) fun (_ : Unit) _ => True :=
    Passes.bind hrefl hsay.passes fun _ => Script.passes_throw _ _
  unfold handleDeployment
  cases hrelease : locals.release with
  | none => exact hlast
  | some release =>
    have hid := hlocals release hrelease
    have hrollback : Keeps (Rely uuid i) (Guarantee git uuid i) (Spared i) (do
        let _ ← rollbackMonitorAndReader release locals.backendRestartAttempted) :=
      Keeps.bind hrefl (keeps_rollbackMonitorAndReader huuid hid marked_spared _) fun _ =>
        Script.keeps_pure stable_spared ()
    have hfail : Keeps (Rely uuid i) (Guarantee git uuid i) (Spared i)
        (suppress Exc.isRelease (failRelease release "deployment" none)) :=
      keeps_suppress stable_spared _ (keeps_failRelease huuid hid "deployment" none)
    apply Passes.bind hrefl (keeps_whenever stable_spared _ hrollback).passes
    intro _
    exact Passes.bind hrefl hfail.passes fun _ => hlast

theorem passes_handleOther (huuid : Function.Injective uuid) {e : Exc} {locals : Locals}
    (hlocals : Named uuid i locals) :
    Passes (Rely uuid i) (Guarantee git uuid i) (fun s => e.isExit = false → Spared i s)
      (handleOther e locals) fun _ _ => True := by
  have hrefl : ∀ s, Rely uuid i s s := fun _ => Rely.rfl
  have hP : Marked uuid i fun s => e.isExit = false → Spared i s :=
    ⟨fun s t hs h hexit => stable_spared s t (hs hexit) h, fun _ _ _ hs _ _ _ => hs⟩
  unfold handleOther
  cases hrelease : locals.release with
  | none => exact Script.passes_throw e _
  | some release =>
    have hid := hlocals release hrelease
    have hrollback : Keeps (Rely uuid i) (Guarantee git uuid i)
        (fun s => e.isExit = false → Spared i s)
        (rollbackMonitorAfterUnexpectedFailure release locals.backendRestartAttempted) :=
      keeps_rollbackMonitorAfterUnexpectedFailure huuid hid hP locals.backendRestartAttempted
    apply Passes.bind hrefl (keeps_whenever hP.stable _ hrollback).passes
    intro _
    -- an exit records nothing
    have hfail : Passes (Rely uuid i) (Guarantee git uuid i) (fun s => e.isExit = false → Spared i s)
        (whenever (!e.isExit) (suppress Exc.isException (failRelease release "deployment" none)))
        fun _ _ => True := by
      cases hexit : e.isExit with
      | true =>
        have hpure : Keeps (Rely uuid i) (Guarantee git uuid i) (fun _ => True) (pure () : Step Unit) :=
          Script.keeps_pure stable_true ()
        exact hpure.passes.weaken (fun _ _ => trivial) fun _ _ => id
      | false =>
        have hsuppressed : Keeps (Rely uuid i) (Guarantee git uuid i) (Spared i)
            (suppress Exc.isException (failRelease release "deployment" none)) :=
          keeps_suppress stable_spared _ (keeps_failRelease huuid hid "deployment" none)
        exact hsuppressed.passes.weaken (fun _ hs => hs rfl) fun _ _ _ => trivial
    exact Passes.bind hrefl hfail fun _ => Script.passes_throw e _

/-- A rebuild, however it ends. -/
theorem safe_rebuild (huuid : Function.Injective uuid) (call : Call) {s : State}
    (hs : Unborn uuid i s) :
    Safe (Rely uuid i) (Guarantee git uuid i) (fun _ _ => True) (fun _ _ => True)
      (rebuild git uuid call i) s := by
  have hrefl : ∀ s, Rely uuid i s s := fun _ => Rely.rfl
  apply Safe.bind hrefl
  · apply Safe.catching hrefl
    · exact safe_deploymentLock call.project (fun t ht => safe_deploy huuid call ht) hs
    · rintro ⟨e, locals⟩ t hlocals
      apply Safe.bind hrefl ((passes_caught e).safe t trivial)
      intro _ u hu
      split
      · next hdeployment =>
        have hexit : e.isExit = false := by
          cases e with
          | release message => rfl
          | service message => rfl
          | exit code => cases hdeployment
          | os => cases hdeployment
          | timeout => cases hdeployment
          | other => cases hdeployment
          | interrupt => cases hdeployment
        exact (passes_handleDeployment huuid hlocals).safe u (hu hexit)
      · exact (passes_handleOther huuid hlocals).safe u hu
  · exact fun _ _ _ _ _ => trivial

end

/-- Rebuilds that run together. -/
theorem protocol (git : Ancestry) {uuid : Nat → String} (huuid : Function.Injective uuid) :
    System.Protocol (rebuild git uuid) unlocked (Rely uuid) (Guarantee git uuid) (Unborn uuid) where
  refl := fun _ _ => Rely.rfl
  trans := fun _ _ _ _ => Rely.trans
  others := fun _ _ _ _ _ hne h => h.relies huuid hne
  exits := fun _ _ _ hne => rely_unlocked hne
  stays := fun _ s t h hs => stable_unborn s t hs h
  starts := fun call _ _ hs => safe_rebuild huuid call hs

end SummitFlow.ServiceRelease
