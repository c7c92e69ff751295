import SummitFlow.Spec.ReleasePointers

/-!
# The receipts of live releases

A rebuild that has replaced `current` still writes its receipt, prunes, publishes and installs
a launcher, and its handlers record a failure after any exception but `typer.Exit`.  So the
receipt of a live release says failed only where such an exception came, and a receipt that
says succeeded goes on saying so where none does.

## Key results

- `live_never_failed`: runs without such an exception
- `interrupted_after_going_live`: an interrupt while the launcher is installed
-/

namespace SummitFlow.ServiceRelease

open SummitFlow.System (Secure)

/-- In the states of a run the live release is not recorded as failed, and what was recorded as
    succeeded still is. -/
structure NeverFailed (git : Ancestry) (uuid : Nat → String) (s : State)
    (events : List (SystemEvent Call Answer)) : Prop where
  live : ∀ before, before <+: events → ∀ name receipt,
    (run (System.step (rebuild git uuid) unlocked) (System.idle s) before).state.current =
        .link (some name) →
      (run (System.step (rebuild git uuid) unlocked) (System.idle s) before).state.receipts name =
        some receipt → receipt.state ≠ .failed
  succeeded : ∀ before, before <+: events → ∀ name receipt,
    (run (System.step (rebuild git uuid) unlocked) (System.idle s) before).state.receipts name =
        some receipt → receipt.state = .succeeded →
      ∃ receipt', (run (System.step (rebuild git uuid) unlocked) (System.idle s)
        events).state.receipts name = some receipt' ∧ receipt'.state = .succeeded

/-- The handlers of a rebuild that has replaced `current` get an exception that is no exit. -/
def disturbs (sys : Rebuilds) : SystemEvent Call Answer → Bool
  | .step pid w =>
    match sys.effect pid w with
    | some (.caught e) => decide (pid ∈ sys.state.history.switched) && !e.isExit
    | _ => false
  | _ => false

def Undisturbed (sys : Rebuilds) (event : SystemEvent Call Answer) : Prop :=
  disturbs sys event = false

instance (sys : Rebuilds) (event : SystemEvent Call Answer) : Decidable (Undisturbed sys event) :=
  inferInstanceAs (Decidable (disturbs sys event = false))

theorem Undisturbed.exit {sys : Rebuilds} {pid : Nat} {w : Answer} {e : Exc}
    (h : Undisturbed sys (.step pid w)) (he : sys.effect pid w = some (.caught e))
    (hswitched : pid ∈ sys.state.history.switched) : e.isExit = true := by
  unfold Undisturbed disturbs at h
  dsimp only at h
  rw [he] at h
  simpa [hswitched] using h

section

variable {git : Ancestry} {uuid : Nat → String} {s : State}

/-- Where rebuilds start, the release that is live has not failed. -/
theorem Start.honest (hs : Start uuid s)
    (hlive : ∀ name receipt, s.current = .link (some name) → s.receipts name = some receipt →
      receipt.state ≠ .failed) : Honest uuid s where
  live := by
    intro i hcurrent
    obtain ⟨c, hc⟩ := hs.sound.recorded _ hcurrent
    unfold buildCommit at hc
    rw [hs.receipts i] at hc
    cases hc
  succeeded := by
    intro i receipt hreceipt
    rw [hs.receipts i] at hreceipt
    cases hreceipt
  failed := by
    intro i receipt hreceipt
    rw [hs.receipts i] at hreceipt
    cases hreceipt
  older := fun name receipt _ hcurrent hreceipt => hlive name receipt hcurrent hreceipt

/-- What is live has not failed, as long as no exception is on record. -/
theorem Honest.not_failed (h : Honest uuid s) (hstrayed : s.history.strayed = []) {name : String}
    {receipt : Receipt} (hcurrent : s.current = .link (some name))
    (hreceipt : s.receipts name = some receipt) : receipt.state ≠ .failed := by
  by_cases hown : ∃ i, name = uuid i
  · obtain ⟨i, rfl⟩ := hown
    intro hfailed
    have hrecorded := h.failed i receipt hreceipt hfailed (h.live i hcurrent)
    rw [hstrayed] at hrecorded
    cases hrecorded
  · exact h.older name receipt (fun i heq => hown ⟨i, heq⟩) hcurrent hreceipt

/-- The rebuilds so far, none of which had an exception after it replaced `current`. -/
structure Calm (git : Ancestry) (uuid : Nat → String) (sys : Rebuilds) : Prop where
  secure : Secure (Rely uuid) (Guarantee git uuid) (Unborn uuid) sys
  honest : Honest uuid sys.state
  strayed : sys.state.history.strayed = []

/-- One event. -/
theorem Calm.step (huuid : Function.Injective uuid) {sys : Rebuilds} (h : Calm git uuid sys)
    {event : SystemEvent Call Answer} (hfine : Undisturbed sys event) :
    Calm git uuid (System.step (rebuild git uuid) unlocked sys event) ∧
      ∀ name receipt, sys.state.receipts name = some receipt → receipt.state = .succeeded →
        ∃ receipt', (System.step (rebuild git uuid) unlocked sys event).state.receipts name =
          some receipt' ∧ receipt'.state = .succeeded := by
  have hsecure := h.secure.step (protocol git huuid) event
  rcases step_cases huuid h.secure event with hsame | ⟨pid, hexit⟩ | ⟨pid, w, l, rfl, hl, hG⟩
  · refine ⟨⟨hsecure, ?_, ?_⟩, ?_⟩
    · rw [hsame]
      exact h.honest
    · rw [hsame]
      exact h.strayed
    · rw [hsame]
      exact fun name receipt hreceipt hsucceeded => ⟨receipt, hreceipt, hsucceeded⟩
  · obtain ⟨-, hcurrent, -, hreceipts, hhistory⟩ := unlocked_same pid sys.state
    refine ⟨⟨hsecure, ?_, ?_⟩, ?_⟩
    · rw [hexit]
      constructor
      · rw [hcurrent, hhistory]
        exact h.honest.live
      · rw [hreceipts, hhistory]
        exact h.honest.succeeded
      · rw [hreceipts, hhistory]
        exact h.honest.failed
      · rw [hreceipts, hcurrent]
        exact h.honest.older
    · rw [hexit, hhistory]
      exact h.strayed
    · rw [hexit, hreceipts]
      exact fun name receipt hreceipt hsucceeded => ⟨receipt, hreceipt, hsucceeded⟩
  · refine ⟨⟨hsecure, hG.honest h.honest, ?_⟩, ?_⟩
    · apply List.eq_nil_iff_forall_not_mem.mpr
      intro j hj
      rcases (hG.strayed j).mp hj with hbefore | ⟨rfl, hswitched, e, rfl, hexit⟩
      · rw [h.strayed] at hbefore
        cases hbefore
      · rw [hfine.exit hl hswitched] at hexit
        cases hexit
    · intro name receipt hreceipt hsucceeded
      by_cases hname : name = uuid pid
      · subst hname
        apply (hG.completed h.honest receipt hreceipt hsucceeded).resolve_left
        rw [h.strayed]
        exact List.not_mem_nil
      · rw [hG.receipts name hname]
        exact ⟨receipt, hreceipt, hsucceeded⟩

/-- A run. -/
theorem Calm.run (huuid : Function.Injective uuid) {sys : Rebuilds} (h : Calm git uuid sys)
    {events : List (SystemEvent Call Answer)}
    (hfine : Along (System.step (rebuild git uuid) unlocked) Undisturbed sys events) :
    Calm git uuid (SummitFlow.run (System.step (rebuild git uuid) unlocked) sys events) ∧
      ∀ name receipt, sys.state.receipts name = some receipt → receipt.state = .succeeded →
        ∃ receipt', (SummitFlow.run (System.step (rebuild git uuid) unlocked) sys
          events).state.receipts name = some receipt' ∧ receipt'.state = .succeeded := by
  induction events generalizing sys with
  | nil => exact ⟨h, fun name receipt hreceipt hsucceeded => ⟨receipt, hreceipt, hsucceeded⟩⟩
  | cons event events ih =>
    obtain ⟨hnext, hkept⟩ := h.step huuid hfine.1
    obtain ⟨hlast, hlater⟩ := ih hnext hfine.2
    refine ⟨hlast, ?_⟩
    intro name receipt hreceipt hsucceeded
    obtain ⟨receipt', hreceipt', hsucceeded'⟩ := hkept name receipt hreceipt hsucceeded
    exact hlater name receipt' hreceipt' hsucceeded'

end

/-- In a run where no rebuild gets an exception other than an exit once it has replaced
    `current`, the live release is never recorded as failed and success stays recorded. -/
theorem live_never_failed (git : Ancestry) {uuid : Nat → String} (huuid : Function.Injective uuid)
    {s : State} (hs : Start uuid s)
    (hlive : ∀ name receipt, s.current = .link (some name) → s.receipts name = some receipt →
      receipt.state ≠ .failed) {events : List (SystemEvent Call Answer)}
    (hfine : Along (System.step (rebuild git uuid) unlocked) Undisturbed (System.idle s) events) :
    NeverFailed git uuid s events := by
  have hcalm : Calm git uuid (System.idle s : Rebuilds) :=
    ⟨hs.secure, hs.honest hlive, congrArg History.strayed hs.history⟩
  constructor
  · rintro before ⟨rest, rfl⟩ name receipt hcurrent hreceipt
    obtain ⟨hbefore, -⟩ := hcalm.run huuid (along_append.mp hfine).1
    exact hbefore.honest.not_failed hbefore.strayed hcurrent hreceipt
  · rintro before ⟨rest, rfl⟩ name receipt hreceipt hsucceeded
    obtain ⟨hfirst, hrest⟩ := along_append.mp hfine
    obtain ⟨hbefore, -⟩ := hcalm.run huuid hfirst
    rw [run_append]
    exact (hbefore.run huuid hrest).2 name receipt hreceipt hsucceeded

/-- Two rebuilds that both go well. -/
theorem two_rebuilds_never_failed : NeverFailed unrelated buildId empty twoRebuilds :=
  live_never_failed unrelated injective_buildId start_empty (fun _ _ h => nomatch h)
    (by decide +kernel)

/-- All goes well up to the launcher; then the user interrupts. -/
def interruptedLauncher : List (SystemEvent Call Answer) :=
  .start frontendRebuild :: List.replicate 62 (.step 0 fine) ++
    .step 0 { fine with raised := some .interrupt } :: List.replicate 5 (.step 0 fine)

/-- The release is live, and was recorded as succeeded, and its receipt says that it failed. -/
theorem interrupted_after_going_live :
    ¬ ∀ events, NeverFailed unrelated buildId empty events := by
  intro h
  have hcurrent : (run (System.step (rebuild unrelated buildId) unlocked) (System.idle empty)
      interruptedLauncher).state.current = .link (some (buildId 0)) := by decide +kernel
  have hfailed : ((run (System.step (rebuild unrelated buildId) unlocked) (System.idle empty)
      interruptedLauncher).state.receipts (buildId 0)).map Receipt.state = some .failed := by
    decide +kernel
  obtain ⟨receipt, hreceipt, hstate⟩ := Option.map_eq_some_iff.mp hfailed
  exact (h interruptedLauncher).live _ (List.prefix_refl _) _ receipt hcurrent hreceipt hstate

end SummitFlow.ServiceRelease
