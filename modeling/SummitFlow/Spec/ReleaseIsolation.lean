import SummitFlow.Spec.ReleasePointers

/-!
# Rebuilds do not meet

`deployment.lock` has one holder, and only its steps change releases and pointers: while the
holder does nothing, whatever other rebuilds do, fail at or die in leaves these as they are.
The receipt of a build is written by its own rebuild alone, and the commit it was prepared
from stays recorded for good.

## Key results

- `step_isolated`: what one event may change
- `rebuilds_isolated`: the same over runs
-/

namespace SummitFlow.ServiceRelease

open SummitFlow.System (Secure)

/-- The process that an event is about. -/
def actor : SystemEvent Call Answer → Option Nat
  | .start _ => none
  | .step pid _ => some pid
  | .crash pid => some pid

/-- Releases and pointers are what they were. -/
structure SameReleases (s t : State) : Prop where
  releases : t.releases = s.releases
  current : t.current = s.current
  previous : t.previous = s.previous

theorem SameReleases.rfl {s : State} : SameReleases s s := ⟨Eq.refl _, Eq.refl _, Eq.refl _⟩

theorem SameReleases.trans {s t u : State} (h : SameReleases s t) (h' : SameReleases t u) :
    SameReleases s u where
  releases := h'.releases.trans h.releases
  current := h'.current.trans h.current
  previous := h'.previous.trans h.previous

/-- What an event leaves alone: releases and pointers, unless it is a step of the holder of the
    lock; the lock, unless it is free or the event is about its holder; every receipt, unless
    the event is a step of the rebuild it is named after; and the recorded commits. -/
structure Isolated (uuid : Nat → String) (s : State) (event : SystemEvent Call Answer)
    (t : State) : Prop where
  releases : SameReleases s t ∨ ∃ pid w, event = .step pid w ∧ s.lock = some pid
  taken : ∀ pid, s.lock ≠ some pid → t.lock = some pid →
    s.lock = none ∧ ∃ w, event = .step pid w
  lost : ∀ pid, s.lock = some pid → t.lock ≠ some pid → t.lock = none ∧ actor event = some pid
  receipts : ∀ name, t.receipts name = s.receipts name ∨
    ∃ pid w, event = .step pid w ∧ name = uuid pid
  commits : ∀ name c, buildCommit s name = some c → buildCommit t name = some c

section

variable {git : Ancestry} {uuid : Nat → String} {s : State}

theorem Isolated.rfl {event : SystemEvent Call Answer} : Isolated uuid s event s where
  releases := .inl SameReleases.rfl
  taken := fun _ hnot hheld => absurd hheld hnot
  lost := fun _ hheld hnot => absurd hheld hnot
  receipts := fun _ => .inl (Eq.refl _)
  commits := fun _ _ hc => hc

theorem isolated_unlocked (pid : Nat) : Isolated uuid s (.crash pid) (unlocked pid s) where
  releases := by
    obtain ⟨hreleases, hcurrent, hprevious, -⟩ := unlocked_same pid s
    exact .inl ⟨hreleases, hcurrent, hprevious⟩
  taken := by
    intro other hnot hheld
    unfold unlocked at hheld
    split at hheld
    · cases hheld
    · exact absurd hheld hnot
  lost := by
    intro other hheld hnot
    unfold unlocked at hnot ⊢
    split at hnot
    · rename_i hpid
      rw [if_pos hpid]
      obtain rfl : pid = other := Option.some.inj (hpid.symm.trans hheld)
      exact ⟨Eq.refl _, Eq.refl _⟩
    · exact absurd hheld hnot
  receipts := by
    intro name
    obtain ⟨-, -, -, hreceipts, -⟩ := unlocked_same pid s
    exact .inl (congrFun hreceipts name)
  commits := by
    intro name c hc
    obtain ⟨-, -, -, hreceipts, -⟩ := unlocked_same pid s
    unfold buildCommit at hc ⊢
    rw [hreceipts]
    exact hc

theorem Guarantee.isolated {pid : Nat} {l : Label} {t : State} (h : Guarantee git uuid pid s l t)
    (w : Answer) : Isolated uuid s (.step pid w) t where
  releases := by
    by_cases hlock : s.lock = some pid
    · exact .inr ⟨pid, w, Eq.refl _, hlock⟩
    · obtain ⟨hreleases, hcurrent, hprevious⟩ := h.still hlock
      exact .inl ⟨hreleases, hcurrent, hprevious⟩
  taken := by
    intro other hnot hheld
    rcases h.lock with hsame | ⟨hfree, htaken⟩ | ⟨-, hfreed⟩
    · exact absurd (hsame.symm.trans hheld) hnot
    · obtain rfl : pid = other := Option.some.inj (htaken.symm.trans hheld)
      exact ⟨hfree, w, Eq.refl _⟩
    · rw [hfreed] at hheld
      cases hheld
  lost := by
    intro other hheld hnot
    rcases h.lock with hsame | ⟨hfree, -⟩ | ⟨hholder, hfreed⟩
    · exact absurd (hsame.trans hheld) hnot
    · rw [hfree] at hheld
      cases hheld
    · obtain rfl : pid = other := Option.some.inj (hholder.symm.trans hheld)
      exact ⟨hfreed, Eq.refl _⟩
  receipts := by
    intro name
    by_cases hname : name = uuid pid
    · exact .inr ⟨pid, w, Eq.refl _, hname⟩
    · exact .inl (h.receipts name hname)
  commits := h.commits

/-- Every event of a run is isolated. -/
theorem step_isolated (huuid : Function.Injective uuid) {sys : Rebuilds}
    (h : Secure (Rely uuid) (Guarantee git uuid) (Unborn uuid) sys)
    (event : SystemEvent Call Answer) :
    Isolated uuid sys.state event (System.step (rebuild git uuid) unlocked sys event).state := by
  cases event with
  | start call => exact Isolated.rfl
  | step pid w =>
    cases hl : sys.effect pid w with
    | none =>
      rw [System.step_of_effect_none hl]
      exact Isolated.rfl
    | some l => exact (h.guarantees (protocol git huuid) hl).isolated w
  | crash pid =>
    unfold System.step
    dsimp only
    split
    · exact isolated_unlocked pid
    · exact Isolated.rfl

/-- While the holder of the lock does nothing, it keeps the lock and its releases. -/
theorem held_run (huuid : Function.Injective uuid) {holder : Nat} {sys : Rebuilds}
    (h : Secure (Rely uuid) (Guarantee git uuid) (Unborn uuid) sys)
    {events : List (SystemEvent Call Answer)} (hlock : sys.state.lock = some holder)
    (hidle : ∀ event ∈ events, actor event ≠ some holder) :
    (run (System.step (rebuild git uuid) unlocked) sys events).state.lock = some holder ∧
      SameReleases sys.state (run (System.step (rebuild git uuid) unlocked) sys events).state := by
  induction events generalizing sys with
  | nil => exact ⟨hlock, SameReleases.rfl⟩
  | cons event events ih =>
    have hfirst := step_isolated huuid h event
    have hactor := hidle event List.mem_cons_self
    have hkept : (System.step (rebuild git uuid) unlocked sys event).state.lock = some holder := by
      by_contra hlost
      exact hactor (hfirst.lost holder hlock hlost).2
    have hsame : SameReleases sys.state (System.step (rebuild git uuid) unlocked sys event).state := by
      rcases hfirst.releases with hsame | ⟨pid, w, rfl, hpid⟩
      · exact hsame
      · obtain rfl : pid = holder := Option.some.inj (hpid.symm.trans hlock)
        exact absurd (Eq.refl _) hactor
    obtain ⟨hlater, hrest⟩ := ih (h.step (protocol git huuid) event) hkept
      fun event' hmem => hidle event' (List.mem_cons_of_mem _ hmem)
    exact ⟨hlater, hsame.trans hrest⟩

/-- Between the steps of a rebuild its receipt stays as it is. -/
theorem receipt_run (huuid : Function.Injective uuid) {pid : Nat} {sys : Rebuilds}
    (h : Secure (Rely uuid) (Guarantee git uuid) (Unborn uuid) sys)
    {events : List (SystemEvent Call Answer)} (hidle : ∀ w, .step pid w ∉ events) :
    (run (System.step (rebuild git uuid) unlocked) sys events).state.receipts (uuid pid) =
      sys.state.receipts (uuid pid) := by
  induction events generalizing sys with
  | nil => rfl
  | cons event events ih =>
    have hrest := ih (h.step (protocol git huuid) event)
      fun w hmem => hidle w (List.mem_cons_of_mem _ hmem)
    rw [run_cons, hrest]
    rcases (step_isolated huuid h event).receipts (uuid pid) with hsame | ⟨other, w, rfl, hname⟩
    · exact hsame
    · obtain rfl := huuid hname
      exact absurd List.mem_cons_self (hidle w)

/-- A recorded commit stays recorded. -/
theorem commit_run (huuid : Function.Injective uuid) {sys : Rebuilds}
    (h : Secure (Rely uuid) (Guarantee git uuid) (Unborn uuid) sys)
    {events : List (SystemEvent Call Answer)} {name c : String}
    (hc : buildCommit sys.state name = some c) :
    buildCommit (run (System.step (rebuild git uuid) unlocked) sys events).state name = some c := by
  induction events generalizing sys with
  | nil => exact hc
  | cons event events ih =>
    exact ih (h.step (protocol git huuid) event) ((step_isolated huuid h event).commits name c hc)

end

/-- At any point of a run of rebuilds, with failures and crashes at any step: each event changes
    releases and pointers only as a step of the lock's holder, and a receipt only as a step of
    the rebuild it is named after; and from there on, as long as the holder does nothing, it
    keeps the lock and finds releases and pointers as it left them, a rebuild finds its receipt
    as it left it, and no recorded commit is lost or replaced. -/
theorem rebuilds_isolated (git : Ancestry) {uuid : Nat → String} (huuid : Function.Injective uuid)
    {s : State} (hs : Start uuid s) (events : List (SystemEvent Call Answer)) :
    let step := System.step (rebuild git uuid) unlocked
    let sys := run step (System.idle s) events
    (∀ event, Isolated uuid sys.state event (step sys event).state) ∧
      ∀ more,
        (∀ holder, sys.state.lock = some holder → (∀ event ∈ more, actor event ≠ some holder) →
          (run step sys more).state.lock = some holder ∧
            SameReleases sys.state (run step sys more).state) ∧
        (∀ pid, (∀ w, .step pid w ∉ more) →
          (run step sys more).state.receipts (uuid pid) = sys.state.receipts (uuid pid)) ∧
        ∀ name c, buildCommit sys.state name = some c →
          buildCommit (run step sys more).state name = some c := by
  have hsecure : Secure (Rely uuid) (Guarantee git uuid) (Unborn uuid)
      (run (System.step (rebuild git uuid) unlocked) (System.idle s) events) :=
    secure_run huuid hs events
  constructor
  · exact fun event => step_isolated huuid hsecure event
  · intro more
    constructor
    · exact fun holder hlock hidle => held_run huuid hsecure hlock hidle
    · constructor
      · exact fun pid hidle => receipt_run huuid hsecure hidle
      · exact fun name c hc => commit_run huuid hsecure hc

/-- A rebuild in the middle of its steps. -/
def firstSteps : List (SystemEvent Call Answer) :=
  .start frontendRebuild :: List.replicate 40 (.step 0 fine)

/-- Another one that starts, is refused and dies. -/
def secondRebuild : List (SystemEvent Call Answer) :=
  .start frontendRebuild :: (List.replicate 20 (.step 1 fine) ++ [.crash 1])

/-- The first rebuild still has the lock, its releases and its receipt. -/
theorem second_rebuild_refused :
    let step := System.step (rebuild unrelated buildId) unlocked
    let sys := run step (System.idle empty) firstSteps
    sys.state.lock = some 0 ∧ (run step sys secondRebuild).state.lock = some 0 ∧
      SameReleases sys.state (run step sys secondRebuild).state := by
  have hlock : (run (System.step (rebuild unrelated buildId) unlocked) (System.idle empty)
      firstSteps).state.lock = some 0 := by decide +kernel
  have hidle : ∀ event ∈ secondRebuild, actor event ≠ some 0 := by decide +kernel
  have hisolated := rebuilds_isolated unrelated injective_buildId start_empty firstSteps
  exact ⟨hlock, (hisolated.2 secondRebuild).1 0 hlock hidle⟩

end SummitFlow.ServiceRelease
