import SummitFlow.Spec.ReleaseRuns

/-!
# The pointers of a managed project

Over every run of rebuilds of one project, in every order and with crashes, `current` and
`previous` lead to releases that stand, pruning spares them and what services name, and the
live commit only goes forward, except where a run rolls back.

## Key results

- `step_cases`: what an event of a run is
- `usable_and_forward`: the pointers after any run
-/

namespace SummitFlow.ServiceRelease

open SummitFlow.System (Secure)

/-! ## Runs -/

/-- Where rebuilds may start: the pointers can be used and no build id is taken yet. -/
structure Start (uuid : Nat → String) (s : State) : Prop where
  sound : Sound s
  entries : ∀ i, s.releases.lookup (uuid i) = none
  receipts : ∀ i, s.receipts (uuid i) = none
  history : s.history = ⟨[], []⟩

/-- The service state and the rebuilds that run. -/
abbrev Rebuilds := System State Answer Label Exc

section

variable {git : Ancestry} {uuid : Nat → String} {s : State}

theorem Start.unborn (hs : Start uuid s) (i : Nat) : Unborn uuid i s where
  sound := hs.sound
  entry := hs.entries i
  receipt := hs.receipts i
  switched := by
    rw [hs.history]
    exact List.not_mem_nil

theorem Start.secure (hs : Start uuid s) :
    Secure (Rely uuid) (Guarantee git uuid) (Unborn uuid) (System.idle s : Rebuilds) :=
  System.secure_idle hs.unborn

theorem secure_run (huuid : Function.Injective uuid) (hs : Start uuid s)
    (events : List (SystemEvent Call Answer)) :
    Secure (Rely uuid) (Guarantee git uuid) (Unborn uuid)
      (run (System.step (rebuild git uuid) unlocked) (System.idle s) events) :=
  hs.secure.run (protocol git huuid) events

theorem sound_of_secure {sys : Rebuilds}
    (h : Secure (Rely uuid) (Guarantee git uuid) (Unborn uuid) sys) : Sound sys.state :=
  (h.ready sys.next (Nat.le_refl _)).2.sound

/-- An event leaves the state, lets go of a lock, or is a step of a rebuild. -/
theorem step_cases (huuid : Function.Injective uuid) {sys : Rebuilds}
    (h : Secure (Rely uuid) (Guarantee git uuid) (Unborn uuid) sys)
    (event : SystemEvent Call Answer) :
    (System.step (rebuild git uuid) unlocked sys event).state = sys.state ∨
      (∃ pid, (System.step (rebuild git uuid) unlocked sys event).state = unlocked pid sys.state) ∨
      ∃ pid w l, event = .step pid w ∧ sys.effect pid w = some l ∧ Guarantee git uuid pid sys.state l
        (System.step (rebuild git uuid) unlocked sys event).state := by
  cases event with
  | start call => exact .inl rfl
  | step pid w =>
    cases hl : sys.effect pid w with
    | none => exact .inl (congrArg System.state (System.step_of_effect_none hl))
    | some l => exact .inr (.inr ⟨pid, w, l, rfl, hl, h.guarantees (protocol git huuid) hl⟩)
  | crash pid =>
    unfold System.step
    dsimp only
    split
    · exact .inr (.inl ⟨pid, rfl⟩)
    · exact .inl rfl

/-- A process that dies leaves everything but the lock. -/
theorem unlocked_same (pid : Nat) (s : State) :
    (unlocked pid s).releases = s.releases ∧ (unlocked pid s).current = s.current ∧
      (unlocked pid s).previous = s.previous ∧ (unlocked pid s).receipts = s.receipts ∧
      (unlocked pid s).history = s.history := by
  unfold unlocked
  split
  · exact ⟨rfl, rfl, rfl, rfl, rfl⟩
  · exact ⟨rfl, rfl, rfl, rfl, rfl⟩

/-! ## Pointers -/

/-- What an event does about the releases: a pointer that is set stays set, no part of a release
    that a pointer names is removed, nor of one among the references that the pruning was given,
    and the live commit is contained in the next one unless a run rolls back. -/
structure Advances (git : Ancestry) (sys : Rebuilds) (event : SystemEvent Call Answer)
    (after : State) : Prop where
  set : ∀ p, sys.state.pointer p ≠ .absent → after.pointer p ≠ .absent
  removes : ∀ name, sys.state.releases.lookup name = some .release →
    after.releases.lookup name ≠ some .release →
      (∀ p, sys.state.pointer p ≠ .link (some name)) ∧
        ∃ pid w references, event = .step pid w ∧
          sys.effect pid w = some (.removed name references) ∧ .release name ∉ references
  forward : ∀ c, sys.state.commit = some c → ∃ d, after.commit = some d ∧
    (git.isAncestor c d = true ∨
      ∃ pid w, event = .step pid w ∧ sys.effect pid w = some (.switched true))

/-- The event is not a rollback. -/
def Ahead (sys : Rebuilds) (event : SystemEvent Call Answer) : Prop :=
  ∀ pid w, event = .step pid w → sys.effect pid w ≠ some (.switched true)

theorem advances_same {sys : Rebuilds} {event : SystemEvent Call Answer} {t : State}
    (hreleases : t.releases = sys.state.releases) (hcurrent : t.current = sys.state.current)
    (hprevious : t.previous = sys.state.previous) (hreceipts : t.receipts = sys.state.receipts) :
    Advances git sys event t where
  set := by
    intro p hp
    cases p with
    | current => exact fun habsent => hp (hcurrent.symm.trans habsent)
    | previous => exact fun habsent => hp (hprevious.symm.trans habsent)
  removes := by
    intro name hthere hgone
    rw [hreleases] at hgone
    exact absurd hthere hgone
  forward := by
    intro c hc
    refine ⟨c, ?_, .inl (git.refl c)⟩
    apply commit_eq hcurrent _ hc
    intro name d hd
    unfold buildCommit at hd ⊢
    rw [hreceipts]
    exact hd

theorem advances_step (huuid : Function.Injective uuid) {sys : Rebuilds}
    (h : Secure (Rely uuid) (Guarantee git uuid) (Unborn uuid) sys)
    (event : SystemEvent Call Answer) :
    Advances git sys event (System.step (rebuild git uuid) unlocked sys event).state := by
  rcases step_cases huuid h event with hsame | ⟨pid, hexit⟩ | ⟨pid, w, l, rfl, hl, hG⟩
  · rw [hsame]
    exact advances_same rfl rfl rfl rfl
  · rw [hexit]
    obtain ⟨hreleases, hcurrent, hprevious, hreceipts, -⟩ := unlocked_same pid sys.state
    exact advances_same hreleases hcurrent hprevious hreceipts
  · refine ⟨hG.set, ?_, ?_⟩
    · intro name hthere hgone
      obtain ⟨hpointers, references, rfl, hfree⟩ := hG.removes name hthere hgone
      exact ⟨hpointers, pid, w, references, rfl, hl, hfree⟩
    · intro c hc
      obtain ⟨d, hd, hforward⟩ := hG.forward c hc
      refine ⟨d, hd, hforward.imp_right ?_⟩
      rintro rfl
      exact ⟨pid, w, rfl, hl⟩

/-- Without rollbacks the live commit at any time contains the one at any time before. -/
theorem forward_run (huuid : Function.Injective uuid) {sys : Rebuilds}
    (h : Secure (Rely uuid) (Guarantee git uuid) (Unborn uuid) sys)
    {events : List (SystemEvent Call Answer)}
    (hahead : Along (System.step (rebuild git uuid) unlocked) Ahead sys events) {c : String}
    (hc : sys.state.commit = some c) :
    ∃ d, (run (System.step (rebuild git uuid) unlocked) sys events).state.commit = some d ∧
      git.isAncestor c d = true := by
  induction events generalizing sys c with
  | nil => exact ⟨c, hc, git.refl c⟩
  | cons event events ih =>
    obtain ⟨hfirst, hrest⟩ := hahead
    obtain ⟨d, hd, hstep⟩ := (advances_step huuid h event).forward c hc
    have hancestor : git.isAncestor c d = true := by
      apply hstep.resolve_right
      rintro ⟨pid, w, rfl, hrollback⟩
      exact hfirst pid w rfl hrollback
    obtain ⟨e, he, hlater⟩ := ih (h.step (protocol git huuid) event) hrest hd
    exact ⟨e, he, git.trans c d e hancestor hlater⟩

end

/-- After any run of rebuilds, with failures and crashes at any step, each pointer that is set
    leads to a release that stands; whatever comes next keeps it set, removes nothing that a
    pointer or a service reference names, and moves the live commit forward unless it is a
    rollback; and up to the next rollback every later live commit contains this one. -/
theorem usable_and_forward (git : Ancestry) {uuid : Nat → String} (huuid : Function.Injective uuid)
    {s : State} (hs : Start uuid s) (events : List (SystemEvent Call Answer)) :
    let step := System.step (rebuild git uuid) unlocked
    let sys := run step (System.idle s) events
    (∀ p, Usable sys.state p) ∧ (∀ event, Advances git sys event (step sys event).state) ∧
      ∀ more, Along step Ahead sys more → ∀ c, sys.state.commit = some c →
        ∃ d, (run step sys more).state.commit = some d ∧ git.isAncestor c d = true := by
  have hsecure : Secure (Rely uuid) (Guarantee git uuid) (Unborn uuid)
      (run (System.step (rebuild git uuid) unlocked) (System.idle s) events) :=
    secure_run huuid hs events
  refine ⟨(sound_of_secure hsecure).usable, fun event => advances_step huuid hsecure event, ?_⟩
  intro more hahead c hc
  exact forward_run huuid hsecure hahead hc

/-! ## Two rebuilds -/

/-- Commits without a history. -/
def unrelated : Ancestry where
  isAncestor c d := c == d
  refl := by simp
  trans := by
    intro c d e h h'
    rw [beq_iff_eq.mp h]
    exact h'
  antisymm := fun c d h _ => beq_iff_eq.mp h

/-- Build ids, of hexadecimal digits as far as they are used here. -/
def buildId (i : Nat) : String := String.ofList (List.replicate i 'b' ++ List.replicate (32 - i) 'a')

theorem injective_buildId : Function.Injective buildId := by
  intro i j h
  have hcount := congrArg (fun text => text.toList.count 'b') h
  simpa [buildId, List.count_append, List.count_replicate] using hcount

/-- No release yet. -/
def empty : State := ⟨[], fun _ => none, .absent, .absent, none, ⟨[], []⟩⟩

theorem start_empty : Start buildId empty where
  sound := by
    refine ⟨fun p => .inl ?_, fun name hname => nomatch hname⟩
    cases p <;> rfl
  entries := fun _ => rfl
  receipts := fun _ => rfl
  history := rfl

/-- A frontend rebuild of a project without workers. -/
def frontendRebuild : Call where
  project := "summitflow"
  scope := .frontend
  manual := false
  rollback := false
  migrateMonitorStore := false
  workers := []
  backendService := true
  frontendService := true
  hostMonitor := false
  releaseInstall := false
  result := false

/-- Everything goes well. -/
def fine : Answer where
  raised := none
  made := false
  code := 0
  yes := true
  text := ""
  descriptor := ⟨some "acceptance", some "commit", some "tree", some "full", true⟩
  references := some []

/-- Two rebuilds, one after the other; the release of the first is found in use. -/
def twoRebuilds : List (SystemEvent Call Answer) :=
  .start frontendRebuild :: List.replicate 65 (.step 0 fine) ++
    .start frontendRebuild :: List.replicate 70 (.step 1 fine)

/-- The second release is live and the first is the one before. -/
theorem two_rebuilds_usable :
    let sys := run (System.step (rebuild unrelated buildId) unlocked) (System.idle empty) twoRebuilds
    (sys.state.current = .link (some (buildId 1)) ∧ sys.state.previous = .link (some (buildId 0))) ∧
      ∀ p, Usable sys.state p :=
  ⟨by decide +kernel, (usable_and_forward unrelated injective_buildId start_empty twoRebuilds).1⟩

end SummitFlow.ServiceRelease
