import SummitFlow.Cli.ServiceRebuild

/-!
# The steps of rebuilds that run together

What a step of a rebuild may do to the service state, and what a rebuild relies on while
others run: its own receipt stays as it wrote it, and under the deployment lock so do the
pointers and the releases.  The changes of a rebuild are within its guarantee, one by one, and
so are the steps that the functions of a rebuild are made of.

## Key results

- `Guarantee.relies`: what one rebuild guarantees is what the others rely on
- `guarantee_current`: replacing `current` is within the guarantee where the commit goes forward
- `keeps_markPhase`, `keeps_failRelease`: what is recorded of a phase and of a failure
-/

namespace SummitFlow.ServiceRelease

open Script (Safe Keeps)

/-! ## The state -/

/-- The commit of the live release. -/
def State.commit (s : State) : Option String :=
  match s.current with
  | .link (some name) => buildCommit s name
  | _ => none

/-- A pointer is not set, or leads to a release. -/
def Usable (s : State) (p : PointerName) : Prop :=
  s.pointer p = .absent ∨
    ∃ name, s.pointer p = .link (some name) ∧ s.releases.lookup name = some .release

/-- The pointers can be used, and the commit of the live release is known. -/
structure Sound (s : State) : Prop where
  usable : ∀ p, Usable s p
  recorded : ∀ name, s.current = .link (some name) → ∃ c, buildCommit s name = some c

/-- Failed and succeeded receipts, by what the rebuilds did. -/
structure Honest (uuid : Nat → String) (s : State) : Prop where
  live : ∀ i, s.current = .link (some (uuid i)) → i ∈ s.history.switched
  succeeded : ∀ i receipt, s.receipts (uuid i) = some receipt → receipt.state = .succeeded →
    i ∈ s.history.switched
  failed : ∀ i receipt, s.receipts (uuid i) = some receipt → receipt.state = .failed →
    i ∈ s.history.switched → i ∈ s.history.strayed
  older : ∀ name receipt, (∀ i, name ≠ uuid i) → s.current = .link (some name) →
    s.receipts name = some receipt → receipt.state ≠ .failed

section

variable {s t : State}

theorem commit_eq (hcurrent : t.current = s.current)
    (hcommits : ∀ name c, buildCommit s name = some c → buildCommit t name = some c) {c : String}
    (h : s.commit = some c) : t.commit = some c := by
  unfold State.commit at h ⊢
  rw [hcurrent]
  split at h
  · exact hcommits _ c h
  · cases h

/-- With the same pointers and releases. -/
theorem Sound.of_same (h : Sound s) (hreleases : t.releases = s.releases)
    (hcurrent : t.current = s.current) (hprevious : t.previous = s.previous)
    (hcommits : ∀ name c, buildCommit s name = some c → buildCommit t name = some c) : Sound t where
  usable := by
    intro p
    have hp : t.pointer p = s.pointer p := by
      cases p with
      | current => exact hcurrent
      | previous => exact hprevious
    unfold Usable
    rw [hp, hreleases]
    exact h.usable p
  recorded := by
    intro name hname
    rw [hcurrent] at hname
    obtain ⟨c, hc⟩ := h.recorded name hname
    exact ⟨c, hcommits name c hc⟩

theorem Sound.commit (h : Sound s) {name : String} (hname : s.current = .link (some name)) :
    ∃ c, s.commit = some c := by
  obtain ⟨c, hc⟩ := h.recorded name hname
  refine ⟨c, ?_⟩
  unfold State.commit
  rw [hname]
  exact hc

end

/-! ## Rely and guarantee -/

/-- What a rebuild relies on. -/
structure Rely (uuid : Nat → String) (i : Nat) (s t : State) : Prop where
  receipt : t.receipts (uuid i) = s.receipts (uuid i)
  lock : t.lock = some i ↔ s.lock = some i
  still : s.lock = some i →
    t.releases = s.releases ∧ t.current = s.current ∧ t.previous = s.previous
  unborn : s.releases.lookup (uuid i) = none → t.releases.lookup (uuid i) = none
  switched : i ∈ t.history.switched ↔ i ∈ s.history.switched
  strayed : i ∈ t.history.strayed ↔ i ∈ s.history.strayed
  commits : ∀ name c, buildCommit s name = some c → buildCommit t name = some c
  sound : Sound s → Sound t

/-- What a step of a rebuild does. -/
structure Guarantee (git : Ancestry) (uuid : Nat → String) (i : Nat) (s : State) (l : Label)
    (t : State) : Prop where
  lock : t.lock = s.lock ∨ (s.lock = none ∧ t.lock = some i) ∨ (s.lock = some i ∧ t.lock = none)
  still : s.lock ≠ some i →
    t.releases = s.releases ∧ t.current = s.current ∧ t.previous = s.previous
  receipts : ∀ name, name ≠ uuid i → t.receipts name = s.receipts name
  commits : ∀ name c, buildCommit s name = some c → buildCommit t name = some c
  unborn : ∀ name, name ≠ uuid i → s.releases.lookup name = none → t.releases.lookup name = none
  switched : ∀ j, j ≠ i → (j ∈ t.history.switched ↔ j ∈ s.history.switched)
  strayed : ∀ j, j ∈ t.history.strayed ↔ j ∈ s.history.strayed ∨
    (j = i ∧ i ∈ s.history.switched ∧ ∃ e, l = .caught e ∧ e.isExit = false)
  sound : Sound s → Sound t
  honest : Honest uuid s → Honest uuid t
  completed : Honest uuid s → ∀ receipt, s.receipts (uuid i) = some receipt →
    receipt.state = .succeeded → i ∈ s.history.strayed ∨
      ∃ receipt', t.receipts (uuid i) = some receipt' ∧ receipt'.state = .succeeded
  set : ∀ p, s.pointer p ≠ .absent → t.pointer p ≠ .absent
  removes : ∀ name, s.releases.lookup name = some .release →
    t.releases.lookup name ≠ some .release →
      (∀ p, s.pointer p ≠ .link (some name)) ∧
        ∃ references, l = .removed name references ∧ .release name ∉ references
  forward : ∀ c, s.commit = some c → ∃ d, t.commit = some d ∧
    (git.isAncestor c d = true ∨ l = .switched true)

section

variable {git : Ancestry} {uuid : Nat → String} {i : Nat} {s t : State} {l : Label}

theorem Rely.rfl : Rely uuid i s s where
  receipt := Eq.refl _
  lock := Iff.rfl
  still := fun _ => ⟨Eq.refl _, Eq.refl _, Eq.refl _⟩
  unborn := id
  switched := Iff.rfl
  strayed := Iff.rfl
  commits := fun _ _ => id
  sound := id

theorem Rely.trans {u : State} (h : Rely uuid i s t) (h' : Rely uuid i t u) : Rely uuid i s u where
  receipt := h'.receipt.trans h.receipt
  lock := h'.lock.trans h.lock
  still := by
    intro hlock
    obtain ⟨hreleases, hcurrent, hprevious⟩ := h.still hlock
    obtain ⟨hreleases', hcurrent', hprevious'⟩ := h'.still (h.lock.mpr hlock)
    exact ⟨hreleases'.trans hreleases, hcurrent'.trans hcurrent, hprevious'.trans hprevious⟩
  unborn := h'.unborn ∘ h.unborn
  switched := h'.switched.trans h.switched
  strayed := h'.strayed.trans h.strayed
  commits := fun name c hc => h'.commits name c (h.commits name c hc)
  sound := h'.sound ∘ h.sound

/-- What one rebuild guarantees is what the others rely on. -/
theorem Guarantee.relies (h : Guarantee git uuid i s l t) (huuid : Function.Injective uuid) {j : Nat}
    (hne : i ≠ j) : Rely uuid j s t where
  receipt := h.receipts _ fun heq => hne (huuid heq).symm
  lock := by
    have hother : (some i : Option Nat) ≠ some j := fun heq => hne (Option.some.inj heq)
    rcases h.lock with hsame | ⟨hfree, htaken⟩ | ⟨hheld, hfree⟩
    · rw [hsame]
    · rw [hfree, htaken]
      exact ⟨fun heq => absurd heq hother, nofun⟩
    · rw [hheld, hfree]
      exact ⟨nofun, fun heq => absurd heq hother⟩
  still := by
    intro hlock
    apply h.still
    rw [hlock]
    exact fun heq => hne (Option.some.inj heq).symm
  unborn := h.unborn _ fun heq => hne (huuid heq).symm
  switched := h.switched j hne.symm
  strayed := (h.strayed j).trans ⟨fun hj => hj.resolve_right fun heq => hne heq.1.symm, .inl⟩
  commits := h.commits
  sound := h.sound

/-- The pointers and the commits as they were. -/
theorem forward_same (hcurrent : t.current = s.current)
    (hcommits : ∀ name c, buildCommit s name = some c → buildCommit t name = some c) (c : String)
    (h : s.commit = some c) :
    ∃ d, t.commit = some d ∧ (git.isAncestor c d = true ∨ l = .switched true) :=
  ⟨c, commit_eq hcurrent hcommits h, .inl (git.refl c)⟩

/-- A step without effect, unless it is an exception that counts. -/
theorem guarantee_nothing (hl : ∀ e, l = .caught e → i ∈ s.history.switched → e.isExit = true) :
    Guarantee git uuid i s l s where
  lock := .inl rfl
  still := fun _ => ⟨rfl, rfl, rfl⟩
  receipts := fun _ _ => rfl
  commits := fun _ _ => id
  unborn := fun _ _ => id
  switched := fun _ _ => Iff.rfl
  strayed := by
    intro j
    refine ⟨.inl, fun h => h.resolve_right ?_⟩
    rintro ⟨-, hswitched, e, he, hexit⟩
    rw [hl e he hswitched] at hexit
    cases hexit
  sound := id
  honest := id
  completed := fun _ receipt hreceipt hstate => .inr ⟨receipt, hreceipt, hstate⟩
  set := fun _ => id
  removes := fun _ hthere hgone => absurd hthere hgone
  forward := forward_same rfl fun _ _ => id

/-- The state with a receipt. -/
def State.withReceipt (s : State) (name : String) (receipt : Receipt) : State :=
  { s with receipts := Function.update s.receipts name (some receipt) }

theorem receipts_withReceipt (s : State) (name : String) (receipt : Receipt) :
    (s.withReceipt name receipt).receipts name = some receipt := Function.update_self ..

theorem receipts_withReceipt_of_ne (s : State) {name other : String} (h : other ≠ name)
    (receipt : Receipt) : (s.withReceipt name receipt).receipts other = s.receipts other :=
  Function.update_of_ne h ..

theorem buildCommit_withReceipt {name : String} {receipt : Receipt}
    (h : ∀ old, s.receipts name = some old → receipt.source = old.source) (other c : String)
    (hc : buildCommit s other = some c) : buildCommit (s.withReceipt name receipt) other = some c := by
  by_cases hname : other = name
  · subst hname
    unfold buildCommit at hc ⊢
    cases hold : s.receipts other with
    | none =>
      rw [hold] at hc
      cases hc
    | some old =>
      rw [hold] at hc
      rw [receipts_withReceipt]
      dsimp only at hc ⊢
      rw [h old hold]
      exact hc
  · unfold buildCommit at hc ⊢
    rw [receipts_withReceipt_of_ne s hname]
    exact hc

theorem commit_withReceipt (hs : Sound s) {name : String} {receipt : Receipt}
    (h : ∀ old, s.receipts name = some old → receipt.source = old.source) :
    (s.withReceipt name receipt).commit = s.commit := by
  unfold State.commit
  show (match s.current with
    | .link (some live) => buildCommit (s.withReceipt name receipt) live
    | _ => none) = _
  split
  · next live hlive =>
    obtain ⟨c, hc⟩ := hs.recorded live hlive
    rw [hc, buildCommit_withReceipt h live c hc]
  · rfl

/-- The states a rebuild may give its receipt: the one it has, the first one, failed as long as
    the release is not live or an exception came, and succeeded once it is live. -/
inductive Recordable (s : State) (name : String) (i : Nat) (state : ReceiptState) : Prop
  | same (old : Receipt) (h : s.receipts name = some old) (hstate : old.state = state)
  | first (h : s.receipts name = none) (hstate : state = .prepared)
  | failed (hstate : state = .failed) (h : i ∈ s.history.switched → i ∈ s.history.strayed)
  | succeeded (hstate : state = .succeeded) (h : i ∈ s.history.switched)

theorem Honest.recorded (h : Honest uuid s) (huuid : Function.Injective uuid) {receipt : Receipt}
    (hstate : Recordable s (uuid i) i receipt.state) :
    Honest uuid (s.withReceipt (uuid i) receipt) := by
  have hown : ∀ j other, (s.withReceipt (uuid i) receipt).receipts (uuid j) = some other →
      (j = i ∧ other = receipt) ∨ s.receipts (uuid j) = some other := by
    intro j other hother
    by_cases hj : j = i
    · subst hj
      exact .inl ⟨rfl, Option.some.inj (hother.symm.trans (receipts_withReceipt s _ _))⟩
    · rw [receipts_withReceipt_of_ne s fun heq => hj (huuid heq)] at hother
      exact .inr hother
  refine ⟨h.live, ?_, ?_, ?_⟩
  · intro j other hother hsucceeded
    rcases hown j other hother with ⟨rfl, rfl⟩ | hbefore
    · cases hstate with
      | same old hold heq => exact h.succeeded j old hold (heq.trans hsucceeded)
      | first _ heq => exact absurd (heq.symm.trans hsucceeded) nofun
      | failed heq _ => exact absurd (heq.symm.trans hsucceeded) nofun
      | succeeded _ hswitched => exact hswitched
    · exact h.succeeded j other hbefore hsucceeded
  · intro j other hother hfailed hswitched
    rcases hown j other hother with ⟨rfl, rfl⟩ | hbefore
    · cases hstate with
      | same old hold heq => exact h.failed j old hold (heq.trans hfailed) hswitched
      | first _ heq => exact absurd (heq.symm.trans hfailed) nofun
      | failed _ hstrayed => exact hstrayed hswitched
      | succeeded heq _ => exact absurd (heq.symm.trans hfailed) nofun
    · exact h.failed j other hbefore hfailed hswitched
  · intro name other hname hcurrent hother
    rw [receipts_withReceipt_of_ne s (hname i)] at hother
    exact h.older name other hname hcurrent hother

/-- A rebuild writes its receipt. -/
theorem guarantee_receipt (huuid : Function.Injective uuid) {receipt : Receipt}
    (hsource : ∀ old, s.receipts (uuid i) = some old → receipt.source = old.source)
    (hstate : Recordable s (uuid i) i receipt.state) :
    Guarantee git uuid i s .step (s.withReceipt (uuid i) receipt) where
  lock := .inl rfl
  still := fun _ => ⟨rfl, rfl, rfl⟩
  receipts := fun _ hname => receipts_withReceipt_of_ne s hname receipt
  commits := buildCommit_withReceipt hsource
  unborn := fun _ _ => id
  switched := fun _ _ => Iff.rfl
  strayed := fun _ => ⟨.inl, fun h => h.resolve_right fun ⟨_, _, e, he, _⟩ => by cases he⟩
  sound := fun h => h.of_same rfl rfl rfl (buildCommit_withReceipt hsource)
  honest := fun h => h.recorded huuid hstate
  completed := by
    intro h old hold hsucceeded
    have hnew := receipts_withReceipt s (uuid i) receipt
    cases hstate with
    | same old' hold' heq =>
      obtain rfl := Option.some.inj (hold.symm.trans hold')
      exact .inr ⟨receipt, hnew, heq.symm.trans hsucceeded⟩
    | first hnone _ =>
      rw [hnone] at hold
      cases hold
    | failed _ hstrayed => exact .inl (hstrayed (h.succeeded i old hold hsucceeded))
    | succeeded heq _ => exact .inr ⟨receipt, hnew, heq⟩
  set := fun p hp => by cases p <;> exact hp
  removes := fun _ hthere hgone => absurd hthere hgone
  forward := forward_same rfl (buildCommit_withReceipt hsource)

/-- The lock changes hands. -/
theorem guarantee_lock {lock : Option Nat}
    (h : (s.lock = none ∧ lock = some i) ∨ (s.lock = some i ∧ lock = none)) :
    Guarantee git uuid i s .step { s with lock := lock } where
  lock := .inr h
  still := fun _ => ⟨rfl, rfl, rfl⟩
  receipts := fun _ _ => rfl
  commits := fun _ _ => id
  unborn := fun _ _ => id
  switched := fun _ _ => Iff.rfl
  strayed := fun _ => ⟨.inl, fun h => h.resolve_right fun ⟨_, _, e, he, _⟩ => by cases he⟩
  sound := fun h => h.of_same rfl rfl rfl fun _ _ => id
  honest := fun h => ⟨h.live, h.succeeded, h.failed, h.older⟩
  completed := fun _ receipt hreceipt hstate => .inr ⟨receipt, hreceipt, hstate⟩
  set := fun p hp => by cases p <;> exact hp
  removes := fun _ hthere hgone => absurd hthere hgone
  forward := forward_same rfl fun _ _ => id

/-- The releases change under the lock. -/
theorem guarantee_releases {releases : List (String × Entry)} (hlock : s.lock = some i)
    (hunborn : ∀ name, name ≠ uuid i → s.releases.lookup name = none → releases.lookup name = none)
    (hremoves : ∀ name, s.releases.lookup name = some .release →
      releases.lookup name ≠ some .release →
        (∀ p, s.pointer p ≠ .link (some name)) ∧
          ∃ references, l = .removed name references ∧ .release name ∉ references)
    (hl : ∀ e, l ≠ .caught e) : Guarantee git uuid i s l { s with releases := releases } where
  lock := .inl rfl
  still := fun hnot => absurd hlock hnot
  receipts := fun _ _ => rfl
  commits := fun _ _ => id
  unborn := hunborn
  switched := fun _ _ => Iff.rfl
  strayed := fun _ => ⟨.inl, fun h => h.resolve_right fun ⟨_, _, e, he, _⟩ => hl e he⟩
  sound := by
    intro h
    refine ⟨?_, h.recorded⟩
    intro p
    have hp : State.pointer { s with releases := releases } p = s.pointer p := by cases p <;> rfl
    rw [Usable, hp]
    apply (h.usable p).imp_right
    rintro ⟨name, hname, hthere⟩
    refine ⟨name, hname, ?_⟩
    -- what a pointer leads to is not removed
    by_contra hgone
    exact (hremoves name hthere hgone).1 p hname
  honest := fun h => ⟨h.live, h.succeeded, h.failed, h.older⟩
  completed := fun _ receipt hreceipt hstate => .inr ⟨receipt, hreceipt, hstate⟩
  set := fun p hp => by cases p <;> exact hp
  removes := hremoves
  forward := forward_same rfl fun _ _ => id

/-- `previous` is replaced. -/
theorem guarantee_previous {name : String} (hlock : s.lock = some i)
    (hthere : s.releases.lookup name = some .release) :
    Guarantee git uuid i s .step { s with previous := .link (some name) } where
  lock := .inl rfl
  still := fun hnot => absurd hlock hnot
  receipts := fun _ _ => rfl
  commits := fun _ _ => id
  unborn := fun _ _ => id
  switched := fun _ _ => Iff.rfl
  strayed := fun _ => ⟨.inl, fun h => h.resolve_right fun ⟨_, _, e, he, _⟩ => by cases he⟩
  sound := by
    intro h
    refine ⟨?_, h.recorded⟩
    intro p
    cases p with
    | current => exact h.usable .current
    | previous => exact .inr ⟨name, rfl, hthere⟩
  honest := fun h => ⟨h.live, h.succeeded, h.failed, h.older⟩
  completed := fun _ receipt hreceipt hstate => .inr ⟨receipt, hreceipt, hstate⟩
  set := by
    intro p hp
    cases p with
    | current => exact hp
    | previous => exact nofun
  removes := fun _ hthere hgone => absurd hthere hgone
  forward := forward_same rfl fun _ _ => id

/-- The state after `current` was replaced. -/
def State.switch (s : State) (i : Nat) (name : String) : State :=
  { s with
    current := .link (some name)
    history := { s.history with switched := i :: s.history.switched } }

/-- `current` is replaced: the new commit contains the one before, or the run rolls back. -/
theorem guarantee_current (huuid : Function.Injective uuid) {rollback : Bool} {receipt : Receipt}
    {d : String} (hlock : s.lock = some i) (hthere : s.releases.lookup (uuid i) = some .release)
    (hreceipt : s.receipts (uuid i) = some receipt) (hstate : receipt.state = .prepared)
    (hcommit : buildCommit s (uuid i) = some d)
    (hforward : ∀ c, s.commit = some c → git.isAncestor c d = true ∨ rollback = true) :
    Guarantee git uuid i s (.switched rollback) (s.switch i (uuid i)) where
  lock := .inl rfl
  still := fun hnot => absurd hlock hnot
  receipts := fun _ _ => rfl
  commits := fun _ _ => id
  unborn := fun _ _ => id
  switched := fun j hj => ⟨fun h => (List.mem_cons.mp h).resolve_left hj, List.mem_cons_of_mem _⟩
  strayed := fun _ => ⟨.inl, fun h => h.resolve_right fun ⟨_, _, e, he, _⟩ => by cases he⟩
  sound := by
    intro h
    refine ⟨?_, ?_⟩
    · intro p
      cases p with
      | current => exact .inr ⟨uuid i, rfl, hthere⟩
      | previous => exact h.usable .previous
    · intro name hname
      obtain rfl := Option.some.inj (Pointer.link.inj hname)
      exact ⟨d, hcommit⟩
  honest := by
    intro h
    refine ⟨?_, ?_, ?_, ?_⟩
    · intro j hj
      obtain rfl := huuid (Option.some.inj (Pointer.link.inj hj))
      exact List.mem_cons_self
    · intro j other hother hsucceeded
      exact List.mem_cons_of_mem _ (h.succeeded j other hother hsucceeded)
    · intro j other hother hfailed hswitched
      rcases List.mem_cons.mp hswitched with rfl | hbefore
      · obtain rfl : receipt = other := Option.some.inj (hreceipt.symm.trans hother)
        rw [hstate] at hfailed
        cases hfailed
      · exact h.failed j other hother hfailed hbefore
    · intro name other hname hcurrent
      exact absurd (Option.some.inj (Pointer.link.inj hcurrent)).symm (hname i)
  completed := fun _ other hother hsucceeded => .inr ⟨other, hother, hsucceeded⟩
  set := by
    intro p hp
    cases p with
    | current => exact nofun
    | previous => exact hp
  removes := fun _ hthere hgone => absurd hthere hgone
  forward := by
    intro c hc
    refine ⟨d, hcommit, (hforward c hc).imp_right ?_⟩
    rintro rfl
    rfl

/-- The state after the handlers got an exception. -/
theorem guarantee_stray (hswitched : i ∈ s.history.switched) {e : Exc} (he : e.isExit = false) :
    Guarantee git uuid i s (.caught e)
      { s with history := { s.history with strayed := i :: s.history.strayed } } where
  lock := .inl rfl
  still := fun _ => ⟨rfl, rfl, rfl⟩
  receipts := fun _ _ => rfl
  commits := fun _ _ => id
  unborn := fun _ _ => id
  switched := fun _ _ => Iff.rfl
  strayed := by
    intro j
    constructor
    · intro h
      rcases List.mem_cons.mp h with rfl | hbefore
      · exact .inr ⟨rfl, hswitched, e, rfl, he⟩
      · exact .inl hbefore
    · rintro (hbefore | ⟨rfl, -⟩)
      · exact List.mem_cons_of_mem _ hbefore
      · exact List.mem_cons_self
  sound := fun h => h.of_same rfl rfl rfl fun _ _ => id
  honest := by
    intro h
    refine ⟨h.live, h.succeeded, ?_, h.older⟩
    intro j other hother hfailed hj
    exact List.mem_cons_of_mem _ (h.failed j other hother hfailed hj)
  completed := fun _ receipt hreceipt hstate => .inr ⟨receipt, hreceipt, hstate⟩
  set := fun p hp => by cases p <;> exact hp
  removes := fun _ hthere hgone => absurd hthere hgone
  forward := forward_same rfl fun _ _ => id

/-- A process that dies gives up the lock, which the others do not rely on. -/
theorem rely_unlocked {j : Nat} (hne : i ≠ j) : Rely uuid j s (unlocked i s) := by
  unfold unlocked
  split
  · next hlock =>
    have hother : s.lock ≠ some j := by
      rw [hlock]
      exact fun heq => hne (Option.some.inj heq)
    exact {
      receipt := rfl
      lock := ⟨nofun, fun heq => absurd heq hother⟩
      still := fun heq => absurd heq hother
      unborn := id
      switched := Iff.rfl
      strayed := Iff.rfl
      commits := fun _ _ => id
      sound := fun h => h.of_same rfl rfl rfl fun _ _ => id }
  · exact Rely.rfl

theorem guarantee_unlocked : Guarantee git uuid i s .step (unlocked i s) := by
  unfold unlocked
  split
  · next hlock => exact guarantee_lock (.inr ⟨hlock, rfl⟩)
  · exact guarantee_nothing nofun

end

/-! ## Predicates that others keep -/

/-- The others keep `P`. -/
def Stable (uuid : Nat → String) (i : Nat) (P : State → Prop) : Prop :=
  ∀ s t, P s → Rely uuid i s t → P t

/-- So does a rebuild that adds to its receipt. -/
structure Marked (uuid : Nat → String) (i : Nat) (P : State → Prop) : Prop where
  stable : Stable uuid i P
  mark : ∀ s old receipt, P s → s.receipts (uuid i) = some old → receipt.state = old.state →
    receipt.source = old.source → P (s.withReceipt (uuid i) receipt)

/-- A release that is live has an exception on record: recording it as failed says nothing
    wrong. -/
def Spared (i : Nat) (s : State) : Prop := i ∈ s.history.switched → i ∈ s.history.strayed

/-- The rebuild has no release yet. -/
structure Unborn (uuid : Nat → String) (i : Nat) (s : State) : Prop where
  sound : Sound s
  entry : s.releases.lookup (uuid i) = none
  receipt : s.receipts (uuid i) = none
  switched : i ∉ s.history.switched

/-- The commit contains the live one, or the run rolls back. -/
def Forward (git : Ancestry) (rollback : Bool) (d : String) (s : State) : Prop :=
  ∀ c, s.commit = some c → git.isAncestor c d = true ∨ rollback = true

/-- The rebuild holds the lock. -/
structure Locked (uuid : Nat → String) (i : Nat) (s : State) : Prop extends Unborn uuid i s where
  lock : s.lock = some i

/-- It also has found its commit to be one that goes forward. -/
structure Cleared (git : Ancestry) (uuid : Nat → String) (i : Nat) (rollback : Bool) (d : String)
    (s : State) : Prop extends Locked uuid i s where
  forward : Forward git rollback d s

/-- The release stands, without a receipt. -/
structure Installed (git : Ancestry) (uuid : Nat → String) (i : Nat) (rollback : Bool) (d : String)
    (s : State) : Prop where
  sound : Sound s
  lock : s.lock = some i
  entry : s.releases.lookup (uuid i) = some .release
  receipt : s.receipts (uuid i) = none
  switched : i ∉ s.history.switched
  forward : Forward git rollback d s

/-- The release stands, and its receipt says prepared. -/
structure Prepared (git : Ancestry) (uuid : Nat → String) (i : Nat) (rollback : Bool)
    (release : PreparedRelease) (s : State) : Prop where
  buildId : release.buildId = uuid i
  commit : release.source.sourceCommit ≠ ""
  sound : Sound s
  lock : s.lock = some i
  entry : s.releases.lookup (uuid i) = some .release
  receipt : ∃ receipt, s.receipts (uuid i) = some receipt ∧ receipt.state = .prepared ∧
    receipt.source = release.source
  switched : i ∉ s.history.switched
  forward : Forward git rollback release.source.sourceCommit s

section

variable {git : Ancestry} {uuid : Nat → String} {i : Nat} {rollback : Bool} {d : String}

theorem stable_spared : Stable uuid i (Spared i) := by
  intro s t hs h hswitched
  exact h.strayed.mpr (hs (h.switched.mp hswitched))

theorem stable_true : Stable uuid i fun _ => True := fun _ _ _ _ => trivial

theorem stable_unborn : Stable uuid i (Unborn uuid i) := by
  intro s t hs h
  exact ⟨h.sound hs.sound, h.unborn hs.entry, h.receipt.trans hs.receipt, hs.switched ∘ h.switched.mp⟩

theorem stable_locked : Stable uuid i (Locked uuid i) :=
  fun s t hs h => ⟨stable_unborn s t hs.toUnborn h, h.lock.mpr hs.lock⟩

/-- Under the lock the live commit stays. -/
theorem commit_of_rely {s t : State} (hs : Sound s) (hlock : s.lock = some i)
    (h : Rely uuid i s t) : t.commit = s.commit := by
  have hcurrent := (h.still hlock).2.1
  cases hpointer : s.current with
  | absent =>
    unfold State.commit
    rw [hcurrent, hpointer]
  | plain =>
    unfold State.commit
    rw [hcurrent, hpointer]
  | link target =>
    cases target with
    | none =>
      unfold State.commit
      rw [hcurrent, hpointer]
    | some name =>
      obtain ⟨c, hc⟩ := hs.commit hpointer
      rw [hc]
      exact commit_eq hcurrent h.commits hc

theorem Forward.of_rely {s t : State} (hforward : Forward git rollback d s) (hs : Sound s)
    (hlock : s.lock = some i) (h : Rely uuid i s t) : Forward git rollback d t := by
  intro c hc
  rw [commit_of_rely hs hlock h] at hc
  exact hforward c hc

theorem stable_cleared : Stable uuid i (Cleared git uuid i rollback d) :=
  fun s t hs h => ⟨stable_locked s t hs.toLocked h, hs.forward.of_rely hs.sound hs.lock h⟩

theorem stable_installed : Stable uuid i (Installed git uuid i rollback d) := by
  intro s t hs h
  refine ⟨h.sound hs.sound, h.lock.mpr hs.lock, ?_, h.receipt.trans hs.receipt,
    hs.switched ∘ h.switched.mp, hs.forward.of_rely hs.sound hs.lock h⟩
  rw [(h.still hs.lock).1]
  exact hs.entry

theorem marked_true : Marked uuid i fun _ => True := ⟨stable_true, fun _ _ _ _ _ _ _ => trivial⟩

theorem marked_spared : Marked uuid i (Spared i) := ⟨stable_spared, fun _ _ _ hs _ _ _ => hs⟩

theorem marked_prepared {release : PreparedRelease} :
    Marked uuid i (Prepared git uuid i rollback release) where
  stable := by
    intro s t hs h
    refine ⟨hs.buildId, hs.commit, h.sound hs.sound, h.lock.mpr hs.lock, ?_, ?_,
      hs.switched ∘ h.switched.mp, hs.forward.of_rely hs.sound hs.lock h⟩
    · rw [(h.still hs.lock).1]
      exact hs.entry
    · rw [h.receipt]
      exact hs.receipt
  mark := by
    intro s old receipt hs hold hstate hsource
    have hsame : ∀ before, s.receipts (uuid i) = some before → receipt.source = before.source := by
      intro before hbefore
      obtain rfl := Option.some.inj (hold.symm.trans hbefore)
      exact hsource
    refine ⟨hs.buildId, hs.commit, hs.sound.of_same rfl rfl rfl (buildCommit_withReceipt hsame), hs.lock, hs.entry, ?_,
      hs.switched, ?_⟩
    · obtain ⟨before, hbefore, hprepared, hbuilt⟩ := hs.receipt
      obtain rfl := Option.some.inj (hold.symm.trans hbefore)
      exact ⟨receipt, receipts_withReceipt s _ _, hstate.trans hprepared, hsource.trans hbuilt⟩
    · intro c hc
      rw [commit_withReceipt hs.sound hsame] at hc
      exact hs.forward c hc

theorem stable_prepared (release : PreparedRelease) :
    Stable uuid i (Prepared git uuid i rollback release) := marked_prepared.stable

theorem Prepared.spared {release : PreparedRelease} {s : State}
    (h : Prepared git uuid i rollback release s) : Spared i s := fun hs => absurd hs h.switched

end

/-! ## Steps -/

section

variable {git : Ancestry} {uuid : Nat → String} {i : Nat} {α : Type} {P : State → Prop}

theorem keeps_asking (hP : Stable uuid i P) (answer : Answer → Except Exc α) :
    Keeps (Rely uuid i) (Guarantee git uuid i) P (asking answer) :=
  Script.keeps_action hP fun _ _ hs => ⟨guarantee_nothing nofun, hs⟩

theorem keeps_outside (hP : Stable uuid i P) (answer : Answer → α) :
    Keeps (Rely uuid i) (Guarantee git uuid i) P (outside answer) := keeps_asking hP _

theorem keeps_command (hP : Stable uuid i P) :
    Keeps (Rely uuid i) (Guarantee git uuid i) P command := keeps_asking hP _

theorem keeps_say (hP : Stable uuid i P) :
    Keeps (Rely uuid i) (Guarantee git uuid i) P say := keeps_asking hP _

theorem keeps_check (hP : Stable uuid i P) (message : String) :
    Keeps (Rely uuid i) (Guarantee git uuid i) P (check message) := keeps_asking hP _

theorem keeps_reading (hP : Stable uuid i P) (read : State → Except Exc α) :
    Keeps (Rely uuid i) (Guarantee git uuid i) P (reading read) :=
  Script.keeps_action hP fun _ _ hs => ⟨guarantee_nothing nofun, hs⟩

/-- What the world answered. -/
theorem passes_asking (hP : Stable uuid i P) (answer : Answer → Except Exc α) :
    Script.Passes (Rely uuid i) (Guarantee git uuid i) P (asking answer) fun a s =>
      P s ∧ ∃ w, answer w = .ok a := by
  constructor
  intro s hs
  apply Script.safe_action
  intro t ht w
  refine ⟨guarantee_nothing nofun, fun u hu => ⟨?_, fun _ _ => trivial⟩⟩
  intro a ha
  refine ⟨hP t u (hP s t hs ht) hu, w, ?_⟩
  cases hraised : w.raised with
  | some e =>
    simp only [hraised] at ha
    cases ha
  | none =>
    simp only [hraised] at ha
    exact ha

theorem passes_known (hP : Stable uuid i P) (x : Except Exc α) :
    Script.Passes (Rely uuid i) (Guarantee git uuid i) P (known x) fun a s => P s ∧ x = .ok a := by
  cases x with
  | ok a => exact Script.passes_pure (fun _ s t hs h => ⟨hP s t hs.1 h, hs.2⟩) fun s hs => ⟨hs, rfl⟩
  | error e => exact Script.passes_throw e _

/-- What is read holds as long as the others keep it. -/
theorem safe_reading {Q : α → State → Prop} (hP : Stable uuid i P)
    (hQ : ∀ a, Stable uuid i (Q a)) {read : State → Except Exc α}
    (h : ∀ s a, P s → read s = .ok a → Q a s) {s : State} (hs : P s) :
    Safe (Rely uuid i) (Guarantee git uuid i) Q (fun _ => P) (reading read) s := by
  apply Script.safe_action
  intro t ht w
  have hPt := hP s t hs ht
  refine ⟨guarantee_nothing nofun, fun u hu => ⟨?_, fun _ _ => hP t u hPt hu⟩⟩
  intro a ha
  cases hraised : w.raised with
  | some e =>
    simp only [hraised] at ha
    cases ha
  | none =>
    simp only [hraised] at ha
    exact hQ a t u (h t a hPt ha) hu

theorem passes_reading {Q : α → State → Prop} (hP : Stable uuid i P)
    (hQ : ∀ a, Stable uuid i (Q a)) {read : State → Except Exc α}
    (h : ∀ s a, P s → read s = .ok a → Q a s) :
    Script.Passes (Rely uuid i) (Guarantee git uuid i) P (reading read) Q :=
  ⟨fun _ hs => (safe_reading hP hQ h hs).mono (fun _ _ => id) fun _ _ _ => trivial⟩

/-- A change that is made, with the exception after it or without. -/
theorem safe_changing {Q : State → Prop} (hP : Stable uuid i P) (hQ : Stable uuid i Q) {label : Label}
    {change : State → Except Exc State}
    (h : ∀ s t, P s → change s = .ok t → Guarantee git uuid i s label t ∧ Q t) {s : State} (hs : P s) :
    Safe (Rely uuid i) (Guarantee git uuid i) (fun _ => Q) (fun _ u => P u ∨ Q u)
      (changing label change) s := by
  apply Script.safe_action
  intro t ht w
  have hPt := hP s t hs ht
  have hrefused : Guarantee git uuid i t .step t := guarantee_nothing nofun
  cases hchange : change t with
  | error e =>
    cases hraised : w.raised with
    | none =>
      dsimp only
      exact ⟨hrefused, fun u hu => ⟨nofun, fun _ _ => .inl (hP t u hPt hu)⟩⟩
    | some e' =>
      dsimp only
      exact ⟨hrefused, fun u hu => ⟨nofun, fun _ _ => .inl (hP t u hPt hu)⟩⟩
  | ok t' =>
    obtain ⟨hG, hQt⟩ := h t t' hPt hchange
    cases hraised : w.raised with
    | none =>
      dsimp only
      exact ⟨hG, fun u hu => ⟨fun _ _ => hQ t' u hQt hu, nofun⟩⟩
    | some e =>
      dsimp only
      split
      · exact ⟨hG, fun u hu => ⟨nofun, fun _ _ => .inr (hQ t' u hQt hu)⟩⟩
      · exact ⟨hrefused, fun u hu => ⟨nofun, fun _ _ => .inl (hP t u hPt hu)⟩⟩

theorem passes_changing {Q : State → Prop} (hP : Stable uuid i P) (hQ : Stable uuid i Q)
    {label : Label} {change : State → Except Exc State}
    (h : ∀ s t, P s → change s = .ok t → Guarantee git uuid i s label t ∧ Q t) :
    Script.Passes (Rely uuid i) (Guarantee git uuid i) P (changing label change) fun _ => Q :=
  ⟨fun _ hs => (safe_changing hP hQ h hs).mono (fun _ _ => id) fun _ _ _ => trivial⟩

theorem keeps_changing (hP : Stable uuid i P) {label : Label} {change : State → Except Exc State}
    (h : ∀ s t, P s → change s = .ok t → Guarantee git uuid i s label t ∧ P t) :
    Keeps (Rely uuid i) (Guarantee git uuid i) P (changing label change) :=
  ⟨fun _ hs => (safe_changing hP hP h hs).mono (fun _ _ => id) fun _ _ h => h.elim id id⟩

theorem keeps_known (hP : Stable uuid i P) (x : Except Exc α) :
    Keeps (Rely uuid i) (Guarantee git uuid i) P (known x) := by
  cases x with
  | ok a => exact Script.keeps_pure hP a
  | error e => exact Script.keeps_throw hP e

theorem keeps_whenever (hP : Stable uuid i P) {body : Step Unit} (c : Bool)
    (h : Keeps (Rely uuid i) (Guarantee git uuid i) P body) :
    Keeps (Rely uuid i) (Guarantee git uuid i) P (whenever c body) := by
  cases c with
  | true => exact h
  | false => exact Script.keeps_pure hP ()

/-- A body, with what a handler does about some of its exceptions. -/
theorem keeps_handled (hP : Stable uuid i P) {body instead : Step α} {p : Exc → Prop}
    [DecidablePred p] (h : Keeps (Rely uuid i) (Guarantee git uuid i) P body)
    (hinstead : Keeps (Rely uuid i) (Guarantee git uuid i) P instead) :
    Keeps (Rely uuid i) (Guarantee git uuid i) P
      (tryCatch body fun e => if p e then instead else throw e) := by
  apply Keeps.tryCatch (fun _ => Rely.rfl) h
  intro e
  split
  · exact hinstead
  · exact Script.keeps_throw hP e

theorem keeps_suppress (hP : Stable uuid i P) {body : Step Unit} (p : Exc → Bool)
    (h : Keeps (Rely uuid i) (Guarantee git uuid i) P body) :
    Keeps (Rely uuid i) (Guarantee git uuid i) P (suppress p body) :=
  keeps_handled hP h (Script.keeps_pure hP ())

end

/-! ## Receipts -/

section

variable {git : Ancestry} {uuid : Nat → String} {i : Nat} {P : State → Prop}
  {release : PreparedRelease}

theorem keeps_readReceipt (hP : Stable uuid i P) :
    Keeps (Rely uuid i) (Guarantee git uuid i) P (readReceipt release) := keeps_reading hP _

/-- The receipt that is read stays what it is. -/
theorem safe_readReceipt (hid : release.buildId = uuid i) (hP : Stable uuid i P) {s : State}
    (hs : P s) :
    Safe (Rely uuid i) (Guarantee git uuid i)
      (fun receipt s => P s ∧ s.receipts (uuid i) = some receipt) (fun _ => P)
      (readReceipt release) s := by
  apply safe_reading hP _ _ hs
  · intro receipt s t hs h
    exact ⟨hP s t hs.1 h, h.receipt.trans hs.2⟩
  · intro s receipt hs hread
    refine ⟨hs, ?_⟩
    rw [hid] at hread
    split at hread
    · next hthere =>
      obtain rfl := Except.ok.inj hread
      exact hthere
    · cases hread

/-- A receipt is read and written back changed. -/
theorem keeps_rewrite (hid : release.buildId = uuid i) (hP : Stable uuid i P)
    {change : Receipt → Receipt}
    (h : ∀ s receipt, P s → s.receipts (uuid i) = some receipt →
      Guarantee git uuid i s .step (s.withReceipt (uuid i) (change receipt)) ∧
        P (s.withReceipt (uuid i) (change receipt))) :
    Keeps (Rely uuid i) (Guarantee git uuid i) P (do
      let receipt ← readReceipt release
      writeReceipt release.buildId (change receipt)) := by
  constructor
  intro s hs
  apply Safe.bind (fun _ => Rely.rfl) (safe_readReceipt hid hP hs)
  intro receipt t ht
  have hread : Stable uuid i fun s => P s ∧ s.receipts (uuid i) = some receipt :=
    fun s t hs h => ⟨hP s t hs.1 h, h.receipt.trans hs.2⟩
  have hwrite : Safe (Rely uuid i) (Guarantee git uuid i) (fun _ => P)
      (fun _ u => (P u ∧ u.receipts (uuid i) = some receipt) ∨ P u)
      (writeReceipt release.buildId (change receipt)) t := by
    apply safe_changing hread hP _ ht
    intro s u hs hu
    obtain rfl := Except.ok.inj hu
    rw [hid]
    exact h s receipt hs.1 hs.2
  exact hwrite.mono (fun _ _ => id) fun _ _ hs => hs.elim (·.1) id

/-- A phase is recorded. -/
theorem keeps_markPhase (huuid : Function.Injective uuid) (hid : release.buildId = uuid i)
    (hP : Marked uuid i P) (phase status : String) (scope : Option String) :
    Keeps (Rely uuid i) (Guarantee git uuid i) P (markPhase release phase status scope) := by
  apply keeps_rewrite hid hP.stable
  intro s receipt hs hreceipt
  have hsource : ∀ old, s.receipts (uuid i) = some old →
      (receipt.mark phase status scope).source = old.source := by
    intro old hold
    obtain rfl := Option.some.inj (hreceipt.symm.trans hold)
    rfl
  exact ⟨guarantee_receipt huuid hsource (.same receipt hreceipt rfl),
    hP.mark s receipt _ hs hreceipt rfl rfl⟩

/-- A failure is recorded, of a release that is not live or had an exception. -/
theorem keeps_failRelease (huuid : Function.Injective uuid) (hid : release.buildId = uuid i)
    (phase : String) (migrations : Option String) :
    Keeps (Rely uuid i) (Guarantee git uuid i) (Spared i) (failRelease release phase migrations) := by
  apply keeps_rewrite hid stable_spared
  intro s receipt hs hreceipt
  have hsource : ∀ old, s.receipts (uuid i) = some old →
      (receipt.fail phase migrations).source = old.source := by
    intro old hold
    obtain rfl := Option.some.inj (hreceipt.symm.trans hold)
    rfl
  exact ⟨guarantee_receipt huuid hsource (.failed rfl hs), hs⟩

end

end SummitFlow.ServiceRelease
