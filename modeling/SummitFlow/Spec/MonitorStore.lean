import Mathlib
import SummitFlow.Spec.MonitorConversion

/-!
# No migration loses a row

Any number of migrations and collectors on one state directory, in every order of their steps,
with failures and crashes at each of them: no row that a collector left is lost.  Without a
written interlock the store can be opened as it is.

## Key results

- `protocol`: every process is within its guarantee
- `store_preserved`: the store over runs
-/

namespace SummitFlow.MonitorMigration

open Script (Stable Runs Quiet)
open SummitFlow.System (Secure Protocol)

variable {ρ φ α : Type} {reading : Reading ρ φ} {i : Nat}

/-! ## Locks -/

theorem quiet_openLock (name : String) :
    Quiet (Rely reading i) (Guarantee reading i) (openLock name : Migration ρ φ Unit) := by
  apply Script.Quiet.tryCatch rely_refl
  · apply Script.Quiet.bind rely_refl quiet_ask
    intro usable
    exact quiet_ensure _ usable
  · intro e
    split
    · exact Script.quiet_throw _
    · exact Script.quiet_throw e

theorem quiet_collectorLock {change : State ρ φ → Answer ρ → State ρ φ}
    (result : State ρ φ → Answer ρ → Except Exc α)
    (h : ∀ s w, ∃ holder, change s w = { s with collectorLock := holder }) :
    Quiet (Rely reading i) (Guarantee reading i) (atomically change result) ∧
      Quiet (Rely reading i) (Guarantee reading i) (act change result) := by
  have hwatched : ∀ s w, Rely reading i s (change s w) ∧ Guarantee reading i s () (change s w) := by
    intro s w
    obtain ⟨holder, hchange⟩ := h s w
    rw [hchange]
    exact quiet_of_same rfl rfl rfl rfl (.inl rfl) .rfl
  refine ⟨?_, quiet_act hwatched⟩
  apply Script.quiet_action
  intro s w
  split
  · exact ⟨.rfl, guarantee_refl s⟩
  · exact hwatched s w

theorem quiet_lockCollector (e : Exc) :
    Quiet (Rely reading i) (Guarantee reading i)
      (atomically (fun s _ => if s.collectorLock.isNone then { s with collectorLock := some i } else s)
        fun s _ => if s.collectorLock.isNone then .ok () else .error e : Migration ρ φ Unit) := by
  apply (quiet_collectorLock _ _).1
  intro s _
  split
  · exact ⟨some i, rfl⟩
  · exact ⟨s.collectorLock, rfl⟩

theorem quiet_unlockCollector :
    Quiet (Rely reading i) (Guarantee reading i) (unlockCollector i : Migration ρ φ Unit) := by
  apply (quiet_collectorLock _ _).2
  intro s _
  split
  · exact ⟨none, rfl⟩
  · exact ⟨s.collectorLock, rfl⟩

/-- The exclusive lock is taken when nobody has the lock. -/
theorem runs_lockMaintenance :
    Runs (Rely reading i) (Guarantee reading i) (Base reading) (lockMaintenance i : Migration ρ φ Unit)
      (fun _ => Held reading i) (Base reading) := by
  apply runs_atomically stable_base (fun _ => stable_held) stable_base
  intro s w hs
  by_cases hfree : (s.exclusive.isNone && s.sharers.isEmpty) = true
  · rw [if_pos hfree, if_pos hfree]
    simp only [Bool.and_eq_true, Option.isNone_iff_eq_none, List.isEmpty_iff] at hfree
    obtain ⟨hnone, hempty⟩ := hfree
    have hsafe : Safe reading { s with exclusive := some i } := hs.safe
    refine ⟨?_, fun _ _ => ⟨⟨.inr hempty, hsafe⟩, rfl, trivial⟩, hs, fun e he => by cases he⟩
    exact {
      lockOk := fun _ => .inr hempty
      safe := fun _ => id
      exclusive := by
        intro j hne
        simp [hnone, hne.symm]
      shares := fun _ _ => Iff.rfl
      store := fun _ => .inl ⟨rfl, rfl⟩
      touches := fun hne => absurd rfl hne
      interlock := fun _ _ _ => id
      artifacts := fun _ artifact hlookup _ => ⟨artifact, hlookup, rfl, rfl⟩ }
  · rw [if_neg hfree, if_neg hfree]
    exact ⟨guarantee_refl s, fun _ ha => (by cases ha), hs, fun _ _ => hs⟩

theorem guarantee_unlocked (s : State ρ φ) :
    Guarantee reading i s () (if s.exclusive = some i then { s with exclusive := none } else s) := by
  split
  · next hheld =>
    exact {
      lockOk := fun _ => .inl rfl
      safe := fun _ => id
      exclusive := by
        intro j hne
        simp [hheld, hne.symm]
      shares := fun _ _ => Iff.rfl
      store := fun _ => .inl ⟨rfl, rfl⟩
      touches := fun hne => absurd rfl hne
      interlock := fun _ _ _ => id
      artifacts := fun _ artifact hlookup _ => ⟨artifact, hlookup, rfl, rfl⟩ }
  · exact guarantee_refl s

theorem runs_unlockMaintenance :
    Runs (Rely reading i) (Guarantee reading i) (Held reading i) (unlockMaintenance i : Migration ρ φ Unit)
      (fun _ => Base reading) (Base reading) := by
  apply runs_act stable_held (fun _ => stable_base) stable_base
  intro s w hs
  have hG : Guarantee reading i s () (if s.exclusive = some i then { s with exclusive := none } else s) :=
    guarantee_unlocked s
  have hafter : Base reading (if s.exclusive = some i then { s with exclusive := none } else s) :=
    ⟨hG.lockOk hs.lockOk, hG.safe hs.lockOk hs.safe⟩
  exact ⟨hG, fun _ _ => hafter, hs.toBase, hafter⟩

/-- Without an interlock the store is settled, and stays so under the lock. -/
theorem runs_checkInterlock {P Q : State ρ φ → Prop} (hP : Stable (Rely reading i) P)
    (hQ : Stable (Rely reading i) Q) (h : ∀ s, P s → Settled reading s → Q s)
    (hbase : ∀ s, P s → Base reading s) (e : Exc) :
    Runs (Rely reading i) (Guarantee reading i) P (checkInterlock e : Migration ρ φ Unit) (fun _ => Q) P := by
  have hlook : Runs (Rely reading i) (Guarantee reading i) P
      (look fun s _ => .ok s.interlock.isSome : Migration ρ φ Bool)
      (fun blocked s => P s ∧ (blocked = false → Q s)) P := by
    apply runs_look hP fun blocked => hP.and (hQ.imp _)
    intro s w blocked hs hok
    refine ⟨hs, fun hfree => ?_⟩
    have hnone : s.interlock = none := by
      rw [← Option.not_isSome_iff_eq_none, Except.ok.inj hok, hfree]
      exact Bool.false_ne_true
    exact h s hs ((hbase s hs).safe.settled reading (by simp [hnone]))
  apply hlook.bind rely_refl
  intro blocked
  have hensure : Runs (Rely reading i) (Guarantee reading i) (fun s => P s ∧ (blocked = false → Q s))
      (ensure e !blocked : Migration ρ φ Unit) (fun _ => Q) (fun s => P s ∧ (blocked = false → Q s)) := by
    apply runs_ensure (hP.and (hQ.imp _))
    intro s hfree hs
    exact hs.2 (by simpa using hfree)
  exact hensure.mono (fun _ => id) (fun _ _ => id) fun _ hs => hs.1

/-! ## Programs -/

/-- A quiet script leaves the locks in order and no row lost. -/
theorem quiet_base {c : Migration ρ φ α} (h : Quiet (Rely reading i) (Guarantee reading i) c) :
    Runs (Rely reading i) (Guarantee reading i) (Base reading) c (fun _ => Base reading) (Base reading) :=
  h _ stable_base

section

variable [DecidableEq φ]

theorem runs_migrateStoppedStore :
    Runs (Rely reading i) (Guarantee reading i) (Base reading)
      (migrateStoppedStore reading i : Migration ρ φ MigrationResult) (fun _ => Base reading)
      (Base reading) := by
  have howned : Quiet (Rely reading i) (Guarantee reading i)
      (Script.tryCatch (do
        let owned ← ask
        ensure (.deferred "monitor state directory is not owner-only") owned) fun e =>
          if e = .raised .os then throw (.deferred "monitor state directory unavailable") else throw e :
            Migration ρ φ Unit) := by
    apply Script.Quiet.tryCatch rely_refl
    · apply Script.Quiet.bind rely_refl quiet_ask
      intro owned
      exact quiet_ensure _ owned
    · intro e
      split
      · exact Script.quiet_throw _
      · exact Script.quiet_throw e
  apply (quiet_base howned).bind rely_refl
  intro _
  apply (runs_checkInterlock stable_base stable_base (fun _ hs _ => hs) (fun _ => id) _).bind rely_refl
  intro _
  apply (quiet_base quiet_look).bind rely_refl
  intro present
  split
  · exact quiet_base (Script.quiet_pure _)
  apply (quiet_base quiet_ask).bind rely_refl
  intro owned
  apply (quiet_base (quiet_ensure _ owned)).bind rely_refl
  intro _
  apply (quiet_base (quiet_openLock "collector")).bind rely_refl
  intro _
  apply (quiet_base (quiet_lockCollector _)).bind rely_refl
  intro _
  apply Script.runs_andFinally rely_refl (fun _ => stable_base) stable_base _
    (fun _ => quiet_base quiet_unlockCollector) (quiet_base quiet_unlockCollector)
  apply (quiet_base (quiet_openLock "maintenance")).bind rely_refl
  intro _
  apply runs_lockMaintenance.bind rely_refl
  intro _
  apply Script.runs_andFinally rely_refl (fun _ => stable_base) stable_base _
    (fun _ => runs_unlockMaintenance) runs_unlockMaintenance
  have hchecked : Runs (Rely reading i) (Guarantee reading i) (Held reading i)
      (checkInterlock existingInterlock : Migration ρ φ Unit)
      (fun _ => Locked reading i (SettledStore reading)) (Held reading i) :=
    runs_checkInterlock stable_held (stable_locked _)
      (fun _ hs hsettled => hs.mono fun _ => hsettled) (fun _ hs => hs.toBase) _
  exact hchecked.bind rely_refl fun _ => runs_migrateLocked

theorem runs_migrateHostMonitorStore :
    Runs (Rely reading i) (Guarantee reading i) (Base reading)
      (migrateHostMonitorStore reading i : Migration ρ φ MigrationResult) (fun _ => Base reading)
      (Base reading) := by
  have hretain : ∀ name, Runs (Rely reading i) (Guarantee reading i) (Base reading)
      (retainRestartInterlock i name : Migration ρ φ Unit) (fun _ => Base reading) (Base reading) :=
    runs_retainRestartInterlock stable_base (fun _ => id) fun _ _ _ hfilled => hfilled
  apply (quiet_base quiet_ask).bind rely_refl
  intro ready
  apply (quiet_base (quiet_ensure _ ready)).bind rely_refl
  intro _
  apply (runs_checkInterlock stable_base stable_base (fun _ hs _ => hs) (fun _ => id) _).bind rely_refl
  intro _
  apply (quiet_base quiet_look).bind rely_refl
  intro present
  split
  · exact quiet_base (Script.quiet_pure _)
  apply (quiet_base quiet_ask).bind rely_refl
  intro stopped
  apply (quiet_base (quiet_ensure _ stopped)).bind rely_refl
  intro _
  apply Script.Runs.bind rely_refl
  · apply Script.runs_tryCatch rely_refl runs_migrateStoppedStore
    intro e
    cases e with
    | deferred message =>
      apply (quiet_base quiet_ask).bind rely_refl
      intro started
      apply (quiet_base (quiet_ensure _ started)).bind rely_refl
      intro _
      exact quiet_base (Script.quiet_pure _)
    | _ => exact quiet_base (Script.quiet_throw _)
  intro result
  split
  · exact quiet_base (Script.quiet_pure _)
  apply (quiet_base quiet_ask).bind rely_refl
  intro started
  -- what the handlers do changes receipts, and the interlock that is retained
  have hfailed : ∀ message, Quiet (Rely reading i) (Guarantee reading i) (do
      touch
      throw (.service message) : Migration ρ φ MigrationResult) := by
    intro message
    apply Script.Quiet.bind rely_refl quiet_touch
    intro _
    exact Script.quiet_throw _
  split
  · next name _ _ =>
    split
    · apply Script.Runs.bind rely_refl
      · apply Script.runs_tryCatch rely_refl (quiet_base (quiet_updateRestartReceipt name _))
        intro e
        split
        · exact quiet_base (Script.quiet_throw _)
        · exact quiet_base (Script.quiet_throw _)
      intro _
      exact quiet_base (Script.quiet_pure _)
    · apply Script.Runs.bind rely_refl
      · apply Script.runs_tryCatch rely_refl
        · apply (hretain name).bind rely_refl
          intro _
          exact quiet_base (quiet_updateRestartReceipt name _)
        intro e
        split
        · apply (quiet_base quiet_touch).bind rely_refl
          intro _
          exact quiet_base (Script.quiet_throw _)
        · exact quiet_base (Script.quiet_throw _)
      intro _
      exact quiet_base (hfailed _)
  · split
    · exact quiet_base (Script.quiet_pure _)
    · exact quiet_base (hfailed _)

end

/-! ## The collector -/

theorem runs_shareMaintenance :
    Runs (Rely reading i) (Guarantee reading i) (Base reading) (shareMaintenance i : Migration ρ φ Unit)
      (fun _ s => Base reading s ∧ i ∈ s.sharers) (Base reading) := by
  have hshares : Stable (Rely reading i) fun s : State ρ φ => i ∈ s.sharers :=
    fun _ _ hst hs => hst.shares.mpr hs
  apply runs_atomically stable_base (fun _ => stable_base.and hshares) stable_base
  intro s w hs
  by_cases hfree : s.exclusive.isNone = true
  · rw [if_pos hfree, if_pos hfree]
    rw [Option.isNone_iff_eq_none] at hfree
    have hsafe : Safe reading { s with sharers := i :: s.sharers } := hs.safe
    refine ⟨?_, fun _ _ => ⟨⟨.inl hfree, hsafe⟩, List.mem_cons_self⟩, hs, fun e he => by cases he⟩
    exact {
      lockOk := fun _ => .inl hfree
      safe := fun _ => id
      exclusive := fun _ _ => Iff.rfl
      shares := fun j hne => by simp [hne]
      store := fun _ => .inl ⟨rfl, rfl⟩
      touches := fun hne => absurd rfl hne
      interlock := fun _ _ _ => id
      artifacts := fun _ artifact hlookup _ => ⟨artifact, hlookup, rfl, rfl⟩ }
  · rw [if_neg hfree, if_neg hfree]
    exact ⟨guarantee_refl s, fun _ ha => (by cases ha), hs, fun _ _ => hs⟩

/-- What a collector writes is what it leaves. -/
theorem runs_collectorWrite :
    Runs (Rely reading i) (Guarantee reading i) (Open reading i) (collectorWrite : Migration ρ φ Unit)
      (fun _ => Open reading i) (Open reading i) := by
  apply runs_act stable_open (fun _ => stable_open) stable_open
  intro s w hs
  have hsettled : Settled reading { s with db := some w.db, left := some w.db } :=
    .some ⟨.inl rfl, .inl rfl⟩
  have hopen : Open reading i { s with db := some w.db, left := some w.db } :=
    ⟨⟨hs.lockOk, .inl hsettled⟩, hs.shares, hsettled⟩
  refine ⟨?_, fun _ _ => hopen, hs, hopen⟩
  exact {
    lockOk := id
    safe := fun _ _ => .inl hsettled
    exclusive := fun _ _ => Iff.rfl
    shares := fun _ _ => Iff.rfl
    store := fun _ => .inr ⟨hs.shares, hsettled⟩
    touches := fun _ => .inl ⟨hs.shares, hs.settled⟩
    interlock := fun _ _ _ => id
    artifacts := fun _ artifact hlookup _ => ⟨artifact, hlookup, rfl, rfl⟩ }

theorem runs_collectorWrites (writes : Nat) :
    Runs (Rely reading i) (Guarantee reading i) (Open reading i)
      (collectorWrites writes : Migration ρ φ Unit) (fun _ => Open reading i) (Open reading i) := by
  induction writes with
  | zero => exact Script.runs_pure stable_open fun _ => id
  | succ n ih => exact runs_collectorWrite.bind rely_refl fun _ => ih

theorem runs_collect (writes : Nat) :
    Runs (Rely reading i) (Guarantee reading i) (Base reading) (collect i writes : Migration ρ φ Unit)
      (fun _ => Base reading) (Base reading) := by
  have hshares : Stable (Rely reading i) fun s : State ρ φ => i ∈ s.sharers :=
    fun _ _ hst hs => hst.shares.mpr hs
  apply (quiet_base (quiet_lockCollector _)).bind rely_refl
  intro _
  apply runs_shareMaintenance.bind rely_refl
  intro _
  have hchecked : Runs (Rely reading i) (Guarantee reading i) (fun s => Base reading s ∧ i ∈ s.sharers)
      (checkInterlock (.collector "monitor migration interlock present; inspect receipt") :
        Migration ρ φ Unit) (fun _ => Open reading i) (fun s => Base reading s ∧ i ∈ s.sharers) :=
    runs_checkInterlock (stable_base.and hshares) stable_open
      (fun _ hs hsettled => ⟨hs.1, hs.2, hsettled⟩) (fun _ hs => hs.1) _
  apply (hchecked.mono (fun _ => id) (fun _ _ => id) fun _ hs => hs.1).bind rely_refl
  intro _
  exact (runs_collectorWrites writes).mono (fun _ => id) (fun _ _ hs => hs.toBase) fun _ hs => hs.toBase

/-! ## Runs -/

/-- The end of another process gives only its own locks back. -/
theorem relies_exit {j : Nat} (hne : i ≠ j) (s : State ρ φ) : Rely reading j s (exit i s) where
  lockOk := by
    intro hlock
    cases hlock with
    | inl hnone => exact .inl (by simp [exit, hnone])
    | inr hempty => exact .inr (by simp [exit, hempty])
  safe := fun _ hs => hs
  exclusive := by
    show (if s.exclusive = some i then none else s.exclusive) = some j ↔ s.exclusive = some j
    split
    · next hheld => simp [hheld, hne]
    · exact Iff.rfl
  shares := by simp [exit, hne.symm]
  store := fun _ _ => ⟨rfl, rfl⟩
  shared := fun _ _ hs => hs
  interlock := fun _ => id
  artifacts := fun _ artifact hlookup howner => ⟨artifact, hlookup, howner, rfl⟩

theorem protocol [DecidableEq φ] (reading : Reading ρ φ) :
    Protocol (program reading) exit (Rely reading) (Guarantee reading) (fun _ => Base reading) where
  refl := fun _ _ => .rfl
  trans := fun _ _ _ _ => Rely.trans
  others := fun _ _ _ _ _ hne h => h.relies hne
  exits := fun _ _ s hne => relies_exit hne s
  stays := fun _ s t hst hs => stable_base s t hst hs
  starts := by
    intro call i s hs
    cases call with
    | migrate =>
      have hprogram : Runs (Rely reading i) (Guarantee reading i) (Base reading)
          (program reading .migrate i) (fun _ => Base reading) (Base reading) :=
        runs_migrateHostMonitorStore.bind rely_refl fun _ => quiet_base (Script.quiet_pure ())
      exact (hprogram.safe s hs).mono (fun _ _ _ => trivial) fun _ _ _ => trivial
    | collect writes =>
      exact ((runs_collect writes).safe s hs).mono (fun _ _ _ => trivial) fun _ _ _ => trivial

/-- From a store in order, after any steps of any migrations and collectors, each of which may
    fail or die anywhere: the store is as a collector left it, or converted as a whole with its
    rows, or an interlock names a backup of what the collector left.  As long as no interlock names
    one the store can be opened.  The next change of the database is made by a collector, on a
    store that can be opened and that no migration has locked, or by the one migration that has,
    after the interlock names its backup. -/
theorem store_preserved [DecidableEq φ] (reading : Reading ρ φ) {s : State ρ φ} (hs : Base reading s)
    (events : List (SystemEvent Call (Answer ρ))) :
    let step := System.step (program reading) exit
    let t := (run step (System.idle s) events).state
    Safe reading t ∧ (t.interlock.all (·.target.isNone) = true → Settled reading t) ∧
      ∀ event, (step (run step (System.idle s) events) event).state.db ≠ t.db →
        ∃ pid w, event = .step pid w ∧
          ((pid ∈ t.sharers ∧ t.exclusive = none ∧ Settled reading t) ∨
            (t.exclusive = some pid ∧ t.sharers = [] ∧ Guarded reading t)) := by
  intro step t
  have hsecure : Secure (Rely reading) (Guarantee reading) (fun _ => Base reading)
      (run step (System.idle s) events) :=
    (System.secure_idle fun _ => hs).run (protocol reading) events
  have hbase : Base reading t := (hsecure.ready _ (Nat.le_refl _)).2
  refine ⟨hbase.safe, hbase.safe.settled reading, ?_⟩
  intro event hchanged
  cases event with
  | start call => exact absurd rfl hchanged
  | crash pid =>
    exfalso
    apply hchanged
    show (System.step (program reading) exit _ (.crash pid)).state.db = _
    unfold System.step
    dsimp only
    split
    · rfl
    · rfl
  | step pid w =>
    refine ⟨pid, w, rfl, ?_⟩
    cases hl : (run step (System.idle s) events).effect pid w with
    | none =>
      exfalso
      apply hchanged
      show (System.step (program reading) exit _ (.step pid w)).state.db = _
      rw [System.step_of_effect_none hl]
    | some l =>
      have hG := hsecure.guarantees (protocol reading) hl
      cases hG.touches hchanged with
      | inl hshared =>
        refine .inl ⟨hshared.1, ?_, hshared.2⟩
        cases hbase.lockOk with
        | inl hnone => exact hnone
        | inr hempty =>
          have hnot : pid ∉ t.sharers := by
            rw [hempty]
            exact List.not_mem_nil
          exact absurd hshared.1 hnot
      | inr hheld =>
        refine .inr ⟨hheld.1, ?_, hheld.2⟩
        cases hbase.lockOk with
        | inl hnone =>
          have hnot : t.exclusive ≠ some pid := by simp [hnone]
          exact absurd hheld.1 hnot
        | inr hempty => exact hempty

/-- Fingerprints that are the rows, of rows that can be read. -/
def plainReading : Reading String String where
  fingerprint rows := if rows = "" then none else some rows
  version _ := some "1"

def collected : Db String := ⟨⟨1024, "wal", 2⟩, "samples"⟩

def oldStore : State String String := ⟨some collected, some collected, none, [], none, none, []⟩

/-- SQLite keeps the rows. -/
def keeps : Answer String := ⟨none, true, "m1", fun _ => true, ⟨⟨512, "delete", 2⟩, "samples"⟩⟩

/-- SQLite loses the rows. -/
def loses : Answer String := { keeps with db := ⟨⟨512, "delete", 2⟩, ""⟩ }

/-- A migration dies in its conversion, and a collector starts after it. -/
def diesConverting : List (SystemEvent Call (Answer String)) :=
  .start .migrate :: (List.replicate 47 (.step 0 keeps) ++
    [.step 0 loses, .crash 0, .start (.collect 1)] ++ List.replicate 4 (.step 1 keeps))

/-- The collector is refused, and the interlock names a backup of the rows that are lost. -/
theorem dies_preserved :
    let t := (run (System.step (program plainReading) exit) (System.idle oldStore) diesConverting).state
    t.db.map Db.rows = some "" ∧ Safe plainReading t := by
  have hbase : Base plainReading oldStore := ⟨.inl rfl, .inl (.some ⟨.inl rfl, .inl rfl⟩)⟩
  have hpreserved := store_preserved plainReading hbase diesConverting
  exact ⟨by decide +kernel, hpreserved.1⟩

end SummitFlow.MonitorMigration
