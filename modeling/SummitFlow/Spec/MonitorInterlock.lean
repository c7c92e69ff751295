import Mathlib
import SummitFlow.Cli.MonitorMigration
import SummitFlow.ForStd.RelyGuarantee

/-!
# What a migration may do to a store

Migrations and collectors run together on one state directory, and each can fail or be killed
between any two of its steps.  At every moment the store is settled, as a collector left it or
completely converted, or an interlock names a backup of what the collector left.  This file
has what a step of a process may do and what a process relies on; the steps follow in
`MonitorConversion`.

## Key results

- `Guarantee.relies`: what one process guarantees is what the others rely on
- `quiet_of_same`: a step that changes no database, backup or lock disturbs nobody
-/

namespace SummitFlow.MonitorMigration

open Script (Stable Runs Quiet)

variable {ρ φ : Type} (reading : Reading ρ φ)

/-! ## The store -/

/-- The rows of a database are those of another, or have their fingerprint. -/
def Intact (db left : Db ρ) : Prop :=
  db.rows = left.rows ∨ ∃ f, reading.fingerprint db.rows = some f ∧ reading.fingerprint left.rows = some f

/-- A database is completely converted. -/
def Converted (config : Config) : Prop :=
  config.pageSize = targetPageSize ∧ Str.lower config.journalMode = "wal" ∧ config.autoVacuum = 2

/-- A database is as it was left, or converted with its rows. -/
def Stands (db left : Db ρ) : Prop :=
  Intact reading db left ∧ (db.config = left.config ∨ Converted db.config)

/-- The store can be opened. -/
def Settled (s : State ρ φ) : Prop := Option.Rel (Stands reading) s.db s.left

/-- The interlock names a backup of the rows that were left. -/
def Guarded (s : State ρ φ) : Prop :=
  ∃ owner name artifact rows left f, s.interlock = some ⟨owner, some name⟩ ∧
    s.artifacts.lookup name = some artifact ∧ artifact.backup = .rows rows ∧ s.left = some left ∧
    reading.fingerprint rows = some f ∧ reading.fingerprint left.rows = some f

/-- No row is lost. -/
def Safe (s : State ρ φ) : Prop := Settled reading s ∨ Guarded reading s

/-- An exclusive lock is the only one. -/
def LockOk (s : State ρ φ) : Prop := s.exclusive = none ∨ s.sharers = []

theorem Safe.settled {s : State ρ φ} (h : Safe reading s) (hopen : s.interlock.all (·.target.isNone) = true) :
    Settled reading s := by
  cases h with
  | inl hsettled => exact hsettled
  | inr hguarded =>
    obtain ⟨owner, name, _, _, _, _, hinterlock, _⟩ := hguarded
    simp [hinterlock] at hopen

/-! ## Rely and guarantee -/

/-- What process `i` relies on. -/
structure Rely (i : Nat) (s t : State ρ φ) : Prop where
  lockOk : LockOk s → LockOk t
  safe : LockOk s → Safe reading s → Safe reading t
  exclusive : t.exclusive = some i ↔ s.exclusive = some i
  shares : i ∈ t.sharers ↔ i ∈ s.sharers
  store : LockOk s → s.exclusive = some i → t.db = s.db ∧ t.left = s.left
  shared : LockOk s → i ∈ s.sharers → Settled reading s → Settled reading t
  interlock : ∀ m, s.interlock = some ⟨some i, m⟩ → t.interlock = some ⟨some i, m⟩
  artifacts : ∀ name artifact, s.artifacts.lookup name = some artifact → artifact.owner = some i →
    ∃ artifact', t.artifacts.lookup name = some artifact' ∧ artifact'.owner = some i ∧
      artifact'.backup = artifact.backup

/-- What a step of process `i` does. -/
structure Guarantee (i : Nat) (s : State ρ φ) (_ : Unit) (t : State ρ φ) : Prop where
  lockOk : LockOk s → LockOk t
  safe : LockOk s → Safe reading s → Safe reading t
  exclusive : ∀ j, j ≠ i → (t.exclusive = some j ↔ s.exclusive = some j)
  shares : ∀ j, j ≠ i → (j ∈ t.sharers ↔ j ∈ s.sharers)
  store : s.exclusive ≠ some i →
    (t.db = s.db ∧ t.left = s.left) ∨ (i ∈ s.sharers ∧ Settled reading t)
  touches : t.db ≠ s.db →
    (i ∈ s.sharers ∧ Settled reading s) ∨ (s.exclusive = some i ∧ Guarded reading s)
  interlock : ∀ owner m, owner ≠ some i → s.interlock = some ⟨owner, m⟩ → t.interlock = some ⟨owner, m⟩
  artifacts : ∀ name artifact, s.artifacts.lookup name = some artifact → artifact.owner ≠ some i →
    ∃ artifact', t.artifacts.lookup name = some artifact' ∧ artifact'.owner = artifact.owner ∧
      artifact'.backup = artifact.backup

section

variable {reading} {i : Nat} {s t : State ρ φ}

theorem Rely.rfl : Rely reading i s s where
  lockOk := id
  safe := fun _ => id
  exclusive := Iff.rfl
  shares := Iff.rfl
  store := fun _ _ => ⟨Eq.refl _, Eq.refl _⟩
  shared := fun _ _ => id
  interlock := fun _ => id
  artifacts := fun _ artifact h howner => ⟨artifact, h, howner, Eq.refl _⟩

theorem Rely.trans {u : State ρ φ} (h : Rely reading i s t) (h' : Rely reading i t u) :
    Rely reading i s u where
  lockOk := h'.lockOk ∘ h.lockOk
  safe := fun hlock hs => h'.safe (h.lockOk hlock) (h.safe hlock hs)
  exclusive := h'.exclusive.trans h.exclusive
  shares := h'.shares.trans h.shares
  store := by
    intro hlock hheld
    obtain ⟨hdb, hleft⟩ := h.store hlock hheld
    obtain ⟨hdb', hleft'⟩ := h'.store (h.lockOk hlock) (h.exclusive.mpr hheld)
    exact ⟨hdb'.trans hdb, hleft'.trans hleft⟩
  shared := fun hlock hshared hs =>
    h'.shared (h.lockOk hlock) (h.shares.mpr hshared) (h.shared hlock hshared hs)
  interlock := fun m hm => h'.interlock m (h.interlock m hm)
  artifacts := by
    intro name artifact hlookup howner
    obtain ⟨artifact', hlookup', howner', hbackup⟩ := h.artifacts name artifact hlookup howner
    obtain ⟨artifact'', hlookup'', howner'', hbackup'⟩ := h'.artifacts name artifact' hlookup' howner'
    exact ⟨artifact'', hlookup'', howner'', hbackup'.trans hbackup⟩

/-- What one process guarantees is what the others rely on. -/
theorem Guarantee.relies {l : Unit} (h : Guarantee reading i s l t) {j : Nat} (hne : i ≠ j) :
    Rely reading j s t where
  lockOk := h.lockOk
  safe := h.safe
  exclusive := h.exclusive j hne.symm
  shares := h.shares j hne.symm
  store := by
    intro hlock hheld
    have hother : s.exclusive ≠ some i := by
      rw [hheld]
      exact fun heq => hne (Option.some.inj heq).symm
    cases h.store hother with
    | inl hsame => exact hsame
    | inr hwrote =>
      -- nobody shares the lock of an exclusive holder
      cases hlock with
      | inl hnone => simp [hnone] at hheld
      | inr hempty => simp [hempty] at hwrote
  shared := by
    intro hlock hshared hsettled
    have hother : s.exclusive ≠ some i := by
      cases hlock with
      | inl hnone => simp [hnone]
      | inr hempty => simp [hempty] at hshared
    cases h.store hother with
    | inl hsame =>
      unfold Settled
      rw [hsame.1, hsame.2]
      exact hsettled
    | inr hwrote => exact hwrote.2
  interlock := fun m hm => h.interlock (some j) m (fun heq => hne (Option.some.inj heq).symm) hm
  artifacts := by
    intro name artifact hlookup howner
    obtain ⟨artifact', hlookup', howner', hbackup⟩ := h.artifacts name artifact hlookup (by
      rw [howner]
      exact fun heq => hne (Option.some.inj heq).symm)
    exact ⟨artifact', hlookup', howner'.trans howner, hbackup⟩

/-! ## Steps that disturb nobody -/

/-- The artifact directories of one state are there in another, with their backups. -/
def SameBackups (s t : State ρ φ) : Prop :=
  ∀ name artifact, s.artifacts.lookup name = some artifact →
    ∃ artifact', t.artifacts.lookup name = some artifact' ∧ artifact'.owner = artifact.owner ∧
      artifact'.backup = artifact.backup

theorem SameBackups.rfl : SameBackups s s := fun _ artifact h => ⟨artifact, h, Eq.refl _, Eq.refl _⟩

theorem Guarded.same (h : Guarded reading s) (hinterlock : t.interlock = s.interlock)
    (hleft : t.left = s.left) (hbackups : SameBackups s t) : Guarded reading t := by
  obtain ⟨owner, name, artifact, rows, left, f, hlock, hlookup, hrows, hl, hf, hfl⟩ := h
  obtain ⟨artifact', hlookup', _, hbackup⟩ := hbackups name artifact hlookup
  exact ⟨owner, name, artifact', rows, left, f, hinterlock.trans hlock, hlookup', hbackup.trans hrows,
    hleft.trans hl, hf, hfl⟩

/-- A step that changes no database, backup or lock, and at most makes an interlock, is one that
    others may watch. -/
theorem quiet_of_same (hdb : t.db = s.db) (hleft : t.left = s.left) (hexclusive : t.exclusive = s.exclusive)
    (hsharers : t.sharers = s.sharers)
    (hinterlock : t.interlock = s.interlock ∨
      s.interlock = none ∧ t.interlock.all (·.target.isNone) = true)
    (hbackups : SameBackups s t) : Rely reading i s t ∧ Guarantee reading i s () t := by
  have hlock : LockOk s → LockOk t := by
    unfold LockOk
    rw [hexclusive, hsharers]
    exact id
  have hsettled : Settled reading s → Settled reading t := by
    unfold Settled
    rw [hdb, hleft]
    exact id
  have hkept : ∀ m, s.interlock = some m → t.interlock = some m := by
    intro m hm
    cases hinterlock with
    | inl hsame => rw [hsame, hm]
    | inr hnew => simp [hnew.1] at hm
  have hsafe : Safe reading s → Safe reading t := by
    intro h
    cases h with
    | inl h => exact .inl (hsettled h)
    | inr h =>
      obtain ⟨owner, name, rest⟩ := h
      have hsame : t.interlock = s.interlock := by
        obtain ⟨_, _, _, _, hlocked, _⟩ := rest
        rw [hlocked, hkept _ hlocked]
      exact .inr (Guarded.same ⟨owner, name, rest⟩ hsame hleft hbackups)
  constructor
  · exact {
      lockOk := hlock
      safe := fun _ => hsafe
      exclusive := by rw [hexclusive]
      shares := by rw [hsharers]
      store := fun _ _ => ⟨hdb, hleft⟩
      shared := fun _ _ => hsettled
      interlock := fun m => hkept _
      artifacts := by
        intro name artifact hlookup howner
        obtain ⟨artifact', hlookup', howner', hbackup⟩ := hbackups name artifact hlookup
        exact ⟨artifact', hlookup', howner'.trans howner, hbackup⟩ }
  · exact {
      lockOk := hlock
      safe := fun _ => hsafe
      exclusive := fun j _ => by rw [hexclusive]
      shares := fun j _ => by rw [hsharers]
      store := fun _ => .inl ⟨hdb, hleft⟩
      touches := fun hne => absurd hdb hne
      interlock := fun owner m _ => hkept _
      artifacts := fun name artifact hlookup _ => hbackups name artifact hlookup }

/-! ## What a process knows -/

/-- The locks are in order and no row is lost. -/
structure Base (reading : Reading ρ φ) (s : State ρ φ) : Prop where
  lockOk : LockOk s
  safe : Safe reading s

theorem stable_base : Stable (Rely reading i) (Base reading) :=
  fun _ _ hst hs => ⟨hst.lockOk hs.lockOk, hst.safe hs.lockOk hs.safe⟩

/-- Process `i` holds the maintenance lock alone, and knows this of the store. -/
structure Locked (reading : Reading ρ φ) (i : Nat) (F : Option (Db ρ) → Option (Db ρ) → Prop)
    (s : State ρ φ) : Prop extends Base reading s where
  exclusive : s.exclusive = some i
  store : F s.db s.left

theorem stable_locked (F : Option (Db ρ) → Option (Db ρ) → Prop) :
    Stable (Rely reading i) (Locked reading i F) := by
  intro s t hst hs
  obtain ⟨hdb, hleft⟩ := hst.store hs.lockOk hs.exclusive
  refine ⟨stable_base s t hst hs.toBase, hst.exclusive.mpr hs.exclusive, ?_⟩
  rw [hdb, hleft]
  exact hs.store

/-- Process `i` shares the maintenance lock and the store is settled. -/
structure Open (reading : Reading ρ φ) (i : Nat) (s : State ρ φ) : Prop extends Base reading s where
  shares : i ∈ s.sharers
  settled : Settled reading s

theorem stable_open : Stable (Rely reading i) (Open reading i) :=
  fun s t hst hs => ⟨stable_base s t hst hs.toBase, hst.shares.mpr hs.shares,
    hst.shared hs.lockOk hs.shares hs.settled⟩

/-- The interlock is that of process `i`, with this target. -/
def OwnInterlock (i : Nat) (target : Option String) (s : State ρ φ) : Prop :=
  s.interlock = some ⟨some i, target⟩

theorem stable_ownInterlock (target : Option String) :
    Stable (Rely reading i) (OwnInterlock (ρ := ρ) (φ := φ) i target) :=
  fun _ _ hst hs => hst.interlock target hs

/-- The artifact directory is that of process `i`, with such a backup. -/
def OwnArtifact (i : Nat) (name : String) (B : Backup ρ → Prop) (s : State ρ φ) : Prop :=
  ∃ artifact, s.artifacts.lookup name = some artifact ∧ artifact.owner = some i ∧ B artifact.backup

theorem stable_ownArtifact (name : String) (B : Backup ρ → Prop) :
    Stable (Rely reading i) (OwnArtifact (φ := φ) i name B) := by
  intro s t hst hs
  obtain ⟨artifact, hlookup, howner, hbackup⟩ := hs
  obtain ⟨artifact', hlookup', howner', hsame⟩ := hst.artifacts name artifact hlookup howner
  exact ⟨artifact', hlookup', howner', hsame ▸ hbackup⟩

end

end SummitFlow.MonitorMigration
