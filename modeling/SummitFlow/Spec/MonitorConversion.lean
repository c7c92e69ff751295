import Mathlib
import SummitFlow.Spec.MonitorInterlock

/-!
# The steps of migrations and collectors

Every step of a migration and of a collector is within its guarantee.  Before the interlock a
migration knows that the store is settled; from then on that its own interlock names its own
backup of the rows that were left, whatever the statements do to the database; and it removes
the interlock when it knows that the store is converted with these rows.
-/

namespace SummitFlow.MonitorMigration

open Script (Stable Runs Quiet)

variable {ρ φ α β : Type} {reading : Reading ρ φ} {i : Nat}

theorem rely_refl (s : State ρ φ) : Rely reading i s s := .rfl

/-! ## Steps -/

section

variable {P E : State ρ φ → Prop} {Q : α → State ρ φ → Prop}
  {change : State ρ φ → Answer ρ → State ρ φ} {result : State ρ φ → Answer ρ → Except Exc α}

theorem guarantee_refl (s : State ρ φ) : Guarantee reading i s () s :=
  (quiet_of_same rfl rfl rfl rfl (.inl rfl) .rfl).2

/-- A step, that may raise before its change or after it. -/
theorem runs_act (hP : Stable (Rely reading i) P) (hQ : ∀ a, Stable (Rely reading i) (Q a))
    (hE : Stable (Rely reading i) E)
    (h : ∀ s w, P s → Guarantee reading i s () (change s w) ∧
      (∀ a, result s w = .ok a → Q a (change s w)) ∧ E s ∧ E (change s w)) :
    Runs (Rely reading i) (Guarantee reading i) P (act change result) Q E := by
  apply Script.runs_action hP hQ hE
  intro s w hs
  obtain ⟨hG, hok, hbefore, hafter⟩ := h s w hs
  cases hraises : w.raises with
  | none => exact ⟨hG, hok, fun _ _ => hafter⟩
  | some raised =>
    obtain ⟨r, early⟩ := raised
    cases early with
    | true => exact ⟨guarantee_refl s, fun a ha => (by cases ha), fun _ _ => hbefore⟩
    | false => exact ⟨hG, fun a ha => (by cases ha), fun _ _ => hafter⟩

theorem runs_atomically (hP : Stable (Rely reading i) P) (hQ : ∀ a, Stable (Rely reading i) (Q a))
    (hE : Stable (Rely reading i) E)
    (h : ∀ s w, P s → Guarantee reading i s () (change s w) ∧
      (∀ a, result s w = .ok a → Q a (change s w)) ∧ E s ∧
      ∀ e, result s w = .error e → E (change s w)) :
    Runs (Rely reading i) (Guarantee reading i) P (atomically change result) Q E := by
  apply Script.runs_action hP hQ hE
  intro s w hs
  obtain ⟨hG, hok, hbefore, herror⟩ := h s w hs
  cases hraises : w.raises with
  | none => exact ⟨hG, hok, herror⟩
  | some raised => exact ⟨guarantee_refl s, fun a ha => (by cases ha), fun _ _ => hbefore⟩

/-- A step that the others may watch keeps what is stable; what it returns may say more. -/
theorem runs_quiet (hP : Stable (Rely reading i) P) (hQ : ∀ a, Stable (Rely reading i) (Q a))
    (h : ∀ s w, Rely reading i s (change s w) ∧ Guarantee reading i s () (change s w))
    (hok : ∀ s w a, P (change s w) → P s → result s w = .ok a → Q a (change s w)) :
    Runs (Rely reading i) (Guarantee reading i) P (act change result) Q P := by
  apply runs_act hP hQ hP
  intro s w hs
  have hafter := hP _ _ (h s w).1 hs
  exact ⟨(h s w).2, fun a ha => hok s w a hafter hs ha, hs, hafter⟩

theorem quiet_act (h : ∀ s w, Rely reading i s (change s w) ∧ Guarantee reading i s () (change s w)) :
    Quiet (Rely reading i) (Guarantee reading i) (act change result) :=
  fun _ hP => runs_quiet hP (fun _ => hP) h fun _ _ _ hafter _ _ => hafter

theorem quiet_look : Quiet (Rely reading i) (Guarantee reading i) (look result) :=
  quiet_act fun s _ => ⟨.rfl, guarantee_refl s⟩

theorem quiet_touch : Quiet (Rely reading i) (Guarantee reading i) (touch : Migration ρ φ Unit) :=
  quiet_look

theorem quiet_ask : Quiet (Rely reading i) (Guarantee reading i) (ask : Migration ρ φ Bool) := quiet_look

theorem quiet_readDb (f : Db ρ → Except Exc α) :
    Quiet (Rely reading i) (Guarantee reading i) (readDb f : Migration ρ φ α) := quiet_look

theorem quiet_ensure (e : Exc) (condition : Bool) :
    Quiet (Rely reading i) (Guarantee reading i) (ensure e condition : Migration ρ φ Unit) := by
  unfold ensure
  split
  · exact Script.quiet_pure ()
  · exact Script.quiet_throw e

/-- What a look finds is so. -/
theorem runs_look (hP : Stable (Rely reading i) P) (hQ : ∀ a, Stable (Rely reading i) (Q a))
    (h : ∀ s w a, P s → result s w = .ok a → Q a s) :
    Runs (Rely reading i) (Guarantee reading i) P (look result) Q P :=
  runs_quiet hP hQ (fun s _ => ⟨.rfl, guarantee_refl s⟩) fun s w a _ hs ha => h s w a hs ha

theorem runs_ensure (hP : Stable (Rely reading i) P) {e : Exc} {condition : Bool} {Q : State ρ φ → Prop}
    (h : ∀ s, condition = true → P s → Q s) :
    Runs (Rely reading i) (Guarantee reading i) P (ensure e condition : Migration ρ φ Unit)
      (fun _ => Q) P := by
  unfold ensure
  split
  · next hcondition => exact Script.runs_pure hP fun s hs => h s hcondition hs
  · exact Script.runs_throw hP fun _ hs => hs

end

/-! ## Receipts -/

theorem sameBackups_set {s : State ρ φ} {name : String} {f : Artifact ρ φ → Artifact ρ φ}
    (hf : ∀ a, (f a).owner = a.owner ∧ (f a).backup = a.backup) : SameBackups s (setArtifact name f s) := by
  intro other artifact hlookup
  unfold setArtifact
  cases hname : s.artifacts.lookup name with
  | none => exact ⟨artifact, hlookup, rfl, rfl⟩
  | some found =>
    by_cases heq : other = name
    · subst heq
      obtain rfl := Option.some.inj (hname.symm.trans hlookup)
      exact ⟨f found, Dict.lookup_set_self .., hf found⟩
    · refine ⟨artifact, ?_, rfl, rfl⟩
      dsimp only
      rw [Dict.lookup_set_of_ne heq, hlookup]

theorem setArtifact_same (name : String) (f : Artifact ρ φ → Artifact ρ φ) (s : State ρ φ) :
    (setArtifact name f s).db = s.db ∧ (setArtifact name f s).left = s.left ∧
      (setArtifact name f s).exclusive = s.exclusive ∧ (setArtifact name f s).sharers = s.sharers ∧
      (setArtifact name f s).interlock = s.interlock := by
  unfold setArtifact
  cases s.artifacts.lookup name with
  | none => exact ⟨rfl, rfl, rfl, rfl, rfl⟩
  | some found => exact ⟨rfl, rfl, rfl, rfl, rfl⟩

/-- Receipts and temporary files disturb nobody. -/
theorem watched_set {s : State ρ φ} {name : String} {f : Artifact ρ φ → Artifact ρ φ}
    (hf : ∀ a, (f a).owner = a.owner ∧ (f a).backup = a.backup) :
    Rely reading i s (setArtifact name f s) ∧ Guarantee reading i s () (setArtifact name f s) := by
  obtain ⟨hdb, hleft, hexclusive, hsharers, hinterlock⟩ := setArtifact_same name f s
  exact quiet_of_same hdb hleft hexclusive hsharers (.inl hinterlock) (sameBackups_set hf)

theorem quiet_setArtifact (name : String) (f : Artifact ρ φ → Artifact ρ φ)
    (result : State ρ φ → Answer ρ → Except Exc α)
    (hf : ∀ a, (f a).owner = a.owner ∧ (f a).backup = a.backup) :
    Quiet (Rely reading i) (Guarantee reading i) (act (fun s _ => setArtifact name f s) result) :=
  quiet_act fun _ _ => watched_set hf

theorem quiet_writeReceipt (name : String) (receipt : Receipt φ) :
    Quiet (Rely reading i) (Guarantee reading i) (writeReceipt name receipt : Migration ρ φ Unit) := by
  unfold writeReceipt
  apply Script.Quiet.bind rely_refl
  · exact quiet_setArtifact name (fun a => { a with temporary := true }) _ fun _ => ⟨rfl, rfl⟩
  intro _
  apply Script.Quiet.bind rely_refl quiet_touch
  intro _
  apply Script.Quiet.bind rely_refl
  · exact quiet_setArtifact name (fun a => { a with temporary := false, receipt := some receipt }) _
      fun _ => ⟨rfl, rfl⟩
  intro _
  exact quiet_touch

theorem quiet_tryWriteReceipt (name : String) (receipt : Receipt φ) :
    Quiet (Rely reading i) (Guarantee reading i) (tryWriteReceipt name receipt : Migration ρ φ Unit) := by
  apply Script.Quiet.tryCatch rely_refl (quiet_writeReceipt name receipt)
  intro e
  split
  · exact Script.quiet_pure ()
  · exact Script.quiet_throw e

theorem quiet_updateRestartReceipt (name : String) (status : Status) :
    Quiet (Rely reading i) (Guarantee reading i)
      (updateRestartReceipt name status : Migration ρ φ Unit) := by
  apply Script.Quiet.bind rely_refl quiet_look
  intro receipt
  exact quiet_writeReceipt name _

/-! ## The interlock -/

theorem quiet_createInterlock :
    Quiet (Rely reading i) (Guarantee reading i) (createInterlock i : Migration ρ φ Unit) := by
  apply quiet_act
  intro s _
  split
  · exact ⟨.rfl, guarantee_refl s⟩
  · next hnone =>
    rw [Option.not_isSome_iff_eq_none] at hnone
    exact quiet_of_same rfl rfl rfl rfl (.inr ⟨hnone, rfl⟩) .rfl

/-- Whoever makes the interlock has it. -/
theorem runs_createInterlock {P : State ρ φ → Prop} (hP : Stable (Rely reading i) P) :
    Runs (Rely reading i) (Guarantee reading i) P (createInterlock i : Migration ρ φ Unit)
      (fun _ s => P s ∧ OwnInterlock i none s) P := by
  apply runs_quiet hP fun _ => hP.and (stable_ownInterlock none)
  · intro s _
    split
    · exact ⟨.rfl, guarantee_refl s⟩
    · next hnone =>
      rw [Option.not_isSome_iff_eq_none] at hnone
      exact quiet_of_same rfl rfl rfl rfl (.inr ⟨hnone, rfl⟩) .rfl
  · intro s w a hafter _ hok
    by_cases hsome : s.interlock.isSome = true
    · rw [if_pos hsome] at hok
      cases hok
    · rw [if_neg hsome] at hafter ⊢
      exact ⟨hafter, rfl⟩

/-- The state with a written interlock. -/
def filled (i : Nat) (name : String) (s : State ρ φ) : State ρ φ :=
  { s with interlock := some ⟨some i, some name⟩ }

/-- Writing an interlock of one's own: the store is settled until then. -/
theorem guarantee_filled {s : State ρ φ} (hbase : Base reading s) (hown : OwnInterlock i none s)
    (name : String) : Guarantee reading i s () (filled i name s) ∧ Base reading (filled i name s) := by
  have hsettled : Settled reading s := hbase.safe.settled reading (by simp [show s.interlock = _ from hown])
  have hafter : Safe reading (filled i name s) := .inl hsettled
  refine ⟨?_, hbase.lockOk, hafter⟩
  exact {
    lockOk := id
    safe := fun _ _ => hafter
    exclusive := fun _ _ => Iff.rfl
    shares := fun _ _ => Iff.rfl
    store := fun _ => .inl ⟨rfl, rfl⟩
    touches := fun hne => absurd rfl hne
    interlock := by
      intro owner m hne hm
      rw [show s.interlock = _ from hown, Option.some.injEq, Interlock.mk.injEq] at hm
      exact absurd hm.1.symm hne
    artifacts := fun _ artifact hlookup _ => ⟨artifact, hlookup, rfl, rfl⟩ }

/-- Writing and syncing the interlock. -/
theorem runs_fillInterlock {P Q : State ρ φ → Prop} {name : String} (hP : Stable (Rely reading i) P)
    (hQ : Stable (Rely reading i) Q) {E : State ρ φ → Prop} (hE : Stable (Rely reading i) E)
    (hbase : ∀ s, P s → Base reading s ∧ OwnInterlock i none s) (hPE : ∀ s, P s → E s)
    (hfill : ∀ s, P s → Base reading (filled i name s) → Q (filled i name s)) (hQE : ∀ s, Q s → E s) :
    Runs (Rely reading i) (Guarantee reading i) P (fillInterlock i name : Migration ρ φ Unit)
      (fun _ => Q) E := by
  apply Script.Runs.bind rely_refl ((quiet_touch P hP).mono (fun _ => id) (fun _ _ => id) hPE)
  intro _
  have hwrite : Runs (Rely reading i) (Guarantee reading i) P
      (act (fun s _ => if s.interlock = some ⟨some i, none⟩ then
          { s with interlock := some ⟨some i, some name⟩ } else s)
        fun _ _ => .ok () : Migration ρ φ Unit) (fun _ => Q) E := by
    apply runs_act hP (fun _ => hQ) hE
    intro s w hs
    obtain ⟨hs', hown⟩ := hbase s hs
    rw [if_pos (show s.interlock = some ⟨some i, none⟩ from hown)]
    obtain ⟨hG, hfilled⟩ := guarantee_filled hs' hown name
    have hQs := hfill s hs hfilled
    exact ⟨hG, fun _ _ => hQs, hPE s hs, hQE _ hQs⟩
  apply hwrite.bind rely_refl
  intro _
  have hsync : Runs (Rely reading i) (Guarantee reading i) Q (touch : Migration ρ φ Unit) (fun _ => Q) E :=
    (quiet_touch Q hQ).mono (fun _ => id) (fun _ _ => id) hQE
  apply hsync.bind rely_refl
  intro _
  exact hsync

/-- A fact that does not speak of the interlock stays when one is retained. -/
theorem runs_retainRestartInterlock {P : State ρ φ → Prop} (hP : Stable (Rely reading i) P)
    (hbase : ∀ s, P s → Base reading s)
    (hfill : ∀ s name, P s → Base reading (filled i name s) → P (filled i name s)) (name : String) :
    Runs (Rely reading i) (Guarantee reading i) P (retainRestartInterlock i name : Migration ρ φ Unit)
      (fun _ => P) P := by
  apply (runs_createInterlock hP).bind rely_refl
  intro _
  apply runs_fillInterlock (hP.and (stable_ownInterlock none)) hP hP
  · exact fun s hs => ⟨hbase s hs.1, hs.2⟩
  · exact fun s hs => hs.1
  · exact fun s hs hfilled => hfill s name hs.1 hfilled
  · exact fun s hs => hs

/-! ## Under the exclusive lock -/

/-- The store is settled. -/
def SettledStore (reading : Reading ρ φ) (db left : Option (Db ρ)) : Prop :=
  Option.Rel (Stands reading) db left

/-- The store is settled, and `before` is the fingerprint of its rows. -/
def ExaminedStore (reading : Reading ρ φ) (before : φ) (db left : Option (Db ρ)) : Prop :=
  SettledStore reading db left ∧ ∃ d, db = some d ∧ reading.fingerprint d.rows = some before

/-- `before` is the fingerprint of the rows that were left. -/
def LeftStore (reading : Reading ρ φ) (before : φ) (_ left : Option (Db ρ)) : Prop :=
  ∃ l, left = some l ∧ reading.fingerprint l.rows = some before

/-- Process `i` holds the maintenance lock alone. -/
abbrev Held (reading : Reading ρ φ) (i : Nat) : State ρ φ → Prop := Locked reading i fun _ _ => True

/-- A backup with this fingerprint. -/
def Copied (reading : Reading ρ φ) (before : φ) (backup : Backup ρ) : Prop :=
  ∃ rows, backup = .rows rows ∧ reading.fingerprint rows = some before

/-- The interlock is that of process `i` and names its backup of `before`. -/
def Guards (reading : Reading ρ φ) (i : Nat) (name : String) (before : φ) (s : State ρ φ) : Prop :=
  OwnArtifact i name (Copied reading before) s ∧ OwnInterlock i (some name) s

theorem stable_guards (name : String) (before : φ) :
    Stable (Rely reading i) (Guards reading i name before) :=
  (stable_ownArtifact name _).and (stable_ownInterlock _)

theorem stable_held : Stable (Rely reading i) (Held reading i) := stable_locked _

section

variable {F K : Option (Db ρ) → Option (Db ρ) → Prop} {s : State ρ φ}

theorem Locked.mono (h : Locked reading i F s) (hF : F s.db s.left → K s.db s.left) :
    Locked reading i K s :=
  ⟨h.toBase, h.exclusive, hF h.store⟩

theorem Locked.held (h : Locked reading i F s) : Held reading i s := h.mono fun _ => trivial

/-- Where an examined store is, its rows are those that were left. -/
theorem leftStore_of_examined {before : φ} {db left : Option (Db ρ)}
    (h : ExaminedStore reading before db left) : LeftStore reading before db left := by
  obtain ⟨hsettled, d, rfl, hd⟩ := h
  unfold SettledStore at hsettled
  cases hsettled with
  | some hstands =>
    refine ⟨_, rfl, ?_⟩
    cases hstands.1 with
    | inl hrows => rw [← hrows, hd]
    | inr hsame =>
      obtain ⟨f, hf, hl⟩ := hsame
      rw [hl, ← hf, hd]

theorem Guards.guarded {name : String} {before : φ} (h : Guards reading i name before s)
    (hleft : LeftStore reading before s.db s.left) : Guarded reading s := by
  obtain ⟨⟨artifact, hlookup, _, rows, hrows, hf⟩, hown⟩ := h
  obtain ⟨l, hl, hlf⟩ := hleft
  exact ⟨some i, name, artifact, rows, l, before, hown, hlookup, hrows, hl, hf, hlf⟩

/-- A quiet script keeps what is known under the lock. -/
theorem quiet_locked {Own : State ρ φ → Prop} (hOwn : Stable (Rely reading i) Own)
    {c : Migration ρ φ α} (h : Quiet (Rely reading i) (Guarantee reading i) c) :
    Runs (Rely reading i) (Guarantee reading i) (fun s => Locked reading i F s ∧ Own s) c
      (fun _ s => Locked reading i F s ∧ Own s) (Held reading i) :=
  (h _ ((stable_locked F).and hOwn)).mono (fun _ => id) (fun _ _ => id) fun _ hs => hs.1.held

/-- What is read of the open database is so, as long as the lock is held. -/
theorem runs_readDb {Own : State ρ φ → Prop} (hOwn : Stable (Rely reading i) Own)
    {K : α → Option (Db ρ) → Option (Db ρ) → Prop} (f : Db ρ → Except Exc α)
    (h : ∀ d left a, F (some d) left → f d = .ok a → K a (some d) left) :
    Runs (Rely reading i) (Guarantee reading i) (fun s => Locked reading i F s ∧ Own s)
      (readDb f : Migration ρ φ α) (fun a s => Locked reading i (K a) s ∧ Own s)
      (Held reading i) := by
  have hlook : Runs (Rely reading i) (Guarantee reading i) (fun s => Locked reading i F s ∧ Own s)
      (readDb f : Migration ρ φ α) (fun a s => Locked reading i (K a) s ∧ Own s)
      (fun s => Locked reading i F s ∧ Own s) := by
    apply runs_look ((stable_locked F).and hOwn) fun a => (stable_locked (K a)).and hOwn
    intro s w a hs hok
    refine ⟨hs.1.mono ?_, hs.2⟩
    intro hF
    cases hdb : s.db with
    | none => simp [hdb] at hok
    | some d =>
      rw [hdb] at hok hF
      exact h d s.left a hF hok
  exact hlook.mono (fun _ => id) (fun _ _ => id) fun _ hs => hs.1.held

/-- The fingerprint of the open database. -/
theorem runs_fingerprintDb [DecidableEq φ] {Own : State ρ φ → Prop} (hOwn : Stable (Rely reading i) Own) :
    Runs (Rely reading i) (Guarantee reading i) (fun s => Locked reading i F s ∧ Own s)
      (reading.fingerprintDb : Migration ρ φ φ)
      (fun f s => Locked reading i (fun db left => F db left ∧ ∃ d, db = some d ∧
        reading.fingerprint d.rows = some f) s ∧ Own s)
      (Held reading i) := by
  apply runs_readDb hOwn
  intro d left f hF hok
  refine ⟨hF, d, rfl, ?_⟩
  cases hread : reading.fingerprint d.rows with
  | none => simp [hread] at hok
  | some g =>
    rw [hread] at hok
    exact congrArg some (Except.ok.inj hok)

/-- A check of what was read. -/
theorem runs_ensured {Own : State ρ φ → Prop} (hOwn : Stable (Rely reading i) Own) {e : Exc}
    {condition : Bool} (h : condition = true → ∀ db left, F db left → K db left) :
    Runs (Rely reading i) (Guarantee reading i) (fun s => Locked reading i F s ∧ Own s)
      (ensure e condition : Migration ρ φ Unit) (fun _ s => Locked reading i K s ∧ Own s)
      (Held reading i) := by
  have hensure : Runs (Rely reading i) (Guarantee reading i) (fun s => Locked reading i F s ∧ Own s)
      (ensure e condition : Migration ρ φ Unit) (fun _ s => Locked reading i K s ∧ Own s)
      (fun s => Locked reading i F s ∧ Own s) := by
    apply runs_ensure ((stable_locked F).and hOwn)
    intro s hcondition hs
    exact ⟨hs.1.mono (h hcondition _ _), hs.2⟩
  exact hensure.mono (fun _ => id) (fun _ _ => id) fun _ hs => hs.1.held

/-- A statement on the database while the interlock guards it: whatever it does to the rows, the
    backup has those that were left. -/
theorem runs_statement {name : String} {before : φ} (hguards : ∀ db left, F db left → LeftStore reading before db left)
    {K : α → Option (Db ρ) → Option (Db ρ) → Prop} (f : Db ρ → Db ρ → Db ρ)
    (result : State ρ φ → Answer ρ → Except Exc α)
    (hF' : ∀ s w a, F s.db s.left → result s w = .ok a → K a (s.db.map fun db => f db w.db) s.left) :
    Runs (Rely reading i) (Guarantee reading i)
      (fun s => Locked reading i F s ∧ Guards reading i name before s)
      (act (fun s w => { s with db := s.db.map fun db => f db w.db }) result : Migration ρ φ α)
      (fun a s => Locked reading i (K a) s ∧ Guards reading i name before s) (Held reading i) := by
  apply runs_act ((stable_locked F).and (stable_guards name before))
    (fun a => (stable_locked (K a)).and (stable_guards name before)) stable_held
  intro s w hs
  obtain ⟨hlocked, hown⟩ := hs
  have hguarded : Guarded reading s := hown.guarded (hguards _ _ hlocked.store)
  -- neither the interlock nor the backup nor what was left is touched
  have hafter : Guarded reading { s with db := s.db.map fun db => f db w.db } :=
    hguarded.same rfl rfl .rfl
  have hbase : Base reading { s with db := s.db.map fun db => f db w.db } :=
    ⟨hlocked.lockOk, .inr hafter⟩
  refine ⟨?_, ?_, hlocked.held, ⟨hbase, hlocked.exclusive, trivial⟩⟩
  · exact {
      lockOk := id
      safe := fun _ _ => .inr hafter
      exclusive := fun _ _ => Iff.rfl
      shares := fun _ _ => Iff.rfl
      store := fun hne => absurd hlocked.exclusive hne
      touches := fun _ => .inr ⟨hlocked.exclusive, hguarded⟩
      interlock := fun _ _ _ => id
      artifacts := fun _ artifact hlookup _ => ⟨artifact, hlookup, rfl, rfl⟩ }
  · intro a ha
    exact ⟨⟨hbase, hlocked.exclusive, hF' s w a hlocked.store ha⟩, hown⟩

end

/-! ## Before the conversion -/

section

variable {name : String} {before : φ}

/-- A new artifact directory is the process's own. -/
theorem runs_makeArtifact {P : State ρ φ → Prop} (hP : Stable (Rely reading i) P) :
    Runs (Rely reading i) (Guarantee reading i) P (makeArtifact i : Migration ρ φ String)
      (fun name s => P s ∧ OwnArtifact i name (fun _ => True) s) P := by
  have hstable : ∀ name, Stable (Rely reading i) fun s : State ρ φ =>
      P s ∧ OwnArtifact i name (fun _ => True) s :=
    fun name => hP.and (stable_ownArtifact name _)
  have hmake : Runs (Rely reading i) (Guarantee reading i) P
      (act (fun s w =>
          if (s.artifacts.lookup w.name).isSome then s
          else { s with artifacts := s.artifacts ++ [(w.name, ⟨some i, false, none, .absent⟩)] })
        fun s w => if (s.artifacts.lookup w.name).isSome then .error (.raised .os) else .ok w.name :
          Migration ρ φ String)
      (fun name s => P s ∧ OwnArtifact i name (fun _ => True) s) P := by
    apply runs_quiet hP hstable
    · intro s w
      split
      · exact ⟨.rfl, guarantee_refl s⟩
      · refine quiet_of_same rfl rfl rfl rfl (.inl rfl) ?_
        intro other artifact hlookup
        refine ⟨artifact, ?_, rfl, rfl⟩
        dsimp only
        rw [List.lookup_append, hlookup, Option.some_or]
    · intro s w made hafter _ hok
      by_cases hthere : (s.artifacts.lookup w.name).isSome = true
      · rw [if_pos hthere] at hok
        cases hok
      · rw [if_neg hthere] at hafter hok ⊢
        obtain rfl := Except.ok.inj hok
        rw [Option.not_isSome_iff_eq_none] at hthere
        refine ⟨hafter, ⟨some i, false, none, .absent⟩, ?_, rfl, trivial⟩
        simp [List.lookup_append, hthere]
  apply hmake.bind rely_refl
  intro made
  have hsync : ∀ {β : Type} {c : Migration ρ φ β}, Quiet (Rely reading i) (Guarantee reading i) c →
      Runs (Rely reading i) (Guarantee reading i)
        (fun s => P s ∧ OwnArtifact i made (fun _ => True) s) c
        (fun _ s => P s ∧ OwnArtifact i made (fun _ => True) s) P :=
    fun h => (h _ (hstable made)).mono (fun _ => id) (fun _ _ => id) fun _ hs => hs.1
  apply (hsync quiet_touch).bind rely_refl
  intro _
  apply (hsync quiet_touch).bind rely_refl
  intro _
  apply (hsync quiet_touch).bind rely_refl
  intro _
  exact Script.runs_pure (hstable made) fun _ => id

/-- A process may change its own backup while the store is examined. -/
theorem runs_setBackup (backup : Answer ρ → Backup ρ) :
    Runs (Rely reading i) (Guarantee reading i)
      (fun s => Locked reading i (ExaminedStore reading before) s ∧ OwnArtifact i name (fun _ => True) s)
      (act (fun s w => setArtifact name (fun a => { a with backup := backup w }) s)
        fun _ _ => .ok () : Migration ρ φ Unit)
      (fun _ s => Locked reading i (ExaminedStore reading before) s ∧
        OwnArtifact i name (fun _ => True) s) (Held reading i) := by
  have hstable : Stable (Rely reading i) fun s : State ρ φ =>
      Locked reading i (ExaminedStore reading before) s ∧ OwnArtifact i name (fun _ => True) s :=
    (stable_locked _).and (stable_ownArtifact name _)
  apply runs_act hstable (fun _ => hstable) stable_held
  intro s w hs
  obtain ⟨hlocked, artifact, hlookup, howner, _⟩ := hs
  have hset : setArtifact name (fun a => { a with backup := backup w }) s =
      { s with artifacts := Dict.set name { artifact with backup := backup w } s.artifacts } := by
    simp [setArtifact, hlookup]
  rw [hset]
  have hsettled : Settled reading s := hlocked.store.1
  have hbase : Base reading
      { s with artifacts := Dict.set name { artifact with backup := backup w } s.artifacts } :=
    ⟨hlocked.lockOk, .inl hsettled⟩
  refine ⟨?_, ?_, hlocked.held, ⟨hbase, hlocked.exclusive, trivial⟩⟩
  · exact {
      lockOk := id
      safe := fun _ _ => .inl hsettled
      exclusive := fun _ _ => Iff.rfl
      shares := fun _ _ => Iff.rfl
      store := fun _ => .inl ⟨rfl, rfl⟩
      touches := fun hne => absurd rfl hne
      interlock := fun _ _ _ => id
      artifacts := by
        intro other found hfound hother
        have hne : other ≠ name := by
          rintro rfl
          obtain rfl := Option.some.inj (hlookup.symm.trans hfound)
          exact hother howner
        exact ⟨found, by rw [Dict.lookup_set_of_ne hne, hfound], rfl, rfl⟩ }
  · intro _ _
    exact ⟨⟨hbase, hlocked.exclusive, hlocked.store⟩, _, Dict.lookup_set_self .., howner, trivial⟩

/-- A backup that is read with the fingerprint of the store. -/
theorem runs_backUp [DecidableEq φ] :
    Runs (Rely reading i) (Guarantee reading i)
      (fun s => Locked reading i (ExaminedStore reading before) s ∧ OwnArtifact i name (fun _ => True) s)
      (backUp reading name before : Migration ρ φ Unit)
      (fun _ s => Locked reading i (ExaminedStore reading before) s ∧
        OwnArtifact i name (Copied reading before) s) (Held reading i) := by
  have hown : Stable (Rely reading i) (OwnArtifact (ρ := ρ) (φ := φ) i name fun _ => True) :=
    stable_ownArtifact name _
  have hcopied : ∀ f, Stable (Rely reading i) (OwnArtifact (φ := φ) i name (Copied reading f)) :=
    fun f => stable_ownArtifact name _
  unfold backUp
  apply (runs_setBackup fun _ => .empty).bind rely_refl
  intro _
  apply (quiet_locked hown quiet_touch).bind rely_refl
  intro _
  apply (runs_setBackup fun w => .rows w.db.rows).bind rely_refl
  intro _
  apply (quiet_locked hown quiet_touch).bind rely_refl
  intro _
  apply Script.Runs.bind (Q := fun f s => Locked reading i (ExaminedStore reading before) s ∧
    OwnArtifact i name (Copied reading f) s) rely_refl
  · apply Script.Runs.mono (E := fun s => Locked reading i (ExaminedStore reading before) s ∧
      OwnArtifact i name (fun _ => True) s) _ (fun _ => id) (fun _ _ => id) fun _ hs => hs.1.held
    apply runs_look ((stable_locked _).and hown) fun f => (stable_locked _).and (hcopied f)
    intro s w f hs hok
    obtain ⟨hlocked, artifact, hlookup, howner, _⟩ := hs
    refine ⟨hlocked, artifact, hlookup, howner, ?_⟩
    rw [hlookup, Option.map_some] at hok
    cases hbackup : artifact.backup with
    | absent => simp [hbackup] at hok
    | empty => simp [hbackup] at hok
    | rows rows =>
      refine ⟨rows, rfl, ?_⟩
      cases hf : reading.fingerprint rows with
      | none => simp [hbackup, hf] at hok
      | some g => simpa [hbackup, hf] using hok
  intro f
  have hsame : Runs (Rely reading i) (Guarantee reading i)
      (fun s => Locked reading i (ExaminedStore reading before) s ∧ OwnArtifact i name (Copied reading f) s)
      (ensure (.deferred "monitor backup verification mismatch") (f = before) : Migration ρ φ Unit)
      (fun _ s => Locked reading i (ExaminedStore reading before) s ∧
        OwnArtifact i name (Copied reading before) s)
      (fun s => Locked reading i (ExaminedStore reading before) s ∧
        OwnArtifact i name (Copied reading f) s) := by
    apply runs_ensure ((stable_locked _).and (hcopied f))
    intro s heq hs
    rw [← of_decide_eq_true heq]
    rw [← of_decide_eq_true heq] at hs
    exact hs
  apply (hsame.mono (fun _ => id) (fun _ _ => id) fun _ hs => hs.1.held).bind rely_refl
  intro _
  apply (quiet_locked (hcopied before) quiet_ask).bind rely_refl
  intro _
  apply (quiet_locked (hcopied before) (quiet_ensure _ _)).bind rely_refl
  intro _
  apply (quiet_locked (hcopied before) quiet_look).bind rely_refl
  intro _
  exact quiet_locked (hcopied before) (quiet_ensure _ _)

end

/-! ## The conversion -/

section

variable {name : String} {before : φ}

/-- The interlock is written when the backup has the rows of the store. -/
theorem runs_guard :
    Runs (Rely reading i) (Guarantee reading i)
      (fun s => (Locked reading i (ExaminedStore reading before) s ∧
        OwnArtifact i name (Copied reading before) s) ∧ OwnInterlock i none s)
      (fillInterlock i name : Migration ρ φ Unit)
      (fun _ s => Locked reading i (LeftStore reading before) s ∧ Guards reading i name before s)
      (Held reading i) := by
  have hcopied : Stable (Rely reading i) (OwnArtifact (φ := φ) i name (Copied reading before)) :=
    stable_ownArtifact name _
  apply runs_fillInterlock (((stable_locked _).and hcopied).and (stable_ownInterlock none))
    ((stable_locked _).and (stable_guards name before)) stable_held
  · exact fun s hs => ⟨hs.1.1.toBase, hs.2⟩
  · exact fun s hs => hs.1.1.held
  · intro s hs hbase
    exact ⟨⟨hbase, hs.1.1.exclusive, leftStore_of_examined hs.1.1.store⟩, hs.1.2, rfl⟩
  · exact fun s hs => hs.1.held

/-- The rows that were left have this fingerprint, and the database is so far as it should be. -/
def CheckedStore (reading : Reading ρ φ) (before : φ) (c : Db ρ → Prop) (db left : Option (Db ρ)) : Prop :=
  LeftStore reading before db left ∧ ∀ d, db = some d → c d

/-- A value is read of the database under conversion, and checked. -/
theorem runs_checked {c C : Db ρ → Prop} {f : Db ρ → α} {condition : α → Bool} {e : Exc}
    (h : ∀ d, c d → condition (f d) = true → C d) {k : Migration ρ φ β} {Q : β → State ρ φ → Prop}
    (hk : Runs (Rely reading i) (Guarantee reading i)
      (fun s => Locked reading i (CheckedStore reading before C) s ∧ Guards reading i name before s) k Q
      (Held reading i)) :
    Runs (Rely reading i) (Guarantee reading i)
      (fun s => Locked reading i (CheckedStore reading before c) s ∧ Guards reading i name before s)
      (do
        let a ← readDb fun db => .ok (f db)
        ensure e (condition a)
        k) Q (Held reading i) := by
  have hown : Stable (Rely reading i) (Guards reading i name before) := stable_guards name before
  apply (runs_readDb (K := fun a => CheckedStore reading before fun d => c d ∧ f d = a) hown
    (fun db => .ok (f db)) ?_).bind rely_refl
  · intro a
    apply (runs_ensured (K := CheckedStore reading before C) hown ?_).bind rely_refl fun _ => hk
    intro hcondition db left hchecked
    refine ⟨hchecked.1, fun d hd => ?_⟩
    obtain ⟨hc, rfl⟩ := hchecked.2 d hd
    exact h d hc hcondition
  · intro d left a hchecked hok
    refine ⟨hchecked.1, fun d' hd' => ?_⟩
    obtain rfl := Option.some.inj hd'
    exact ⟨hchecked.2 _ rfl, Except.ok.inj hok⟩

/-- A statement on the database under conversion. -/
theorem runs_altered {c : Db ρ → Prop} {C : α → Db ρ → Prop} (f : Db ρ → Db ρ → Db ρ)
    {result : State ρ φ → Answer ρ → Except Exc α}
    (h : ∀ s w a d, c d → result s w = .ok a → C a (f d w.db)) :
    Runs (Rely reading i) (Guarantee reading i)
      (fun s => Locked reading i (CheckedStore reading before c) s ∧ Guards reading i name before s)
      (act (fun s w => { s with db := s.db.map fun db => f db w.db }) result : Migration ρ φ α)
      (fun a s => Locked reading i (CheckedStore reading before (C a)) s ∧ Guards reading i name before s)
      (Held reading i) := by
  apply runs_statement (fun _ _ hchecked => hchecked.1) f result
  intro s w a hchecked hok
  refine ⟨hchecked.1, fun d' hd' => ?_⟩
  rw [Option.map_eq_some_iff] at hd'
  obtain ⟨d, hd, rfl⟩ := hd'
  exact h s w a d (hchecked.2 d hd) hok

/-- Up to the checks nothing is known of the database. -/
theorem runs_convert (config : Config → Config → Config) :
    Runs (Rely reading i) (Guarantee reading i)
      (fun s => Locked reading i (CheckedStore reading before fun _ => True) s ∧
        Guards reading i name before s)
      (convert config : Migration ρ φ Unit)
      (fun _ s => Locked reading i (CheckedStore reading before fun _ => True) s ∧
        Guards reading i name before s) (Held reading i) :=
  runs_altered (fun db made => ⟨config db.config made.config, made.rows⟩) fun _ _ _ _ _ _ => trivial

/-- The journal mode, as it is set and as it is returned. -/
theorem runs_setJournalMode {c : Db ρ → Prop} {C : String → Db ρ → Prop}
    (h : ∀ d rows mode, c d → C mode ⟨{ d.config with journalMode := mode }, rows⟩) :
    Runs (Rely reading i) (Guarantee reading i)
      (fun s => Locked reading i (CheckedStore reading before c) s ∧ Guards reading i name before s)
      (setJournalMode : Migration ρ φ String)
      (fun mode s => Locked reading i (CheckedStore reading before (C mode)) s ∧
        Guards reading i name before s) (Held reading i) := by
  apply runs_altered fun db made => ⟨{ db.config with journalMode := made.config.journalMode }, made.rows⟩
  intro s w mode d hc hok
  rw [← Except.ok.inj hok]
  exact h d w.db.rows w.db.config.journalMode hc

/-- The fingerprint of the database under conversion is that of the rows that were left. -/
theorem runs_sameFingerprint [DecidableEq φ] {c : Db ρ → Prop} {e : Exc} {k : Migration ρ φ β}
    {Q : β → State ρ φ → Prop}
    (hk : Runs (Rely reading i) (Guarantee reading i)
      (fun s => Locked reading i (fun db left => CheckedStore reading before c db left ∧
        ∃ d, db = some d ∧ reading.fingerprint d.rows = some before) s ∧ Guards reading i name before s)
      k Q (Held reading i)) :
    Runs (Rely reading i) (Guarantee reading i)
      (fun s => Locked reading i (CheckedStore reading before c) s ∧ Guards reading i name before s)
      (do
        let f ← reading.fingerprintDb
        ensure e (f = before)
        k) Q (Held reading i) := by
  have hown : Stable (Rely reading i) (Guards reading i name before) := stable_guards name before
  apply (runs_fingerprintDb hown).bind rely_refl
  intro f
  apply (runs_ensured hown ?_).bind rely_refl fun _ => hk
  intro heq db left hchecked
  rw [← of_decide_eq_true heq]
  rw [← of_decide_eq_true heq] at hchecked
  exact hchecked

/-- A database in the new form, with the fingerprint of the rows that were left. -/
theorem settledStore_of_converted {db left : Option (Db ρ)}
    (h : CheckedStore reading before (fun d => Converted d.config) db left ∧
      ∃ d, db = some d ∧ reading.fingerprint d.rows = some before) : SettledStore reading db left := by
  obtain ⟨⟨⟨l, rfl, hl⟩, hconverted⟩, d, rfl, hd⟩ := h
  exact .some ⟨.inr ⟨before, hd, hl⟩, .inr (hconverted d rfl)⟩

/-- A conversion that is verified has the rows that were left, in the new form. -/
theorem runs_convertStore [DecidableEq φ] :
    Runs (Rely reading i) (Guarantee reading i)
      (fun s => (Locked reading i (ExaminedStore reading before) s ∧
        OwnArtifact i name (Copied reading before) s) ∧ OwnInterlock i none s)
      (convertStore reading i name before : Migration ρ φ φ)
      (fun _ s => Locked reading i (SettledStore reading) s ∧ Guards reading i name before s)
      (Held reading i) := by
  have hown : Stable (Rely reading i) (Guards reading i name before) := stable_guards name before
  unfold convertStore
  have hguard : Runs (Rely reading i) (Guarantee reading i)
      (fun s => (Locked reading i (ExaminedStore reading before) s ∧
        OwnArtifact i name (Copied reading before) s) ∧ OwnInterlock i none s)
      (fillInterlock i name : Migration ρ φ Unit)
      (fun _ s => Locked reading i (CheckedStore reading before fun _ => True) s ∧
        Guards reading i name before s) (Held reading i) :=
    runs_guard.mono (fun _ => id)
      (fun _ _ hs => ⟨hs.1.mono fun hleft => ⟨hleft, fun _ _ => trivial⟩, hs.2⟩) fun _ => id
  apply hguard.bind rely_refl
  intro _
  apply (quiet_locked hown (quiet_writeReceipt name _)).bind rely_refl
  intro _
  apply (runs_setJournalMode (C := fun _ _ => True) fun _ _ _ _ => trivial).bind rely_refl
  intro _
  apply (quiet_locked hown (quiet_ensure _ _)).bind rely_refl
  intro _
  apply (runs_convert _).bind rely_refl
  intro _
  apply (runs_convert _).bind rely_refl
  intro _
  apply (runs_convert _).bind rely_refl
  intro _
  -- the new form
  apply runs_checked (C := fun d => d.config.pageSize = targetPageSize)
    fun d _ hsize => of_decide_eq_true hsize
  apply runs_checked (C := fun d => d.config.pageSize = targetPageSize ∧ d.config.autoVacuum = 2)
    fun d hd hvacuum => ⟨hd, of_decide_eq_true hvacuum⟩
  apply runs_sameFingerprint
  refine Script.Runs.mono (P := fun s => Locked reading i (CheckedStore reading before fun d =>
      d.config.pageSize = targetPageSize ∧ d.config.autoVacuum = 2) s ∧ Guards reading i name before s) ?_
    (fun _ hs => ⟨hs.1.mono fun h => h.1, hs.2⟩) (fun _ _ => id) fun _ => id
  apply (runs_setJournalMode (C := fun mode d => (d.config.pageSize = targetPageSize ∧
    d.config.autoVacuum = 2) ∧ d.config.journalMode = mode) fun d _ mode hd => ⟨hd, rfl⟩).bind rely_refl
  intro mode
  have hmode : Str.lower mode = "wal" → ∀ d : Db ρ, (d.config.pageSize = targetPageSize ∧
      d.config.autoVacuum = 2) ∧ d.config.journalMode = mode → Converted d.config := by
    intro hwal d hd
    exact ⟨hd.1.1, by rw [hd.2, hwal], hd.1.2⟩
  apply (runs_ensured (K := CheckedStore reading before fun d => Converted d.config) hown
    fun hwal _ _ hchecked => ⟨hchecked.1, fun d hd =>
      hmode (of_decide_eq_true hwal) d (hchecked.2 d hd)⟩).bind rely_refl
  intro _
  apply (quiet_locked hown quiet_touch).bind rely_refl
  intro _
  apply (quiet_locked hown quiet_ask).bind rely_refl
  intro _
  apply (quiet_locked hown (quiet_ensure _ _)).bind rely_refl
  intro _
  apply runs_sameFingerprint
  have hlast : Runs (Rely reading i) (Guarantee reading i)
      (fun s => Locked reading i (SettledStore reading) s ∧ Guards reading i name before s)
      (do
        touch
        reading.fingerprintDb : Migration ρ φ φ)
      (fun _ s => Locked reading i (SettledStore reading) s ∧ Guards reading i name before s)
      (Held reading i) := by
    apply (quiet_locked hown quiet_touch).bind rely_refl
    intro _
    exact quiet_locked hown (quiet_readDb _)
  exact hlast.mono (fun _ hs => ⟨hs.1.mono settledStore_of_converted, hs.2⟩) (fun _ _ => id) fun _ => id

/-- The interlock goes when the store is settled. -/
theorem runs_finishConversion {after : φ} :
    Runs (Rely reading i) (Guarantee reading i)
      (fun s => Locked reading i (SettledStore reading) s ∧ Guards reading i name before s)
      (finishConversion name before after : Migration ρ φ MigrationResult)
      (fun _ => Held reading i) (Held reading i) := by
  have hown : Stable (Rely reading i) (Guards reading i name before) := stable_guards name before
  unfold finishConversion
  apply (quiet_locked hown (quiet_writeReceipt name _)).bind rely_refl
  intro _
  have hunlink : Runs (Rely reading i) (Guarantee reading i)
      (fun s => Locked reading i (SettledStore reading) s ∧ Guards reading i name before s)
      (act (fun s _ => { s with interlock := none }) fun _ _ => .ok () : Migration ρ φ Unit)
      (fun _ => Held reading i) (Held reading i) := by
    apply runs_act ((stable_locked _).and hown) (fun _ => stable_held) stable_held
    intro s w hs
    obtain ⟨hlocked, _, hinterlock⟩ := hs
    have hsettled : Settled reading s := hlocked.store
    have hheld : Held reading i { s with interlock := none } :=
      ⟨⟨hlocked.lockOk, .inl hsettled⟩, hlocked.exclusive, trivial⟩
    refine ⟨?_, fun _ _ => hheld, hlocked.held, hheld⟩
    exact {
      lockOk := id
      safe := fun _ _ => .inl hsettled
      exclusive := fun _ _ => Iff.rfl
      shares := fun _ _ => Iff.rfl
      store := fun _ => .inl ⟨rfl, rfl⟩
      touches := fun hne => absurd rfl hne
      interlock := by
        intro owner m hne hm
        rw [show s.interlock = _ from hinterlock, Option.some.injEq, Interlock.mk.injEq] at hm
        exact absurd hm.1.symm hne
      artifacts := fun _ artifact hlookup _ => ⟨artifact, hlookup, rfl, rfl⟩ }
  apply hunlink.bind rely_refl
  intro _
  apply (quiet_touch _ stable_held).bind rely_refl
  intro _
  exact Script.runs_pure stable_held fun _ => id

end

/-! ## The locked part -/

section

variable [DecidableEq φ]

theorem quiet_verifyPending (name : String) :
    Quiet (Rely reading i) (Guarantee reading i) (verifyPending reading name : Migration ρ φ Bool) := by
  apply Script.Quiet.tryCatch rely_refl
  · apply Script.Quiet.bind rely_refl quiet_look
    intro receipt
    apply Script.Quiet.bind rely_refl (quiet_readDb _)
    intro mode
    split
    · exact Script.quiet_pure false
    apply Script.Quiet.bind rely_refl quiet_ask
    intro synchronous
    split
    · exact Script.quiet_pure false
    apply Script.Quiet.bind rely_refl (quiet_readDb _)
    intro vacuum
    split
    · exact Script.quiet_pure false
    apply Script.Quiet.bind rely_refl (quiet_readDb _)
    intro f
    split
    · exact Script.quiet_pure _
    · exact Script.quiet_throw _
  · intro e
    split
    · exact Script.quiet_throw e
    · exact Script.quiet_pure false

/-- The interlock over a store that is settled does not unsettle it. -/
theorem runs_current :
    Runs (Rely reading i) (Guarantee reading i) (Locked reading i (SettledStore reading))
      (current reading i : Migration ρ φ MigrationResult) (fun _ => Held reading i) (Held reading i) := by
  have hstable : Stable (Rely reading i) (Locked reading i (SettledStore reading)) :=
    stable_locked (SettledStore reading)
  have hquiet : ∀ {α : Type} {c : Migration ρ φ α}, Quiet (Rely reading i) (Guarantee reading i) c →
      Runs (Rely reading i) (Guarantee reading i) (Locked reading i (SettledStore reading)) c
        (fun _ => Locked reading i (SettledStore reading)) (Held reading i) :=
    fun h => (h _ hstable).mono (fun _ => id) (fun _ _ => id) fun _ hs => hs.held
  apply (hquiet quiet_look).bind rely_refl
  intro pending
  cases pending with
  | none => exact Script.runs_pure hstable fun _ hs => hs.held
  | some name =>
    apply (hquiet (quiet_verifyPending name)).bind rely_refl
    intro valid
    cases valid with
    | true => exact Script.runs_pure hstable fun _ hs => hs.held
    | false =>
      have hretain : Runs (Rely reading i) (Guarantee reading i) (Locked reading i (SettledStore reading))
          (retainRestartInterlock i name : Migration ρ φ Unit)
          (fun _ => Locked reading i (SettledStore reading)) (Locked reading i (SettledStore reading)) :=
        runs_retainRestartInterlock hstable (fun _ hs => hs.toBase)
          (fun _ _ hs hbase => ⟨hbase, hs.exclusive, hs.store⟩) name
      apply Script.Runs.bind rely_refl
      · apply Script.runs_tryCatch rely_refl hretain
        intro e
        split
        · exact Script.runs_throw hstable fun _ hs => hs.held
        · exact Script.runs_throw hstable fun _ hs => hs.held
      intro _
      exact Script.runs_throw hstable fun _ hs => hs.held

/-- What is known of an examined store. -/
def Examined (reading : Reading ρ φ) (i : Nat) : MigrationResult ⊕ φ → State ρ φ → Prop
  | .inl _ => Held reading i
  | .inr before => Locked reading i (ExaminedStore reading before)

theorem runs_examine :
    Runs (Rely reading i) (Guarantee reading i) (Locked reading i (SettledStore reading))
      (examine reading i : Migration ρ φ (MigrationResult ⊕ φ)) (Examined reading i) (Held reading i) := by
  have hstable : Stable (Rely reading i) (Locked reading i (SettledStore reading)) :=
    stable_locked (SettledStore reading)
  have hquiet : ∀ {α : Type} {c : Migration ρ φ α}, Quiet (Rely reading i) (Guarantee reading i) c →
      Runs (Rely reading i) (Guarantee reading i) (Locked reading i (SettledStore reading)) c
        (fun _ => Locked reading i (SettledStore reading)) (Held reading i) :=
    fun h => (h _ hstable).mono (fun _ => id) (fun _ _ => id) fun _ hs => hs.held
  apply (hquiet quiet_touch).bind rely_refl
  intro _
  apply (hquiet (quiet_readDb _)).bind rely_refl
  intro size
  split
  · apply runs_current.bind rely_refl
    intro result
    exact Script.runs_pure stable_held fun _ => id
  apply (hquiet (quiet_ensure _ _)).bind rely_refl
  intro _
  apply (hquiet (quiet_readDb _)).bind rely_refl
  intro mode
  apply (hquiet (quiet_ensure _ _)).bind rely_refl
  intro _
  have hfingerprint : Runs (Rely reading i) (Guarantee reading i) (Locked reading i (SettledStore reading))
      (reading.fingerprintDb : Migration ρ φ φ)
      (fun before => Locked reading i (ExaminedStore reading before)) (Held reading i) :=
    (runs_fingerprintDb (Script.stable_const True)).mono
      (fun _ hs => ⟨hs, trivial⟩) (fun _ _ hs => hs.1) fun _ => id
  apply hfingerprint.bind rely_refl
  intro before
  have hexamined : ∀ {α : Type} {c : Migration ρ φ α}, Quiet (Rely reading i) (Guarantee reading i) c →
      Runs (Rely reading i) (Guarantee reading i) (Locked reading i (ExaminedStore reading before)) c
        (fun _ => Locked reading i (ExaminedStore reading before)) (Held reading i) :=
    fun h => (h _ (stable_locked _)).mono (fun _ => id) (fun _ _ => id) fun _ hs => hs.held
  apply (hexamined (quiet_readDb _)).bind rely_refl
  intro version
  apply (hexamined (quiet_ensure _ _)).bind rely_refl
  intro _
  apply (hexamined quiet_touch).bind rely_refl
  intro _
  apply (hexamined quiet_ask).bind rely_refl
  intro space
  apply (hexamined (quiet_ensure _ _)).bind rely_refl
  intro _
  exact Script.runs_pure (stable_locked _) fun _ => id

omit [DecidableEq φ] in
theorem runs_during {P E : State ρ φ → Prop} {Q : α → State ρ φ → Prop} {locals : Locals φ}
    {c : Migration ρ φ α} (hE : Stable (Rely reading i) E)
    (h : Runs (Rely reading i) (Guarantee reading i) P c Q E) :
    Runs (Rely reading i) (Guarantee reading i) P (during locals c) Q E :=
  Script.runs_catching rely_refl h fun _ => Script.runs_throw hE fun _ => id

/-- The whole body leaves the lock held and no row lost. -/
theorem runs_migrateBody :
    Runs (Rely reading i) (Guarantee reading i) (Locked reading i (SettledStore reading))
      (migrateBody reading i) (fun _ => Held reading i) (Held reading i) := by
  unfold migrateBody
  apply (runs_during stable_held runs_examine).bind rely_refl
  intro examined
  cases examined with
  | inl result => exact Script.runs_pure stable_held fun _ => id
  | inr before =>
    have hmake : Runs (Rely reading i) (Guarantee reading i) (Locked reading i (ExaminedStore reading before))
        (makeArtifact i : Migration ρ φ String)
        (fun name s => Locked reading i (ExaminedStore reading before) s ∧
          OwnArtifact i name (fun _ => True) s) (Held reading i) :=
      (runs_makeArtifact (stable_locked _)).mono (fun _ => id) (fun _ _ => id) fun _ hs => hs.held
    apply (runs_during stable_held hmake).bind rely_refl
    intro name
    have hcopied : Stable (Rely reading i) (OwnArtifact (φ := φ) i name (Copied reading before)) :=
      stable_ownArtifact name _
    have hprepare : Runs (Rely reading i) (Guarantee reading i)
        (fun s => Locked reading i (ExaminedStore reading before) s ∧ OwnArtifact i name (fun _ => True) s)
        (do
          writeReceipt name ⟨.backingUp, before, none⟩
          backUp reading name before
          createInterlock i : Migration ρ φ Unit)
        (fun _ s => (Locked reading i (ExaminedStore reading before) s ∧
          OwnArtifact i name (Copied reading before) s) ∧ OwnInterlock i none s) (Held reading i) := by
      apply (quiet_locked (stable_ownArtifact name _) (quiet_writeReceipt name _)).bind rely_refl
      intro _
      apply runs_backUp.bind rely_refl
      intro _
      exact (runs_createInterlock ((stable_locked _).and hcopied)).mono (fun _ => id) (fun _ _ => id)
        fun _ hs => hs.1.held
    apply (runs_during stable_held hprepare).bind rely_refl
    intro _
    apply (runs_during stable_held runs_convertStore).bind rely_refl
    intro after
    exact runs_during stable_held runs_finishConversion

omit [DecidableEq φ] in
theorem quiet_reported (name : String) (receipt : Receipt φ) (e : Exc) :
    Quiet (Rely reading i) (Guarantee reading i) (do
      tryWriteReceipt name receipt
      throw e : Migration ρ φ MigrationResult) := by
  apply Script.Quiet.bind rely_refl (quiet_tryWriteReceipt name receipt)
  intro _
  exact Script.quiet_throw e

omit [DecidableEq φ] in
theorem quiet_handle (e : Exc) (locals : Locals φ) :
    Quiet (Rely reading i) (Guarantee reading i) (handle e locals : Migration ρ φ MigrationResult) := by
  cases e with
  | deferred message =>
    unfold handle
    dsimp only
    split
    · split
      · exact Script.quiet_throw _
      · exact quiet_reported _ _ _
    · exact Script.quiet_throw _
  | raised r =>
    cases r with
    | key => exact Script.quiet_throw _
    | other => exact Script.quiet_throw _
    | _ =>
      unfold handle
      dsimp only
      split
      · split
        · exact quiet_reported _ _ _
        · exact Script.quiet_throw _
      · exact Script.quiet_throw _
  | failed message => exact Script.quiet_throw _
  | service message => exact Script.quiet_throw _
  | collector message => exact Script.quiet_throw _

theorem runs_migrateLocked :
    Runs (Rely reading i) (Guarantee reading i) (Locked reading i (SettledStore reading))
      (migrateLocked reading i : Migration ρ φ MigrationResult) (fun _ => Held reading i)
      (Held reading i) := by
  have hstable : Stable (Rely reading i) (Locked reading i (SettledStore reading)) :=
    stable_locked (SettledStore reading)
  have hconnect : Quiet (Rely reading i) (Guarantee reading i)
      (Script.tryCatch touch fun e =>
        if e = .raised .sqlite then throw (.deferred "monitor database unavailable") else throw e :
          Migration ρ φ Unit) := by
    apply Script.Quiet.tryCatch rely_refl quiet_touch
    intro e
    split
    · exact Script.quiet_throw _
    · exact Script.quiet_throw e
  apply ((hconnect _ hstable).mono (fun _ => id) (fun _ _ => id) fun _ hs => hs.held).bind rely_refl
  intro _
  have hclose : Runs (Rely reading i) (Guarantee reading i) (Held reading i)
      (touch : Migration ρ φ Unit) (fun _ => Held reading i) (Held reading i) := quiet_touch _ stable_held
  apply Script.runs_andFinally rely_refl (fun _ => stable_held) stable_held _ (fun _ => hclose) hclose
  apply Script.runs_catching rely_refl runs_migrateBody
  intro e
  exact quiet_handle e.1 e.2 _ stable_held

end

end SummitFlow.MonitorMigration
