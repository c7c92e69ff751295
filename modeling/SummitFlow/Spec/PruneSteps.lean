import SummitFlow.HostMonitor.Pruning
import SummitFlow.Spec.RollupRecovery

/-!
# The steps of a pruning call

What each step of the calls in `HostArchive` needs for a predicate on the store and on what
was said so far.  Most steps change nothing but the checkpoint flag and delete nothing: a
predicate that does not mind these holds through every piece of a call made of them.
-/

namespace SummitFlow.HostArchive

open Script

variable {N F α β : Type} {A : Store N F → Answer → Prop}
  {Q : α → Store N F → List (Note N F) → Prop}
  {E : Failure → Store N F → List (Note N F) → Prop}
  {s : Store N F} {l : List (Note N F)}

/-! ## Single steps -/

theorem ends_ask {f : Store N F → Answer → α} (h : ∀ w, A s w → Q (f s w) s (l ++ [.quiet])) :
    Ends A Q E (ask f) s l := by
  apply ends_action
  · intro w hw a ha
    obtain rfl := Except.ok.inj ha
    exact h w hw
  · intro w _ e he
    cases he

/-- A SQLite step. -/
theorem ends_sqlite {f : Store N F → Answer → Store N F × Note N F × Except Failure α}
    (hok : ∀ w, A s w → w.fails = false → ∀ a, (f s w).2.2 = .ok a →
      Q a (f s w).1 (l ++ [(f s w).2.1]))
    (herror : ∀ w, A s w → w.fails = false → ∀ e, (f s w).2.2 = .error e →
      E e (f s w).1 (l ++ [(f s w).2.1]))
    (hfails : ∀ w, A s w → w.fails = true → E .sqlite s (l ++ [.quiet])) :
    Ends A Q E (sqlite f) s l := by
  apply ends_action
  · intro w hw a ha
    cases hfailed : w.fails with
    | true =>
      rw [hfailed] at ha
      cases ha
    | false =>
      rw [hfailed] at ha
      exact hok w hw hfailed a ha
  · intro w hw e he
    cases hfailed : w.fails with
    | true =>
      rw [hfailed] at he
      obtain rfl := Except.error.inj he
      exact hfails w hw hfailed
    | false =>
      rw [hfailed] at he
      exact herror w hw hfailed e he

theorem ends_hasHeadroom {maxBytes minFree : Nat} {Q : Bool → Store N F → List (Note N F) → Prop}
    (h : ∀ ok, Q ok s (l ++ [.headroom ok])) : Ends A Q E (hasHeadroom maxBytes minFree) s l := by
  apply ends_action
  · intro w _ a ha
    obtain rfl := Except.ok.inj ha
    exact h _
  · intro w _ e he
    cases he

theorem ends_delete {f : Archive N F → Archive N F}
    {Q : Nat × Nat → Store N F → List (Note N F) → Prop}
    (hok : Q (taken s.archive (f s.archive)) { s with archive := f s.archive }
      (l ++ [.deleted s.archive (f s.archive)]))
    (hfails : ∀ w, A s w → w.fails = true → E .sqlite s (l ++ [.quiet])) :
    Ends A Q E (delete f) s l := by
  apply ends_sqlite
  · intro w _ _ a ha
    obtain rfl := Except.ok.inj ha
    exact hok
  · intro w _ _ e he
    cases he
  · exact hfails

/-! ## Steps that a predicate does not mind -/

/-- A note about anything but a deletion. -/
def Note.isQuiet : Note N F → Bool
  | .deleted _ _ => false
  | _ => true

/-- The predicate does not depend on the checkpoint flag, nor on what is said but for the
    deletions. -/
structure Stable (P : Store N F → List (Note N F) → Prop) : Prop where
  blocked : ∀ s l b, P s l → P { s with checkpointBlocked := b } l
  note : ∀ s l n, Note.isQuiet n = true → P s l → P s (l ++ [n])

/-- Through the call every stable predicate holds on, and it fails only where SQLite does. -/
def Guarded (c : Call N F α) : Prop :=
  ∀ (A : Store N F → Answer → Prop) (P : Store N F → List (Note N F) → Prop), Stable P →
    ∀ s l, P s l → Ends A (fun _ => P)
      (fun e s l => P s l ∧ e = .sqlite ∧ ∃ w, A s w ∧ w.fails = true) c s l

/-- Through the call every stable predicate holds on, and it has turns enough. -/
def Quiet (c : Call N F α) : Prop :=
  ∀ (A : Store N F → Answer → Prop) (P : Store N F → List (Note N F) → Prop), Stable P →
    ∀ s l, P s l → Ends A (fun _ => P) (fun e s l => P s l ∧ e ≠ .outOfFuel) c s l

theorem Guarded.quiet {c : Call N F α} (h : Guarded c) : Quiet c := by
  intro A P hP s l hs
  apply (h A P hP s l hs).mono (fun _ _ _ h => h)
  rintro e s l ⟨h, rfl, -⟩
  exact ⟨h, by decide⟩

theorem Quiet.ends {c : Call N F α} (hc : Quiet c) (A : Store N F → Answer → Prop)
    {P : Store N F → List (Note N F) → Prop} (hP : Stable P) (h : P s l) :
    Ends A (fun _ => P) (fun _ => P) c s l :=
  (hc A P hP s l h).mono (fun _ _ _ h => h) fun _ _ _ h => h.1

theorem Guarded.bind {c : Call N F α} {k : α → Call N F β} (hc : Guarded c)
    (hk : ∀ a, Guarded (k a)) : Guarded (c >>= k) :=
  fun A P hP s l h => Ends.bind (hc A P hP s l h) fun a t l' ht => hk a A P hP t l' ht

theorem Quiet.bind {c : Call N F α} {k : α → Call N F β} (hc : Quiet c) (hk : ∀ a, Quiet (k a)) :
    Quiet (c >>= k) :=
  fun A P hP s l h => Ends.bind (hc A P hP s l h) fun a t l' ht => hk a A P hP t l' ht

theorem guarded_pure (a : α) : Guarded (pure a : Call N F α) := fun _ _ _ _ _ h => h

theorem quiet_pure (a : α) : Quiet (pure a : Call N F α) := fun _ _ _ _ _ h => h

theorem quiet_message (text : String) : Quiet (throw (.message text) : Call N F α) :=
  fun _ _ _ _ _ h => ⟨h, nofun⟩

theorem Guarded.ite {c c' : Call N F α} {p : Prop} [Decidable p] (hc : Guarded c)
    (hc' : Guarded c') : Guarded (if p then c else c') := by
  split
  · exact hc
  · exact hc'

theorem Quiet.ite {c c' : Call N F α} {p : Prop} [Decidable p] (hc : Quiet c) (hc' : Quiet c') :
    Quiet (if p then c else c') := by
  split
  · exact hc
  · exact hc'

theorem guarded_ask (f : Store N F → Answer → α) : Guarded (ask f) :=
  fun _ _ hP _ _ h => ends_ask fun _ _ => hP.note _ _ _ rfl h

theorem guarded_sqlite {f : Store N F → Answer → Store N F × Note N F × Except Failure α}
    (hstore : ∀ s w, ∃ b, (f s w).1 = { s with checkpointBlocked := b })
    (hnote : ∀ s w, Note.isQuiet (f s w).2.1 = true) (hok : ∀ s w, ∃ a, (f s w).2.2 = .ok a) :
    Guarded (sqlite f) := by
  intro A P hP s l h
  apply ends_sqlite
  · intro w _ _ a _
    obtain ⟨b, hb⟩ := hstore s w
    rw [hb]
    exact hP.note _ _ _ (hnote s w) (hP.blocked _ _ _ h)
  · intro w _ _ e he
    obtain ⟨a, ha⟩ := hok s w
    rw [ha] at he
    cases he
  · exact fun w hw hfails => ⟨hP.note _ _ _ rfl h, rfl, w, hw, hfails⟩

theorem guarded_attempt (f : Answer → α) : Guarded (attempt f : Call N F α) :=
  guarded_sqlite (fun s _ => ⟨s.checkpointBlocked, rfl⟩) (fun _ _ => rfl) fun _ w => ⟨f w, rfl⟩

theorem guarded_hasHeadroom (maxBytes minFree : Nat) :
    Guarded (hasHeadroom maxBytes minFree : Call N F Bool) :=
  fun _ _ hP _ _ h => ends_hasHeadroom fun _ => hP.note _ _ _ rfl h

theorem guarded_countBaseline : Guarded (countBaseline : Call N F Nat) :=
  guarded_sqlite (fun s _ => ⟨s.checkpointBlocked, rfl⟩) (fun _ _ => rfl) fun _ _ => ⟨_, rfl⟩

theorem guarded_truncateCheckpoint : Guarded (truncateCheckpoint : Call N F Bool) :=
  guarded_sqlite (fun _ w => ⟨w.busy, rfl⟩) (fun _ _ => rfl) fun _ _ => ⟨_, rfl⟩

theorem guarded_reclaimRows (pages : Nat) : Guarded (reclaimRows pages : Call N F Unit) := by
  induction pages with
  | zero => exact guarded_pure ()
  | succ pages ih =>
    apply Guarded.bind (guarded_ask _)
    intro late
    apply Guarded.ite (guarded_pure ())
    apply Guarded.bind (guarded_attempt _)
    intro more
    exact Guarded.ite ih (guarded_pure ())

theorem guarded_reclaimPages (pages : Nat) : Guarded (reclaimPages pages : Call N F Unit) :=
  Guarded.bind (guarded_attempt _) fun _ => guarded_reclaimRows pages

theorem guarded_checkpointReady : Guarded (checkpointReady : Call N F Bool) := by
  apply Guarded.bind (guarded_ask _)
  intro blocked
  exact Guarded.ite guarded_truncateCheckpoint (guarded_pure true)

section

variable {maxBytes minFree : Nat}

theorem quiet_mayReclaim (pressured : Bool) :
    Quiet (mayReclaim maxBytes minFree pressured : Call N F Bool) := by
  apply Quiet.bind (guarded_ask _).quiet
  intro blocked
  apply Quiet.ite
  · apply Quiet.bind guarded_truncateCheckpoint.quiet
    intro done
    apply Quiet.ite (quiet_pure true)
    apply Quiet.bind (guarded_hasHeadroom _ _).quiet
    intro ok
    exact Quiet.ite (quiet_pure false) (quiet_message _)
  · exact quiet_pure true

theorem guarded_reclaimFree (batches : Nat) :
    Guarded (reclaimFree maxBytes minFree batches : Call N F Unit) := by
  induction batches with
  | zero => exact guarded_pure ()
  | succ batches ih =>
    apply Guarded.bind (guarded_ask _)
    intro late
    apply Guarded.ite (guarded_pure ())
    apply Guarded.bind (guarded_attempt _)
    intro pages
    apply Guarded.ite (guarded_pure ())
    apply Guarded.bind (guarded_reclaimPages 500)
    intro _
    apply Guarded.bind guarded_truncateCheckpoint
    intro done
    apply Guarded.ite _ (guarded_pure ())
    apply Guarded.bind (guarded_hasHeadroom _ _)
    intro ok
    exact Guarded.ite (guarded_pure ()) ih

theorem guarded_reclaimFirst (pressured : Bool) :
    Guarded (reclaimFirst maxBytes minFree pressured : Call N F Unit) :=
  Guarded.ite (guarded_reclaimFree _) (guarded_pure ())

theorem guarded_crowded : Guarded (crowded maxBytes minFree : Call N F Bool) := by
  apply Guarded.bind (guarded_hasHeadroom _ _)
  intro ok
  exact Guarded.ite (guarded_ask _) (guarded_pure true)

theorem guarded_overLimits : Guarded (overLimits maxBytes minFree : Call N F Bool) := by
  apply Guarded.bind guarded_countBaseline
  intro baseline
  apply Guarded.bind (guarded_hasHeadroom _ _)
  intro ok
  exact Guarded.ite (guarded_pure _) (guarded_pure true)

theorem guarded_reclaimEvicted : Guarded (reclaimEvicted : Call N F Unit) := by
  apply Guarded.bind (guarded_ask _)
  intro blocked
  exact Guarded.ite (guarded_pure ()) (guarded_reclaimPages 100)

theorem guarded_lastCheckpoint : Guarded (lastCheckpoint maxBytes minFree : Call N F Unit) := by
  have hwants : Guarded (wantsCheckpoint maxBytes minFree : Call N F Bool) := by
    apply Guarded.bind (guarded_ask _)
    intro full
    apply Guarded.ite (guarded_pure true)
    apply Guarded.bind (guarded_hasHeadroom _ _)
    exact fun ok => guarded_pure _
  apply Guarded.bind hwants
  intro wanted
  apply Guarded.bind (guarded_ask _)
  intro blocked
  apply Guarded.ite _ (guarded_pure ())
  exact Guarded.bind guarded_truncateCheckpoint fun _ => guarded_pure ()

theorem quiet_pruneResult : Quiet (pruneResult maxBytes minFree : Call N F Unit) := by
  apply Quiet.bind (guarded_hasHeadroom _ _).quiet
  intro ok
  apply Quiet.ite (quiet_pure ())
  apply Quiet.bind (guarded_ask _).quiet
  intro blocked
  apply Quiet.ite (quiet_message _)
  apply Quiet.bind (guarded_ask _).quiet
  intro late
  exact Quiet.ite (quiet_message _) (quiet_message _)

end

end SummitFlow.HostArchive
