import SummitFlow.ForStd.Script

/-!
# Rules for programs among others

What a program knows of the state while others run is stable: nothing the others may do makes
it false.  Between stable facts a script is proved step by step.  A step that the program could
have watched another one do keeps every stable fact.
-/

namespace SummitFlow.Script

variable {σ ω ε χ α β : Type} {R : σ → σ → Prop} {G : σ → ε → σ → Prop}

/-- Nothing the others do makes the fact false. -/
def Stable (R : σ → σ → Prop) (P : σ → Prop) : Prop := ∀ s t, R s t → P s → P t

theorem Stable.and {P P' : σ → Prop} (h : Stable R P) (h' : Stable R P') :
    Stable R fun s => P s ∧ P' s :=
  fun s t hst hs => ⟨h s t hst hs.1, h' s t hst hs.2⟩

theorem Stable.exists {P : α → σ → Prop} (h : ∀ a, Stable R (P a)) : Stable R fun s => ∃ a, P a s := by
  intro s t hst hs
  obtain ⟨a, ha⟩ := hs
  exact ⟨a, h a s t hst ha⟩

theorem Stable.imp {P : σ → Prop} (p : Prop) (h : Stable R P) : Stable R fun s => p → P s :=
  fun s t hst hs hp => h s t hst (hs hp)

theorem stable_const (p : Prop) : Stable R fun _ => p := fun _ _ _ => id

/-- From `P`, every step of the script is within the guarantee; it ends with `Q`, or with an
    exception where `E` holds. -/
structure Runs (R : σ → σ → Prop) (G : σ → ε → σ → Prop) (P : σ → Prop) (c : Script σ ω ε χ α)
    (Q : α → σ → Prop) (E : σ → Prop) : Prop where
  safe : ∀ s, P s → Safe R G Q (fun _ => E) c s

section

variable {P E : σ → Prop} {Q : α → σ → Prop}

theorem runs_pure (hP : Stable R P) {a : α} (h : ∀ s, P s → Q a s) :
    Runs R G P (pure a : Script σ ω ε χ α) Q E :=
  ⟨fun s hs t hst => h t (hP s t hst hs)⟩

theorem runs_throw (hP : Stable R P) {e : χ} (h : ∀ s, P s → E s) :
    Runs R G P (throw e : Script σ ω ε χ α) Q E :=
  ⟨fun s hs t hst => h t (hP s t hst hs)⟩

theorem Runs.bind (hrefl : ∀ s, R s s) {Q' : β → σ → Prop} {c : Script σ ω ε χ α}
    {k : α → Script σ ω ε χ β} (h : Runs R G P c Q E) (hk : ∀ a, Runs R G (Q a) (k a) Q' E) :
    Runs R G P (c >>= k) Q' E :=
  ⟨fun s hs => Safe.bind hrefl (h.safe s hs) fun a t ha => (hk a).safe t ha⟩

theorem Runs.mono {P' E' : σ → Prop} {Q' : α → σ → Prop} {c : Script σ ω ε χ α} (h : Runs R G P c Q E)
    (hP : ∀ s, P' s → P s) (hQ : ∀ a s, Q a s → Q' a s) (hE : ∀ s, E s → E' s) :
    Runs R G P' c Q' E' :=
  ⟨fun s hs => Safe.mono hQ (fun _ => hE) (h.safe s (hP s hs))⟩

/-- A fact that does not speak of the state is there for the whole script. -/
theorem runs_const {p : Prop} {c : Script σ ω ε χ α} (h : p → Runs R G P c Q E) :
    Runs R G (fun s => P s ∧ p) c Q E :=
  ⟨fun s hs => (h hs.2).safe s hs.1⟩

theorem runs_tryCatch (hrefl : ∀ s, R s s) {F : σ → Prop} {c : Script σ ω ε χ α}
    {handler : χ → Script σ ω ε χ α} (h : Runs R G P c Q F)
    (hhandler : ∀ e, Runs R G F (handler e) Q E) : Runs R G P (Script.tryCatch c handler) Q E :=
  ⟨fun s hs => Safe.tryCatch hrefl (h.safe s hs) fun e t ht => (hhandler e).safe t ht⟩

theorem runs_catching (hrefl : ∀ s, R s s) {χ' : Type} {F : σ → Prop} {c : Script σ ω ε χ α}
    {handler : χ → Script σ ω ε χ' α} (h : Runs R G P c Q F)
    (hhandler : ∀ e, Runs R G F (handler e) Q E) : Runs R G P (Script.catching c handler) Q E :=
  ⟨fun s hs => Safe.catching hrefl (h.safe s hs) fun e t ht => (hhandler e).safe t ht⟩

/-- `last` runs from what the script ends with, either way. -/
theorem runs_andFinally (hrefl : ∀ s, R s s) {Q' : α → σ → Prop} {F : σ → Prop}
    (hQ : ∀ a, Stable R (Q a)) (hE : Stable R E) {c : Script σ ω ε χ α} {last : Script σ ω ε χ Unit}
    (h : Runs R G P c Q' F) (hdone : ∀ a, Runs R G (Q' a) last (fun _ => Q a) E)
    (hraise : Runs R G F last (fun _ => E) E) : Runs R G P (c.andFinally last) Q E :=
  ⟨fun s hs => Safe.andFinally hrefl (fun a s t hst => hQ a s t hst) (fun _ s t hst => hE s t hst)
    (h.safe s hs) (fun a t ha => (hdone a).safe t ha) fun _ t ht => hraise.safe t ht⟩

/-- An action from a stable fact, into stable facts. -/
theorem runs_action (hP : Stable R P) (hQ : ∀ a, Stable R (Q a)) (hE : Stable R E)
    {f : σ → ω → σ × ε × Except χ α}
    (h : ∀ s w, P s → G s (f s w).2.1 (f s w).1 ∧ (∀ a, (f s w).2.2 = .ok a → Q a (f s w).1) ∧
      ∀ e, (f s w).2.2 = .error e → E (f s w).1) : Runs R G P (action f) Q E where
  safe := by
    intro s hs
    apply safe_action
    intro t hst w
    obtain ⟨hG, hok, herror⟩ := h t w (hP s t hst hs)
    refine ⟨hG, fun u hu => ⟨fun a ha => ?_, fun e he => ?_⟩⟩
    · exact hQ a _ u hu (hok a ha)
    · exact hE _ u hu (herror e he)

end

/-- A script that keeps whatever is stable. -/
def Quiet (R : σ → σ → Prop) (G : σ → ε → σ → Prop) (c : Script σ ω ε χ α) : Prop :=
  ∀ P, Stable R P → Runs R G P c (fun _ => P) P

theorem quiet_pure (a : α) : Quiet R G (pure a : Script σ ω ε χ α) :=
  fun _ hP => runs_pure hP fun _ => id

theorem quiet_throw (e : χ) : Quiet R G (throw e : Script σ ω ε χ α) :=
  fun _ hP => runs_throw hP fun _ => id

theorem Quiet.bind (hrefl : ∀ s, R s s) {c : Script σ ω ε χ α} {k : α → Script σ ω ε χ β}
    (h : Quiet R G c) (hk : ∀ a, Quiet R G (k a)) : Quiet R G (c >>= k) :=
  fun P hP => (h P hP).bind hrefl fun a => hk a P hP

theorem Quiet.tryCatch (hrefl : ∀ s, R s s) {c : Script σ ω ε χ α} {handler : χ → Script σ ω ε χ α}
    (h : Quiet R G c) (hhandler : ∀ e, Quiet R G (handler e)) : Quiet R G (Script.tryCatch c handler) :=
  fun P hP => runs_tryCatch hrefl (h P hP) fun e => hhandler e P hP

/-- Every change is one that another program could have made. -/
theorem quiet_action {f : σ → ω → σ × ε × Except χ α}
    (h : ∀ s w, R s (f s w).1 ∧ G s (f s w).2.1 (f s w).1) : Quiet R G (action f) := by
  intro P hP
  apply runs_action hP (fun _ => hP) hP
  intro s w hs
  have hafter := hP _ _ (h s w).1 hs
  exact ⟨(h s w).2, fun _ _ => hafter, fun _ _ => hafter⟩

end SummitFlow.Script
