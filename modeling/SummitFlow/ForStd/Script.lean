import Mathlib.Logic.Function.Basic
import SummitFlow.ForStd.Run

/-!
# Programs that share a state

A script is a program as the sequence of its atomic actions on a shared state: an action
sees the state and what the world answers, changes the state and says what it did.  What
comes next may depend on both.  A script ends with a value or an exception, and may be cut
short between any two actions.

A script is safe within a rely and a guarantee when each of its actions is within the
guarantee as long as what the others do is within the rely.  Safety composes along the
script, so a program is proved action by action; and any number of programs, each safe
within what the others guarantee, run safely together in every order, with crashes.
-/

namespace SummitFlow

/-- A program over a state `σ`: `ω` is what the world answers to an action, `ε` what an
    action says it did, `χ` are the exceptions. -/
inductive Script (σ ω ε χ α : Type) : Type
  | done (a : α)
  | raise (e : χ)
  | act (change : σ → ω → σ × ε) (next : σ → ω → Script σ ω ε χ α)

namespace Script

variable {σ ω ε χ α β : Type}

/-- One action. -/
def action (f : σ → ω → σ × ε × Except χ α) : Script σ ω ε χ α :=
  .act (fun s w => ((f s w).1, (f s w).2.1)) fun s w =>
    match (f s w).2.2 with
    | .ok a => .done a
    | .error e => .raise e

protected def bind : Script σ ω ε χ α → (α → Script σ ω ε χ β) → Script σ ω ε χ β
  | .done a, k => k a
  | .raise e, _ => .raise e
  | .act f next, k => .act f fun s w => (next s w).bind k

protected def tryCatch : Script σ ω ε χ α → (χ → Script σ ω ε χ α) → Script σ ω ε χ α
  | .done a, _ => .done a
  | .raise e, handler => handler e
  | .act f next, handler => .act f fun s w => (next s w).tryCatch handler

/-- A handler whose exceptions are of another type. -/
def catching {χ' : Type} : Script σ ω ε χ α → (χ → Script σ ω ε χ' α) → Script σ ω ε χ' α
  | .done a, _ => .done a
  | .raise e, handler => handler e
  | .act f next, handler => .act f fun s w => (next s w).catching handler

instance : Monad (Script σ ω ε χ) where
  pure := .done
  bind := .bind

instance : MonadExcept χ (Script σ ω ε χ) where
  throw := .raise
  tryCatch := .tryCatch

/-- `try`/`finally`: the last action runs whether or not there was an exception. -/
def andFinally (c : Script σ ω ε χ α) (last : Script σ ω ε χ Unit) : Script σ ω ε χ α :=
  (tryCatch c fun e => last >>= fun _ => .raise e) >>= fun a => last >>= fun _ => pure a

/-! ## One program alone -/

/-- The program runs alone; `world` answers its actions in turn. -/
def exec : Script σ ω ε χ α → σ → (Nat → ω) → σ × Except χ α
  | .done a, s, _ => (s, .ok a)
  | .raise e, s, _ => (s, .error e)
  | .act f next, s, world => (next s (world 0)).exec (f s (world 0)).1 fun n => world (n + 1)

/-! ## Safety -/

/-- While the others stay within `R`, every action of the script is within `G`; where it
    ends, `Q` holds of its value, or `E` of its exception. -/
def Safe (R : σ → σ → Prop) (G : σ → ε → σ → Prop) (Q : α → σ → Prop) (E : χ → σ → Prop) :
    Script σ ω ε χ α → σ → Prop
  | .done a, s => ∀ t, R s t → Q a t
  | .raise e, s => ∀ t, R s t → E e t
  | .act f next, s => ∀ t, R s t → ∀ w,
      G t (f t w).2 (f t w).1 ∧ Safe R G Q E (next t w) (f t w).1

section

variable {R : σ → σ → Prop} {G : σ → ε → σ → Prop} {Q : α → σ → Prop} {E : χ → σ → Prop}

theorem Safe.stable (htrans : ∀ s t u, R s t → R t u → R s u) {c : Script σ ω ε χ α} {s t : σ}
    (h : Safe R G Q E c s) (hst : R s t) : Safe R G Q E c t := by
  cases c with
  | done a => exact fun u hu => h u (htrans _ _ _ hst hu)
  | raise e => exact fun u hu => h u (htrans _ _ _ hst hu)
  | act f next => exact fun u hu => h u (htrans _ _ _ hst hu)

theorem Safe.mono {Q' : α → σ → Prop} {E' : χ → σ → Prop} (hQ : ∀ a s, Q a s → Q' a s)
    (hE : ∀ e s, E e s → E' e s) {c : Script σ ω ε χ α} {s : σ} (h : Safe R G Q E c s) :
    Safe R G Q' E' c s := by
  induction c generalizing s with
  | done a => exact fun t ht => hQ a t (h t ht)
  | raise e => exact fun t ht => hE e t (h t ht)
  | act f next ih => exact fun t ht w => ⟨(h t ht w).1, ih t w (h t ht w).2⟩

theorem Safe.bind {Q' : β → σ → Prop} (hrefl : ∀ s, R s s) {c : Script σ ω ε χ α}
    {k : α → Script σ ω ε χ β} {s : σ} (h : Safe R G Q E c s)
    (hk : ∀ a t, Q a t → Safe R G Q' E (k a) t) : Safe R G Q' E (c >>= k) s := by
  induction c generalizing s with
  | done a => exact hk a s (h s (hrefl s))
  | raise e => exact h
  | act f next ih => exact fun t ht w => ⟨(h t ht w).1, ih t w (h t ht w).2⟩

theorem Safe.tryCatch {F : χ → σ → Prop} (hrefl : ∀ s, R s s) {c : Script σ ω ε χ α}
    {handler : χ → Script σ ω ε χ α} {s : σ} (h : Safe R G Q F c s)
    (hhandler : ∀ e t, F e t → Safe R G Q E (handler e) t) :
    Safe R G Q E (Script.tryCatch c handler) s := by
  induction c generalizing s with
  | done a => exact h
  | raise e => exact hhandler e s (h s (hrefl s))
  | act f next ih => exact fun t ht w => ⟨(h t ht w).1, ih t w (h t ht w).2⟩

theorem Safe.catching {χ' : Type} {E' : χ' → σ → Prop} (hrefl : ∀ s, R s s) {c : Script σ ω ε χ α}
    {handler : χ → Script σ ω ε χ' α} {s : σ} (h : Safe R G Q E c s)
    (hhandler : ∀ e t, E e t → Safe R G Q E' (handler e) t) :
    Safe R G Q E' (c.catching handler) s := by
  induction c generalizing s with
  | done a => exact h
  | raise e => exact hhandler e s (h s (hrefl s))
  | act f next ih => exact fun t ht w => ⟨(h t ht w).1, ih t w (h t ht w).2⟩

/-- An action: its change is within the guarantee, and whatever the others do next, what it
    returned holds. -/
theorem safe_action {f : σ → ω → σ × ε × Except χ α} {s : σ}
    (h : ∀ t, R s t → ∀ w, G t (f t w).2.1 (f t w).1 ∧ ∀ u, R (f t w).1 u →
      (∀ a, (f t w).2.2 = .ok a → Q a u) ∧ ∀ e, (f t w).2.2 = .error e → E e u) :
    Safe R G Q E (action f) s := by
  intro t ht w
  obtain ⟨hG, hpost⟩ := h t ht w
  refine ⟨hG, ?_⟩
  cases hresult : (f t w).2.2 with
  | ok a =>
    show Safe R G Q E (match (f t w).2.2 with | .ok a => .done a | .error e => .raise e) _
    rw [hresult]
    exact fun u hu => (hpost u hu).1 a hresult
  | error e =>
    show Safe R G Q E (match (f t w).2.2 with | .ok a => .done a | .error e => .raise e) _
    rw [hresult]
    exact fun u hu => (hpost u hu).2 e hresult

/-- `last` runs after either end, and keeps what there was to say of it. -/
theorem Safe.andFinally (hrefl : ∀ s, R s s) (hQ : ∀ a s t, R s t → Q a s → Q a t)
    (hE : ∀ e s t, R s t → E e s → E e t) {Q' : α → σ → Prop} {E' : χ → σ → Prop}
    {c : Script σ ω ε χ α} {last : Script σ ω ε χ Unit} {s : σ} (h : Safe R G Q' E' c s)
    (hdone : ∀ a t, Q' a t → Safe R G (fun _ => Q a) E last t)
    (hraise : ∀ e t, E' e t → Safe R G (fun _ => E e) E last t) :
    Safe R G Q E (c.andFinally last) s := by
  have hcaught : Safe R G Q' E (Script.tryCatch c fun e => last >>= fun _ => .raise e) s := by
    apply Safe.tryCatch hrefl h
    intro e t he
    apply Safe.bind hrefl (hraise e t he)
    exact fun _ u hu v huv => hE e u v huv hu
  apply Safe.bind hrefl hcaught
  intro a t ha
  apply Safe.bind hrefl (hdone a t ha)
  exact fun _ u hu v huv => hQ a u v huv hu

end

/-! ## What a script keeps -/

/-- The script is safe from every state with `P`, and leaves one however it ends. -/
structure Keeps (R : σ → σ → Prop) (G : σ → ε → σ → Prop) (P : σ → Prop) (c : Script σ ω ε χ α) :
    Prop where
  safe : ∀ s, P s → Safe R G (fun _ => P) (fun _ => P) c s

/-- From a state with `P`, what it returns is `Q`; of an exception nothing is said. -/
structure Passes (R : σ → σ → Prop) (G : σ → ε → σ → Prop) (P : σ → Prop) (c : Script σ ω ε χ α)
    (Q : α → σ → Prop) : Prop where
  safe : ∀ s, P s → Safe R G Q (fun _ _ => True) c s

section

variable {R : σ → σ → Prop} {G : σ → ε → σ → Prop} {P : σ → Prop}

theorem keeps_pure (hstable : ∀ s t, P s → R s t → P t) (a : α) :
    Keeps R G P (pure a : Script σ ω ε χ α) := ⟨fun _ hs _ ht => hstable _ _ hs ht⟩

theorem keeps_throw (hstable : ∀ s t, P s → R s t → P t) (e : χ) :
    Keeps R G P (throw e : Script σ ω ε χ α) := ⟨fun _ hs _ ht => hstable _ _ hs ht⟩

theorem keeps_action (hstable : ∀ s t, P s → R s t → P t) {f : σ → ω → σ × ε × Except χ α}
    (h : ∀ s w, P s → G s (f s w).2.1 (f s w).1 ∧ P (f s w).1) : Keeps R G P (action f) where
  safe := by
    intro s hs
    apply safe_action
    intro t ht w
    obtain ⟨hG, hP⟩ := h t w (hstable _ _ hs ht)
    refine ⟨hG, fun u hu => ⟨?_, ?_⟩⟩
    · exact fun _ _ => hstable _ _ hP hu
    · exact fun _ _ => hstable _ _ hP hu

theorem Keeps.bind (hrefl : ∀ s, R s s) {c : Script σ ω ε χ α} {k : α → Script σ ω ε χ β}
    (h : Keeps R G P c) (hk : ∀ a, Keeps R G P (k a)) : Keeps R G P (c >>= k) :=
  ⟨fun s hs => Safe.bind hrefl (h.safe s hs) fun a t ht => (hk a).safe t ht⟩

theorem Keeps.tryCatch (hrefl : ∀ s, R s s) {c : Script σ ω ε χ α}
    {handler : χ → Script σ ω ε χ α} (h : Keeps R G P c) (hhandler : ∀ e, Keeps R G P (handler e)) :
    Keeps R G P (Script.tryCatch c handler) :=
  ⟨fun s hs => Safe.tryCatch hrefl (h.safe s hs) fun e t ht => (hhandler e).safe t ht⟩

theorem Keeps.passes {c : Script σ ω ε χ α} (h : Keeps R G P c) : Passes R G P c fun _ => P :=
  ⟨fun s hs => (h.safe s hs).mono (fun _ _ => id) fun _ _ _ => trivial⟩

theorem passes_throw (e : χ) (Q : α → σ → Prop) :
    Passes R G P (throw e : Script σ ω ε χ α) Q := ⟨fun _ _ _ _ => trivial⟩

theorem Passes.bind (hrefl : ∀ s, R s s) {Q : α → σ → Prop} {Q' : β → σ → Prop}
    {c : Script σ ω ε χ α} {k : α → Script σ ω ε χ β} (h : Passes R G P c Q)
    (hk : ∀ a, Passes R G (Q a) (k a) Q') : Passes R G P (c >>= k) Q' :=
  ⟨fun s hs => Safe.bind hrefl (h.safe s hs) fun a t ht => (hk a).safe t ht⟩

/-- A handler that starts from what the body keeps. -/
theorem Keeps.handled (hrefl : ∀ s, R s s) {c : Script σ ω ε χ α} {handler : χ → Script σ ω ε χ α}
    (h : Keeps R G P c) (hhandler : ∀ e, Passes R G P (handler e) fun _ => P) :
    Passes R G P (Script.tryCatch c handler) fun _ => P where
  safe := by
    intro s hs
    apply Safe.tryCatch hrefl ((h.safe s hs).mono (fun _ _ => id) fun _ _ => id)
    exact fun e t ht => (hhandler e).safe t ht

/-- A handler that starts from anywhere. -/
theorem Passes.tryCatch (hrefl : ∀ s, R s s) {Q : α → σ → Prop} {c : Script σ ω ε χ α}
    {handler : χ → Script σ ω ε χ α} (h : Passes R G P c Q)
    (hhandler : ∀ e, Passes R G (fun _ => True) (handler e) Q) :
    Passes R G P (Script.tryCatch c handler) Q :=
  ⟨fun s hs => Safe.tryCatch hrefl (h.safe s hs) fun e t _ => (hhandler e).safe t trivial⟩

theorem passes_pure {Q : α → σ → Prop} (hstable : ∀ a s t, Q a s → R s t → Q a t) {a : α}
    (h : ∀ s, P s → Q a s) : Passes R G P (pure a : Script σ ω ε χ α) Q :=
  ⟨fun s hs _ ht => hstable a s _ (h s hs) ht⟩

/-- With less asked and more known. -/
theorem Passes.weaken {P' : σ → Prop} {Q Q' : α → σ → Prop} {c : Script σ ω ε χ α}
    (h : Passes R G P c Q) (hP : ∀ s, P' s → P s) (hQ : ∀ a s, Q a s → Q' a s) :
    Passes R G P' c Q' :=
  ⟨fun s hs => (h.safe s (hP s hs)).mono hQ fun _ _ => id⟩

end

/-! ## One program alone -/

/-- Wherever the script ends when it runs alone, `Q` holds of its value, or `E` of its
    exception. -/
def Holds (Q : α → σ → Prop) (E : χ → σ → Prop) (c : Script σ ω ε χ α) (s : σ) : Prop :=
  Safe (· = ·) (fun _ _ _ => True) Q E c s

section

variable {Q : α → σ → Prop} {E : χ → σ → Prop} {s : σ}

theorem holds_pure {a : α} (h : Q a s) : Holds Q E (pure a : Script σ ω ε χ α) s :=
  fun _ ht => ht ▸ h

theorem holds_throw {e : χ} (h : E e s) : Holds Q E (throw e : Script σ ω ε χ α) s :=
  fun _ ht => ht ▸ h

theorem holds_action {f : σ → ω → σ × ε × Except χ α}
    (hok : ∀ w a, (f s w).2.2 = .ok a → Q a (f s w).1)
    (herror : ∀ w e, (f s w).2.2 = .error e → E e (f s w).1) : Holds Q E (action f) s := by
  apply safe_action
  rintro t rfl w
  refine ⟨trivial, ?_⟩
  rintro u rfl
  exact ⟨hok w, herror w⟩

theorem Holds.mono {Q' : α → σ → Prop} {E' : χ → σ → Prop} (hQ : ∀ a t, Q a t → Q' a t)
    (hE : ∀ e t, E e t → E' e t) {c : Script σ ω ε χ α} (h : Holds Q E c s) : Holds Q' E' c s :=
  Safe.mono hQ hE h

theorem Holds.bind {Q' : β → σ → Prop} {c : Script σ ω ε χ α} {k : α → Script σ ω ε χ β}
    (h : Holds Q E c s) (hk : ∀ a t, Q a t → Holds Q' E (k a) t) : Holds Q' E (c >>= k) s :=
  Safe.bind (fun _ => rfl) h hk

theorem Holds.tryCatch {F : χ → σ → Prop} {c : Script σ ω ε χ α}
    {handler : χ → Script σ ω ε χ α} (h : Holds Q F c s)
    (hhandler : ∀ e t, F e t → Holds Q E (handler e) t) :
    Holds Q E (Script.tryCatch c handler) s :=
  Safe.tryCatch (fun _ => rfl) h hhandler

theorem Holds.andFinally {Q' : α → σ → Prop} {E' : χ → σ → Prop} {c : Script σ ω ε χ α}
    {last : Script σ ω ε χ Unit} (h : Holds Q' E' c s)
    (hdone : ∀ a t, Q' a t → Holds (fun _ => Q a) E last t)
    (hraise : ∀ e t, E' e t → Holds (fun _ => E e) E last t) :
    Holds Q E (c.andFinally last) s :=
  Safe.andFinally (fun _ => rfl) (fun _ _ _ heq hq => heq ▸ hq) (fun _ _ _ heq he => heq ▸ he) h
    hdone hraise

theorem Holds.exec {c : Script σ ω ε χ α} (h : Holds Q E c s) (world : Nat → ω) :
    (∀ a, (c.exec s world).2 = .ok a → Q a (c.exec s world).1) ∧
      ∀ e, (c.exec s world).2 = .error e → E e (c.exec s world).1 := by
  induction c generalizing s world with
  | done a =>
    refine ⟨?_, nofun⟩
    intro b hb
    obtain rfl := Except.ok.inj hb
    exact h s rfl
  | raise e =>
    refine ⟨nofun, ?_⟩
    intro e' he
    obtain rfl := Except.error.inj he
    exact h s rfl
  | act f next ih => exact ih s (world 0) (h s rfl (world 0)).2 fun n => world (n + 1)

/-- However it ends. -/
theorem Holds.after {P : σ → Prop} {c : Script σ ω ε χ α} (h : Holds (fun _ => P) (fun _ => P) c s)
    (world : Nat → ω) : P (c.exec s world).1 := by
  obtain ⟨hok, herror⟩ := h.exec world
  cases hresult : (c.exec s world).2 with
  | ok a => exact hok a hresult
  | error e => exact herror e hresult

end

end Script

/-! ## Programs together -/

/-- The programs that run, by process number; numbers from `next` on are unused. -/
structure System (σ ω ε χ : Type) where
  state : σ
  threads : Nat → Option (Script σ ω ε χ Unit)
  next : Nat

/-- A call starts in a process of its own, a process does its next action, or it dies. -/
inductive SystemEvent (κ ω : Type) where
  | start (call : κ)
  | step (pid : Nat) (w : ω)
  | crash (pid : Nat)

namespace System

variable {σ ω ε χ κ : Type}

/-- Nothing runs. -/
def idle (s : σ) : System σ ω ε χ := ⟨s, fun _ => none, 0⟩

section

variable (program : κ → Nat → Script σ ω ε χ Unit) (exit : Nat → σ → σ)

/-- One event; `exit` is what the host does to the state when a process dies. -/
def step (sys : System σ ω ε χ) : SystemEvent κ ω → System σ ω ε χ
  | .start call => {
      state := sys.state
      threads := Function.update sys.threads sys.next (some (program call sys.next))
      next := sys.next + 1 }
  | .step pid w =>
    match sys.threads pid with
    | some (.act f next) => {
        state := (f sys.state w).1
        threads := Function.update sys.threads pid (some (next sys.state w))
        next := sys.next }
    | _ => sys
  | .crash pid =>
    match sys.threads pid with
    | some _ => {
        state := exit pid sys.state
        threads := Function.update sys.threads pid none
        next := sys.next }
    | none => sys

end

/-- What an action of a process says it does, when it has one to do. -/
def effect (sys : System σ ω ε χ) (pid : Nat) (w : ω) : Option ε :=
  match sys.threads pid with
  | some (.act f _) => some (f sys.state w).2
  | _ => none

section

variable {R : Nat → σ → σ → Prop} {G : Nat → σ → ε → σ → Prop} {Ready : Nat → σ → Prop}
variable {program : κ → Nat → Script σ ω ε χ Unit} {exit : Nat → σ → σ}

/-- Rely and guarantee of each process, and where its program may start. -/
structure Protocol (program : κ → Nat → Script σ ω ε χ Unit) (exit : Nat → σ → σ)
    (R : Nat → σ → σ → Prop) (G : Nat → σ → ε → σ → Prop) (Ready : Nat → σ → Prop) : Prop where
  refl : ∀ i s, R i s s
  trans : ∀ i s t u, R i s t → R i t u → R i s u
  others : ∀ i j s l t, i ≠ j → G i s l t → R j s t
  exits : ∀ i j s, i ≠ j → R j s (exit i s)
  stays : ∀ i s t, R i s t → Ready i s → Ready i t
  starts : ∀ call i s, Ready i s →
    (program call i).Safe (R i) (G i) (fun _ _ => True) (fun _ _ => True) s

/-- Every process is safe from here on, and the unused numbers may start. -/
structure Secure (R : Nat → σ → σ → Prop) (G : Nat → σ → ε → σ → Prop) (Ready : Nat → σ → Prop)
    (sys : System σ ω ε χ) : Prop where
  safe : ∀ i c, sys.threads i = some c →
    c.Safe (R i) (G i) (fun _ _ => True) (fun _ _ => True) sys.state
  ready : ∀ i, sys.next ≤ i → sys.threads i = none ∧ Ready i sys.state

theorem secure_idle {s : σ} (h : ∀ i, Ready i s) :
    Secure R G Ready (idle s : System σ ω ε χ) where
  safe := nofun
  ready := fun i _ => ⟨rfl, h i⟩

/-- The action of a process. -/
theorem step_thread {sys : System σ ω ε χ} {pid : Nat} {f : σ → ω → σ × ε}
    {next : σ → ω → Script σ ω ε χ Unit} (h : sys.threads pid = some (.act f next)) (w : ω) :
    step program exit sys (.step pid w) = {
      state := (f sys.state w).1
      threads := Function.update sys.threads pid (some (next sys.state w))
      next := sys.next } := by
  simp only [step, h]

/-- A process that ended, or is not there, does nothing. -/
theorem step_of_effect_none {sys : System σ ω ε χ} {pid : Nat} {w : ω} (h : sys.effect pid w = none) :
    step program exit sys (.step pid w) = sys := by
  unfold effect at h
  unfold step
  dsimp only
  split
  · next hthread =>
    rw [hthread] at h
    cases h
  · rfl

/-- An action is within the guarantee. -/
theorem Secure.guarantees (hp : Protocol program exit R G Ready) {sys : System σ ω ε χ}
    (h : Secure R G Ready sys) {pid : Nat} {w : ω} {l : ε} (hl : sys.effect pid w = some l) :
    G pid sys.state l (step program exit sys (.step pid w)).state := by
  cases hthread : sys.threads pid with
  | none =>
    rw [effect, hthread] at hl
    cases hl
  | some c =>
    cases c with
    | done a =>
      rw [effect, hthread] at hl
      cases hl
    | raise e =>
      rw [effect, hthread] at hl
      cases hl
    | act f next =>
      rw [effect, hthread] at hl
      obtain rfl := Option.some.inj hl
      rw [step_thread hthread]
      exact (h.safe pid _ hthread sys.state (hp.refl _ _) w).1

/-- What an event does to the other processes and to the state they rely on. -/
theorem step_relies (hp : Protocol program exit R G Ready) {sys : System σ ω ε χ}
    (h : Secure R G Ready sys) (event : SystemEvent κ ω) (j : Nat)
    (hother : ∀ w, event ≠ .step j w) (hcrash : event ≠ .crash j) :
    R j sys.state (step program exit sys event).state := by
  cases event with
  | start call => exact hp.refl _ _
  | step pid w =>
    have hne : pid ≠ j := fun heq => hother w (heq ▸ rfl)
    cases hl : sys.effect pid w with
    | none =>
      rw [step_of_effect_none hl]
      exact hp.refl _ _
    | some l => exact hp.others pid j _ l _ hne (h.guarantees hp hl)
  | crash pid =>
    have hne : pid ≠ j := fun heq => hcrash (heq ▸ rfl)
    unfold step
    dsimp only
    split
    · exact hp.exits pid j _ hne
    · exact hp.refl _ _

/-- A process stays as it is unless it starts, acts or dies. -/
theorem threads_step_of_other {sys : System σ ω ε χ} {event : SystemEvent κ ω} {i : Nat}
    (hstart : ∀ call, event = .start call → i ≠ sys.next) (hown : ∀ w, event ≠ .step i w)
    (hcrash : event ≠ .crash i) : (step program exit sys event).threads i = sys.threads i := by
  unfold step
  cases event with
  | start call => exact Function.update_of_ne (hstart call rfl) _ _
  | step pid w =>
    have hne : i ≠ pid := fun heq => hown w (heq ▸ rfl)
    dsimp only
    split
    · exact Function.update_of_ne hne _ _
    · rfl
  | crash pid =>
    have hne : i ≠ pid := fun heq => hcrash (heq ▸ rfl)
    dsimp only
    split
    · exact Function.update_of_ne hne _ _
    · rfl

/-- A process that is safe with a postcondition stays so, and does its own actions within
    its guarantee. -/
theorem safe_step (hp : Protocol program exit R G Ready) {sys : System σ ω ε χ}
    (h : Secure R G Ready sys) {event : SystemEvent κ ω} {i : Nat} {Q : Unit → σ → Prop}
    {E : χ → σ → Prop} {c : Script σ ω ε χ Unit} (hi : i < sys.next)
    (hthread : sys.threads i = some c) (hc : c.Safe (R i) (G i) Q E sys.state)
    (hcrash : event ≠ .crash i) :
    ∃ c', (step program exit sys event).threads i = some c' ∧
      c'.Safe (R i) (G i) Q E (step program exit sys event).state := by
  by_cases hown : ∃ w, event = .step i w
  · obtain ⟨w, rfl⟩ := hown
    cases c with
    | done a =>
      have hnone : sys.effect i w = none := by rw [effect, hthread]
      rw [step_of_effect_none hnone]
      exact ⟨_, hthread, hc⟩
    | raise e =>
      have hnone : sys.effect i w = none := by rw [effect, hthread]
      rw [step_of_effect_none hnone]
      exact ⟨_, hthread, hc⟩
    | act f next =>
      rw [step_thread hthread]
      exact ⟨_, Function.update_self .., (hc sys.state (hp.refl _ _) w).2⟩
  · have hrelies := step_relies hp h event i (fun w heq => hown ⟨w, heq⟩) hcrash
    have hsafe := hc.stable (hp.trans i) hrelies
    refine ⟨c, ?_, hsafe⟩
    rw [threads_step_of_other (fun _ _ => Nat.ne_of_lt hi) (fun w heq => hown ⟨w, heq⟩) hcrash]
    exact hthread

theorem Secure.lt_next {sys : System σ ω ε χ} (h : Secure R G Ready sys) {i : Nat}
    {c : Script σ ω ε χ Unit} (hthread : sys.threads i = some c) : i < sys.next := by
  by_contra hge
  rw [(h.ready i (Nat.not_lt.mp hge)).1] at hthread
  cases hthread

/-- A process after an event started with it, or was there before. -/
theorem threads_step {sys : System σ ω ε χ} {event : SystemEvent κ ω} {i : Nat}
    {c : Script σ ω ε χ Unit} (h : (step program exit sys event).threads i = some c) :
    (i = sys.next ∧ ∃ call, event = .start call ∧ c = program call i) ∨
      (event ≠ .crash i ∧ ∃ c₀, sys.threads i = some c₀) := by
  cases hthread : sys.threads i with
  | some c₀ =>
    refine .inr ⟨?_, c₀, rfl⟩
    rintro rfl
    simp only [step, hthread, Function.update_self] at h
    cases h
  | none =>
    by_cases hstart : i = sys.next ∧ ∃ call, event = .start call
    · obtain ⟨rfl, call, rfl⟩ := hstart
      refine .inl ⟨rfl, call, rfl, ?_⟩
      simp only [step, Function.update_self] at h
      exact (Option.some.inj h).symm
    · -- nothing that is not there acts or dies
      have hsame : (step program exit sys event).threads i = sys.threads i := by
        cases event with
        | start call =>
          exact threads_step_of_other (fun _ _ heq => hstart ⟨heq, call, rfl⟩) nofun nofun
        | step pid w =>
          by_cases hi : pid = i
          · subst hi
            rw [step_of_effect_none (by rw [effect, hthread])]
          · exact threads_step_of_other nofun (fun _ heq => hi (SystemEvent.step.inj heq).1) nofun
        | crash pid =>
          by_cases hi : pid = i
          · subst hi
            simp only [step, hthread]
          · exact threads_step_of_other nofun nofun fun heq => hi (SystemEvent.crash.inj heq)
      rw [hsame, hthread] at h
      cases h

theorem next_step (sys : System σ ω ε χ) (event : SystemEvent κ ω) :
    (step program exit sys event).next = sys.next ∨
      (step program exit sys event).next = sys.next + 1 := by
  unfold step
  cases event with
  | start call => exact .inr rfl
  | step pid w =>
    dsimp only
    split
    · exact .inl rfl
    · exact .inl rfl
  | crash pid =>
    dsimp only
    split
    · exact .inl rfl
    · exact .inl rfl

/-- The state stays within what an unused number relies on. -/
theorem relies_unused (hp : Protocol program exit R G Ready) {sys : System σ ω ε χ}
    (h : Secure R G Ready sys) (event : SystemEvent κ ω) {i : Nat} (hi : sys.next ≤ i) :
    R i sys.state (step program exit sys event).state := by
  have hnone := (h.ready i hi).1
  by_cases hown : (∃ w, event = .step i w) ∨ event = .crash i
  · have hsame : step program exit sys event = sys := by
      rcases hown with ⟨w, rfl⟩ | rfl
      · exact step_of_effect_none (by rw [effect, hnone])
      · simp only [step, hnone]
    rw [hsame]
    exact hp.refl _ _
  · rw [not_or] at hown
    exact step_relies hp h event i (fun w heq => hown.1 ⟨w, heq⟩) hown.2

theorem Secure.step (hp : Protocol program exit R G Ready) {sys : System σ ω ε χ}
    (h : Secure R G Ready sys) (event : SystemEvent κ ω) :
    Secure R G Ready (step program exit sys event) where
  safe := by
    intro i c hc
    rcases threads_step hc with ⟨rfl, call, rfl, rfl⟩ | ⟨hcrash, c₀, hc₀⟩
    · exact hp.starts call _ _ (h.ready _ (Nat.le_refl _)).2
    · obtain ⟨c', hc', hsafe⟩ := safe_step hp h (h.lt_next hc₀) hc₀ (h.safe i c₀ hc₀) hcrash
      rw [hc] at hc'
      obtain rfl := Option.some.inj hc'
      exact hsafe
  ready := by
    intro i hi
    have hle : sys.next ≤ i := by
      rcases @next_step σ ω ε χ κ program exit sys event with hnext | hnext
      · omega
      · omega
    refine ⟨?_, hp.stays i _ _ (relies_unused hp h event hle) (h.ready i hle).2⟩
    cases hthread : (System.step program exit sys event).threads i with
    | none => rfl
    | some c =>
      rcases threads_step hthread with ⟨rfl, call, rfl, -⟩ | ⟨-, c₀, hc₀⟩
      · exact absurd hi (by simp [System.step])
      · rw [(h.ready i hle).1] at hc₀
        cases hc₀

theorem Secure.run (hp : Protocol program exit R G Ready) {sys : System σ ω ε χ}
    (h : Secure R G Ready sys) (events : List (SystemEvent κ ω)) :
    Secure R G Ready (SummitFlow.run (System.step program exit) sys events) :=
  run_invariant (fun _ event _ ht => ht.step hp event) h

/-- A process that is not killed and ends does so as it promised. -/
theorem safe_run (hp : Protocol program exit R G Ready) {sys : System σ ω ε χ}
    (h : Secure R G Ready sys) {i : Nat} {Q : Unit → σ → Prop} {E : χ → σ → Prop}
    {c : Script σ ω ε χ Unit} (hthread : sys.threads i = some c)
    (hc : c.Safe (R i) (G i) Q E sys.state) {events : List (SystemEvent κ ω)}
    (hspared : .crash i ∉ events) :
    ∃ c', (SummitFlow.run (System.step program exit) sys events).threads i = some c' ∧
      c'.Safe (R i) (G i) Q E (SummitFlow.run (System.step program exit) sys events).state := by
  induction events generalizing sys c with
  | nil => exact ⟨c, hthread, hc⟩
  | cons event events ih =>
    obtain ⟨hne, hrest⟩ := not_or.mp (List.mem_cons.not.mp hspared)
    obtain ⟨c', hthread', hc'⟩ := safe_step hp h (h.lt_next hthread) hthread hc (Ne.symm hne)
    exact ih (h.step hp event) hthread' hc' hrest

end

end System

end SummitFlow
