import SummitFlow.ForStd.Script

/-!
# One program at a time

Programs that are called one after the other on one state.  A call runs until it ends or is
killed, and the next call comes when none runs.  Where every action of a call keeps an
invariant and changes the state within a relation, so does a whole session, with kills
between any two actions; a call that runs alone to its end does as it promised.
-/

namespace SummitFlow

/-- The state, and the program that runs on it, if any. -/
structure Session (σ ω ε χ : Type) where
  state : σ
  running : Option (Script σ ω ε χ Unit)

/-- A program is called, the world answers its next action, or it is killed. -/
inductive SessionEvent (κ ω : Type) where
  | call (k : κ)
  | answer (w : ω)
  | kill

namespace Session

variable {σ ω ε χ κ : Type} (program : κ → Script σ ω ε χ Unit)

/-- Nothing runs. -/
def rest (s : σ) : Session σ ω ε χ := ⟨s, none⟩

/-- What is left to run: nothing, when the program ended. -/
def left : Script σ ω ε χ Unit → Option (Script σ ω ε χ Unit)
  | .act f next => some (.act f next)
  | .done _ => none
  | .raise _ => none

/-- One event; a call waits while a program runs. -/
def step (s : Session σ ω ε χ) : SessionEvent κ ω → Session σ ω ε χ
  | .call k =>
    match s.running with
    | none => ⟨s.state, left (program k)⟩
    | some _ => s
  | .answer w =>
    match s.running with
    | some (.act f next) => ⟨(f s.state w).1, left (next s.state w)⟩
    | _ => ⟨s.state, none⟩
  | .kill => ⟨s.state, none⟩

/-- Every call of the session starts in a state it may start in. -/
def Meets (C : κ → σ → Prop) : Session σ ω ε χ → List (SessionEvent κ ω) → Prop
  | _, [] => True
  | s, event :: events =>
    (∀ k, event = .call k → s.running = none → C k s.state) ∧ Meets C (step program s event) events

variable {program} {C : κ → σ → Prop} {I : σ → Prop} {K : σ → σ → Prop}

/-- What runs keeps the invariant. -/
structure Keeps (I : σ → Prop) (K : σ → σ → Prop) (s : Session σ ω ε χ) : Prop where
  invariant : I s.state
  running : ∀ c, s.running = some c →
    c.Safe (· = ·) (fun s _ t => I t ∧ K s t) (fun _ _ => True) (fun _ _ => True) s.state

theorem Keeps.left {s : σ} (h : I s) {c : Script σ ω ε χ Unit}
    (hc : c.Safe (· = ·) (fun s _ t => I t ∧ K s t) (fun _ _ => True) (fun _ _ => True) s) :
    Keeps I K ⟨s, left c⟩ := by
  refine ⟨h, fun c' hc' => ?_⟩
  cases c with
  | done a => cases hc'
  | raise e => cases hc'
  | act f next =>
    obtain rfl := Option.some.inj hc'
    exact hc

/-- One event. -/
theorem Keeps.step (hrefl : ∀ s, K s s)
    (hstarts : ∀ k s, I s → C k s → (program k).Safe (· = ·) (fun s _ t => I t ∧ K s t)
      (fun _ _ => True) (fun _ _ => True) s)
    {s : Session σ ω ε χ} (h : Keeps I K s) (event : SessionEvent κ ω)
    (hmeets : ∀ k, event = .call k → s.running = none → C k s.state) :
    Keeps I K (step program s event) ∧ K s.state (Session.step program s event).state := by
  have hstop : Keeps I K (⟨s.state, none⟩ : Session σ ω ε χ) ∧ K s.state s.state :=
    ⟨⟨h.invariant, fun c hc => by cases hc⟩, hrefl _⟩
  unfold Session.step
  cases event with
  | kill => exact hstop
  | call k =>
    cases hrunning : s.running with
    | none => exact ⟨.left h.invariant (hstarts k _ h.invariant (hmeets k rfl hrunning)), hrefl _⟩
    | some c => exact ⟨h, hrefl _⟩
  | answer w =>
    cases hrunning : s.running with
    | none => exact hstop
    | some c =>
      cases c with
      | done a => exact hstop
      | raise e => exact hstop
      | act f next =>
        obtain ⟨⟨hnext, hchange⟩, hsafe⟩ := h.running _ hrunning s.state rfl w
        exact ⟨.left hnext hsafe, hchange⟩

/-- A session. -/
theorem Keeps.run (hrefl : ∀ s, K s s) (htrans : ∀ s t u, K s t → K t u → K s u)
    (hstarts : ∀ k s, I s → C k s → (program k).Safe (· = ·) (fun s _ t => I t ∧ K s t)
      (fun _ _ => True) (fun _ _ => True) s)
    {s : Session σ ω ε χ} (h : Keeps I K s) {events : List (SessionEvent κ ω)}
    (hmeets : Meets program C s events) :
    Keeps I K (SummitFlow.run (Session.step program) s events) ∧
      K s.state (SummitFlow.run (Session.step program) s events).state := by
  induction events generalizing s with
  | nil => exact ⟨h, hrefl _⟩
  | cons event events ih =>
    obtain ⟨hfirst, hrest⟩ := hmeets
    obtain ⟨hstep, hchange⟩ := h.step hrefl hstarts event hfirst
    obtain ⟨hrun, hafter⟩ := ih hstep hrest
    exact ⟨hrun, htrans _ _ _ hchange hafter⟩

theorem Meets.append {s : Session σ ω ε χ} {earlier later : List (SessionEvent κ ω)}
    (h : Meets program C s (earlier ++ later)) :
    Meets program C s earlier ∧
      Meets program C (SummitFlow.run (Session.step program) s earlier) later := by
  induction earlier generalizing s with
  | nil => exact ⟨trivial, h⟩
  | cons event earlier ih =>
    obtain ⟨hfirst, hrest⟩ := h
    obtain ⟨hearlier, hlater⟩ := ih hrest
    exact ⟨⟨hfirst, hearlier⟩, hlater⟩

/-- Answers start no call. -/
theorem meets_answers (s : Session σ ω ε χ) (answers : List ω) :
    Meets program C s (answers.map SessionEvent.answer) := by
  induction answers generalizing s with
  | nil => trivial
  | cons w answers ih => exact ⟨fun k hk => (by cases hk), ih _⟩

end Session

/-- What a script that is safe alone ends with. -/
theorem Script.Safe.holds {σ ω ε χ α : Type} {G : σ → ε → σ → Prop} {Q : α → σ → Prop}
    {E : χ → σ → Prop} {c : Script σ ω ε χ α} {s : σ} (h : c.Safe (· = ·) G Q E s) :
    Script.Holds Q E c s := by
  induction c generalizing s with
  | done a => exact h
  | raise e => exact h
  | act f next ih => exact fun t ht w => ⟨trivial, ih t w (h t ht w).2⟩

end SummitFlow
