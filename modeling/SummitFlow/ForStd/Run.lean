import Mathlib.Data.List.Induction

/-!
# Runs of a step function

A component that answers one request at a time is a total step function
`step : σ → ε → σ`; a run is the left fold of the requests over an initial
state.  The lemmas below are the induction rules the specifications use: an
invariant that every step preserves holds after every run, also when the step
may rely on what the run contains, and a run splits at any of its requests.
-/

namespace SummitFlow

variable {σ ε : Type}

/-- The state after the requests `es`, in order, from `s`. -/
def run (step : σ → ε → σ) (s : σ) (es : List ε) : σ := es.foldl step s

section

variable (step : σ → ε → σ) (s : σ)

@[simp] theorem run_nil : run step s [] = s := rfl

@[simp] theorem run_cons (e : ε) (es : List ε) :
    run step s (e :: es) = run step (step s e) es := rfl

@[simp] theorem run_append (es fs : List ε) :
    run step s (es ++ fs) = run step (run step s es) fs := by
  simp [run, List.foldl_append]

theorem run_concat (es : List ε) (e : ε) :
    run step s (es ++ [e]) = step (run step s es) e := by simp

end

/-- What the requests answered, in order: `out` may look at the state the request
    found. -/
def outputs {ω : Type} (step : σ → ε → σ) (out : σ → ε → ω) : σ → List ε → List ω
  | _, [] => []
  | s, e :: es => out s e :: outputs step out (step s e) es

theorem outputs_append {ω : Type} (step : σ → ε → σ) (out : σ → ε → ω) (s : σ)
    (es fs : List ε) :
    outputs step out s (es ++ fs) =
      outputs step out s es ++ outputs step out (run step s es) fs := by
  induction es generalizing s with
  | nil => rfl
  | cons e es ih => simp [outputs, ih]

theorem outputs_concat {ω : Type} (step : σ → ε → σ) (out : σ → ε → ω) (s : σ)
    (es : List ε) (e : ε) :
    outputs step out s (es ++ [e]) = outputs step out s es ++ [out (run step s es) e] :=
  outputs_append step out s es [e]

/-- An invariant every step of the run preserves holds at its end. -/
theorem run_invariant {step : σ → ε → σ} {P : σ → Prop} {s : σ} {es : List ε}
    (hstep : ∀ t, ∀ e ∈ es, P t → P (step t e)) (h : P s) : P (run step s es) := by
  induction es generalizing s with
  | nil => exact h
  | cons e es ih =>
    rw [run_cons]
    exact ih (fun t f hf => hstep t f (List.mem_cons_of_mem _ hf))
      (hstep s e List.mem_cons_self h)

/-- An invariant that speaks about the requests served so far: it starts with no
    request and each step extends the history by the request it serves. -/
theorem run_history {step : σ → ε → σ} {P : List ε → σ → Prop} {s : σ}
    (hstep : ∀ hist t e, P hist t → P (hist ++ [e]) (step t e)) (h : P [] s) (es : List ε) :
    P es (run step s es) := by
  induction es using List.reverseRecOn with
  | nil => exact h
  | append_singleton es e ih =>
    rw [run_concat]
    exact hstep es _ e ih

/-- An invariant that speaks about the answers given so far. -/
theorem run_outputs_history {ω : Type} {step : σ → ε → σ} {out : σ → ε → ω}
    {P : List ω → σ → Prop} {s : σ}
    (hstep : ∀ hist t e, P hist t → P (hist ++ [out t e]) (step t e)) (h : P [] s)
    (es : List ε) : P (outputs step out s es) (run step s es) := by
  induction es using List.reverseRecOn with
  | nil => exact h
  | append_singleton es e ih =>
    rw [run_concat, outputs_concat]
    exact hstep _ _ e ih

/-- What a fallible sequence returns comes from both of its parts. -/
theorem bind_ok {α β ω : Type} {x : Except ω α} {f : α → Except ω β} {b : β}
    (h : x >>= f = .ok b) : ∃ a, x = .ok a ∧ f a = .ok b := by
  cases x with
  | error e => cases h
  | ok a => exact ⟨a, rfl, h⟩

theorem mapM_congr {α β ω : Type} {f g : α → Except ω β} {xs : List α}
    (h : ∀ x ∈ xs, f x = g x) : xs.mapM f = xs.mapM g := by
  induction xs with
  | nil => rfl
  | cons x xs ih =>
    rw [List.mapM_cons, List.mapM_cons, h x List.mem_cons_self,
      ih fun y hy => h y (List.mem_cons_of_mem _ hy)]

/-- A fallible map that succeeds does so element by element. -/
theorem forall₂_of_mapM_ok {α β ω : Type} {f : α → Except ω β} {xs : List α} {ys : List β}
    (h : xs.mapM f = .ok ys) : List.Forall₂ (fun x y => f x = .ok y) xs ys := by
  induction xs generalizing ys with
  | nil =>
    rw [List.mapM_nil] at h
    obtain rfl := Except.ok.inj h
    exact .nil
  | cons x xs ih =>
    rw [List.mapM_cons] at h
    obtain ⟨y, hy, h⟩ := bind_ok h
    obtain ⟨ys', hys, h⟩ := bind_ok h
    obtain rfl := Except.ok.inj h
    exact .cons hy (ih hys)

theorem mem_of_mapM_ok {α β ω : Type} {f : α → Except ω β} {xs : List α} {ys : List β} {y : β}
    (h : xs.mapM f = .ok ys) (hy : y ∈ ys) : ∃ x ∈ xs, f x = .ok y := by
  have heach := forall₂_of_mapM_ok h
  clear h
  induction heach with
  | nil => cases hy
  | @cons x y' xs ys hx _ ih =>
    rcases List.mem_cons.mp hy with rfl | hmem
    · exact ⟨x, List.mem_cons_self, hx⟩
    · obtain ⟨x', hmem', hx'⟩ := ih hmem
      exact ⟨x', List.mem_cons_of_mem _ hmem', hx'⟩

/-- An invariant that speaks about the elements a fallible fold has passed. -/
theorem foldlM_ok {α β ω : Type} {f : β → α → Except ω β} {P : List α → β → Prop}
    (hstep : ∀ done b x b', P done b → f b x = .ok b' → P (done ++ [x]) b') {xs done : List α}
    {b b' : β} (h : P done b) (hfold : xs.foldlM f b = .ok b') : P (done ++ xs) b' := by
  induction xs generalizing done b with
  | nil =>
    obtain rfl := Except.ok.inj hfold
    rw [List.append_nil]
    exact h
  | cons x xs ih =>
    rw [List.foldlM_cons] at hfold
    obtain ⟨b₁, hx, hxs⟩ := bind_ok hfold
    have hnext := ih (hstep done b x b₁ h hx) hxs
    rwa [List.append_assoc] at hnext

/-- Every request of the run meets a condition in the state it finds. -/
def Along (step : σ → ε → σ) (C : σ → ε → Prop) : σ → List ε → Prop
  | _, [] => True
  | s, e :: es => C s e ∧ Along step C (step s e) es

instance decidableAlong (step : σ → ε → σ) (C : σ → ε → Prop) [∀ s e, Decidable (C s e)] :
    ∀ s es, Decidable (Along step C s es)
  | _, [] => .isTrue trivial
  | s, e :: es =>
    have := decidableAlong step C (step s e) es
    inferInstanceAs (Decidable (C s e ∧ Along step C (step s e) es))

/-- An invariant that every step meeting the condition preserves holds at the end of a
    run whose steps all meet it. -/
theorem run_along {step : σ → ε → σ} {C : σ → ε → Prop} {P : σ → Prop}
    (hstep : ∀ t e, P t → C t e → P (step t e)) {s : σ} (h : P s) {es : List ε}
    (hes : Along step C s es) : P (run step s es) := by
  induction es generalizing s with
  | nil => exact h
  | cons e es ih =>
    rw [run_cons]
    exact ih (hstep s e h hes.1) hes.2

theorem along_concat {step : σ → ε → σ} {C : σ → ε → Prop} {s : σ} {es : List ε} {e : ε} :
    Along step C s (es ++ [e]) ↔ Along step C s es ∧ C (run step s es) e := by
  induction es generalizing s with
  | nil => simp [Along]
  | cons f es ih =>
    show C s f ∧ Along step C (step s f) (es ++ [e]) ↔ (C s f ∧ Along step C (step s f) es) ∧ _
    rw [ih, and_assoc]
    rfl

theorem along_append {step : σ → ε → σ} {C : σ → ε → Prop} {s : σ} {es fs : List ε} :
    Along step C s (es ++ fs) ↔ Along step C s es ∧ Along step C (run step s es) fs := by
  induction es generalizing s with
  | nil => exact ⟨fun h => ⟨trivial, h⟩, fun h => h.2⟩
  | cons e es ih =>
    show C s e ∧ Along step C (step s e) (es ++ fs) ↔ (C s e ∧ Along step C (step s e) es) ∧ _
    rw [ih, and_assoc]
    rfl

/-- Where a step keeps the invariant exactly when it meets the condition, the invariant
    holds throughout a run exactly when all its steps meet it. -/
theorem along_iff_invariant {step : σ → ε → σ} {C : σ → ε → Prop} {P : σ → Prop}
    (hstep : ∀ t e, P t → (P (step t e) ↔ C t e)) {s : σ} (h : P s) {es : List ε} :
    Along step C s es ↔ ∀ fs, fs <+: es → P (run step s fs) := by
  induction es generalizing s with
  | nil =>
    refine ⟨?_, fun _ => trivial⟩
    intro _ fs hfs
    rw [List.prefix_nil.mp hfs]
    exact h
  | cons e es ih =>
    constructor
    · intro halong fs hfs
      cases fs with
      | nil => exact h
      | cons f fs =>
        obtain ⟨rfl, hfs'⟩ := List.cons_prefix_cons.mp hfs
        exact (ih ((hstep s f h).mpr halong.1)).mp halong.2 fs hfs'
    · intro hall
      have hnext : P (step s e) := hall [e] (by simp)
      refine ⟨(hstep s e h).mp hnext, (ih hnext).mpr ?_⟩
      intro fs hfs
      exact hall (e :: fs) (List.cons_prefix_cons.mpr ⟨rfl, hfs⟩)

end SummitFlow
