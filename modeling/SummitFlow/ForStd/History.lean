import SummitFlow.ForStd.Script

/-!
# What a program said on its way

A script that runs alone, with the list of what its actions said.  The world may be
assumed to answer in some way; a script is then proved action by action as before, and
what holds where it ends may speak of what it said.
-/

namespace SummitFlow

namespace Script

variable {σ ω ε χ α β : Type}

/-- What the actions say, in order, when the program runs alone. -/
def log : Script σ ω ε χ α → σ → (Nat → ω) → List ε
  | .done _, _, _ => []
  | .raise _, _, _ => []
  | .act f next, s, world =>
    (f s (world 0)).2 :: (next s (world 0)).log (f s (world 0)).1 fun n => world (n + 1)

/-- Every action of the run finds a state and an answer in `A`. -/
def Along (A : σ → ω → Prop) : Script σ ω ε χ α → σ → (Nat → ω) → Prop
  | .done _, _, _ => True
  | .raise _, _, _ => True
  | .act f next, s, world =>
    A s (world 0) ∧ Along A (next s (world 0)) (f s (world 0)).1 fun n => world (n + 1)

/-- Where the script ends, `Q` holds of its value or `E` of its exception, of the state and of
    what was said, as long as the answers are in `A`. -/
def Ends (A : σ → ω → Prop) (Q : α → σ → List ε → Prop) (E : χ → σ → List ε → Prop) :
    Script σ ω ε χ α → σ → List ε → Prop
  | .done a, s, l => Q a s l
  | .raise e, s, l => E e s l
  | .act f next, s, l => ∀ w, A s w → Ends A Q E (next s w) (f s w).1 (l ++ [(f s w).2])

section

variable {A : σ → ω → Prop} {Q : α → σ → List ε → Prop} {E : χ → σ → List ε → Prop} {s : σ}
  {l : List ε}

theorem ends_pure {a : α} (h : Q a s l) : Ends A Q E (pure a : Script σ ω ε χ α) s l := h

theorem ends_throw {e : χ} (h : E e s l) : Ends A Q E (throw e : Script σ ω ε χ α) s l := h

/-- An action. -/
theorem ends_action {f : σ → ω → σ × ε × Except χ α}
    (hok : ∀ w, A s w → ∀ a, (f s w).2.2 = .ok a → Q a (f s w).1 (l ++ [(f s w).2.1]))
    (herror : ∀ w, A s w → ∀ e, (f s w).2.2 = .error e → E e (f s w).1 (l ++ [(f s w).2.1])) :
    Ends A Q E (action f) s l := by
  intro w hw
  dsimp only
  cases hresult : (f s w).2.2 with
  | ok a =>
    exact hok w hw a hresult
  | error e =>
    exact herror w hw e hresult

theorem Ends.mono {Q' : α → σ → List ε → Prop} {E' : χ → σ → List ε → Prop}
    (hQ : ∀ a t l, Q a t l → Q' a t l) (hE : ∀ e t l, E e t l → E' e t l)
    {c : Script σ ω ε χ α} (h : Ends A Q E c s l) : Ends A Q' E' c s l := by
  induction c generalizing s l with
  | done a => exact hQ a s l h
  | raise e => exact hE e s l h
  | act f next ih => exact fun w hw => ih s w (h w hw)

theorem Ends.bind {Q' : β → σ → List ε → Prop} {c : Script σ ω ε χ α}
    {k : α → Script σ ω ε χ β} (h : Ends A Q E c s l)
    (hk : ∀ a t l, Q a t l → Ends A Q' E (k a) t l) : Ends A Q' E (c >>= k) s l := by
  induction c generalizing s l with
  | done a => exact hk a s l h
  | raise e => exact h
  | act f next ih => exact fun w hw => ih s w (h w hw)

theorem Ends.tryCatch {F : χ → σ → List ε → Prop} {c : Script σ ω ε χ α}
    {handler : χ → Script σ ω ε χ α} (h : Ends A Q F c s l)
    (hhandler : ∀ e t l, F e t l → Ends A Q E (handler e) t l) :
    Ends A Q E (Script.tryCatch c handler) s l := by
  induction c generalizing s l with
  | done a => exact h
  | raise e => exact hhandler e s l h
  | act f next ih => exact fun w hw => ih s w (h w hw)

/-- Both ends in one. -/
theorem Ends.exec {c : Script σ ω ε χ α} (h : Ends A Q E c s l) {world : Nat → ω}
    (hworld : c.Along A s world) :
    (∀ a, (c.exec s world).2 = .ok a → Q a (c.exec s world).1 (l ++ c.log s world)) ∧
      ∀ e, (c.exec s world).2 = .error e → E e (c.exec s world).1 (l ++ c.log s world) := by
  induction c generalizing s l world with
  | done a =>
    refine ⟨?_, nofun⟩
    intro b hb
    obtain rfl := Except.ok.inj hb
    show Q a s (l ++ [])
    rw [List.append_nil]
    exact h
  | raise e =>
    refine ⟨nofun, ?_⟩
    intro e' he
    obtain rfl := Except.error.inj he
    show E e s (l ++ [])
    rw [List.append_nil]
    exact h
  | act f next ih =>
    obtain ⟨hfirst, hrest⟩ := hworld
    have hnext := ih s (world 0) (h (world 0) hfirst) hrest
    rw [List.append_assoc] at hnext
    exact hnext

/-- However it ends. -/
theorem Ends.after {P : σ → List ε → Prop} {c : Script σ ω ε χ α}
    (h : Ends A (fun _ => P) (fun _ => P) c s l) {world : Nat → ω} (hworld : c.Along A s world) :
    P (c.exec s world).1 (l ++ c.log s world) := by
  obtain ⟨hok, herror⟩ := h.exec hworld
  cases hresult : (c.exec s world).2 with
  | ok a => exact hok a hresult
  | error e => exact herror e hresult

theorem along_of_forall {world : Nat → ω} (h : ∀ s n, A s (world n)) (c : Script σ ω ε χ α)
    (s : σ) : c.Along A s world := by
  induction c generalizing s world with
  | done a => trivial
  | raise e => trivial
  | act f next ih => exact ⟨h s 0, ih _ _ (fun s n => h s (n + 1)) _⟩

theorem along_true (c : Script σ ω ε χ α) (s : σ) (world : Nat → ω) :
    c.Along (fun _ _ => True) s world := along_of_forall (fun _ _ => trivial) c s

end

end Script

end SummitFlow
