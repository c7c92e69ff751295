/-!
# Python exceptions

The exceptions the modelled functions raise, with their texts.  A function that
can raise returns `Except PyError`; a raise inside a database transaction or
inside a coordination change leaves the stored state as it was.
-/

namespace SummitFlow

/-- A Python exception together with its message (the key, for `KeyError`). -/
inductive PyError where
  | valueError (message : String)
  | runtimeError (message : String)
  | keyError (key : String)
  | typeError (message : String)
deriving DecidableEq, Repr

/-- The state a fallible operation leaves behind: the new one on success, the old
    one when it raised. -/
def stateOr {σ ε α : Type} (s : σ) : Except ε (σ × α) → σ
  | .ok (s', _) => s'
  | .error _ => s

@[simp] theorem stateOr_ok {σ ε α : Type} (s s' : σ) (a : α) :
    stateOr s (.ok (s', a) : Except ε (σ × α)) = s' := rfl

@[simp] theorem stateOr_error {σ ε α : Type} (s : σ) (e : ε) :
    stateOr s (.error e : Except ε (σ × α)) = s := rfl

end SummitFlow
