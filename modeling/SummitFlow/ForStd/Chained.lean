import Mathlib.Data.List.Basic

/-!
# Readings chained to the one before

A row either carries an observation or breaks the chain.  A fresh observation gets a
rate from the one before it, and takes its place; one that is not fresh is passed over.
A reader that starts in the middle of the rows has no observation before its first one.
`joined` says when it still finds the rates of a reader that started earlier.
-/

namespace SummitFlow

/-- When an observation counts as a new one, and the rate between two of them. -/
structure Chained (σ ν : Type) where
  fresh : σ → σ → Bool
  rate : σ → σ → Option ν
  /-- What is fresh after an observation is fresh after every copy of it. -/
  fresh_of_stale : ∀ {p q r}, fresh p q = false → fresh p r = true → fresh q r = true

namespace Chained

variable {σ ν : Type} (c : Chained σ ν)

/-- The observation that stands after a row. -/
def next (previous : Option σ) : Option σ → Option σ
  | none => none
  | some o =>
    match previous with
    | none => some o
    | some p => if c.fresh p o then some o else some p

/-- The rate of a row. -/
def value (previous : Option σ) : Option σ → Option ν
  | none => none
  | some o =>
    match previous with
    | none => none
    | some p => if c.fresh p o then c.rate p o else none

/-- The rates of the rows, in order. -/
def values : Option σ → List (Option σ) → List (Option ν)
  | _, [] => []
  | previous, o :: os => c.value previous o :: values (c.next previous o) os

/-- The observation that stands after the rows. -/
def after (previous : Option σ) (os : List (Option σ)) : Option σ := os.foldl c.next previous

/-- A row after which it does not matter what copies of an observation came before: it
    breaks the chain, or carries a fresh observation. -/
def renews (p : σ) : Option σ → Bool
  | none => true
  | some o => c.fresh p o

/-- Up to the first row that renews `p`, a reader that has `p` and one that has `q` find
    the same rates. -/
def agrees (p : σ) : Option σ → List (Option σ) → Prop
  | _, [] => True
  | q, o :: os =>
    c.value (some p) o = c.value q o ∧ (c.renews p o = true ∨ agrees p (c.next q o) os)

/-- A reader that starts with `look` and has to give the rates of `body` finds those of a
    reader that had `previous` before `look`: nothing stood before, or a row of `look`
    renews it, or it agrees with what `look` leaves behind. -/
def joined (previous : Option σ) (look body : List (Option σ)) : Prop :=
  match previous with
  | none => True
  | some p => look.any (c.renews p) = true ∨ c.agrees p (c.after none look) body

variable {c}

end Chained

end SummitFlow
