/-!
# Versioned documents

A document that is replaced by compare-and-set: a copy carries the version it was
read at, and a replacement is accepted only against the current version, which it
raises by one.  A valid copy with the current version is the current document, so an
accepted replacement computed from the copy is computed from the document.
-/

namespace SummitFlow

/-- A document together with the version it has. -/
structure Versioned (D : Type) where
  version : Nat
  doc : D
deriving DecidableEq, Repr

namespace Versioned

variable {D : Type}

/-- Replace the document, as a new version. -/
def replace (cell : Versioned D) (doc : D) : Versioned D where
  version := cell.version + 1
  doc := doc

/-- A copy of some version of the document, not newer than the document itself. -/
def CopyOf (copy cell : Versioned D) : Prop :=
  copy.version ≤ cell.version ∧ (copy.version = cell.version → copy.doc = cell.doc)

theorem CopyOf.refl (cell : Versioned D) : cell.CopyOf cell := ⟨Nat.le_refl _, fun _ => rfl⟩

/-- A copy stays one when the document is replaced, by whomever. -/
theorem CopyOf.replace {copy cell : Versioned D} (h : copy.CopyOf cell) (doc : D) :
    copy.CopyOf (cell.replace doc) := by
  have hle := h.1
  refine ⟨?_, fun heq => ?_⟩
  · show copy.version ≤ cell.version + 1
    omega
  · have heq : copy.version = cell.version + 1 := heq
    omega

end Versioned

end SummitFlow
