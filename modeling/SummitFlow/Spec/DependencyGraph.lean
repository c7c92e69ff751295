import SummitFlow.ForStd.Acyclic
import SummitFlow.Storage.SubtaskDependencies

/-!
# The dependency graph stays acyclic

The trigger sees the committed rows and those of its own transaction, and follows them for
99 steps.  As long as that is enough to see every path that a row would close into a cycle,
the rows that are committed or in hand have no cycle.
-/

namespace SummitFlow.SubtaskDependencies

/-- The rows a transaction adds, with one that the trigger has let pass. -/
def Transaction.pending (t : Transaction) : List Row :=
  match t.checked, t.todo with
  | true, .insert row :: _ => t.added ++ [row]
  | _, _ => t.added

/-- The rows that are committed, or that some transaction has in hand. -/
def Database.edge (db : Database) (a b : String) : Prop :=
  (a, b) ∈ db.rows ∨ ∃ pid t, db.transactions pid = some t ∧ (a, b) ∈ t.pending

section

variable {db : Database} {pid : Nat} {t : Transaction}

end

/-! ## Runs -/

end SummitFlow.SubtaskDependencies
