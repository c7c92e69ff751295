import Mathlib.Logic.Function.Basic
import SummitFlow.ForStd.Run

/-!
# Subtask dependencies

Model of `backend/app/storage/subtask_dependencies.py` and of the trigger
`check_subtask_dependency_cycle` of the schema.  Every call is one transaction under
read-committed isolation: a statement sees the committed rows and those of its own
transaction.  The trigger looks at the rows before its row is stored, and an insertion or
deletion waits for a transaction that has the same row in hand.
-/

namespace SummitFlow.SubtaskDependencies

/-- A row: `subtask_id` depends on `depends_on_subtask_id`. -/
abbrev Row := String × String

/-! ## The trigger -/

/-- The rows that follow a subtask in the recursive part of `dependency_chain`. -/
def dependsOn (rows : List Row) (subtask : String) : List String :=
  (rows.filter fun row => row.1 = subtask).map Prod.snd

/-- `dependency_chain` from one level on, with `depth` levels to go. -/
def dependencyChain (rows : List Row) : Nat → List String → List String
  | 0, level => level
  | depth + 1, level => level ++ dependencyChain rows depth (level.flatMap (dependsOn rows))

/-- `check_subtask_dependency_cycle`: the row's subtask is in the chain of what it depends
    on, which starts at depth 1 and ends at depth 100. -/
def cycleDetected (rows : List Row) (new : Row) : Bool :=
  (dependencyChain rows 99 [new.2]).contains new.1

/-! ## Transactions -/

inductive Statement where
  | insert (row : Row)
  | delete (row : Row)
deriving DecidableEq, Repr

inductive Call where
  | addDependency (subtask dependsOn : String)
  | bulkAddDependencies (dependencies : List Row)
  | removeDependency (subtask dependsOn : String)
deriving DecidableEq, Repr

/-- The statements of a call; without any the call raises `ValueError` or returns before it
    opens a connection. -/
def Call.statements : Call → List Statement
  | .addDependency subtask dependsOn =>
    if subtask = dependsOn then [] else [.insert (subtask, dependsOn)]
  | .bulkAddDependencies dependencies =>
    if dependencies.any fun row => row.1 = row.2 then [] else dependencies.map .insert
  | .removeDependency subtask dependsOn => [.delete (subtask, dependsOn)]

/-- A transaction in progress; `checked` says that the trigger let the next row pass. -/
structure Transaction where
  todo : List Statement
  checked : Bool
  added : List Row
  removed : List Row
deriving DecidableEq, Repr

/-- How a call ended. -/
inductive Outcome where
  | returned
  | cycleError
  | failed
deriving DecidableEq, Repr

structure Database where
  /-- the committed rows -/
  rows : List Row
  transactions : Nat → Option Transaction
  finished : Nat → Option Outcome
  next : Nat

/-- No call has been made yet. -/
def Database.idle (rows : List Row) : Database := ⟨rows, fun _ => none, fun _ => none, 0⟩

/-- What a statement of the transaction sees. -/
def Database.visible (db : Database) (t : Transaction) : List Row :=
  (db.rows.filter fun row => row ∉ t.removed) ++ t.added

/-- Another transaction has the row in hand. -/
def Database.inHand (db : Database) (pid : Nat) (row : Row) : Bool :=
  (List.range db.next).any fun other => other ≠ pid &&
    (db.transactions other).any fun t => row ∈ t.added ++ t.removed

/-- The transaction goes on. -/
def Database.setTransaction (db : Database) (pid : Nat) (t : Transaction) : Database :=
  { db with transactions := Function.update db.transactions pid (some t) }

/-- The transaction is over, with nothing of it stored. -/
def Database.rollback (db : Database) (pid : Nat) (outcome : Outcome) : Database :=
  { db with
    transactions := Function.update db.transactions pid none
    finished := Function.update db.finished pid (some outcome) }

/-- `conn.commit()`. -/
def Database.commit (db : Database) (pid : Nat) (t : Transaction) : Database :=
  { db with
    rows := db.visible t
    transactions := Function.update db.transactions pid none
    finished := Function.update db.finished pid (some .returned) }

/-- The next thing a transaction does: the trigger of an insertion, the insertion, a
    deletion, or the commit. -/
def Database.advance (db : Database) (pid : Nat) (t : Transaction) : Database :=
  match t.todo with
  | [] => db.commit pid t
  | .delete row :: rest =>
    if db.inHand pid row then db
    else db.setTransaction pid { t with
      todo := rest
      checked := false
      removed := if row ∈ db.visible t then row :: t.removed else t.removed }
  | .insert row :: rest =>
    if t.checked = false then
      if cycleDetected (db.visible t) row then db.rollback pid .cycleError
      else db.setTransaction pid { t with checked := true }
    -- `ON CONFLICT` waits for the transaction that has the row
    else if db.inHand pid row then db
    else db.setTransaction pid { t with
      todo := rest
      checked := false
      added := if row ∈ db.visible t then t.added else t.added ++ [row] }

/-- A call starts, a transaction goes on, or it fails: another constraint, a deadlock, a lost
    connection or a process that dies. -/
inductive Event where
  | start (call : Call)
  | advance (pid : Nat)
  | abort (pid : Nat)
deriving DecidableEq, Repr

def Database.step (db : Database) : Event → Database
  | .start call =>
    let transaction := if call.statements = [] then none else
      some { todo := call.statements, checked := false, added := [], removed := [] }
    { db with transactions := Function.update db.transactions db.next transaction, next := db.next + 1 }
  | .advance pid =>
    match db.transactions pid with
    | some t => db.advance pid t
    | none => db
  | .abort pid =>
    match db.transactions pid with
    | some _ => db.rollback pid .failed
    | none => db

end SummitFlow.SubtaskDependencies
