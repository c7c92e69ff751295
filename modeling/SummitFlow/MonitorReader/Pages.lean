import Mathlib.Data.List.Basic
import SummitFlow.Python.Error

/-!
# Pages of the monitor reader

Model of the envelope of `backend/monitor_reader/reader.py`: a query answers with a page
of items, and a page that does not hold everything says so and has a cursor to go on
from.  How many bytes a page takes as JSON is a parameter.

A cursor is encoded with a digest of the filters it was made for, and is refused for
other filters; here it holds the filters.
-/

namespace SummitFlow.Monitor

/-- `DEFAULT_BYTES`, `MAX_BYTES` and `MAX_LIMIT`. -/
def defaultBytes : Nat := 4096

def maxBytes : Nat := 65536

def maxLimit : Nat := 100

/-- `NSEC`. -/
def nsec : Int := 1000000000

/-- What a page could not do. -/
structure PageError where
  code : String
  message : Option String
deriving DecidableEq, Repr

section

variable {Filters Coverage Item Position : Type}

structure Cursor (Filters Position : Type) where
  filters : Filters
  position : Position
deriving DecidableEq

/-- The envelope; `coverage` and `requested` are `none` where they are emptied. -/
structure Page (Filters Coverage Item Position : Type) where
  generatedAt : Int
  requested : Option Filters
  coverage : Option Coverage
  items : List Item
  nextCursor : Option (Cursor Filters Position)
  truncated : Bool
  errors : List PageError
deriving DecidableEq

/-- `_base`, with the coverage it gets. -/
def Page.base (requested : Filters) (now : Int) (coverage : Option Coverage) :
    Page Filters Coverage Item Position where
  generatedAt := now
  requested := some requested
  coverage := coverage
  items := []
  nextCursor := none
  truncated := false
  errors := []

/-- `if ...: raise MonitorQueryError(message)`. -/
def refuseIf (condition : Prop) [Decidable condition] (message : String) : Except PyError Unit :=
  if condition then .error (.valueError message) else .ok ()

/-- `_cursor_position`. -/
def cursorPosition [DecidableEq Filters] (cursor : Option (Cursor Filters Position))
    (filters : Filters) : Except PyError (Option Position) :=
  match cursor with
  | none => .ok none
  | some cursor =>
    if cursor.filters = filters then .ok (some cursor.position)
    else .error (.valueError "invalid cursor or cursor filters changed")

/-- `_limit`. -/
def checkLimit (limit : Nat) : Except PyError Unit :=
  refuseIf (¬ (1 ≤ limit ∧ limit ≤ maxLimit)) "limit must be 1..100"

/-- `_budget`. -/
def checkBudget (budget : Nat) : Except PyError Unit :=
  refuseIf (¬ (256 ≤ budget ∧ budget ≤ maxBytes)) "max_bytes must be 256..65536"

/-- `_time_ns` of integer nanoseconds. -/
def timeNs (value : Option Int) (default : Int) : Except PyError Int :=
  match value with
  | none => .ok default
  | some value =>
    if 0 ≤ value ∧ value ≤ 9223372036854775807 then .ok value
    else .error (.valueError "UTC time outside supported range")

/-- `_text_filter`. -/
def textFilter (value : Option String) (label : String) : Except PyError (Option String) :=
  match value with
  | none => .ok none
  | some value =>
    if value = "" ∨ value.length > 128 ∨ '\x00' ∈ value.toList then
      .error (.valueError ("invalid " ++ label ++ " filter"))
    else .ok (some value)

/-! ## Packing -/

variable (size : Page Filters Coverage Item Position → Nat)

/-- The loop of `_pack`: the page with the items that fit, and whether one did not. -/
def packLoop (filters : Filters) (budget : Nat) :
    Page Filters Coverage Item Position → List (Item × Position) →
      Page Filters Coverage Item Position × Bool
  | base, [] => (base, false)
  | base, (item, position) :: rest =>
    let next := { base with items := base.items ++ [item] }
    -- room for a cursor and the truncation flag is reserved before the item is added
    if size { next with nextCursor := some ⟨filters, position⟩, truncated := true } > budget then
      (base, true)
    else packLoop filters budget next rest

/-- `encode_budgeted_json`, as far as the check. -/
def encodeBudgeted (page : Page Filters Coverage Item Position) (budget : Nat) :
    Except PyError (Page Filters Coverage Item Position) := do
  checkBudget budget
  refuseIf (size page > budget) "response exceeds max_bytes"
  return page

/-- The cursor of a page that leaves something out, or its error when it is empty. -/
def markMore (filters : Filters) (candidates : List (Item × Position))
    (page : Page Filters Coverage Item Position) : Page Filters Coverage Item Position :=
  if page.items = [] then
    { page with errors := page.errors ++ [⟨"output_budget", some "first item exceeds max_bytes"⟩] }
  else
    { page with
      nextCursor := (candidates[page.items.length - 1]?).map fun last => ⟨filters, last.2⟩ }

/-- A page whose metadata alone take the budget. -/
def dropMetadata (budget : Nat) (page : Page Filters Coverage Item Position) :
    Page Filters Coverage Item Position :=
  if size page > budget then
    { page with
      coverage := none
      requested := none
      errors := [⟨"output_budget", none⟩]
      nextCursor := none }
  else page

/-- `_pack`. -/
def pack (base : Page Filters Coverage Item Position) (candidates : List (Item × Position))
    (filters : Filters) (limit budget : Nat) (more : Bool) :
    Except PyError (Page Filters Coverage Item Position) :=
  let (page, cut) := packLoop size filters budget { base with items := [] } (candidates.take limit)
  let more := more || cut || page.items.length < candidates.length || candidates.length > limit
  let page := { page with truncated := more }
  let page := if more then markMore filters candidates page else page
  encodeBudgeted size (dropMetadata size budget page) budget

end

end SummitFlow.Monitor
