import Mathlib.Data.String.Basic
import SummitFlow.ForStd.Dict
import SummitFlow.ForStd.KeepBest
import SummitFlow.Python.Str

/-!
# Coordination identity across context resets

Model of `backend/cli/lib/coord_lineage.py` and of the identity section of
`backend/cli/lib/leases.py`.  The anchor of an agent is its harness process,
`<pid>:<start tick>`; every identity registered on a live anchor is one agent.

A `Caller` is what a process finds in its surroundings when it calls: its own
identity, its harness, the identity registry as read at that moment and the
process table.  The functions below compute from it the identities and the anchor
the process acts for.
-/

namespace SummitFlow.Coord

/-- A row of the identity registry; `last` is the stamp of its last `observe`. -/
structure Identity where
  anchor : Option String
  session : String
  main : Bool
  last : String
deriving DecidableEq, Repr

/-- The surroundings of a call. -/
structure Caller where
  /-- `identify_agent()`. -/
  agentId : String
  agentSlug : String
  sessionId : String
  provider : String
  /-- `harness()[0]`: the anchor of the enclosing harness process. -/
  harness : Option String
  /-- `load_doc()["identities"]`. -/
  identities : List (String × Identity)
  /-- `_process_start`: the start tick of a running process. -/
  processStart : Nat → Option String
  /-- `os.getpid()`. -/
  pid : Nat
  /-- `TMUX_PANE`, when it is set to a non-empty text. -/
  tmuxPane : Option String
  /-- `_session_sensitive()`. -/
  sensitive : Bool
  /-- Every identity is a provider's prefix and a session, never an empty text. -/
  ids_nonempty : "" ∉ agentId :: identities.map Prod.fst

/-- `_process_alive`. -/
def processAlive (processStart : Nat → Option String) (pid : Option Nat)
    (start : Option String) : Bool :=
  match pid with
  | none | some 0 => false
  | some pid => processStart pid == start

namespace Caller

variable (c : Caller)

/-- `anchor_alive`. -/
def anchorAlive (anchor : Option String) : Bool :=
  match anchor.bind (Str.partition ':') with
  | none => false
  | some (pid, start) =>
    match Str.intOf pid.toList with
    | none => false
    | some pid => processAlive c.processStart (some pid) (some start)

/-- The registered anchor of an identity. -/
def registered (agentId : String) : Option String :=
  (c.identities.lookup agentId).bind Identity.anchor

/-- `current_anchor`: from the process tree, else the registered one. -/
def currentAnchor : Option String :=
  match c.harness with
  | some anchor => if c.anchorAlive anchor then some anchor else none
  | none => if c.anchorAlive (c.registered c.agentId) then c.registered c.agentId else none

/-- The identities registered on an anchor. -/
def onAnchor (anchor : String) : List (String × Identity) :=
  c.identities.filter fun row => row.2.anchor == some anchor

/-- What `_lineage` returns next to the agent id. -/
structure Lineage where
  anchor : Option String
  family : List String
  mains : List String
  child : Bool

/-- `_lineage`. -/
def lineage : Lineage :=
  match c.currentAnchor with
  | none => ⟨none, [], [], false⟩
  | some anchor =>
    let rows := c.onAnchor anchor
    let mains := (rows.filter (·.2.main)).map Prod.fst
    if mains.isEmpty then ⟨some anchor, rows.map Prod.fst, rows.map Prod.fst, false⟩
    else ⟨some anchor, rows.map Prod.fst, mains, !mains.contains c.agentId⟩

/-- The legacy alias `_with_tmux` adds. -/
def tmuxAlias : List String :=
  match c.tmuxPane with
  | some pane => ["tmux:" ++ Str.lstripBy (· == '%') pane]
  | none => []

/-- `self_ids`: the lease owners the caller acts for. -/
def selfIds : List String :=
  c.agentId :: (if c.lineage.child then [] else c.lineage.mains) ++ c.tmuxAlias

/-- `my_anchor`: the anchor a lease is stamped and matched with. -/
def myAnchor : Option String := if c.lineage.child then none else c.lineage.anchor

/-- The identities of `session_ids`: the whole session, child threads and resets
    included. -/
def sessionIds : List String := c.agentId :: c.lineage.family ++ c.tmuxAlias

/-- The anchor of `session_ids`. -/
def sessionAnchor : Option String := c.lineage.anchor

/-- The stamp of an identity's last `observe`, empty when it is not registered. -/
def lastSeen (agentId : String) : String :=
  ((c.identities.lookup agentId).map Identity.last).getD ""

/-- The latest of the given identities by its `last` stamp, the first among equals. -/
def latest (ids : List String) : Option String := ids.foldl (keepBest c.lastSeen) none

/-- `root_key`: the writer key; a child thread records under its process's latest
    main-thread key. -/
def rootKey : String :=
  if c.lineage.child then (c.latest c.lineage.mains).getD c.agentId else c.agentId

/-- `same_agent`: equal ids, or ids on one live anchor. -/
def sameAgent (a b bAnchor : Option String) : Bool :=
  match a, b with
  | some a, some b =>
    if a = "" ∨ b = "" then false
    else if a = b then true
    else
      let anchorA := c.registered a
      let anchorB := match bAnchor with
        | some "" | none => c.registered b
        | some anchor => some anchor
      match anchorA with
      | none | some "" => false
      | some _ => anchorA == anchorB && c.anchorAlive anchorA
  | _, _ => false

/-! ### Families -/

/-- The identities of a family come from the registry. -/
theorem lineage_family_subset :
    ∀ id ∈ c.lineage.family, id ∈ c.identities.map Prod.fst := by
  intro id hid
  unfold lineage at hid
  split at hid
  · simp at hid
  · next anchor _ =>
    have hrows : id ∈ (c.onAnchor anchor).map Prod.fst := by
      dsimp only at hid
      split at hid
      · exact hid
      · exact hid
    obtain ⟨row, hrow, rfl⟩ := List.mem_map.mp hrows
    exact List.mem_map_of_mem (List.mem_filter.mp hrow).1

/-- Main threads are of the family. -/
theorem lineage_mains_subset : ∀ id ∈ c.lineage.mains, id ∈ c.lineage.family := by
  intro id hid
  unfold lineage at hid ⊢
  split at hid
  · simp at hid
  · dsimp only at hid ⊢
    split at hid
    · next hempty =>
      rw [if_pos hempty]
      exact hid
    · next hempty =>
      rw [if_neg hempty]
      obtain ⟨row, hrow, rfl⟩ := List.mem_map.mp hid
      exact List.mem_map_of_mem (List.mem_filter.mp hrow).1

/-- The writer key is one of the session's identities. -/
theorem rootKey_mem : c.rootKey = c.agentId ∨ c.rootKey ∈ c.lineage.family := by
  unfold rootKey
  split
  · cases hlatest : c.latest c.lineage.mains with
    | none => exact .inl rfl
    | some id =>
      rcases mem_of_foldl_keepBest hlatest with hnone | hmem
      · cases hnone
      · exact .inr (c.lineage_mains_subset id hmem)
  · exact .inl rfl

theorem rootKey_mem_sessionIds : c.rootKey ∈ c.sessionIds := by
  unfold sessionIds
  rcases c.rootKey_mem with h | h
  · rw [h]
    exact List.mem_cons_self
  · exact List.mem_cons_of_mem _ (List.mem_append_left _ h)

theorem rootKey_ne_empty : c.rootKey ≠ "" := by
  intro hempty
  apply c.ids_nonempty
  rcases c.rootKey_mem with h | h
  · rw [← hempty, h]
    exact List.mem_cons_self
  · rw [← hempty]
    exact List.mem_cons_of_mem _ (c.lineage_family_subset _ h)

end Caller

end SummitFlow.Coord
