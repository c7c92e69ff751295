import Mathlib.Logic.Function.Basic
import SummitFlow.Python.Error
import SummitFlow.ForStd.Run
import SummitFlow.ForStd.Versioned

/-!
# The coordination store's client

Model of `backend/cli/lib/coord_store.py`.  The documents live in Tether, which
answers a GET with the document and its version and accepts a PUT against the current
version only; every process has its own `_changes`.  A function that uses the store is
a program over its four operations, run by a machine with an explicit stack of the
`with lock` blocks and `@retrying` calls it is inside, so that a GET or a PUT of one
client is one step and the steps of different clients interleave in any order.

`D` is the type of documents and `V` the type of the values functions return.
-/

namespace SummitFlow.CoordStore

/-- `_ATTEMPTS`. -/
def attempts : Nat := 40

/-- An exception a client sees: `Conflict`, another `Unavailable`, or one of the
    function's own. -/
inductive Exc where
  | conflict (name : String)
  | unavailable (detail : String)
  | raised (e : PyError)
deriving DecidableEq, Repr

/-- A function over the store.  Inside a change `read` serves the change's own copy, so
    `read; compute; write` has one request, the PUT: it is the single operation `write`
    here, and a document that was computed earlier is a constant `compute`. -/
inductive Prog (D V : Type) where
  | ret (value : V)
  | raise (e : PyError)
  /-- The clock, a fresh id, a file: whatever the function gets from elsewhere. -/
  | input (k : V → Prog D V)
  | read (name : String) (k : D → Prog D V)
  | write (name : String) (compute : D → D) (k : Prog D V)
  /-- `with lock(name): body`, then `k`. -/
  | lock (name : String) (body : Prog D V) (k : V → Prog D V)
  /-- A call of a `@retrying` function. -/
  | retrying (body : Prog D V) (k : V → Prog D V)

/-- What a client is inside of. -/
inductive Frame (D V : Type) where
  /-- The `lock(name)` that read the document. -/
  | opened (name : String) (k : V → Prog D V)
  /-- A `lock(name)` inside a change of the same document. -/
  | joined (name : String) (k : V → Prog D V)
  /-- `retrying`'s loop: the documents in a change when it was called, the attempt it is
      at, the function and what follows the call. -/
  | retrying (outer : String → Bool) (attempt : Nat) (body : Prog D V) (k : V → Prog D V)

inductive Control (D V : Type) where
  | idle
  | run (p : Prog D V)
  | raised (e : Exc)

/-- One process: `_changes`, and where its program is. -/
structure Client (D V : Type) where
  changes : String → Option (Versioned D)
  control : Control D V
  stack : List (Frame D V)

/-- A process with no function running. -/
def Client.initial {D V : Type} : Client D V where
  changes := fun _ => none
  control := .idle
  stack := []

/-- Tether's documents. -/
abbrev Store (D : Type) := String → Versioned D

/-- What happens to a request: it is answered, it never reaches Tether or is refused
    there, or it is served and the answer does not arrive. -/
inductive Net where
  | answered
  | refused (detail : String)
  | lost (detail : String)

/-- Tether's verdict on a PUT. -/
inductive Put where
  | accepted | conflict

variable {D V : Type}

/-- Tether's answer to a PUT against `version`. -/
def Store.put (store : Store D) (name : String) (version : Nat) : Put :=
  if version = (store name).version then .accepted else .conflict

/-- `set(_changes)`. -/
def Client.changing (c : Client D V) : String → Bool := fun name => (c.changes name).isSome

/-- `_changes.pop(name, None)`. -/
def Client.pop (c : Client D V) (name : String) : Client D V :=
  { c with changes := Function.update c.changes name none }

/-- A value returns to the innermost block or call. -/
def Client.return (c : Client D V) (value : V) : Client D V :=
  match c.stack with
  | [] => { c with control := .idle }
  | .opened name k :: rest => { c.pop name with control := .run (k value), stack := rest }
  | .joined _ k :: rest => { c with control := .run (k value), stack := rest }
  | .retrying _ _ _ k :: rest => { c with control := .run (k value), stack := rest }

/-- The text of the exception after the last attempt. -/
def keptChanging (name : String) : String :=
  name ++ " kept changing under " ++ toString attempts ++ " tries"

/-- An exception passes the innermost block, or meets the innermost `retrying`. -/
def Client.propagate (c : Client D V) (e : Exc) : Client D V :=
  match c.stack with
  | [] => { c with control := .idle }
  | .opened name _ :: rest => { c.pop name with stack := rest }
  | .joined _ _ :: rest => { c with stack := rest }
  | .retrying outer attempt body k :: rest =>
    match e with
    | .conflict name =>
      if outer name then { c with stack := rest }
      else if attempt + 1 = attempts then
        { c with
          control := .raised (.unavailable (keptChanging name))
          stack := rest }
      else
        { c with control := .run body, stack := .retrying outer (attempt + 1) body k :: rest }
    | _ => { c with stack := rest }

/-- A GET, and what to do with the answer. -/
def Client.fetch (c : Client D V) (store : Store D) (name : String) (net : Net)
    (k : Versioned D → Client D V) : Client D V :=
  match net with
  | .answered => k (store name)
  | .refused detail | .lost detail => { c with control := .raised (.unavailable detail) }

/-- `read`. -/
def Client.read (c : Client D V) (store : Store D) (name : String) (k : D → Prog D V)
    (net : Net) : Client D V :=
  match c.changes name with
  | some change => { c with control := .run (k change.doc) }
  | none => c.fetch store name net fun cell => { c with control := .run (k cell.doc) }

/-- `lock`, up to its `yield`. -/
def Client.lock (c : Client D V) (store : Store D) (name : String) (body : Prog D V)
    (k : V → Prog D V) (net : Net) : Client D V :=
  match c.changes name with
  | some _ => { c with control := .run body, stack := .joined name k :: c.stack }
  | none => c.fetch store name net fun cell =>
    { changes := Function.update c.changes name (some cell)
      control := .run body
      stack := .opened name k :: c.stack }

/-- `write` on the client's side: what the answer to its PUT makes of the change. -/
def Client.write (c : Client D V) (name : String) (change : Versioned D) (doc : D)
    (k : Prog D V) (put : Put) : Net → Client D V
  | .answered =>
    match put with
    | .conflict => { c with control := .raised (.conflict name) }
    | .accepted =>
      { c with
        changes := Function.update c.changes name (some (change.replace doc))
        control := .run k }
  | .refused detail | .lost detail => { c with control := .raised (.unavailable detail) }

/-! ## The system -/

/-- The clients and the store.  `accepted` is no part of either: it lists, for each
    document, the change functions of the writes that were accepted, in their order. -/
structure Sys (D V : Type) where
  store : Store D
  accepted : String → List (D → D)
  clients : Nat → Client D V

/-- A store that nobody has used yet. -/
def Sys.initial (docs : String → D) : Sys D V where
  store := fun name => ⟨0, docs name⟩
  accepted := fun _ => []
  clients := fun _ => Client.initial

def Sys.setClient (s : Sys D V) (id : Nat) (c : Client D V) : Sys D V :=
  { s with clients := Function.update s.clients id c }

/-- Tether accepts a PUT. -/
def Sys.accept (s : Sys D V) (name : String) (doc : D) (compute : D → D) : Sys D V :=
  { s with
    store := Function.update s.store name ((s.store name).replace doc)
    accepted := Function.update s.accepted name (s.accepted name ++ [compute]) }

/-- `write` of one client: the PUT reaches Tether unless it is refused. -/
def Sys.write (s : Sys D V) (id : Nat) (name : String) (change : Versioned D)
    (compute : D → D) (k : Prog D V) (net : Net) : Sys D V :=
  let c := s.clients id
  let doc := compute change.doc
  let put := s.store.put name change.version
  match net, put with
  | .refused _, _ | _, .conflict => s.setClient id (c.write name change doc k put net)
  | _, .accepted =>
    (s.accept name doc compute).setClient id (c.write name change doc k put net)

/-- One step of a client. -/
def Sys.stepClient (s : Sys D V) (id : Nat) (net : Net) (value : V) : Sys D V :=
  let c := s.clients id
  match c.control with
  | .idle => s
  | .raised e => s.setClient id (c.propagate e)
  | .run (.ret v) => s.setClient id (c.return v)
  | .run (.raise e) => s.setClient id { c with control := .raised (.raised e) }
  | .run (.input k) => s.setClient id { c with control := .run (k value) }
  | .run (.read name k) => s.setClient id (c.read s.store name k net)
  | .run (.lock name body k) => s.setClient id (c.lock s.store name body k net)
  | .run (.retrying body k) =>
    s.setClient id { c with
      control := .run body, stack := .retrying c.changing 0 body k :: c.stack }
  | .run (.write name compute k) =>
    match c.changes name with
    | none =>
      s.setClient id { c with
        control := .raised (.raised (.runtimeError
          ("write of " ++ name ++ " outside coord_store.lock"))) }
    | some change => s.write id name change compute k net

/-- What happens next: a client that has nothing to do calls a `@retrying` function, or
    a client takes a step. -/
inductive Action (D V : Type) where
  | call (id : Nat) (body : Prog D V)
  | step (id : Nat) (net : Net) (value : V)

/-- The client an action belongs to. -/
def Action.client : Action D V → Nat
  | .call id _ | .step id _ _ => id

def Sys.next (s : Sys D V) : Action D V → Sys D V
  | .call id body =>
    let c := s.clients id
    match c.control with
    | .idle =>
      s.setClient id { c with
        control := .run body, stack := .retrying c.changing 0 body .ret :: c.stack }
    | _ => s
  | .step id net value => s.stepClient id net value

end SummitFlow.CoordStore
