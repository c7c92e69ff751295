import SummitFlow.Cli.CoordLineage
import SummitFlow.ForStd.Run
import SummitFlow.ForStd.UpdateFirst
import SummitFlow.Python.Error

/-!
# The handshake ledger

Model of the ledger section of `backend/cli/lib/coord.py`: request, ack (intent),
confirm.  The lock on the `_coord` document makes each function one step on the
stored rows.  Every function starts from `_load_ledger`, which drops rows past
`LEDGER_TTL` and reopens requests whose eta ran out; only the branches that save
make that visible.

Times are in microseconds; a call samples the clock up to three times, before the
lock, in `_load_ledger` and when it stamps a row.
-/

namespace SummitFlow.Ledger

open Coord (Caller)

/-- `ACK_VALID_FOR`, two hours. -/
def ackValidFor : Int := 2 * 3600 * 1000000

/-- `LEDGER_TTL`, a day. -/
def ledgerTtl : Int := 24 * 3600 * 1000000

/-- `UNACKED_AFTER`, ten minutes. -/
def unackedAfter : Int := 10 * 60 * 1000000

/-- `MAX_TEXT`. -/
def maxText : Nat := 500

inductive State where
  | opened | acked | closed | fyi
deriving DecidableEq, Repr

/-- The text of a state. -/
def State.text : State → String
  | .opened => "open"
  | .acked => "acked"
  | .closed => "closed"
  | .fyi => "fyi"

inductive Intent where
  | yes | no | eta
deriving DecidableEq, Repr

/-- The text of an intent. -/
def Intent.text : Intent → String
  | .yes => "yes"
  | .no => "no"
  | .eta => "eta"

/-- The host and the reply window of a request from another machine. -/
structure Remote where
  host : String
  replyWindow : Option String
deriving DecidableEq, Repr

/-- What `send` records and no later step changes. -/
structure Request where
  id : String
  sender : String
  senderSession : String
  recipient : String
  project : Option String
  sourceKey : Option String
  text : String
  created : Int
  remote : Option Remote
deriving DecidableEq, Repr

/-- A ledger row. -/
structure Row extends Request where
  state : State
  intent : Option Intent
  etaMin : Option Nat
  note : Option String
  ackedAt : Option Int
  ackedBy : Option String
  closedAt : Option Int
  surfacedAt : Option Int
  ackSeen : Bool
  autoClosed : Bool
  withdrawn : Bool
deriving DecidableEq, Repr

/-- What a call finds: the calling process, its clock samples, the id `uuid4` would
    give a new row, and the keys the hooks of an identity have shown
    (`coord_wake.load_seen`). -/
structure Env where
  caller : Caller
  started : Int
  loaded : Int
  stamped : Int
  newId : String
  seen : String → List String

/-! ## Loading -/

/-- `_reopen_lapsed_eta`. -/
def reopenLapsedEta (now : Int) (row : Row) : Row :=
  match row.ackedAt, row.etaMin with
  | some ackedAt, some etaMin =>
    if row.state = .acked ∧ row.intent = some .eta ∧ ackedAt + etaMin * 60000000 ≤ now then
      { row with state := .opened }
    else row
  | _, _ => row

/-- `_load_ledger`. -/
def load (now : Int) (rows : List Row) : List Row :=
  (rows.filter fun row => now - row.created ≤ ledgerTtl).map (reopenLapsedEta now)

/-- `_find`. -/
def find (rows : List Row) (messageId : String) : Except PyError Row :=
  match rows.find? fun row => row.id == messageId with
  | some row => .ok row
  | none => .error (.valueError ("unknown request " ++ messageId))

/-- Changing the row `_find` returned, in place. -/
def updateRow (messageId : String) (f : Row → Row) (rows : List Row) : List Row :=
  updateFirst (fun row => row.id == messageId) f rows

/-- `_clean_text`. -/
def cleanText (text : String) (limit : Option Nat) : Except PyError String :=
  let flat := Str.joinWords text
  if flat.isEmpty then .error (.valueError "message text is empty")
  else match limit with
  | some limit =>
    if flat.length > limit then
      .error (.valueError ("message text exceeds " ++ toString limit ++
        " chars; put long material in a brief file and send its path"))
    else .ok flat
  | none => .ok flat

/-- `fyi_shown`. -/
def fyiShown (env : Env) (row : Row) : Bool :=
  (row.recipient :: env.caller.selfIds).any fun i => (env.seen i).contains (row.id ++ ":fyi")

/-- `_addresses`: the caller's identity or its main-thread predecessors. -/
def addresses (c : Caller) (recipient agentId sessionId : String) : Bool :=
  if recipient = "" then false
  else if recipient = agentId ∨ 13 ≤ recipient.length ∧ Str.startswith sessionId recipient then
    true
  else if c.selfIds.contains recipient then true
  else if recipient.length < 13 then false
  else c.selfIds.any fun i =>
    Str.startswith (((c.identities.lookup i).map Coord.Identity.session).getD "") recipient

/-! ## Sending -/

/-- The arguments of `send`. -/
structure SendArgs where
  recipient : String
  text : String
  project : Option String
  limit : Nat
  sourceKey : Option String
  sender : Option String
  remote : Option Remote
  fyi : Bool

/-- Whether `send` returns an existing row in place of a new one. -/
def isDuplicate (env : Env) (args : SendArgs) (agentId body : String) (row : Row) : Bool :=
  row.sender == agentId && row.recipient == args.recipient &&
    ((args.sourceKey.any (· != "") && row.sourceKey == args.sourceKey) ||
      (row.text == body &&
        ((!args.fyi && row.state == .opened) ||
          (args.fyi && row.state == .fyi && !fyiShown env row))))

/-- The row `send` appends. -/
def newRow (env : Env) (args : SendArgs) (agentId sessionId body : String) : Row where
  id := env.newId
  sender := agentId
  senderSession := sessionId
  recipient := args.recipient
  project := args.project
  sourceKey := args.sourceKey
  text := body
  created := env.started
  remote := args.remote
  state := if args.fyi then .fyi else .opened
  intent := none
  etaMin := none
  note := none
  ackedAt := none
  ackedBy := none
  closedAt := none
  surfacedAt := none
  ackSeen := false
  autoClosed := false
  withdrawn := false

/-- The identity a call records: the given one, else the caller's. -/
def actor (env : Env) (given : Option String) : String × String :=
  match given with
  | some agentId =>
    if agentId = "" then (env.caller.agentId, env.caller.sessionId) else (agentId, "")
  | none => (env.caller.agentId, env.caller.sessionId)

/-- `send`; the flag is the `duplicate` key of an existing row. -/
def send (env : Env) (args : SendArgs) (rows : List Row) :
    Except PyError (List Row × (Row × Bool)) := do
  let body ← cleanText args.text (some args.limit)
  let (agentId, sessionId) := actor env args.sender
  let loaded := load env.loaded rows
  match loaded.find? (isDuplicate env args agentId body) with
  | some row => return (rows, (row, true))
  | none =>
    let row := newRow env args agentId sessionId body
    return (loaded ++ [row], (row, false))

/-- `drop`. -/
def drop (env : Env) (messageId : String) (rows : List Row) : List Row :=
  (load env.loaded rows).filter fun row => row.id != messageId

/-! ## Acks -/

/-- The intent of an ack and the minutes of an eta: `yes`, `no` or `eta:<1-4 digits>`. -/
def parseIntent (intent : String) : Option (Intent × Option Nat) :=
  if intent = "yes" then some (.yes, none)
  else if intent = "no" then some (.no, none)
  else if Str.startswith intent "eta:" then
    let digits := intent.toList.drop 4
    if digits.length ≤ 4 then (Str.intOf digits).map fun n => (.eta, some n) else none
  else none

/-- The changes of an ack. -/
def ackRow (intent : Intent) (etaMin : Option Nat) (note : Option String)
    (ackedAt : Int) (agentId : String) (row : Row) : Row :=
  { row with
    state := .acked, intent := some intent, etaMin := etaMin, note := note,
    ackedAt := some ackedAt, ackedBy := some agentId, ackSeen := false }

/-- A text argument Python treats as given. -/
def given (text : Option String) : Option String := text.filter (· != "")

/-- Whether the request is the acking agent's to answer. -/
def ackAddressed (env : Env) (remote : Option (String × String)) (row : Row) : Bool :=
  match remote with
  | some (_, address) => row.recipient == address
  | none => addresses env.caller row.recipient env.caller.agentId env.caller.sessionId

/-- `ack`; `remote` is the acking agent and the address for a forwarded ack. -/
def ack (env : Env) (messageId intent : String) (note : Option String)
    (remote : Option (String × String)) (rows : List Row) :
    Except PyError (List Row × Row) := do
  let some (intent, etaMin) := parseIntent intent
    | .error (.valueError "intent must be yes, no or eta:<minutes>")
  if intent = .no ∧ given note = none then
    .error (.valueError "a 'no' ack needs a short reason")
  let agentId := (remote.map Prod.fst).getD env.caller.agentId
  let loaded := load env.loaded rows
  let row ← find loaded messageId
  if !ackAddressed env remote row then
    .error (.valueError ("request " ++ messageId ++ " is not addressed to " ++ agentId))
  if row.state = .closed then
    .error (.valueError ("request " ++ messageId ++ " is already closed"))
  if row.state = .fyi then
    .error (.valueError (messageId ++ " is an FYI note: nothing to answer"))
  let note ← match given note with
    | some note => some <$> cleanText note none
    | none => pure none
  let change := ackRow intent etaMin note env.stamped agentId
  return (updateRow messageId change loaded, change row)

/-- The changes of `close_bare_ack`. -/
def closeRow (closedAt : Int) (row : Row) : Row :=
  { row with state := .closed, autoClosed := true, closedAt := some closedAt, ackSeen := true }

/-- `close_bare_ack`. -/
def closeBareAck (env : Env) (messageId : String) (lane : Bool) (rows : List Row) :
    Except PyError (List Row × Row) := do
  let loaded := load env.loaded rows
  let row ← find loaded messageId
  if row.state ≠ .acked ∨ row.intent ≠ some .yes ∨ (given row.note).isSome ∧ lane = false then
    return (rows, row)
  let change := closeRow env.stamped
  return (updateRow messageId change loaded, change row)

/-- The least of some identities, the one `confirm` names. -/
def leastId : List String → String
  | [] => ""
  | [id] => id
  | id :: ids => let least := leastId ids; if least < id then least else id

/-- The identities whose requests a confirm may close. -/
def requesterIds (env : Env) (senders : List String) : List String :=
  if senders.isEmpty then env.caller.selfIds else senders

/-- The changes of a confirm. -/
def confirmRow (withdraw : Bool) (closedAt : Int) (row : Row) : Row :=
  { row with
    withdrawn := row.withdrawn || withdraw
    state := .closed, closedAt := some closedAt, ackSeen := true }

/-- `confirm`; `senders` are the requester's ids for a forwarded confirm. -/
def confirm (env : Env) (messageId : String) (withdraw : Bool) (senders : List String)
    (rows : List Row) : Except PyError (List Row × Row) := do
  let agentId := if senders.isEmpty then env.caller.agentId else leastId senders
  let loaded := load env.loaded rows
  let row ← find loaded messageId
  if !(requesterIds env senders).contains row.sender then
    .error (.valueError ("request " ++ messageId ++ " was not sent by " ++ agentId))
  -- closed when the bare ack came in: nothing left to do
  if row.state = .closed ∧ row.autoClosed ∧ withdraw = false then return (rows, row)
  if row.state = .fyi then
    .error (.valueError (messageId ++ " is an FYI note: nothing to confirm"))
  if withdraw then
    if row.state ≠ .opened then
      .error (.valueError ("request " ++ messageId ++ " is " ++ row.state.text ++
        "; only an unacked request can be withdrawn"))
  else if row.state ≠ .acked then
    .error (.valueError ("request " ++ messageId ++ " has no ack to confirm (state=" ++
      row.state.text ++ "); to drop it: st sessions confirm " ++ messageId ++ " --withdraw"))
  let change := confirmRow withdraw env.stamped
  return (updateRow messageId change loaded, change row)

/-! ## Notices -/

/-- `_age`, for a stamp that parses. -/
def age (stamp now : Int) : String :=
  let secs := (now - stamp).tdiv 1000000
  if secs < 60 then toString secs ++ "s"
  else if secs < 3600 then toString (secs / 60) ++ "m"
  else toString (secs / 3600) ++ "h"

/-- What `notices` does with one row of the caller's: the line it shows and the row
    with its mark; nothing for any other row. -/
def noticeRow (env : Env) (row : Row) : Except PyError (Option String × Row) :=
  if !env.caller.selfIds.contains row.sender then .ok (none, row)
  else if row.state = .acked ∧ row.ackSeen = false then
    match row.intent with
    | none => .error (.typeError "unsupported operand type(s) for +: 'NoneType' and 'str'")
    | some intent =>
      let minutes := match row.etaMin with
        | none | some 0 => ""
        | some n => " " ++ toString n ++ "m"
      .ok (some ("ACK " ++ row.id ++ " " ++ intent.text ++ minutes ++ " from " ++
        row.ackedBy.getD "None" ++ "; close: st sessions confirm " ++ row.id),
        { row with ackSeen := true })
  else if row.state = .opened ∧ row.surfacedAt = none ∧ row.intent = none ∧
      unackedAfter ≤ env.started - row.created then
    .ok (some ("UNACKED " ++ row.id ++ " -> " ++ row.recipient ++ " (" ++
      age row.created env.started ++ "); escalate or route around"),
      { row with surfacedAt := some env.started })
  else .ok (none, row)

/-- The line about the requests that await the caller's ack. -/
def inboxLine (env : Env) (rows : List Row) : List String :=
  let toMe := rows.filter fun row =>
    row.state == .opened && addresses env.caller row.recipient env.caller.agentId env.caller.sessionId
  if toMe.isEmpty then []
  else ["INBOX " ++ toString toMe.length ++ " request(s) " ++
    String.intercalate "," ((toMe.take 3).map fun row => row.id) ++
    " awaiting your ack: st sessions inbox"]

/-- The ledger part of `notices`: the lines, and the rows with their marks when one
    was shown. -/
def notices (env : Env) (rows : List Row) : Except PyError (List Row × List String) := do
  let loaded := load env.loaded rows
  let shown ← loaded.mapM (noticeRow env)
  let lines := shown.filterMap Prod.fst
  return (if lines.isEmpty then rows else shown.map Prod.snd, inboxLine env loaded ++ lines)

/-! ## Authorization -/

/-- The holder `ack_authorizes` asks about: a lease's agent and anchor. -/
structure Holder where
  agentId : String
  anchor : Option String

/-- `ack_authorizes`: a yes-ack from this holder, for this project, younger than
    `ACK_VALID_FOR`. -/
def ackAuthorizes (env : Env) (messageId : String) (holder : Holder) (projectId : String)
    (rows : List Row) : Bool :=
  match (load env.loaded rows).find? fun row => row.id == messageId &&
      env.caller.selfIds.contains row.sender && row.intent == some .yes with
  | none => false
  | some row =>
    env.caller.sameAgent row.ackedBy (some holder.agentId) holder.anchor &&
      (row.project == none || row.project == some projectId) &&
      match row.ackedAt with
      | some ackedAt => decide (env.stamped - ackedAt ≤ ackValidFor)
      | none => false

/-! ## Runs -/

inductive Op where
  | send (args : SendArgs)
  | drop (messageId : String)
  | ack (messageId intent : String) (note : Option String) (remote : Option (String × String))
  | closeBareAck (messageId : String) (lane : Bool)
  | confirm (messageId : String) (withdraw : Bool) (senders : List String)
  | notices

/-- The rows after a call; a call that raised saved nothing. -/
def serveStep (rows : List Row) (call : Env × Op) : List Row :=
  match call.2 with
  | .send args => stateOr rows (send call.1 args rows)
  | .drop messageId => drop call.1 messageId rows
  | .ack messageId intent note remote =>
    stateOr rows (ack call.1 messageId intent note remote rows)
  | .closeBareAck messageId lane => stateOr rows (closeBareAck call.1 messageId lane rows)
  | .confirm messageId withdraw senders =>
    stateOr rows (confirm call.1 messageId withdraw senders rows)
  | .notices => stateOr rows (notices call.1 rows)

end SummitFlow.Ledger
