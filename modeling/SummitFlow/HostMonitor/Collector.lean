import SummitFlow.ForStd.Dict
import SummitFlow.ForStd.Run

/-!
# The collector loop

Model of `Runtime` and of the loop of `run` in `host-monitor/src/main.rs`, as far as they
decide when detail is captured: leases, the trigger that service transitions and pressure
share, and the readings of pressure.  The pressure of the host and the states of its
services are inputs, as is every reading of the clock; times are nanoseconds since the
process started.
-/

namespace SummitFlow.Collector

/-- One second. -/
def second : Nat := 1000000000

/-- `BASELINE`. -/
def baseline : Nat := 5 * second

/-- `MAX_ACTIVE_LEASES`. -/
def maxActiveLeases : Nat := 16

structure Runtime where
  leases : List (String × Nat)
  triggerUntil : Option Nat
  pressureHigh : Nat
  pressureLow : Nat
  serviceStates : List (String × String)
deriving DecidableEq, Repr

def Runtime.new : Runtime where
  leases := []
  triggerUntil := none
  pressureHigh := 0
  pressureLow := 0
  serviceStates := []

/-- The leases that have not expired. -/
def Runtime.expire (now : Nat) (state : Runtime) : Runtime :=
  { state with leases := state.leases.filter fun lease => now < lease.2 }

/-- `Runtime::detail`, once the expired leases are gone. -/
def Runtime.active (now : Nat) (state : Runtime) : Bool :=
  !state.leases.isEmpty || state.triggerUntil.any (now < ·)

/-- `saturating_add(1)` of an `u8`. -/
def saturatingSucc (n : Nat) : Nat := min 255 (n + 1)

/-! ## Requests -/

/-- A command of the control socket; `random` is what `/dev/urandom` gives for the id. -/
inductive Request where
  | status
  | leaseStart (ttlSeconds : Option Nat) (random : Option String)
  | leaseRenew (leaseId : Option String) (ttlSeconds : Option Nat)
  | leaseEnd (leaseId : Option String)
  | unknown
deriving DecidableEq, Repr

inductive Reply where
  | status (detailActive : Bool) (activeLeases : Nat)
  | started (leaseId : String) (expiresInSeconds : Nat)
  | renewed (expiresInSeconds : Nat)
  | ended (ok : Bool)
  | refused (error : String)
deriving DecidableEq, Repr

/-- The granted time: `unwrap_or(30).clamp(1, 300)`. -/
def grantedTtl (ttlSeconds : Option Nat) : Nat := min 300 (max 1 (ttlSeconds.getD 30))

/-- `Runtime::dispatch`, at the time it reads. -/
def Runtime.dispatch (now : Nat) (request : Request) (state : Runtime) : Runtime × Reply :=
  let state := state.expire now
  match request with
  | .status => (state, .status (state.active now) state.leases.length)
  | .leaseStart ttlSeconds random =>
    if maxActiveLeases ≤ state.leases.length then (state, .refused "lease_capacity_reached")
    else match random with
      | none => (state, .refused "random_unavailable")
      | some id =>
        let ttl := grantedTtl ttlSeconds
        ({ state with leases := Dict.set id (now + ttl * second) state.leases }, .started id ttl)
  | .leaseRenew none _ => (state, .refused "missing_lease_id")
  | .leaseRenew (some id) ttlSeconds =>
    if (state.leases.lookup id).isNone then (state, .refused "unknown_or_expired_lease")
    else
      let ttl := grantedTtl ttlSeconds
      ({ state with leases := Dict.set id (now + ttl * second) state.leases }, .renewed ttl)
  | .leaseEnd none => (state, .refused "missing_lease_id")
  | .leaseEnd (some id) =>
    ({ state with leases := state.leases.filter fun lease => lease.1 ≠ id },
      .ended (state.leases.lookup id).isSome)
  | .unknown => (state, .refused "unknown_command")

/-- The requests the loop finds waiting, with the times they are served at. -/
def Runtime.serve (state : Runtime) :
    List (Nat × Request) → Runtime × List (Nat × Request × Reply)
  | [] => (state, [])
  | (clock, request) :: requests =>
    let (state, reply) := state.dispatch clock request
    let (state, replies) := state.serve requests
    (state, (clock, request, reply) :: replies)

/-! ## A baseline sample -/

/-- What is written to the store's event log. -/
inductive Event where
  | serviceStateChange (name previous current : String)
  | captureStart (name : Option String) (reason : String)
  | captureStop
deriving DecidableEq, Repr

/-- `active_state` of a service in what `services` found; it is not there when `systemctl`
    failed. -/
def serviceState (services : List (String × Option String)) (name : String) : String :=
  ((services.lookup name).join).getD "unavailable"

/-- A service is down. -/
def down (current : String) : Bool := current = "failed" || current = "inactive"

/-- The loop over the services: a service that goes down starts a capture. -/
def Runtime.noteServices (now : Nat) (services : List (String × Option String)) :
    List String → Runtime → Runtime × List Event
  | [], state => (state, [])
  | name :: names, state =>
    let current := serviceState services name
    let seen := { state with serviceStates := Dict.set name current state.serviceStates }
    match state.serviceStates.lookup name with
    | none => seen.noteServices now services names
    | some old =>
      if old = current then seen.noteServices now services names
      else if down current then
        let (state, events) :=
          { seen with triggerUntil := some (now + 60 * second) }.noteServices now services names
        (state, .serviceStateChange name old current ::
          .captureStart (some name) "service_transition" :: events)
      else
        let (state, events) := seen.noteServices now services names
        (state, .serviceStateChange name old current :: events)

/-- A reading of pressure: high, low, or unknown. -/
def Runtime.notePressure (now : Nat) (reading : Option Bool) (state : Runtime) :
    Runtime × List Event :=
  match reading with
  | some true =>
    let high := saturatingSucc state.pressureHigh
    let state := { state with pressureHigh := high, pressureLow := 0 }
    if 3 ≤ high then
      ({ state with triggerUntil := some (now + 60 * second) },
        if high = 3 then [.captureStart none "high_pressure"] else [])
    else (state, [])
  | some false =>
    let low := saturatingSucc state.pressureLow
    let state := { state with pressureLow := low, pressureHigh := 0 }
    if 3 ≤ low ∧ state.leases = [] then ({ state with triggerUntil := none }, [])
    else (state, [])
  | none => (state, [])

/-- What the host shows at an iteration.  Pressure is unknown where there is no policy. -/
structure Observed where
  services : List (String × Option String)
  pressure : Option Bool
deriving DecidableEq, Repr

def Runtime.sample (names : List String) (now : Nat) (observed : Observed) (state : Runtime) :
    Runtime × List Event :=
  let (state, changes) := state.noteServices now observed.services names
  let (state, captures) := state.notePressure now observed.pressure
  (state, changes ++ captures)

/-! ## The loop -/

structure Loop where
  state : Runtime
  nextBaseline : Nat
  wasDetail : Bool
deriving DecidableEq, Repr

/-- The collector as it starts. -/
def Loop.start (now : Nat) : Loop where
  state := .new
  nextBaseline := now
  wasDetail := false

/-- `while next_baseline <= now { next_baseline += BASELINE }`. -/
def advance (next now : Nat) : Nat :=
  if next ≤ now then next + ((now - next) / baseline + 1) * baseline else next

/-- What one iteration of the loop reads: the time it starts at, the requests it serves
    first, the host, and the time of the snapshot it ends with. -/
structure Iteration where
  now : Nat
  requests : List (Nat × Request)
  observed : Observed
  snapshot : Nat
deriving DecidableEq, Repr

/-- What one iteration did: the requests it served, the pressure it read, its events, how
    many leases there were and whether it captured detail. -/
structure Report where
  now : Nat
  replies : List (Nat × Request × Reply)
  reading : Option Bool
  events : List Event
  held : Nat
  detail : Bool
deriving DecidableEq, Repr

section

variable (names : List String)

def Loop.iterate (loop : Loop) (i : Iteration) : Loop × Report :=
  let (state, replies) := loop.state.serve i.requests
  let state := state.expire i.now
  let due := decide (loop.nextBaseline ≤ i.now)
  if due || state.active i.now then
    let (state, events) := if due then state.sample names i.now i.observed else (state, [])
    let state := state.expire i.now
    let active := state.active i.now
    let captures :=
      if active && !loop.wasDetail then
        [Event.captureStart none (if state.leases = [] then "trigger" else "lease")]
      else if !active && loop.wasDetail then [.captureStop] else []
    ({ state := (state.dispatch i.snapshot .status).1
       nextBaseline := if due then advance loop.nextBaseline i.now else loop.nextBaseline
       wasDetail := active },
      { now := i.now
        replies := replies
        reading := if due then i.observed.pressure else none
        events := events ++ captures
        held := state.leases.length
        detail := active })
  else
    ({ loop with state := state },
      { now := i.now
        replies := replies
        reading := none
        events := []
        held := state.leases.length
        detail := false })

/-- What the collector does next: an iteration, or a request served while it waits for the
    next one. -/
inductive Turn where
  | iterate (i : Iteration)
  | wait (clock : Nat) (request : Request)
deriving DecidableEq, Repr

/-- What came of a turn. -/
inductive Outcome where
  | iterated (report : Report)
  | served (clock : Nat) (request : Request) (reply : Reply)
deriving DecidableEq, Repr

def Loop.step (loop : Loop) : Turn → Loop
  | .iterate i => (loop.iterate names i).1
  | .wait clock request => { loop with state := (loop.state.dispatch clock request).1 }

def Loop.outcome (loop : Loop) : Turn → Outcome
  | .iterate i => .iterated (loop.iterate names i).2
  | .wait clock request => .served clock request (loop.state.dispatch clock request).2

end

end SummitFlow.Collector
