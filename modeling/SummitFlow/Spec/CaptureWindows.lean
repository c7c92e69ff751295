import SummitFlow.HostMonitor.Collector

/-!
# Capture windows

What the collector promises: detail is captured for a minute after a service goes down and
for as long as a lease was granted, and a capture that pressure started is not cut short
before pressure was low three times.  The promises are read off the outcomes of the turns,
and every turn keeps what it takes to honour them.
-/

namespace SummitFlow.Collector

/-! ## What is promised -/

/-- The readings of the clock, in the order they are taken. -/
def Turn.readings : Turn → List Nat
  | .iterate i => i.now :: (i.requests.map Prod.fst ++ [i.snapshot])
  | .wait clock _ => [clock]

/-- The clock never goes back. -/
def InOrder (turns : List Turn) : Prop := (turns.flatMap Turn.readings).Pairwise (· ≤ ·)

def Outcome.replies : Outcome → List (Nat × Request × Reply)
  | .iterated report => report.replies
  | .served clock request reply => [(clock, request, reply)]

/-- The pressure a turn read, if it read it. -/
def Outcome.reading : Outcome → Option Bool
  | .iterated report => report.reading
  | .served _ _ _ => none

/-- A service changed to failed or inactive. -/
def Event.wentDown : Event → Bool
  | .serviceStateChange _ _ current => down current
  | _ => false

def Report.wentDown (report : Report) : Bool := report.events.any Event.wentDown

/-- When and for how many seconds each lease was last started or renewed, unless it was
    ended since. -/
def noteGrant (grants : String → Option (Nat × Nat)) :
    Nat × Request × Reply → String → Option (Nat × Nat)
  | (clock, .leaseStart _ _, .started id ttl) => Function.update grants id (some (clock, ttl))
  | (clock, .leaseRenew (some id) _, .renewed ttl) =>
    Function.update grants id (some (clock, ttl))
  | (_, .leaseEnd (some id), .ended true) => Function.update grants id none
  | _ => grants

def grantsAfter (past : List Outcome) : String → Option (Nat × Nat) :=
  (past.flatMap Outcome.replies).foldl noteGrant fun _ => none

/-- The readings that were not unknown. -/
def known (past : List Outcome) : List Bool := past.filterMap Outcome.reading

/-- How many of the last readings were the same. -/
def trailing (b : Bool) (readings : List Bool) : Nat := (readings.reverse.takeWhile (· == b)).length

/-- After `before`, some iteration read low pressure, for the third time in a row at least,
    and there was no lease. -/
def CutShort (before after : List Outcome) : Prop :=
  ∃ zs report ws, after = zs ++ .iterated report :: ws ∧ report.reading = some false ∧
    3 ≤ trailing false (known (before ++ (zs ++ [.iterated report]))) ∧ report.held = 0

/-- The iteration would end a capture for low pressure. -/
def Clears (loop : Loop) (i : Iteration) : Prop :=
  loop.nextBaseline ≤ i.now ∧ i.observed.pressure = some false ∧ 2 ≤ loop.state.pressureLow ∧
    ((loop.state.serve i.requests).1.expire i.now).leases = []

/-- Some service is down and was not the last time. -/
def GoesDown (names : List String) (observed : Observed) (state : Runtime) : Prop :=
  ∃ name ∈ names, ∃ old, state.serviceStates.lookup name = some old ∧
    old ≠ serviceState observed.services name ∧ down (serviceState observed.services name) = true

/-- No lease expires between `now` and the time a request is served. -/
def Prompt (now : Nat) : Runtime → List (Nat × Request) → Prop
  | _, [] => True
  | state, (clock, request) :: requests =>
    (∀ lease ∈ state.leases, lease.2 ≤ clock → lease.2 ≤ now) ∧
      Prompt now (state.dispatch clock request).1 requests

/-- The turn ends no capture that a service started less than a minute before, and outlasts
    no lease. -/
def Undisturbed (names : List String) (past : List Outcome) (loop : Loop) : Turn → Prop
  | .wait _ _ => True
  | .iterate i =>
    (Clears loop i → ¬ GoesDown names i.observed loop.state ∧
      ∀ report, .iterated report ∈ past → report.wentDown = true →
        report.now + 60 * second ≤ i.now) ∧
    Prompt i.now loop.state i.requests

/-! ## Readings -/

theorem known_concat (past : List Outcome) (outcome : Outcome) :
    known (past ++ [outcome]) = known past ++ outcome.reading.toList := by
  rw [known, known, List.filterMap_append, List.filterMap_cons]
  cases outcome.reading with
  | none => rfl
  | some b => rfl

theorem trailing_concat (b x : Bool) (readings : List Bool) :
    trailing b (readings ++ [x]) = if x = b then trailing b readings + 1 else 0 := by
  rw [trailing, List.reverse_concat, List.takeWhile_cons]
  by_cases h : x = b
  · rw [if_pos h, if_pos (by simpa using h), List.length_cons, trailing]
  · rw [if_neg h, if_neg (by simpa using h), List.length_nil]

theorem saturatingSucc_min (n : Nat) : saturatingSucc (min 255 n) = min 255 (n + 1) := by
  unfold saturatingSucc
  omega

/-! ## Leases -/

section

variable {state : Runtime} {now : Nat} {request : Request}

@[simp] theorem expire_triggerUntil : (state.expire now).triggerUntil = state.triggerUntil := rfl

@[simp] theorem expire_pressureHigh : (state.expire now).pressureHigh = state.pressureHigh := rfl

@[simp] theorem expire_pressureLow : (state.expire now).pressureLow = state.pressureLow := rfl

@[simp] theorem expire_serviceStates : (state.expire now).serviceStates = state.serviceStates := rfl

/-- A request changes the leases only. -/
theorem dispatch_eq (now : Nat) (request : Request) (state : Runtime) :
    ∃ leases, (state.dispatch now request).1 = { state with leases := leases } := by
  cases request with
  | status => exact ⟨_, rfl⟩
  | leaseStart ttlSeconds random =>
    unfold Runtime.dispatch
    dsimp only
    split
    · exact ⟨_, rfl⟩
    · cases random with
      | none => exact ⟨_, rfl⟩
      | some id => exact ⟨_, rfl⟩
  | leaseRenew leaseId ttlSeconds =>
    cases leaseId with
    | none => exact ⟨_, rfl⟩
    | some id =>
      unfold Runtime.dispatch
      dsimp only
      split
      · exact ⟨_, rfl⟩
      · exact ⟨_, rfl⟩
  | leaseEnd leaseId =>
    cases leaseId with
    | none => exact ⟨_, rfl⟩
    | some id => exact ⟨_, rfl⟩
  | unknown => exact ⟨_, rfl⟩

theorem serve_eq (state : Runtime) (requests : List (Nat × Request)) :
    ∃ leases, (state.serve requests).1 = { state with leases := leases } := by
  induction requests generalizing state with
  | nil => exact ⟨state.leases, rfl⟩
  | cons entry requests ih =>
    obtain ⟨clock, request⟩ := entry
    obtain ⟨leases, hdispatch⟩ := dispatch_eq clock request state
    obtain ⟨leases', hserve⟩ := ih (state.dispatch clock request).1
    refine ⟨leases', ?_⟩
    show ((state.dispatch clock request).1.serve requests).1 = _
    rw [hserve, hdispatch]

/-- Of the leases granted so far, those that are not held have expired by `time`. -/
def Granted (grants : String → Option (Nat × Nat)) (time : Nat) (leases : List (String × Nat)) :
    Prop :=
  ∀ id clock ttl, grants id = some (clock, ttl) →
    (id, clock + ttl * second) ∈ leases ∨ clock + ttl * second ≤ time

theorem Granted.mono {grants : String → Option (Nat × Nat)} {time time' : Nat}
    {leases : List (String × Nat)} (h : Granted grants time leases) (hle : time ≤ time') :
    Granted grants time' leases :=
  fun id clock ttl hgrant => (h id clock ttl hgrant).imp_right fun hexpired => Nat.le_trans hexpired hle

/-- Expired leases go. -/
theorem Granted.expire {grants : String → Option (Nat × Nat)} {time : Nat}
    (h : Granted grants time state.leases)
    (hnow : ∀ lease ∈ state.leases, lease.2 ≤ now → lease.2 ≤ time) :
    Granted grants time (state.expire now).leases := by
  intro id clock ttl hgrant
  rcases h id clock ttl hgrant with hheld | hexpired
  · by_cases hlate : now < clock + ttl * second
    · exact .inl (List.mem_filter.mpr ⟨hheld, by simpa using hlate⟩)
    · exact .inr (hnow _ hheld (Nat.not_lt.mp hlate))
  · exact .inr hexpired

theorem Granted.set {grants : String → Option (Nat × Nat)} {time : Nat}
    {leases : List (String × Nat)} (h : Granted grants time leases) (id : String)
    (clock ttl : Nat) :
    Granted (Function.update grants id (some (clock, ttl))) time
      (Dict.set id (clock + ttl * second) leases) := by
  intro id' clock' ttl' hgrant
  by_cases hid : id' = id
  · subst hid
    rw [Function.update_self] at hgrant
    obtain ⟨rfl, rfl⟩ := Prod.mk.inj (Option.some.inj hgrant)
    exact .inl (Dict.mem_of_lookup (Dict.lookup_set_self _ _ _))
  · rw [Function.update_of_ne hid] at hgrant
    exact (h id' clock' ttl' hgrant).imp_left fun hheld => Dict.mem_set_of_ne hid hheld

/-- A request keeps every lease it grants, and drops what expires and what is ended. -/
theorem Granted.dispatch {grants : String → Option (Nat × Nat)} {time : Nat}
    (h : Granted grants time state.leases)
    (hnow : ∀ lease ∈ state.leases, lease.2 ≤ now → lease.2 ≤ time) :
    Granted (noteGrant grants (now, request, (state.dispatch now request).2)) time
      (state.dispatch now request).1.leases := by
  have hexpire := h.expire hnow
  cases request with
  | status => exact hexpire
  | leaseStart ttlSeconds random =>
    unfold Runtime.dispatch
    dsimp only
    split
    · exact hexpire
    · cases random with
      | none => exact hexpire
      | some id => exact hexpire.set id now (grantedTtl ttlSeconds)
  | leaseRenew leaseId ttlSeconds =>
    cases leaseId with
    | none => exact hexpire
    | some id =>
      unfold Runtime.dispatch
      dsimp only
      split
      · exact hexpire
      · exact hexpire.set id now (grantedTtl ttlSeconds)
  | leaseEnd leaseId =>
    cases leaseId with
    | none => exact hexpire
    | some id =>
      unfold Runtime.dispatch
      dsimp only
      cases hknown : ((state.expire now).leases.lookup id).isSome with
      | true =>
        intro id' clock ttl hgrant
        show (id', clock + ttl * second) ∈ List.filter _ _ ∨ _
        by_cases hid : id' = id
        · subst hid
          simp [noteGrant] at hgrant
        · have hold : grants id' = some (clock, ttl) := by
            simpa [noteGrant, Function.update_of_ne hid] using hgrant
          exact (hexpire id' clock ttl hold).imp_left fun hheld =>
            List.mem_filter.mpr ⟨hheld, by simpa using hid⟩
      | false =>
        intro id' clock ttl hgrant
        refine (hexpire id' clock ttl hgrant).imp_left fun hheld => List.mem_filter.mpr ⟨hheld, ?_⟩
        -- nothing is held under an id that is not known
        rw [decide_eq_true_eq]
        rintro rfl
        rw [Dict.isSome_lookup_of_mem hheld] at hknown
        cases hknown
  | unknown => exact hexpire

theorem length_expire_le : (state.expire now).leases.length ≤ state.leases.length :=
  List.length_filter_le _ _

theorem length_dispatch_le (h : state.leases.length ≤ maxActiveLeases) :
    (state.dispatch now request).1.leases.length ≤ maxActiveLeases := by
  have hexpire : (state.expire now).leases.length ≤ maxActiveLeases := Nat.le_trans length_expire_le h
  cases request with
  | status => exact hexpire
  | leaseStart ttlSeconds random =>
    unfold Runtime.dispatch
    dsimp only
    split
    · exact hexpire
    · next hroom =>
      cases random with
      | none => exact hexpire
      | some id =>
        show (Dict.set id _ (state.expire now).leases).length ≤ maxActiveLeases
        have hset := Dict.length_set_le id (now + grantedTtl ttlSeconds * second)
          (state.expire now).leases
        omega
  | leaseRenew leaseId ttlSeconds =>
    cases leaseId with
    | none => exact hexpire
    | some id =>
      unfold Runtime.dispatch
      dsimp only
      split
      · exact hexpire
      · next hknown =>
        show (Dict.set id _ (state.expire now).leases).length ≤ maxActiveLeases
        have hmem : id ∈ (state.expire now).leases.map Prod.fst := by
          by_contra hnone
          exact hknown (by rw [Dict.lookup_eq_none_of_notMem hnone]; rfl)
        rw [Dict.length_set_of_mem hmem]
        exact hexpire
  | leaseEnd leaseId =>
    cases leaseId with
    | none => exact hexpire
    | some id => exact Nat.le_trans (List.length_filter_le _ _) hexpire
  | unknown => exact hexpire

end

theorem length_serve_le {state : Runtime} (h : state.leases.length ≤ maxActiveLeases)
    (requests : List (Nat × Request)) :
    (state.serve requests).1.leases.length ≤ maxActiveLeases := by
  induction requests generalizing state with
  | nil => exact h
  | cons entry requests ih => exact ih (length_dispatch_le h)

/-- The requests of an iteration keep every lease that lasts beyond its start. -/
theorem Granted.serve {grants : String → Option (Nat × Nat)} {time : Nat} {state : Runtime}
    {requests : List (Nat × Request)} (h : Granted grants time state.leases)
    (hprompt : Prompt time state requests) :
    Granted ((state.serve requests).2.foldl noteGrant grants) time
      (state.serve requests).1.leases := by
  induction requests generalizing state grants with
  | nil => exact h
  | cons entry requests ih =>
    obtain ⟨clock, request⟩ := entry
    exact ih (h.dispatch hprompt.1) hprompt.2

/-- Requests served by the time `time` outlast no lease. -/
theorem prompt_of_le {time : Nat} {requests : List (Nat × Request)}
    (h : ∀ entry ∈ requests, entry.1 ≤ time) (state : Runtime) : Prompt time state requests := by
  induction requests generalizing state with
  | nil => trivial
  | cons entry requests ih =>
    obtain ⟨clock, request⟩ := entry
    refine ⟨fun lease _ hlate => Nat.le_trans hlate (h _ List.mem_cons_self), ?_⟩
    exact ih (fun entry hentry => h entry (List.mem_cons_of_mem _ hentry)) _

/-! ## Samples -/

/-- The trigger lasts until `time` at least. -/
def Lasts (time : Nat) (trigger : Option Nat) : Prop := ∃ u, trigger = some u ∧ time ≤ u

section

variable {now : Nat} {services : List (String × Option String)} {names : List String}
variable {state : Runtime} {observed : Observed}

/-- A service that goes down sets the trigger; nothing else of it changes. -/
theorem noteServices_eq (now : Nat) (services : List (String × Option String))
    (names : List String) (state : Runtime) :
    ∃ states, (state.noteServices now services names).1 = { state with
      triggerUntil := if (state.noteServices now services names).2.any Event.wentDown = true
        then some (now + 60 * second) else state.triggerUntil
      serviceStates := states } := by
  induction names generalizing state with
  | nil => exact ⟨state.serviceStates, rfl⟩
  | cons name names ih =>
    unfold Runtime.noteServices
    dsimp only
    split
    · exact ih _
    · next old _ =>
      split
      · exact ih _
      · split
        · next hdown =>
          obtain ⟨states, heq⟩ := ih { state with
            serviceStates := Dict.set name (serviceState services name) state.serviceStates
            triggerUntil := some (now + 60 * second) }
          refine ⟨states, ?_⟩
          rw [List.any_cons, Event.wentDown, hdown, Bool.true_or, if_pos rfl, heq]
          split
          · rfl
          · rfl
        · next hup =>
          obtain ⟨states, heq⟩ := ih { state with
            serviceStates := Dict.set name (serviceState services name) state.serviceStates }
          refine ⟨states, ?_⟩
          rw [List.any_cons, Event.wentDown, Bool.eq_false_iff.mpr hup, Bool.false_or, heq]

theorem goesDown_of_wentDown
    (h : (state.noteServices now observed.services names).2.any Event.wentDown = true) :
    GoesDown names observed state := by
  induction names generalizing state with
  | nil => cases h
  | cons name names ih =>
    -- a service of the rest has the state it had, or is this one and has not changed again
    have hrest : ∀ trigger, GoesDown names observed { state with
        triggerUntil := trigger
        serviceStates := Dict.set name (serviceState observed.services name) state.serviceStates } →
        GoesDown (name :: names) observed state := by
      rintro trigger ⟨name', hname', old, hold, hne, hdown⟩
      by_cases heq : name' = name
      · subst heq
        rw [Dict.lookup_set_self] at hold
        exact absurd (Option.some.inj hold).symm hne
      · rw [Dict.lookup_set_of_ne heq] at hold
        exact ⟨name', List.mem_cons_of_mem _ hname', old, hold, hne, hdown⟩
    unfold Runtime.noteServices at h
    dsimp only at h
    split at h
    · exact hrest _ (ih h)
    · next old hold =>
      split at h
      · exact hrest _ (ih h)
      · next hchanged =>
        split at h
        · next hdown => exact ⟨name, List.mem_cons_self, old, hold, hchanged, hdown⟩
        · next hup =>
          rw [List.any_cons, Event.wentDown, Bool.eq_false_iff.mpr hup, Bool.false_or] at h
          exact hrest _ (ih h)

theorem Lasts.noteServices {time : Nat} (h : Lasts time state.triggerUntil)
    (htime : time ≤ now + 60 * second) :
    Lasts time (state.noteServices now services names).1.triggerUntil := by
  obtain ⟨states, heq⟩ := noteServices_eq now services names state
  rw [heq]
  dsimp only
  split
  · exact ⟨_, rfl, htime⟩
  · exact h

/-- A reading of pressure shortens the trigger only where it is cleared. -/
theorem Lasts.notePressure {time : Nat} {reading : Option Bool} (h : Lasts time state.triggerUntil)
    (htime : time ≤ now + 60 * second)
    (hkeeps : ¬ (reading = some false ∧ 2 ≤ state.pressureLow ∧ state.leases = [])) :
    Lasts time (state.notePressure now reading).1.triggerUntil := by
  unfold Runtime.notePressure
  cases reading with
  | none => exact h
  | some high =>
    cases high with
    | true =>
      dsimp only
      split
      · exact ⟨_, rfl, htime⟩
      · exact h
    | false =>
      dsimp only
      rw [if_neg]
      · exact h
      · rintro ⟨hlow, hnone⟩
        refine hkeeps ⟨rfl, ?_, hnone⟩
        unfold saturatingSucc at hlow
        omega

theorem notePressure_events (reading : Option Bool) :
    (state.notePressure now reading).2.any Event.wentDown = false := by
  unfold Runtime.notePressure
  cases reading with
  | none => rfl
  | some high =>
    cases high with
    | true =>
      dsimp only
      split
      · split
        · rfl
        · rfl
      · rfl
    | false =>
      dsimp only
      split
      · rfl
      · rfl

theorem notePressure_eq (reading : Option Bool) :
    ∃ trigger, (state.notePressure now reading).1 = { state with
      triggerUntil := trigger
      pressureHigh := match reading with
        | some true => saturatingSucc state.pressureHigh
        | some false => 0
        | none => state.pressureHigh
      pressureLow := match reading with
        | some true => 0
        | some false => saturatingSucc state.pressureLow
        | none => state.pressureLow } := by
  unfold Runtime.notePressure
  cases reading with
  | none => exact ⟨state.triggerUntil, rfl⟩
  | some high =>
    cases high with
    | true =>
      dsimp only
      split
      · exact ⟨_, rfl⟩
      · exact ⟨_, rfl⟩
    | false =>
      dsimp only
      split
      · exact ⟨_, rfl⟩
      · exact ⟨_, rfl⟩

theorem sample_leases : (state.sample names now observed).1.leases = state.leases := by
  obtain ⟨states, hservices⟩ := noteServices_eq now observed.services names state
  obtain ⟨trigger, hpressure⟩ := @notePressure_eq now
    (state.noteServices now observed.services names).1 observed.pressure
  unfold Runtime.sample
  dsimp only
  rw [hpressure, hservices]

/-- A sample counts the readings. -/
theorem sample_pressure :
    (state.sample names now observed).1.pressureHigh = (match observed.pressure with
      | some true => saturatingSucc state.pressureHigh
      | some false => 0
      | none => state.pressureHigh) ∧
    (state.sample names now observed).1.pressureLow = (match observed.pressure with
      | some true => 0
      | some false => saturatingSucc state.pressureLow
      | none => state.pressureLow) := by
  obtain ⟨states, hservices⟩ := noteServices_eq now observed.services names state
  obtain ⟨trigger, hpressure⟩ := @notePressure_eq now
    (state.noteServices now observed.services names).1 observed.pressure
  unfold Runtime.sample
  dsimp only
  rw [hpressure, hservices]
  exact ⟨rfl, rfl⟩

theorem Lasts.sample {time : Nat} (h : Lasts time state.triggerUntil)
    (htime : time ≤ now + 60 * second)
    (hkeeps : ¬ (observed.pressure = some false ∧ 2 ≤ state.pressureLow ∧ state.leases = [])) :
    Lasts time (state.sample names now observed).1.triggerUntil := by
  obtain ⟨states, hservices⟩ := noteServices_eq now observed.services names state
  apply (h.noteServices htime).notePressure htime
  rw [hservices]
  exact hkeeps

theorem sample_events :
    (state.sample names now observed).2.any Event.wentDown =
      (state.noteServices now observed.services names).2.any Event.wentDown := by
  unfold Runtime.sample
  dsimp only
  rw [List.any_append, notePressure_events, Bool.or_false]

/-- A service that goes down is captured for a minute, unless the same iteration ends the
    capture. -/
theorem lasts_of_wentDown (h : (state.sample names now observed).2.any Event.wentDown = true)
    (hkeeps : ¬ (observed.pressure = some false ∧ 2 ≤ state.pressureLow ∧ state.leases = [])) :
    Lasts (now + 60 * second) (state.sample names now observed).1.triggerUntil := by
  rw [sample_events] at h
  obtain ⟨states, hservices⟩ := noteServices_eq now observed.services names state
  have hset : Lasts (now + 60 * second)
      (state.noteServices now observed.services names).1.triggerUntil := by
    rw [hservices, if_pos h]
    exact ⟨_, rfl, Nat.le_refl _⟩
  apply hset.notePressure (Nat.le_refl _)
  rw [hservices]
  exact hkeeps

/-- The third high reading in a row starts a capture. -/
theorem lasts_of_high (hreading : observed.pressure = some true) (h : 2 ≤ state.pressureHigh) :
    Lasts (now + 60 * second) (state.sample names now observed).1.triggerUntil := by
  obtain ⟨states, hservices⟩ := noteServices_eq now observed.services names state
  unfold Runtime.sample
  dsimp only
  rw [hreading, hservices]
  unfold Runtime.notePressure
  dsimp only
  rw [if_pos]
  · exact ⟨_, rfl, Nat.le_refl _⟩
  · unfold saturatingSucc
    omega

end

/-! ## Iterations -/

section

variable (names : List String)

/-- The runtime when an iteration has served its requests. -/
def entered (loop : Loop) (i : Iteration) : Runtime :=
  (loop.state.serve i.requests).1.expire i.now

/-- The runtime when it has looked at the host. -/
def settled (loop : Loop) (i : Iteration) : Runtime :=
  if loop.nextBaseline ≤ i.now then ((entered loop i).sample names i.now i.observed).1
  else entered loop i

variable {names} {loop : Loop} {i : Iteration}

theorem settled_leases : (settled names loop i).leases = (entered loop i).leases := by
  unfold settled
  split
  · exact sample_leases
  · rfl

/-- Expired leases are gone already. -/
theorem expire_settled : (settled names loop i).expire i.now = settled names loop i := by
  have hleases : (settled names loop i).leases.filter (fun lease => i.now < lease.2) =
      (settled names loop i).leases := by
    rw [settled_leases, List.filter_eq_self]
    exact fun lease hlease => (List.mem_filter.mp hlease).2
  rw [Runtime.expire, hleases]

theorem captures_wentDown {start stop : Bool} {reason : String} :
    (if start then [Event.captureStart none reason] else if stop then [.captureStop]
      else []).any Event.wentDown = false := by
  split
  · rfl
  · split
    · rfl
    · rfl

/-- What an iteration reports, and what it leaves. -/
theorem iterate_spec (names : List String) (loop : Loop) (i : Iteration) :
    (loop.iterate names i).2.now = i.now ∧
    (loop.iterate names i).2.replies = (loop.state.serve i.requests).2 ∧
    (loop.iterate names i).2.reading =
      (if loop.nextBaseline ≤ i.now then i.observed.pressure else none) ∧
    (loop.iterate names i).2.wentDown = (decide (loop.nextBaseline ≤ i.now) &&
      ((entered loop i).sample names i.now i.observed).2.any Event.wentDown) ∧
    (loop.iterate names i).2.held = (entered loop i).leases.length ∧
    (loop.iterate names i).2.detail = (settled names loop i).active i.now ∧
    ((loop.iterate names i).1.state = settled names loop i ∨
      (loop.iterate names i).1.state = (settled names loop i).expire i.snapshot) := by
  unfold Loop.iterate
  dsimp only
  by_cases hdue : loop.nextBaseline ≤ i.now
  · have hsettled : (((loop.state.serve i.requests).1.expire i.now).sample names i.now
        i.observed).1 = settled names loop i := by
      rw [settled, if_pos hdue, entered]
    simp only [decide_eq_true hdue, Bool.true_or, if_true, hsettled, expire_settled, if_pos hdue]
    refine ⟨trivial, trivial, trivial, ?_, ?_, trivial, .inr rfl⟩
    · rw [Report.wentDown, List.any_append, Bool.true_and, captures_wentDown, Bool.or_false]
      rfl
    · rw [settled_leases]
  · have hsettled : (loop.state.serve i.requests).1.expire i.now = settled names loop i := by
      rw [settled, if_neg hdue, entered]
    simp only [decide_eq_false hdue, Bool.false_or, Bool.false_and, hsettled, expire_settled,
      if_neg hdue, Bool.false_eq_true, if_false]
    rw [← settled_leases]
    split
    · refine ⟨rfl, rfl, rfl, ?_, rfl, rfl, .inr rfl⟩
      rw [Report.wentDown, List.nil_append, captures_wentDown]
    · next hidle =>
      exact ⟨rfl, rfl, rfl, rfl, rfl, (Bool.eq_false_iff.mpr hidle).symm, .inl rfl⟩

end

/-! ## What a turn keeps -/

/-- The runtime knows what is owed to the turns so far, up to `time`. -/
structure Tracks (past : List Outcome) (time : Nat) (state : Runtime) : Prop where
  services : ∀ report, .iterated report ∈ past → report.wentDown = true →
    Lasts (report.now + 60 * second) state.triggerUntil ∨ report.now + 60 * second ≤ time
  leases : Granted (grantsAfter past) time state.leases
  high : state.pressureHigh = min 255 (trailing true (known past))
  low : state.pressureLow = min 255 (trailing false (known past))
  captures : ∀ xs report ys, past = xs ++ .iterated report :: ys → report.reading = some true →
    3 ≤ trailing true (known (xs ++ [.iterated report])) →
    Lasts (report.now + 60 * second) state.triggerUntil ∨ CutShort (xs ++ [.iterated report]) ys
  earlier : ∀ report, .iterated report ∈ past → report.now ≤ time
  bound : state.leases.length ≤ maxActiveLeases

theorem grantsAfter_concat (past : List Outcome) (outcome : Outcome) :
    grantsAfter (past ++ [outcome]) = outcome.replies.foldl noteGrant (grantsAfter past) := by
  rw [grantsAfter, grantsAfter, List.flatMap_append, List.foldl_append, List.flatMap_singleton]

theorem CutShort.concat {before after : List Outcome} (h : CutShort before after)
    (outcome : Outcome) : CutShort before (after ++ [outcome]) := by
  obtain ⟨zs, report, ws, rfl, hreading, hlow, hheld⟩ := h
  exact ⟨zs, report, ws ++ [outcome], by simp, hreading, hlow, hheld⟩

/-- Where a history ends with an outcome, an earlier one is that one or was there before. -/
theorem split_concat {α : Type} {past xs ys : List α} {x last : α}
    (h : past ++ [last] = xs ++ x :: ys) :
    (x = last ∧ xs = past ∧ ys = []) ∨ ∃ zs, ys = zs ++ [last] ∧ past = xs ++ x :: zs := by
  rcases List.eq_nil_or_concat' ys with rfl | ⟨zs, y, rfl⟩
  · obtain ⟨hpast, hlast⟩ := List.append_inj' h rfl
    exact .inl ⟨(List.cons.inj hlast).1.symm, hpast.symm, rfl⟩
  · have h' : past ++ [last] = (xs ++ x :: zs) ++ [y] := by rw [h]; simp
    obtain ⟨hpast, hlast⟩ := List.append_inj' h' rfl
    exact .inr ⟨zs, by rw [(List.cons.inj hlast).1], hpast⟩

section

variable {past : List Outcome} {time : Nat} {state : Runtime}

theorem Tracks.expire (h : Tracks past time state) {now : Nat} (hle : time ≤ now) :
    Tracks past now (state.expire now) where
  services := fun report hreport hdown =>
    (h.services report hreport hdown).imp_right fun hover => Nat.le_trans hover hle
  leases := (h.leases.mono hle).expire fun _ _ hexpired => hexpired
  high := h.high
  low := h.low
  captures := h.captures
  earlier := fun report hreport => Nat.le_trans (h.earlier report hreport) hle
  bound := Nat.le_trans length_expire_le h.bound

theorem Tracks.mono (h : Tracks past time state) {now : Nat} (hle : time ≤ now) :
    Tracks past now state where
  services := fun report hreport hdown =>
    (h.services report hreport hdown).imp_right fun hover => Nat.le_trans hover hle
  leases := h.leases.mono hle
  high := h.high
  low := h.low
  captures := h.captures
  earlier := fun report hreport => Nat.le_trans (h.earlier report hreport) hle
  bound := h.bound

/-- A request served between two iterations. -/
theorem Tracks.wait (h : Tracks past time state) {clock : Nat} (hle : time ≤ clock)
    (request : Request) :
    Tracks (past ++ [.served clock request (state.dispatch clock request).2]) clock
      (state.dispatch clock request).1 := by
  obtain ⟨leases, heq⟩ := dispatch_eq clock request state
  have hknown : known (past ++ [.served clock request (state.dispatch clock request).2]) =
      known past := by
    rw [known_concat]
    exact List.append_nil _
  have hiterated : ∀ report, Outcome.iterated report ∈ past ++
      [.served clock request (state.dispatch clock request).2] → .iterated report ∈ past := by
    intro report hreport
    rcases List.mem_append.mp hreport with hpast | hlast
    · exact hpast
    · cases List.mem_singleton.mp hlast
  refine ⟨?_, ?_, ?_, ?_, ?_, ?_, length_dispatch_le h.bound⟩
  · intro report hreport hdown
    rw [heq]
    exact (h.services report (hiterated report hreport) hdown).imp_right fun hover =>
      Nat.le_trans hover hle
  · rw [grantsAfter_concat]
    exact (h.leases.mono hle).dispatch fun _ _ hexpired => hexpired
  · rw [hknown, heq]
    exact h.high
  · rw [hknown, heq]
    exact h.low
  · intro xs report ys hsplit hreading hhigh
    rcases split_concat hsplit with ⟨hlast, -, -⟩ | ⟨zs, rfl, hpast⟩
    · cases hlast
    · rw [heq]
      exact (h.captures xs report zs hpast hreading hhigh).imp_right fun hcut => hcut.concat _
  · exact fun report hreport => Nat.le_trans (h.earlier report (hiterated report hreport)) hle

end

section

variable {names : List String} {past : List Outcome} {loop : Loop} {i : Iteration}

theorem entered_eq (loop : Loop) (i : Iteration) :
    ∃ leases, entered loop i = { loop.state with leases := leases } := by
  obtain ⟨leases, heq⟩ := serve_eq loop.state i.requests
  refine ⟨leases.filter fun lease => i.now < lease.2, ?_⟩
  rw [entered, heq]
  rfl

/-- A trigger that lasted still does, unless the iteration clears it. -/
theorem Lasts.settled {until' : Nat} (h : Lasts until' loop.state.triggerUntil)
    (hle : until' ≤ i.now + 60 * second) (hkeeps : ¬ Clears loop i) :
    Lasts until' (settled names loop i).triggerUntil := by
  obtain ⟨leases, heq⟩ := entered_eq loop i
  have hentered : Lasts until' (entered loop i).triggerUntil := by
    rw [heq]
    exact h
  unfold Collector.settled
  split
  · next hdue =>
    apply hentered.sample hle
    rintro ⟨hreading, hlow, hnone⟩
    refine hkeeps ⟨hdue, hreading, ?_, hnone⟩
    rwa [heq] at hlow
  · exact hentered

theorem settled_high (h : loop.state.pressureHigh = min 255 (trailing true (known past))) :
    (settled names loop i).pressureHigh =
      min 255 (trailing true (known (past ++ [.iterated (loop.iterate names i).2]))) := by
  obtain ⟨leases, heq⟩ := entered_eq loop i
  obtain ⟨-, -, hreading, -⟩ := iterate_spec names loop i
  rw [known_concat, Outcome.reading, hreading]
  unfold Collector.settled
  split
  · rw [sample_pressure.1, heq]
    cases i.observed.pressure with
    | none => simpa using h
    | some reading =>
      rw [Option.toList_some, trailing_concat]
      cases reading with
      | true => simp only [h, saturatingSucc_min, if_true]
      | false => rfl
  · rw [heq, Option.toList_none, List.append_nil]
    exact h

theorem settled_low (h : loop.state.pressureLow = min 255 (trailing false (known past))) :
    (settled names loop i).pressureLow =
      min 255 (trailing false (known (past ++ [.iterated (loop.iterate names i).2]))) := by
  obtain ⟨leases, heq⟩ := entered_eq loop i
  obtain ⟨-, -, hreading, -⟩ := iterate_spec names loop i
  rw [known_concat, Outcome.reading, hreading]
  unfold Collector.settled
  split
  · rw [sample_pressure.2, heq]
    cases i.observed.pressure with
    | none => simpa using h
    | some reading =>
      rw [Option.toList_some, trailing_concat]
      cases reading with
      | true => rfl
      | false => simp only [h, saturatingSucc_min, if_true]
  · rw [heq, Option.toList_none, List.append_nil]
    exact h

/-- An iteration that clears the trigger is one that cuts a capture short. -/
theorem cutShort_of_clears (hlow : loop.state.pressureLow = min 255 (trailing false (known past)))
    (h : Clears loop i) {before after : List Outcome} (hpast : past = before ++ after) :
    CutShort before (after ++ [.iterated (loop.iterate names i).2]) := by
  obtain ⟨hdue, hpressure, hthird, hnone⟩ := h
  obtain ⟨-, -, hreading, -, hheld, -⟩ := iterate_spec names loop i
  rw [if_pos hdue, hpressure] at hreading
  refine ⟨after, (loop.iterate names i).2, [], rfl, hreading, ?_, ?_⟩
  · rw [← List.append_assoc, ← hpast, known_concat, Outcome.reading, hreading,
      Option.toList_some, trailing_concat, if_pos rfl]
    omega
  · rw [hheld, entered, hnone]
    rfl

/-- One iteration. -/
theorem Tracks.settle (h : Tracks past i.now loop.state)
    (hundisturbed : Undisturbed names past loop (.iterate i)) :
    Tracks (past ++ [.iterated (loop.iterate names i).2]) i.now (settled names loop i) := by
  obtain ⟨hnow, hreplies, hreading, hdown, -⟩ := iterate_spec names loop i
  obtain ⟨hcleared, hprompt⟩ := hundisturbed
  obtain ⟨leases, heq⟩ := entered_eq loop i
  refine ⟨?_, ?_, settled_high h.high, settled_low h.low, ?_, ?_, ?_⟩
  · intro report hreport hwent
    by_cases hclears : Clears loop i
    · obtain ⟨hup, hover⟩ := hcleared hclears
      rcases List.mem_append.mp hreport with hpast | hlast
      · exact .inr (hover report hpast hwent)
      · obtain rfl := Outcome.iterated.inj (List.mem_singleton.mp hlast)
        rw [hdown, Bool.and_eq_true, sample_events] at hwent
        refine absurd (goesDown_of_wentDown hwent.2) ?_
        rwa [heq]
    · rcases List.mem_append.mp hreport with hpast | hlast
      · refine (h.services report hpast hwent).imp_left fun hlasts => hlasts.settled ?_ hclears
        exact Nat.add_le_add_right (h.earlier report hpast) _
      · obtain rfl := Outcome.iterated.inj (List.mem_singleton.mp hlast)
        rw [hdown, Bool.and_eq_true, decide_eq_true_eq] at hwent
        left
        rw [hnow, settled, if_pos hwent.1]
        apply lasts_of_wentDown hwent.2
        rintro ⟨hpressure, hlow, hnone⟩
        refine hclears ⟨hwent.1, hpressure, ?_, hnone⟩
        rwa [heq] at hlow
  · rw [grantsAfter_concat, Outcome.replies, hreplies, settled_leases]
    exact (h.leases.serve hprompt).expire fun _ _ hexpired => hexpired
  · intro xs report ys hsplit hhigh hthird
    rcases split_concat hsplit with ⟨hlast, rfl, rfl⟩ | ⟨zs, rfl, hpast⟩
    · obtain rfl := Outcome.iterated.inj hlast
      left
      rw [hreading] at hhigh
      have hdue : loop.nextBaseline ≤ i.now := by
        by_contra hnot
        rw [if_neg hnot] at hhigh
        cases hhigh
      rw [if_pos hdue] at hhigh
      rw [known_concat, Outcome.reading, hreading, if_pos hdue, hhigh, Option.toList_some,
        trailing_concat, if_pos rfl] at hthird
      rw [hnow, settled, if_pos hdue]
      apply lasts_of_high hhigh
      rw [heq]
      show 2 ≤ loop.state.pressureHigh
      rw [h.high]
      omega
    · by_cases hclears : Clears loop i
      · exact .inr (cutShort_of_clears h.low hclears (by rw [hpast]; simp))
      · refine (h.captures xs report zs hpast hhigh hthird).imp (fun hlasts => ?_) fun hcut =>
          hcut.concat _
        apply hlasts.settled _ hclears
        exact Nat.add_le_add_right (h.earlier report (hpast ▸ by simp)) _
  · intro report hreport
    rcases List.mem_append.mp hreport with hpast | hlast
    · exact h.earlier report hpast
    · obtain rfl := Outcome.iterated.inj (List.mem_singleton.mp hlast)
      exact Nat.le_of_eq hnow
  · rw [settled_leases]
    exact Nat.le_trans length_expire_le (length_serve_le h.bound _)

end

/-! ## Runs -/

section

variable (names : List String) (start : Nat)

/-- The loop after some turns. -/
def Loop.after (turns : List Turn) : Loop := run (Loop.step names) (.start start) turns

/-- What came of the turns. -/
def outcomes (turns : List Turn) : List Outcome :=
  outputs (Loop.step names) (Loop.outcome names) (.start start) turns

/-- Every turn is undisturbed where it is taken. -/
def Careful (turns : List Turn) : Prop :=
  ∀ xs turn ys, turns = xs ++ turn :: ys →
    Undisturbed names (outcomes names start xs) (Loop.after names start xs) turn

variable {names start}

theorem InOrder.init {turns : List Turn} {turn : Turn} (h : InOrder (turns ++ [turn])) :
    InOrder turns := by
  rw [InOrder, List.flatMap_append, List.pairwise_append] at h
  exact h.1

theorem InOrder.le {turns : List Turn} {turn : Turn} (h : InOrder (turns ++ [turn])) {s t : Nat}
    (hs : s ∈ turns.flatMap Turn.readings) (ht : t ∈ turn.readings) : s ≤ t := by
  rw [InOrder, List.flatMap_append, List.pairwise_append, List.flatMap_singleton] at h
  exact h.2.2 s hs t ht

theorem Careful.init {turns : List Turn} {turn : Turn} (h : Careful names start (turns ++ [turn])) :
    Careful names start turns := by
  rintro xs turn' ys rfl
  exact h xs turn' (ys ++ [turn]) (by simp)

end

end SummitFlow.Collector
