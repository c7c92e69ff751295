import Mathlib
import SummitFlow.ForStd.Chained
import SummitFlow.HostMonitor.Store
import SummitFlow.MonitorReader.Pages
import SummitFlow.Python.Str

/-!
# Metric series

Model of `MonitorReader.series` in `backend/monitor_reader/reader.py`: the samples of a
window are put into buckets of `step` seconds, and a bucket has the least, greatest, mean
and last value of a metric.  A window of at most 24 hours is read from the samples; a
counter becomes a rate by its difference to the sample before.  A longer window is read
from the minute rollups the collector keeps.  GPU metrics are read elsewhere and are a
parameter.

`_utc` of a time is left as the time.  The rows of `host_rollups` are those the collector
writes, so their types are its own.
-/

namespace SummitFlow.Monitor

/-! ## Stored values -/

/-- What `json.loads` makes of a stored text. -/
inductive Json (N : Type) where
  | null
  | bool (b : Bool)
  | num (n : N)
  | str (s : String)
  | arr (items : List (Json N))
  | obj (fields : List (String × Json N))

/-- What the reader does with numbers: Python's `int` and `float`. -/
structure Numbers (N : Type) where
  zero : N
  /-- The value of a number of type `int`. -/
  int? : N → Option Int
  isFinite : N → Bool
  eq : N → N → Bool
  lt : N → N → Bool
  /-- `sum(values) / len(values)`. -/
  mean : List N → N
  /-- `a / b` of integers. -/
  ratio : Int → Int → N
  /-- `(new - old) * scale / interval`. -/
  rate : N → N → Int → Int → N
  /-- `total + mean * count`. -/
  addWeighted : N → N → Nat → N
  /-- `total / count`. -/
  divide : N → Nat → N

namespace Json

variable {N : Type}

/-- `value.get(key)` of a dict. -/
def get (fields : List (String × Json N)) (key : String) : Json N :=
  (fields.lookup key).getD .null

/-- `_decode_json(raw, dict)`. -/
def decodeDict : Json N → Except PyError (List (String × Json N))
  | .obj fields => .ok fields
  | _ => .error (.valueError "malformed monitor store JSON")

def str? : Json N → Option String
  | .str s => some s
  | _ => none

def num? : Json N → Option N
  | .num n => some n
  | _ => none

def int? (nums : Numbers N) (value : Json N) : Option Int := value.num?.bind nums.int?

mutual

/-- `==`. -/
def eq (nums : Numbers N) : Json N → Json N → Bool
  | .null, .null => true
  | .bool a, .bool b => a == b
  | .num a, .num b => nums.eq a b
  | .str a, .str b => a == b
  | .arr xs, .arr ys => eqItems nums xs ys
  | .obj xs, .obj ys => eqFields nums xs ys
  | _, _ => false

def eqItems (nums : Numbers N) : List (Json N) → List (Json N) → Bool
  | [], [] => true
  | x :: xs, y :: ys => eq nums x y && eqItems nums xs ys
  | _, _ => false

def eqFields (nums : Numbers N) : List (String × Json N) → List (String × Json N) → Bool
  | [], [] => true
  | (k, x) :: xs, (k', y) :: ys => k == k' && eq nums x y && eqFields nums xs ys
  | _, _ => false

end

end Json

/-- What the reader reads of a row of `samples`. -/
structure Row (N : Type) where
  id : Int
  sampledAtNs : Int
  monotonicNs : Int
  bootId : String
  mode : String
  host : Json N
  services : Json N
  errors : List (List (String × Json N))

/-- What is in the database: the samples in the order of their ids, and the rollups. -/
structure Content (N : Type) where
  samples : List (Row N)
  rollups : List (Int × HostStore.Rollup N N)
  ids : samples.Pairwise fun r r' => r.id < r'.id
  buckets : (rollups.map Prod.fst).Nodup

/-! ## The catalog -/

def gpuHostMetrics : List (String × String) :=
  [("gpu_max_utilization_pct", "%"), ("gpu_memory_used_bytes", "bytes"),
   ("gpu_memory_total_bytes", "bytes")]

/-- `HOST_METRICS`, with the unit of each. -/
def hostMetrics : List (String × String) :=
  [("cpu_busy_pct", "%"), ("memory_total_bytes", "bytes"), ("memory_available_bytes", "bytes"),
   ("swap_used_bytes", "bytes"), ("disk_total_bytes", "bytes"), ("disk_free_bytes", "bytes"),
   ("cpu_some_avg10_pct", "%"), ("memory_some_avg10_pct", "%"), ("io_some_avg10_pct", "%"),
   ("net_rx_bytes", "bytes"), ("net_tx_bytes", "bytes"), ("disk_read_bytes", "bytes"),
   ("disk_write_bytes", "bytes"), ("disk_read_bytes_per_second", "bytes/s"),
   ("disk_write_bytes_per_second", "bytes/s"), ("net_rx_bytes_per_second", "bytes/s"),
   ("net_tx_bytes_per_second", "bytes/s")] ++ gpuHostMetrics

/-- `HOST_RATE_METRICS`, with the counter of each. -/
def hostRateMetrics : List (String × String) :=
  [("disk_read_bytes_per_second", "disk_read_bytes"),
   ("disk_write_bytes_per_second", "disk_write_bytes"),
   ("net_rx_bytes_per_second", "net_rx_bytes"), ("net_tx_bytes_per_second", "net_tx_bytes")]

/-- `SERVICE_RATE_METRICS`, with the counter and the scale of each. -/
def serviceRateMetrics : List (String × String × Int) :=
  [("cpu_percent", "cpu_usage_usec", 100000), ("io_read_bytes_per_second", "io_read_bytes", nsec),
   ("io_write_bytes_per_second", "io_write_bytes", nsec)]

def sourceByMetric : List (String × String) :=
  [("cpu_busy_pct", "/proc/stat"), ("memory_total_bytes", "memory"),
   ("memory_available_bytes", "memory"), ("swap_used_bytes", "swap"),
   ("disk_total_bytes", "root_filesystem"), ("disk_free_bytes", "root_filesystem"),
   ("cpu_some_avg10_pct", "/proc/pressure/cpu"), ("memory_some_avg10_pct", "/proc/pressure/memory"),
   ("io_some_avg10_pct", "/proc/pressure/io"), ("net_rx_bytes", "/proc/net/dev"),
   ("net_tx_bytes", "/proc/net/dev"), ("disk_read_bytes", "/proc/diskstats"),
   ("disk_write_bytes", "/proc/diskstats"), ("disk_read_bytes_per_second", "/proc/diskstats"),
   ("disk_write_bytes_per_second", "/proc/diskstats"), ("net_rx_bytes_per_second", "/proc/net/dev"),
   ("net_tx_bytes_per_second", "/proc/net/dev")]

/-- `AVAILABILITY`. -/
def availabilityCodes : List String :=
  ["ok", "partial", "disabled", "source_truncated", "unsupported", "permission_denied", "timeout",
   "error", "stale", "collector_stopped", "not_collected", "leaders_only", "retention_expired"]

/-- `_availability` of a value that is missing. -/
def availability {N : Type} (metric : String) (errors : List (List (String × Json N))) : String :=
  let concerns (error : List (String × Json N)) : Bool :=
    match Json.get error "source" with
    | .str source => source == metric || sourceByMetric.lookup metric == some source
    | .null => (sourceByMetric.lookup metric).isNone
    | _ => false
  match errors.find? concerns with
  | none => "not_collected"
  | some error =>
    match error.lookup "code" with
    | some (.str code) => if code ∈ availabilityCodes then code else "error"
    | _ => "error"

/-! ## Rates -/

section

variable {N : Type} (nums : Numbers N)

/-- A host counter with the members it adds up. -/
structure HostObservation where
  bootId : String
  provider : String
  mono : Int
  members : List (String × Int × Int × String)
deriving DecidableEq

/-- One entry of the members: two counters and the instance they belong to. -/
def hostMember (entry : String × Json N) : Option (String × Int × Int × String) :=
  match entry with
  | (name, .arr [first, second, .str inst]) =>
    match first.int? nums, second.int? nums with
    | some first, some second =>
      if name = "" ∨ first < 0 ∨ second < 0 ∨ inst = "" then none
      else some (name, first, second, inst)
    | _, _ => none
  | _ => none

/-- Which of the two counters of a member a metric is about. -/
def memberCounter (counterKey : String) (member : Int × Int × String) : Int :=
  if Str.endswith counterKey "read_bytes" || Str.endswith counterKey "rx_bytes" then member.1
  else member.2.1

/-- What `_host_rates` takes from a row; `none` breaks the chain. -/
def hostObservation (counterKey : String) (row : Row N) :
    Except PyError (Option HostObservation) := do
  let host ← row.host.decodeDict
  let isDisk := Str.startswith counterKey "disk_"
  let members := match Json.get host (if isDisk then "disk_members" else "net_members") with
    | .obj raw => (raw.mapM (hostMember nums)).getD []
    | _ => []
  match (Json.get host (if isDisk then "disk_source" else "net_source")).str?,
      (Json.get host counterKey).int? nums with
  | some provider, some counter =>
    if provider = "" ∨ counter < 0 ∨ members = [] ∨
        counter ≠ (members.map fun m => memberCounter counterKey m.2).sum then return none
    else return some ⟨row.bootId, provider, row.monotonicNs, members⟩
  | _, _ => return none

/-- The member goes on from its old state: same instance, no counter lower. -/
def memberContinues (old : List (String × Int × Int × String))
    (member : String × Int × Int × String) : Bool :=
  match old.lookup member.1 with
  | some (first, second, inst) =>
    inst == member.2.2.2 && first ≤ member.2.1 && second ≤ member.2.2.1
  | none => false

/-- The rate between two host observations. -/
def hostRate (counterKey : String) (old new : HostObservation) : Option N :=
  let interval := new.mono - old.mono
  if new.bootId = old.bootId ∧ new.provider = old.provider ∧ 0 < interval ∧ interval ≤ 15 * nsec ∧
      (∀ m ∈ old.members, (new.members.lookup m.1).isSome) ∧
      new.members.all (memberContinues old.members) then
    let delta := (new.members.map fun m => memberCounter counterKey m.2 -
      ((old.members.lookup m.1).map (memberCounter counterKey)).getD 0).sum
    some (nums.ratio (delta * nsec) interval)
  else none

/-- Every host observation is a new one. -/
def hostChain (counterKey : String) : Chained HostObservation N where
  fresh _ _ := true
  rate := hostRate nums counterKey
  fresh_of_stale h := nomatch h

/-- A counter of a service, with what it was read from. -/
structure ServiceObservation (N : Type) where
  bootId : String
  source : String
  identity : Option (Json N × Json N)
  observedAt : Int
  mono : Int
  counter : N

/-- A finite number that is not negative. -/
def counterValue (value : Json N) : Option N :=
  value.num?.bind fun n => if nums.isFinite n && !nums.lt n nums.zero then some n else none

/-- What `_service_rates` takes from a row; `none` breaks the chain. -/
def serviceObservation (entity counterKey : String) (row : Row N) :
    Except PyError (Option (ServiceObservation N)) := do
  let services ← row.services.decodeDict
  match Json.get services entity with
  | .obj service =>
    match Json.get service "metrics" with
    | .obj metrics =>
      let source := (Json.get metrics "source").str?
      let isFallback := source == some "main_pid_fallback"
      let observedAt := (Json.get (if isFallback then metrics else service) "observed_at_ns").int? nums
      let mono := if isFallback then (Json.get metrics "observed_monotonic_ns").int? nums
        else some row.monotonicNs
      let identity := if isFallback then
        some (Json.get metrics "pid", Json.get metrics "start_ticks") else none
      match source, counterValue nums (Json.get metrics counterKey), observedAt, mono with
      | some source, some counter, some observedAt, some mono =>
        if source = "" then return none
        else return some ⟨row.bootId, source, identity, observedAt, mono, counter⟩
      | _, _, _, _ => return none
    | _ => return none
  | _ => return none

/-- Two observations of one process, or of no process. -/
def sameIdentity (a b : Option (Json N × Json N)) : Bool :=
  match a, b with
  | none, none => true
  | some (pid, ticks), some (pid', ticks') => pid.eq nums pid' && ticks.eq nums ticks'
  | _, _ => false

/-- The rate between two service observations. -/
def serviceRate (scale : Int) (old new : ServiceObservation N) : Option N :=
  let interval := new.mono - old.mono
  if new.bootId = old.bootId ∧ new.source = old.source ∧ sameIdentity nums new.identity old.identity ∧
      old.observedAt < new.observedAt ∧ 0 < interval ∧ interval ≤ 15 * nsec ∧
      nums.lt new.counter old.counter = false then
    some (nums.rate new.counter old.counter scale interval)
  else none

/-- A service observation is new when it is later than the one before; a row can repeat
    the observation of an earlier one. -/
def serviceChain (scale : Int) : Chained (ServiceObservation N) N where
  fresh old new := old.observedAt < new.observedAt
  rate := serviceRate nums scale
  fresh_of_stale hpq hpr := by
    rw [decide_eq_false_iff_not] at hpq
    rw [decide_eq_true_eq] at hpr ⊢
    omega

/-- `_host_rates` and `_service_rates`: the rates by row id. -/
def ratesOf {σ : Type} (chain : Chained σ N) (observe : Row N → Except PyError (Option σ))
    (rows : List (Row N)) : Except PyError (List (Int × Option N)) := do
  let observations ← rows.mapM observe
  return (rows.map Row.id).zip (chain.values none observations)

end

/-! ## Buckets -/

/-- `math.ceil(a / b)`. -/
def ceilDiv (a b : Int) : Int := -(-a / b)

/-- The filters of a series; its cursors are bound to them. -/
structure SeriesFilters where
  metric : String
  entity : String
  bootId : Option String
  since : Int
  «until» : Int
  step : Int
deriving DecidableEq, Repr

/-- The `value` of a bucket. -/
structure Stats (N : Type) where
  min : N
  max : N
  mean : N
  last : N
deriving DecidableEq, Repr

/-- The `coverage` of a bucket; the last two are those of a rollup bucket. -/
structure BucketCoverage where
  expected : Int
  observed : Nat
  valid : Nat
  missing : Int
  unavailable : List (String × Nat)
  gapCount : Option Nat
  resolutionSeconds : Option Nat
deriving DecidableEq, Repr

/-- An item of a series. -/
structure Bucket (N : Type) where
  sampledAt : Int
  freshness : String
  lastSampledAt : Option Int
  source : String
  provider : String
  mode : Option String
  unit : String
  availability : String
  entity : String
  metric : String
  value : Option (Stats N)
  coverage : BucketCoverage
deriving DecidableEq, Repr

/-- The coverage of a page of a series. -/
structure SeriesCoverage where
  since : Int
  «until» : Int
  returned : Nat
  available : Nat
  rows : Nat
  resolutionSeconds : Option Nat
deriving DecidableEq, Repr

abbrev SeriesPage (N : Type) := Page SeriesFilters SeriesCoverage (Bucket N) Int

namespace SeriesFilters

variable (q : SeriesFilters)

def stepNs : Int := q.step * nsec

/-- The number of buckets. -/
def bucketCount : Int := ceilDiv (q.until - q.since) q.stepNs

/-- Where a bucket starts. -/
def bucketStart (index : Int) : Int := q.since + index * q.stepNs

/-- The bucket of a time. -/
def bucketOf (atNs : Int) : Int := (atNs - q.since) / q.stepNs

/-- How many samples a bucket should have. -/
def expected (index : Int) : Int :=
  ceilDiv (min q.stepNs (q.until - q.bucketStart index)) (5 * nsec)

/-- Where the slice of a page ends. -/
def queryEnd (first : Int) (limit : Nat) : Int := min q.until (q.bucketStart (first + limit + 1))

/-- The buckets of a page, with the one after it. -/
def indexes (first : Int) (limit : Nat) : List Int :=
  let stop := min q.bucketCount (first + limit + 1)
  (List.range (stop - first).toNat).map fun k : Nat => first + k

end SeriesFilters

/-- `first_index`. -/
def firstIndex (after : Option Int) : Int := after.elim 0 (· + 1)

section

variable {N : Type} (nums : Numbers N)

/-- `min(values)`: the first one that no other is less than. -/
def minimum (first : N) (values : List N) : N :=
  values.foldl (fun least value => if nums.lt value least then value else least) first

/-- `max(values)`. -/
def maximum (first : N) (values : List N) : N :=
  values.foldl (fun greatest value => if nums.lt greatest value then value else greatest) first

/-- The value of a bucket with these values. -/
def stats : List N → Option (Stats N)
  | [] => none
  | value :: values =>
    some ⟨minimum nums value values, maximum nums value values, nums.mean (value :: values),
      (value :: values).getLastD value⟩

/-- The metrics of the entity in a row. -/
def entityMetrics (entity : String) (row : Row N) :
    Except PyError (List (String × Json N)) := do
  if entity = "host" then row.host.decodeDict
  else
    match Json.get (← row.services.decodeDict) entity with
    | .obj service =>
      match Json.get service "metrics" with
      | .obj metrics => return metrics
      | _ => return []
    | _ => return []

/-- The number a row has for the metric: its rate, or what is stored. -/
def rowValue (q : SeriesFilters) (rates : Option (List (Int × Option N))) (row : Row N) :
    Except PyError (Option N) := do
  let metrics ← entityMetrics q.entity row
  let value := match rates with
    | some rates => (rates.lookup row.id).join
    | none => (Json.get metrics q.metric).num?
  return value.filter nums.isFinite

/-- The last row of a bucket has no rate. -/
def lastRateInvalid (rates : Option (List (Int × Option N))) (subset : List (Row N)) : Bool :=
  match rates, subset.getLast? with
  | some rates, some row => (rates.lookup row.id).join.isNone
  | _, _ => false

/-- The counts of what is unavailable, after a row. -/
def countUnavailable (metric : String) (counts : List (String × Nat)) (row : Row N × Option N) :
    List (String × Nat) :=
  match row.2 with
  | some _ => counts
  | none =>
    let code := availability metric row.1.errors
    Dict.set code ((counts.lookup code).getD 0 + 1) counts

/-- `"ok"` for a bucket that starts at most ten seconds ago. -/
def freshness (now bucketStart : Int) : String :=
  if now - bucketStart ≤ 10 * nsec then "ok" else "stale"

/-- The item of a bucket with these rows. -/
def rawBucket (q : SeriesFilters) (unit : String) (now : Int)
    (rates : Option (List (Int × Option N))) (subset : List (Row N)) (index : Int) :
    Except PyError (Bucket N) := do
  let found ← subset.mapM fun row => return (row, ← rowValue nums q rates row)
  let values := found.filterMap Prod.snd
  let unavailable := found.foldl (countUnavailable q.metric) []
  let value := if lastRateInvalid rates subset then none else stats nums values
  let expected := q.expected index
  let modes := (subset.map Row.mode).dedup.insertionSort (· ≤ ·)
  return {
    sampledAt := q.bucketStart index
    freshness := freshness now (q.bucketStart index)
    lastSampledAt := subset.getLast?.map Row.sampledAtNs
    source := "sqlite"
    provider := "collector"
    mode := if modes = [] then none else some (",".intercalate modes)
    unit := unit
    availability := if value.isSome then "ok" else (unavailable.head?.map Prod.fst).getD "not_collected"
    entity := q.entity
    metric := q.metric
    value := value
    coverage := {
      expected := expected
      observed := subset.length
      valid := values.length
      missing := max 0 (expected - subset.length)
      unavailable := unavailable
      gapCount := none
      resolutionSeconds := none } }

/-- `MAX_ROWS`. -/
def maxRows : Nat := 20000

/-- The baseline samples of a slice, by time. -/
def baselineRows (content : Content N) (start stop : Int) : List (Row N) :=
  (content.samples.filter fun row =>
    row.mode == "baseline" && start ≤ row.sampledAtNs && row.sampledAtNs < stop).insertionSort
    fun row row' => row.sampledAtNs ≤ row'.sampledAtNs

/-- How the rates of a metric come about: what a row has to say, and the chain of that. -/
structure RateSource (N : Type) where
  Observation : Type
  chain : Chained Observation N
  observe : Row N → Except PyError (Option Observation)

/-- The source of a rate metric; `none` for the other metrics. -/
def rateSource (q : SeriesFilters) : Option (RateSource N) :=
  if q.entity = "host" then
    (hostRateMetrics.lookup q.metric).map fun counterKey =>
      ⟨HostObservation, hostChain nums counterKey, hostObservation nums counterKey⟩
  else
    (serviceRateMetrics.lookup q.metric).map fun (counterKey, scale) =>
      ⟨ServiceObservation N, serviceChain nums scale, serviceObservation nums q.entity counterKey⟩

/-- `_host_rates` or `_service_rates` for a rate metric. -/
def seriesRates (q : SeriesFilters) (rows : List (Row N)) :
    Except PyError (Option (List (Int × Option N))) :=
  match rateSource nums q with
  | some source => return some (← ratesOf source.chain source.observe rows)
  | none => return none

/-- `rate_metric`. -/
def isRate (q : SeriesFilters) : Bool :=
  if q.entity = "host" then (hostRateMetrics.lookup q.metric).isSome
  else (serviceRateMetrics.lookup q.metric).isSome

/-- Where reading starts for a page: rates need the sample before the first one. -/
def readStart (q : SeriesFilters) (first : Int) : Int :=
  if isRate q then max 0 (q.bucketStart first - 60 * nsec) else q.bucketStart first

/-- The buckets of a page, from the rows it reads. -/
def rawBuckets (q : SeriesFilters) (unit : String) (now : Int) (rows : List (Row N)) (first : Int)
    (indexes : List Int) : Except PyError (List (Bucket N × Int)) := do
  let rates ← seriesRates nums q rows
  indexes.mapM fun index => do
    let subset := rows.filter fun row =>
      q.bucketStart first ≤ row.sampledAtNs && q.bucketOf row.sampledAtNs == index
    return (← rawBucket nums q unit now rates subset index, index)

/-- The coverage of a page. -/
def seriesCoverage (q : SeriesFilters) (candidates : List (Bucket N × Int)) (rows : Nat)
    (resolution : Option Nat) : SeriesCoverage where
  since := q.since
  «until» := q.until
  returned := candidates.length
  available := candidates.countP fun c => c.1.value.isSome
  rows := rows
  resolutionSeconds := resolution

variable (size : SeriesPage N → Nat)

/-- The part of `series` that reads samples. -/
def rawSeries (content : Content N) (q : SeriesFilters) (unit : String) (now : Int)
    (after : Option Int) (limit budget : Nat) : Except PyError (SeriesPage N) := do
  let first := firstIndex after
  let rows := (baselineRows content (readStart q first) (q.queryEnd first limit)).take (maxRows + 1)
  refuseIf (rows.length > maxRows) "series row cap reached; narrow the time window"
  let candidates ← rawBuckets nums q unit now rows first (q.indexes first limit)
  let coverage := seriesCoverage q candidates rows.length none
  pack size (.base q now (some coverage)) candidates q limit budget false

/-! ## Rollups -/

/-- `MAX_ROLLUPS`. -/
def maxRollups : Nat := 20200

/-- What the loop over the minutes of a bucket adds up. -/
structure RollupTotals (N : Type) where
  valid : Nat
  observed : Nat
  unavailable : Nat
  gaps : Nat
  minimum : Option N
  maximum : Option N
  last : Option N
  weightedSum : N

def RollupTotals.empty : RollupTotals N := ⟨0, 0, 0, 0, none, none, none, nums.zero⟩

/-- `min(a, b)` and `max(a, b)` of two values. -/
def lesser (a b : N) : N := if nums.lt b a then b else a

def greater (a b : N) : N := if nums.lt a b then b else a

/-- One minute of a bucket.  A field that was never a number has no extremes. -/
def RollupTotals.add (metric : String) (t : RollupTotals N) (row : HostStore.Rollup N N) :
    Except PyError (RollupTotals N) :=
  let t := { t with
    observed := t.observed + row.sampleCount
    unavailable := t.unavailable + (row.unavailable.lookup metric).getD 0
    gaps := t.gaps + row.gapCount }
  match row.values.lookup metric with
  | none => .ok t
  | some item =>
    if item.validCount = 0 then .ok t
    else match item.min, item.max, item.mean, item.last with
    | some least, some greatest, some mean, some last =>
      .ok { t with
        valid := t.valid + item.validCount
        weightedSum := nums.addWeighted t.weightedSum mean item.validCount
        minimum := some (t.minimum.elim least fun old => lesser nums old least)
        maximum := some (t.maximum.elim greatest fun old => greater nums old greatest)
        last := some last }
    | _, _, _, _ => .error (.typeError "unsupported operand type(s)")

/-- The value of a rollup bucket. -/
def RollupTotals.stats (t : RollupTotals N) : Option (Stats N) :=
  match t.minimum, t.maximum, t.last with
  | some least, some greatest, some last =>
    if t.valid = 0 then none
    else some ⟨least, greatest, nums.divide t.weightedSum t.valid, last⟩
  | _, _, _ => none

/-- The item of a bucket with these minutes. -/
def rollupBucket (q : SeriesFilters) (unit : String) (now : Int)
    (subset : List (HostStore.Rollup N N)) (index : Int) : Except PyError (Bucket N) := do
  let t ← subset.foldlM (RollupTotals.add nums q.metric) (.empty nums)
  let expected := q.expected index
  return {
    sampledAt := q.bucketStart index
    freshness := freshness now (q.bucketStart index)
    lastSampledAt := none
    source := "sqlite_rollup"
    provider := "collector"
    mode := some "rollup"
    unit := unit
    availability := if t.valid = 0 then "not_collected" else "ok"
    entity := "host"
    metric := q.metric
    value := t.stats nums
    coverage := {
      expected := expected
      observed := t.observed
      valid := t.valid
      missing := max 0 (expected - t.observed)
      unavailable := if t.unavailable = 0 then [] else [("not_collected", t.unavailable)]
      gapCount := some t.gaps
      resolutionSeconds := some 60 } }

/-- The rollups of a slice, by minute. -/
def rollupRows (content : Content N) (start stop : Int) : List (Int × HostStore.Rollup N N) :=
  (content.rollups.filter fun row => start ≤ row.1 && row.1 < stop).insertionSort
    fun row row' => row.1 ≤ row'.1

/-- The buckets of a page, from the minutes it reads. -/
def rollupBuckets (q : SeriesFilters) (unit : String) (now : Int)
    (rows : List (Int × HostStore.Rollup N N)) (indexes : List Int) :
    Except PyError (List (Bucket N × Int)) :=
  indexes.mapM fun index => do
    let subset := rows.filter fun row => max 0 (q.bucketOf row.1) == index
    return (← rollupBucket nums q unit now (subset.map Prod.snd) index, index)

/-- `_rollup_series`. -/
def rollupSeries (content : Content N) (q : SeriesFilters) (unit : String) (now : Int)
    (after : Option Int) (limit budget : Nat) : Except PyError (SeriesPage N) := do
  let first := firstIndex after
  let minute := 60 * nsec
  let rows := (rollupRows content (q.bucketStart first / minute * minute)
    (q.queryEnd first limit)).take (maxRollups + 1)
  refuseIf (rows.length > maxRollups) "rollup row cap reached; narrow the time window"
  let candidates ← rollupBuckets nums q unit now rows (q.indexes first limit)
  let coverage := seriesCoverage q candidates rows.length (some 60)
  pack size (.base q now (some coverage)) candidates q limit budget false

/-! ## Requests -/

end

end SummitFlow.Monitor
