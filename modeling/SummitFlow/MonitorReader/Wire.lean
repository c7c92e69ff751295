import SummitFlow.ForStd.Base64
import SummitFlow.ForStd.Digits
import SummitFlow.ForStd.Json
import SummitFlow.MonitorReader.Pages

/-!
# The monitor reader's pages as JSON

Model of `_json`, `_utc`, `_cursor`, `_cursor_position`, `_pack` and `encode_budgeted_json`
of `backend/monitor_reader/reader.py`, down to the bytes: an envelope is a JSON object, and
a cursor is a JSON object in base 64 that names the filters by the start of their SHA-256.

`sha256` is the hexadecimal SHA-256 of a text.  A dict is the list of its entries.
-/

namespace SummitFlow.Monitor.Wire

open SummitFlow.Json

abbrev Dict := List (String × Value)

/-- `_json`; a float that is no number and an integer that is too long raise. -/
def json (v : Value) : Except PyError String :=
  if v.encodable then .ok (String.ofList v.text)
  else .error (.valueError "value is not JSON compliant")

/-! ## Times -/

/-- The date of a day since 1970-01-01: its year, month and day. -/
def civilFromDays (days : Nat) : Nat × Nat × Nat :=
  let z := days + 719468
  let era := z / 146097
  let dayOfEra := z % 146097
  let yearOfEra := (dayOfEra - dayOfEra / 1460 + dayOfEra / 36524 - dayOfEra / 146096) / 365
  let dayOfYear := dayOfEra - (365 * yearOfEra + yearOfEra / 4 - yearOfEra / 100)
  let monthOfYear := (5 * dayOfYear + 2) / 153
  let day := dayOfYear - (153 * monthOfYear + 2) / 5 + 1
  let month := if monthOfYear < 10 then monthOfYear + 3 else monthOfYear - 9
  (yearOfEra + era * 400 + (if month ≤ 2 then 1 else 0), month, day)

/-- `%Y-%m-%dT%H:%M:%S` of a date and a second of the day, and the nanoseconds. -/
def stamp (date : Nat × Nat × Nat) (clock nanos : Nat) : List Char :=
  zfill 4 date.1 ++ '-' :: (zfill 2 date.2.1 ++ '-' :: (zfill 2 date.2.2 ++ 'T' ::
    (zfill 2 (clock / 3600) ++ ':' :: (zfill 2 (clock / 60 % 60) ++ ':' ::
      (zfill 2 (clock % 60) ++ '.' :: (zfill 9 nanos ++ ['Z']))))))

/-- `_utc`. -/
def utc (ns : Nat) : String :=
  let seconds := ns / 1000000000
  String.ofList (stamp (civilFromDays (seconds / 86400)) (seconds % 86400) (ns % 1000000000))

/-! ## Cursors -/

/-- Where a page ends: in the samples or events, in the observation of a sample, or at a
    bucket or mount. -/
inductive Position where
  | pair (first second : Int)
  | observation (id offset sampledAt : Int) (bootId : String)
  | index (n : Int)
deriving DecidableEq, Repr

def Position.value : Position → Value
  | .pair first second => .arr [.int first, .int second]
  | .observation id offset sampledAt bootId =>
    .arr [.int id, .int offset, .int sampledAt, .str bootId]
  | .index n => .int n

/-- The `kind` of position that a reader asks for. -/
inductive Kind where
  | tuple
  | list
  | int
deriving DecidableEq, Repr

def Position.kind : Position → Kind
  | .pair .. => .tuple
  | .observation .. => .list
  | .index .. => .int

/-- The position in a cursor, if it has the expected shape. -/
def positionOf : Kind → Value → Option Position
  | .tuple, .arr [.int first, .int second] => some (.pair first second)
  | .list, .arr [.int id, .int offset, .int sampledAt, .str bootId] =>
    if 0 < bootId.length ∧ bootId.length ≤ 128 then some (.observation id offset sampledAt bootId)
    else none
  | .int, .int n => some (.index n)
  | _, _ => none

section

variable (sha256 : String → String)

/-- `hashlib.sha256(_json(filters).encode()).hexdigest()[:24]`. -/
def digest (filters : Dict) : Except PyError String := do
  let text ← json (.obj filters)
  return String.ofList ((sha256 text).toList.take 24)

/-- `_cursor`. -/
def cursor (filters : Dict) (position : Position) : Except PyError String := do
  let digest ← digest sha256 filters
  let raw ← json (.obj [("v", .int 1), ("f", .str digest), ("p", position.value)])
  return String.ofList (Base64.unpad (Base64.encode raw.toByteArray.data.toList))

/-- `body.get(key)`; of two entries with one key the last one stays. -/
def get (body : Dict) (key : String) : Option Value := body.reverse.lookup key

/-- The integer of an exponent's digits. -/
def powerOf (cs : List Char) : Int :=
  if cs.head? = some '+' then integerOf cs.tail else integerOf cs

/-- `x == 1` of a float: the literal is nearest to one among the doubles. -/
def isOne (x : FloatLiteral) : Bool :=
  let point := (fraction x.tail).1.drop 1
  let scale := powerOf ((exponent (fraction x.tail).2).1.drop 1) - point.length
  let mantissa := Nat.ofDigitChars 10 (x.whole ++ point) 0 * 10 ^ scale.toNat * 2 ^ 54
  let unit := 10 ^ (- scale).toNat
  decide (x.whole.head? ≠ some '-' ∧ unit * (2 ^ 54 - 1) ≤ mantissa ∧
    mantissa ≤ unit * (2 ^ 54 + 2))

/-- `value == 1`; a bool is an integer. -/
def equalsOne : Value → Bool
  | .int n => n == 1
  | .bool b => b
  | .float x => isOne x
  | _ => false

/-- The position in a cursor that was made for filters of this digest.  A payload in UTF-16
    or UTF-32, which `json.loads` would tell by its zero bytes, is refused. -/
def readCursor (cursor digest : String) (kind : Kind) : Option Position := do
  let decoded ← Base64.decode (Base64.pad cursor.toList)
  let text ← String.fromUTF8? ⟨decoded.toArray⟩
  match Json.read text with
  | some (.obj body) => do
    let position ← get body "p"
    match get body "v", get body "f" with
    | some v, some (.str f) =>
      if equalsOne v ∧ f = digest then positionOf kind position else none
    | _, _ => none
  | _ => none

/-- `_cursor_position`. -/
def cursorPosition (cursor : Option String) (filters : Dict) (kind : Kind) :
    Except PyError (Option Position) :=
  match cursor with
  | none => .ok none
  | some cursor =>
    if cursor.length > 1024 then .error (.valueError "invalid cursor")
    else
      match (digest sha256 filters).toOption.bind fun digest => readCursor cursor digest kind with
      | some position => .ok (some position)
      | none => .error (.valueError "invalid cursor or cursor filters changed")

end

/-! ## Envelopes -/

structure Envelope where
  generatedAt : String
  requested : Dict
  coverage : Dict
  items : List Dict
  nextCursor : Option String
  truncated : Bool
  errors : List Dict

def optional : Option String → Value
  | none => .null
  | some s => .str s

/-- The dict that is sent; `ENVELOPE_VERSION` is 1. -/
def Envelope.value (page : Envelope) : Value :=
  .obj [("schema", .int 1), ("generated_at", .str page.generatedAt),
    ("requested", .obj page.requested), ("coverage", .obj page.coverage),
    ("items", .arr (page.items.map .obj)), ("next_cursor", optional page.nextCursor),
    ("truncated", .bool page.truncated), ("errors", .arr (page.errors.map .obj))]

/-- `_base`. -/
def Envelope.base (requested : Dict) (now : Nat) : Envelope where
  generatedAt := utc now
  requested := requested
  coverage := []
  items := []
  nextCursor := none
  truncated := false
  errors := []

/-- The envelope without its metadata. -/
def Envelope.bare (page : Envelope) : Envelope :=
  { page with
    coverage := []
    requested := []
    errors := [[("code", .str "output_budget")]]
    nextCursor := none }

/-- `len(_json(page).encode())`. -/
def encodedLength (page : Envelope) : Except PyError Nat := do
  return (← json page.value).utf8ByteSize

/-- `encode_budgeted_json`. -/
def encodeBudgetedJson (page : Envelope) (maxBytes : Nat) : Except PyError String := do
  checkBudget maxBytes
  let encoded ← json page.value
  refuseIf (encoded.utf8ByteSize > maxBytes) "response exceeds max_bytes"
  return encoded

section

variable (sha256 : String → String) (filters : Dict) (maxBytes : Nat)

/-- The loop of `_pack`: the envelope with the items that fit, and whether one did not. -/
def packLoop : Envelope → List (Dict × Position) → Except PyError (Envelope × Bool)
  | base, [] => .ok (base, false)
  | base, (item, position) :: rest => do
    let next := { base with items := base.items ++ [item] }
    -- room for a cursor and the truncation flag is reserved before the item is added
    let reserved ← cursor sha256 filters position
    if (← encodedLength { next with nextCursor := some reserved, truncated := true }) > maxBytes then
      return (base, true)
    else packLoop next rest

/-- The error of an envelope that nothing fits in. -/
def firstTooLong : Dict :=
  [("code", .str "output_budget"), ("message", .str "first item exceeds max_bytes")]

/-- The cursor of an envelope that leaves something out, or its error when it is empty. -/
def markMore (candidates : List (Dict × Position)) (base : Envelope) : Except PyError Envelope :=
  if base.truncated = false then .ok base
  else
    match base.items, candidates[base.items.length - 1]? with
    | [], _ => .ok { base with errors := base.errors ++ [firstTooLong] }
    | _ :: _, none => .ok base
    | _ :: _, some last => do
      let next ← cursor sha256 filters last.2
      return { base with nextCursor := some next }

/-- An envelope whose metadata alone take the budget. -/
def dropMetadata (base : Envelope) : Except PyError Envelope := do
  let length ← encodedLength base
  return if length > maxBytes then base.bare else base

/-- `_pack`. -/
def pack (base : Envelope) (candidates : List (Dict × Position)) (limit : Nat) (more : Bool) :
    Except PyError Envelope := do
  let (base, cut) ← packLoop sha256 filters maxBytes { base with items := [] }
    (candidates.take limit)
  let more := more || cut || base.items.length < candidates.length || candidates.length > limit
  let base ← markMore sha256 filters candidates { base with truncated := more }
  let base ← dropMetadata maxBytes base
  let _ ← encodeBudgetedJson base maxBytes
  return base

end

end SummitFlow.Monitor.Wire
