import SummitFlow.Python.Error
import SummitFlow.Python.Str
import SummitFlow.Python.ZoneInfo

/-!
# Maintenance windows

Model of `MaintenanceWindow` of `backend/app/utils/maintenance_window.py`: `parse`, `contains`
and `latest_end`.
-/

namespace SummitFlow

/-- `MAX_RANGES`. -/
def maxRanges : Nat := 4

structure MaintenanceWindow where
  ranges : List (Nat × Nat)
  utc : Bool
deriving DecidableEq, Repr

namespace MaintenanceWindow

/-- `([01]\d|2[0-3])`. -/
def hourOf (a b : Char) : Option Nat :=
  if a = '0' ∨ a = '1' then (Str.digitValue b).map (10 * (a.toNat - 48) + ·)
  else if a = '2' ∧ '0' ≤ b ∧ b ≤ '3' then some (20 + (b.toNat - 48))
  else none

/-- `([0-5]\d)`. -/
def minuteOf (a b : Char) : Option Nat :=
  if '0' ≤ a ∧ a ≤ '5' then (Str.digitValue b).map (10 * (a.toNat - 48) + ·) else none

/-- `_RANGE.fullmatch`, with the minutes of the day. -/
def fullmatch : List Char → Option (Nat × Nat)
  | [a, b, ':', c, d, '-', e, f, ':', g, h] => do
    let startHour ← hourOf a b
    let startMinute ← minuteOf c d
    let endHour ← hourOf e f
    let endMinute ← minuteOf g h
    return (startHour * 60 + startMinute, endHour * 60 + endMinute)
  | _ => none

/-- A part of the text in `parse`. -/
def parseRange (part : List Char) : Except PyError (Nat × Nat) :=
  match fullmatch part with
  | none => .error (.valueError
      "Each maintenance window range is HH:MM-HH:MM (24-hour), start and end different")
  | some (first, last) =>
    if first = last then .error (.valueError
      "Each maintenance window range is HH:MM-HH:MM (24-hour), start and end different")
    else .ok (first, last)

/-- `parse`. -/
def parse (spec : String) : Except PyError MaintenanceWindow :=
  let utc := Str.endswith spec "Z"
  let parts := Str.splitOnChar ',' (if utc then spec.toList.dropLast else spec.toList)
  if 1 ≤ parts.length ∧ parts.length ≤ maxRanges then
    (parts.mapM parseRange).map fun ranges => ⟨ranges, utc⟩
  else .error (.valueError ("A maintenance window is 1 to " ++ toString maxRanges ++
    " HH:MM-HH:MM ranges (24-hour)"))

/-- `_clock`. -/
def clock (window : MaintenanceWindow) (tz : Zone) : Zone := if window.utc then .utc else tz

/-- Whether a minute of the day is in a range. -/
def inRange (n : Int) (range : Nat × Nat) : Bool :=
  if range.1 < range.2 then range.1 ≤ n && n < range.2 else n ≥ range.1 || n < range.2

/-- `contains`. -/
def contains (window : MaintenanceWindow) (now : Int) (tz : Zone) : Bool :=
  let wall := (window.clock tz).astimezone now
  let n := wall % microsPerDay / microsPerMinute
  window.ranges.any (inRange n)

/-- `local.replace(hour=end // 60, minute=end % 60, second=0, microsecond=0, fold=0)`. -/
def replaceMinute (wall : Int) (minute : Nat) : Int :=
  wall - wall % microsPerDay + minute * microsPerMinute

/-- An end in `latest_end`. -/
def endOf (clock : Zone) (now : Int) (minute : Nat) : Int :=
  let t := replaceMinute (clock.astimezone now) minute
  if clock.toUTC t > now then clock.toUTC (t - microsPerDay) else clock.toUTC t

/-- `latest_end`; `max` of no ends raises. -/
def latestEnd (window : MaintenanceWindow) (now : Int) (tz : Zone) : Option Int :=
  (window.ranges.map fun range => endOf (window.clock tz) now range.2).max?

end MaintenanceWindow

end SummitFlow
