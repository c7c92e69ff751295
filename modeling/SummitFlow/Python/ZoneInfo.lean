import SummitFlow.ForStd.Bisect

/-!
# Time zones

Model of the lookups of `zoneinfo.ZoneInfo`.  Instants and wall times are counted from the
epoch, in UTC and in the zone, in microseconds; the dates have no first and no last year.

The changes of a zone are a list here that goes on as long as a lookup needs, with no rule
for the time after the last one.
-/

namespace SummitFlow

def microsPerMinute : Int := 60000000

def microsPerDay : Int := 86400000000

/-- A time zone: the offset before the first change, and the instants of the changes with
    the offsets from then on. -/
structure Zone where
  first : Int
  changes : List (Int × Int)
  increasing : (changes.map Prod.fst).Pairwise (· < ·)

namespace Zone

/-- A change with the offsets before and after it. -/
structure Change where
  instant : Int
  before : Int
  after : Int

def changesFrom (before : Int) : List (Int × Int) → List Change
  | [] => []
  | (instant, after) :: changes => ⟨instant, before, after⟩ :: changesFrom after changes

/-- The wall time of a change, as it counts for wall times with `fold=0`. -/
def Change.wall (change : Change) : Int := change.instant + max change.before change.after

/-- `trans_list_wall[0]`. -/
def walls (first : Int) (changes : List (Int × Int)) : List Int :=
  (changesFrom first changes).map Change.wall

/-- The offset after so many changes. -/
def offsetAfter (first : Int) (changes : List (Int × Int)) (count : Nat) : Int :=
  (first :: changes.map Prod.snd).getD count first

/-- The offset at an instant, as `ZoneInfo.fromutc` finds it. -/
def offsetAt (zone : Zone) (instant : Int) : Int :=
  offsetAfter zone.first zone.changes (Bisect.right (zone.changes.map Prod.fst) instant)

/-- `_find_trans`: the offset of a wall time with `fold=0`. -/
def utcoffset (zone : Zone) (wall : Int) : Int :=
  let lt := walls zone.first zone.changes
  if lt ≠ [] ∧ wall < lt.getD 0 0 then zone.first
  else if lt = [] ∨ wall > lt.getD (lt.length - 1) 0 then
    offsetAfter zone.first zone.changes lt.length
  else offsetAfter zone.first zone.changes (Bisect.right lt wall)

/-- `astimezone` to the zone: what the clock shows at an instant. -/
def astimezone (zone : Zone) (instant : Int) : Int := instant + zone.offsetAt instant

/-- `astimezone(UTC)` of a wall time with `fold=0`. -/
def toUTC (zone : Zone) (wall : Int) : Int := wall - zone.utcoffset wall

/-- `datetime.UTC`. -/
def utc : Zone := ⟨0, [], List.Pairwise.nil⟩

/-- The changes of a zone. -/
def steps (zone : Zone) : List Change := changesFrom zone.first zone.changes

end Zone

end SummitFlow
