import SummitFlow.ForStd.Run
import SummitFlow.Utils.MaintenanceWindow

/-!
# Closing is seen

A window that was open and is closed has ended in between, if what the clock shows agrees with
how the ends are read and the clock is not set back over a start.  A clock change that neither
skips nor repeats an end, and does not set the clock back over a start, leaves that so.
-/

namespace SummitFlow

namespace Zone

/-- A wall time is skipped or repeated by a change. -/
def Change.Disturbs (change : Change) (wall : Int) : Prop :=
  change.instant + min change.before change.after < wall ∧ wall < change.wall

/-- The clock is set back over a wall time. -/
def Change.SetsBack (change : Change) (wall : Int) : Prop :=
  change.instant + change.after < wall ∧ wall < change.instant + change.before

theorem Change.SetsBack.disturbs {change : Change} {wall : Int} (h : change.SetsBack wall) :
    change.Disturbs wall := by
  obtain ⟨hafter, hbefore⟩ := h
  unfold Change.Disturbs Change.wall
  omega

/-! ## The lookups one change at a time -/

/-- The offset at an instant. -/
def offsetFrom (before : Int) : List (Int × Int) → Int → Int
  | [], _ => before
  | (T, after) :: changes, t => if t < T then before else offsetFrom after changes t

/-- The offset of a wall time. -/
def readFrom (before : Int) : List (Int × Int) → Int → Int
  | [], _ => before
  | (T, after) :: changes, w =>
    if w < T + max before after then before else readFrom after changes w

theorem offsetAfter_succ (before T after : Int) (changes : List (Int × Int)) {count : Nat}
    (h : count ≤ changes.length) :
    offsetAfter before ((T, after) :: changes) (count + 1) = offsetAfter after changes count := by
  unfold offsetAfter
  have hlt : count < (after :: changes.map Prod.snd).length := by simp; omega
  rw [List.map_cons, List.getD_cons_succ, List.getD_eq_getElem _ _ hlt, List.getD_eq_getElem _ _ hlt]

theorem offsetFrom_eq {before t : Int} {changes : List (Int × Int)}
    (h : (changes.map Prod.fst).Pairwise (· < ·)) :
    offsetAfter before changes (Bisect.right (changes.map Prod.fst) t) =
      offsetFrom before changes t := by
  induction changes generalizing before with
  | nil => rfl
  | cons change changes ih =>
    obtain ⟨T, after⟩ := change
    have hle : (T :: changes.map Prod.fst).Pairwise (· ≤ ·) :=
      List.Pairwise.imp (fun hlt => Int.le_of_lt hlt) h
    have hrest := (List.pairwise_cons.mp h).2
    rw [List.map_cons, Bisect.right_cons T hle, offsetFrom]
    split
    · rfl
    · have hlength := (@Bisect.right_spec _ t (List.pairwise_cons.mp hle).2).1
      rw [List.length_map] at hlength
      rw [offsetAfter_succ _ _ _ _ hlength]
      exact ih hrest

theorem length_walls (before : Int) (changes : List (Int × Int)) :
    (walls before changes).length = changes.length := by
  induction changes generalizing before with
  | nil => rfl
  | cons change changes ih => exact congrArg (· + 1) (ih change.2)

theorem readFrom_eq {before w : Int} {changes : List (Int × Int)}
    (h : (walls before changes).Pairwise (· ≤ ·)) :
    offsetAfter before changes (Bisect.right (walls before changes) w) =
      readFrom before changes w := by
  induction changes generalizing before with
  | nil => rfl
  | cons change changes ih =>
    obtain ⟨T, after⟩ := change
    have hcons : walls before ((T, after) :: changes) =
        (T + max before after) :: walls after changes := rfl
    rw [hcons] at h ⊢
    rw [Bisect.right_cons _ h, readFrom]
    split
    · rfl
    · have hlength := (@Bisect.right_spec _ w (List.pairwise_cons.mp h).2).1
      rw [length_walls] at hlength
      rw [offsetAfter_succ _ _ _ _ hlength]
      exact ih (List.pairwise_cons.mp h).2

theorem astimezone_eq (zone : Zone) (t : Int) :
    zone.astimezone t = t + offsetFrom zone.first zone.changes t := by
  unfold astimezone offsetAt
  rw [offsetFrom_eq zone.increasing]

/-- The shortcuts at the first and after the last wall time are what the bisection gives. -/
theorem utcoffset_eq (zone : Zone) (h : (walls zone.first zone.changes).Pairwise (· ≤ ·)) (w : Int) :
    zone.utcoffset w = readFrom zone.first zone.changes w := by
  rw [← readFrom_eq h]
  unfold utcoffset
  obtain ⟨hlength, hlow, hhigh⟩ := @Bisect.right_spec _ w h
  dsimp only
  split
  · next hfirst =>
    have hpos : 0 < (walls zone.first zone.changes).length := List.length_pos_iff.mpr hfirst.1
    have hzero : Bisect.right (walls zone.first zone.changes) w = 0 := by
      by_contra hne
      have hle := hlow 0 (by omega)
      omega
    rw [hzero]
    rfl
  · split
    · next hlast =>
      have hall : Bisect.right (walls zone.first zone.changes) w =
          (walls zone.first zone.changes).length := by
        rcases hlast with hnil | hlast
        · rw [hnil]
          rfl
        · by_contra hne
          have hpos : 0 < (walls zone.first zone.changes).length := by omega
          have hlt := hhigh ((walls zone.first zone.changes).length - 1) (by omega) (by omega)
          omega
      rw [hall]
    · rfl

/-! ## What the clock shows -/

theorem offsetFrom_self {changes : List (Int × Int)} {after T : Int}
    (h : (T :: changes.map Prod.fst).Pairwise (· < ·)) : offsetFrom after changes T = after := by
  cases changes with
  | nil => rfl
  | cons next changes =>
    have hlt : T < next.1 := (List.pairwise_cons.mp h).1 next.1 List.mem_cons_self
    rw [offsetFrom, if_pos hlt]

/-- Once the clock shows a wall time it is not set back over, it goes on to show that or more. -/
theorem offsetFrom_stays {changes : List (Int × Int)} {before w u t : Int}
    (h : (changes.map Prod.fst).Pairwise (· < ·)) (hut : u ≤ t)
    (hback : ∀ change ∈ changesFrom before changes, change.instant ≤ t → ¬ change.SetsBack w)
    (hu : w ≤ u + offsetFrom before changes u) : w ≤ t + offsetFrom before changes t := by
  induction changes generalizing before u with
  | nil =>
    rw [offsetFrom] at hu ⊢
    omega
  | cons change changes ih =>
    obtain ⟨T, after⟩ := change
    have hrest := (List.pairwise_cons.mp h).2
    have hbackRest := fun change hmem => hback change (List.mem_cons_of_mem _ hmem)
    rw [offsetFrom] at hu ⊢
    by_cases ht : t < T
    · rw [if_pos (by omega)] at hu
      rw [if_pos ht]
      omega
    · rw [if_neg ht]
      by_cases hu' : u < T
      · -- the change comes in between, and shows no less
        rw [if_pos hu'] at hu
        have hnot := hback ⟨T, before, after⟩ List.mem_cons_self (by show T ≤ t; omega)
        unfold Change.SetsBack at hnot
        dsimp only at hnot
        have hshown : w ≤ T + offsetFrom after changes T := by
          rw [offsetFrom_self h]
          omega
        exact ih hrest (by omega) hbackRest hshown
      · rw [if_neg hu'] at hu
        exact ih hrest hut hbackRest hu

theorem le_sub_readFrom {changes : List (Int × Int)} {before T w : Int}
    (h : (T :: changes.map Prod.fst).Pairwise (· < ·)) (hw : T + before ≤ w) :
    T ≤ w - readFrom before changes w := by
  induction changes generalizing before T with
  | nil =>
    rw [readFrom]
    omega
  | cons change changes ih =>
    obtain ⟨T', after⟩ := change
    obtain ⟨hfirst, hrest⟩ := List.pairwise_cons.mp h
    have hlt : T < T' := hfirst T' List.mem_cons_self
    rw [readFrom]
    split
    · omega
    · have hle : T' ≤ w - readFrom after changes w := ih hrest (by omega)
      omega

/-- A wall time that no change so far disturbs is shown from the instant on that it is read
    as. -/
theorem le_offsetFrom_iff {changes : List (Int × Int)} {before now w t : Int}
    (h : (changes.map Prod.fst).Pairwise (· < ·)) (ht : t ≤ now)
    (hclean : ∀ change ∈ changesFrom before changes, change.instant ≤ now → ¬ change.Disturbs w) :
    w ≤ t + offsetFrom before changes t ↔ w - readFrom before changes w ≤ t := by
  induction changes generalizing before with
  | nil =>
    rw [offsetFrom, readFrom]
    omega
  | cons change changes ih =>
    obtain ⟨T, after⟩ := change
    have hrest := (List.pairwise_cons.mp h).2
    have hcleanRest := fun change hmem => hclean change (List.mem_cons_of_mem _ hmem)
    rw [offsetFrom, readFrom]
    by_cases hbefore : t < T
    · rw [if_pos hbefore]
      split
      · omega
      · -- read after the change, and not shown before it
        have hle : T ≤ w - readFrom after changes w := le_sub_readFrom h (by omega)
        omega
    · rw [if_neg hbefore]
      have hnot := hclean ⟨T, before, after⟩ List.mem_cons_self (by show T ≤ now; omega)
      unfold Change.Disturbs Change.wall at hnot
      dsimp only at hnot
      split
      · next hlt =>
        -- read before the change, and shown ever since
        have hshown : w ≤ T + offsetFrom after changes T := by
          rw [offsetFrom_self h]
          omega
        have hstays := offsetFrom_stays hrest (t := t) (by omega)
          (fun change hmem hinstant hback => hcleanRest change hmem (by omega) hback.disturbs) hshown
        omega
      · exact ih hrest hcleanRest

end Zone

namespace MaintenanceWindow

open Zone

/-! ## Windows that are parsed -/

/-- The minutes of a day. -/
structure Wf (window : MaintenanceWindow) : Prop where
  nonempty : window.ranges ≠ []
  minutes : ∀ range ∈ window.ranges, range.1 < 1440 ∧ range.2 < 1440 ∧ range.1 ≠ range.2

theorem digitValue_le {c : Char} {v : Nat} (h : Str.digitValue c = some v) : v ≤ 9 := by
  unfold Str.digitValue at h
  rw [Option.map_eq_some_iff] at h
  obtain ⟨zero, hfind, rfl⟩ := h
  have hrange := List.find?_some hfind
  simp at hrange
  omega

theorem hourOf_lt {a b : Char} {hour : Nat} (h : hourOf a b = some hour) : hour < 24 := by
  unfold hourOf at h
  split at h
  · next ha =>
    obtain ⟨v, hv, rfl⟩ := Option.map_eq_some_iff.mp h
    have hle := digitValue_le hv
    rcases ha with rfl | rfl
    · show 10 * 0 + v < 24
      omega
    · show 10 * 1 + v < 24
      omega
  · split at h
    · next ha =>
      obtain rfl := Option.some.inj h
      have hle : b.toNat ≤ '3'.toNat := ha.2.2
      have hthree : '3'.toNat = 51 := rfl
      omega
    · cases h

theorem minuteOf_lt {a b : Char} {minute : Nat} (h : minuteOf a b = some minute) : minute < 60 := by
  unfold minuteOf at h
  split at h
  · next ha =>
    obtain ⟨v, hv, rfl⟩ := Option.map_eq_some_iff.mp h
    have hle := digitValue_le hv
    have hfive : a.toNat ≤ '5'.toNat := ha.2
    have hvalue : '5'.toNat = 53 := rfl
    omega
  · cases h

theorem fullmatch_lt {part : List Char} {range : Nat × Nat} (h : fullmatch part = some range) :
    range.1 < 1440 ∧ range.2 < 1440 := by
  unfold fullmatch at h
  split at h
  · simp only [Option.bind_eq_bind, Option.bind_eq_some_iff] at h
    obtain ⟨hour, hhour, minute, hminute, hour', hhour', minute', hminute', heq⟩ := h
    obtain rfl := Option.some.inj heq
    have h1 := hourOf_lt hhour
    have h2 := minuteOf_lt hminute
    have h3 := hourOf_lt hhour'
    have h4 := minuteOf_lt hminute'
    dsimp only
    omega
  · cases h

theorem parseRange_ok {part : List Char} {range : Nat × Nat} (h : parseRange part = .ok range) :
    range.1 < 1440 ∧ range.2 < 1440 ∧ range.1 ≠ range.2 := by
  unfold parseRange at h
  split at h
  · cases h
  · next first last hmatch =>
    split at h
    · cases h
    · next hne =>
      obtain rfl := Except.ok.inj h
      obtain ⟨hfirst, hlast⟩ := fullmatch_lt hmatch
      exact ⟨hfirst, hlast, hne⟩

theorem wf_parse {spec : String} {window : MaintenanceWindow} (h : parse spec = .ok window) :
    window.Wf := by
  unfold parse at h
  dsimp only at h
  generalize Str.splitOnChar ',' (if Str.endswith spec "Z" = true then spec.toList.dropLast else
    spec.toList) = parts at h
  by_cases hlength : 1 ≤ parts.length ∧ parts.length ≤ maxRanges
  · rw [if_pos hlength] at h
    cases hparts : parts.mapM parseRange with
    | error e =>
      rw [hparts] at h
      cases h
    | ok ranges =>
      rw [hparts] at h
      obtain rfl := Except.ok.inj h
      constructor
      · rintro rfl
        cases forall₂_of_mapM_ok hparts
        exact absurd hlength.1 (by decide)
      · intro range hrange
        obtain ⟨part, -, hpart⟩ := mem_of_mapM_ok hparts hrange
        exact parseRange_ok hpart
  · rw [if_neg hlength] at h
    cases h

/-! ## The latest end -/

/-- An end of a range, so many days after that of the day of `now`. -/
def endOn (clock : Zone) (now : Int) (range : Nat × Nat) (days : Int) : Int :=
  replaceMinute (clock.astimezone now) range.2 + days * microsPerDay

def startOn (clock : Zone) (now : Int) (range : Nat × Nat) (days : Int) : Int :=
  replaceMinute (clock.astimezone now) range.1 + days * microsPerDay

/-- At `t` and at `now` the clock has come to an end exactly if the end is read as past, and it
    has not been set back over a start. -/
structure InStep (clock : Zone) (range : Nat × Nat) (t now : Int) : Prop where
  ends : ∀ days ∈ [-1, 0, 1], endOn clock now range days ≤ clock.astimezone t ↔
    clock.toUTC (endOn clock now range days) ≤ t
  endsNow : ∀ days ∈ [-1, 0, 1], endOn clock now range days ≤ clock.astimezone now ↔
    clock.toUTC (endOn clock now range days) ≤ now
  starts : ∀ days ∈ [-1, 0, 1], startOn clock now range days ≤ clock.astimezone t →
    startOn clock now range days ≤ clock.astimezone now

/-- The ends of the day before have passed, and the clock is in step with a range that was
    open. -/
structure Orderly (window : MaintenanceWindow) (clock : Zone) (t now : Int) : Prop where
  past : ∀ range ∈ window.ranges, clock.toUTC (endOn clock now range (-1)) ≤ now
  inStep : ∃ range ∈ window.ranges, InStep clock range t now ∧
    inRange (clock.astimezone t % microsPerDay / microsPerMinute) range = true

variable {window : MaintenanceWindow} {clock : Zone} {t now : Int}

/-- The minute of a wall time is in a range. -/
theorem inRange_iff {wall : Int} {range : Nat × Nat} :
    inRange (wall % microsPerDay / microsPerMinute) range = true ↔
      if range.1 < range.2 then
        range.1 * microsPerMinute ≤ wall % microsPerDay ∧ wall % microsPerDay < range.2 * microsPerMinute
      else
        range.1 * microsPerMinute ≤ wall % microsPerDay ∨ wall % microsPerDay < range.2 * microsPerMinute := by
  have hstart : ((range.1 : Int) ≤ wall % microsPerDay / microsPerMinute) ↔
      range.1 * microsPerMinute ≤ wall % microsPerDay := Int.le_ediv_iff_mul_le (by decide)
  have hend : (wall % microsPerDay / microsPerMinute < (range.2 : Int)) ↔
      wall % microsPerDay < range.2 * microsPerMinute := Int.ediv_lt_iff_lt_mul (by decide)
  unfold inRange
  split
  · next hlt => simp [hstart, hend]
  · next hlt => simp [hstart, hend]

theorem minute_in_day {minute : Nat} (h : minute < 1440) :
    0 ≤ minute * microsPerMinute ∧ minute * microsPerMinute < microsPerDay := by
  unfold microsPerMinute microsPerDay
  omega

/-- Between two wall times from one end to the next, of which only the first one is in the
    range, there is a start, and the first one is the later. -/
theorem exists_start {x y first last wall : Int} (hfirst : 0 ≤ first ∧ first < microsPerDay)
    (hlast : 0 ≤ last ∧ last < microsPerDay)
    (hwall : wall = x - x % microsPerDay + last ∨
      wall = x - x % microsPerDay + last - microsPerDay)
    (hx : wall ≤ x ∧ x < wall + microsPerDay) (hy : wall ≤ y ∧ y < wall + microsPerDay)
    (hin : if first < last then first ≤ y % microsPerDay ∧ y % microsPerDay < last
      else first ≤ y % microsPerDay ∨ y % microsPerDay < last)
    (hout : ¬ if first < last then first ≤ x % microsPerDay ∧ x % microsPerDay < last
      else first ≤ x % microsPerDay ∨ x % microsPerDay < last) :
    ∃ days ∈ [-1, 0, 1], x - x % microsPerDay + first + days * microsPerDay ≤ y ∧
      x < x - x % microsPerDay + first + days * microsPerDay := by
  unfold microsPerDay at *
  rcases hwall with rfl | rfl
  · -- the end of this day has passed
    by_cases hlt : first < last
    · rw [if_pos hlt] at hin hout
      exact ⟨1, by simp, by omega, by omega⟩
    · rw [if_neg hlt] at hin hout
      exact ⟨0, by simp, by omega, by omega⟩
  · by_cases hlt : first < last
    · rw [if_pos hlt] at hin hout
      exact ⟨0, by simp, by omega, by omega⟩
    · rw [if_neg hlt] at hin hout
      omega

theorem endOf_eq (clock : Zone) (now : Int) (range : Nat × Nat) :
    endOf clock now range.2 =
      if clock.toUTC (endOn clock now range 0) > now then clock.toUTC (endOn clock now range (-1))
      else clock.toUTC (endOn clock now range 0) := by
  have htoday : endOn clock now range 0 = replaceMinute (clock.astimezone now) range.2 := by
    unfold endOn
    omega
  have hyesterday : endOn clock now range (-1) =
      replaceMinute (clock.astimezone now) range.2 - microsPerDay := by
    unfold endOn
    omega
  rw [htoday, hyesterday]
  rfl

theorem endOf_le {range : Nat × Nat} (h : clock.toUTC (endOn clock now range (-1)) ≤ now) :
    endOf clock now range.2 ≤ now := by
  rw [endOf_eq]
  split
  · exact h
  · next hcome => exact Int.not_lt.mp hcome

/-- The end that is taken is the last one the clock has shown. -/
theorem InStep.shown_end {range : Nat × Nat} (h : InStep clock range t now) (ht : t < now)
    (hend : range.2 < 1440) (hpast : endOf clock now range.2 ≤ t) :
    ∃ wall, (wall = clock.astimezone now - clock.astimezone now % microsPerDay +
          range.2 * microsPerMinute ∨
        wall = clock.astimezone now - clock.astimezone now % microsPerDay +
          range.2 * microsPerMinute - microsPerDay) ∧
      (wall ≤ clock.astimezone now ∧ clock.astimezone now < wall + microsPerDay) ∧
      wall ≤ clock.astimezone t ∧ clock.astimezone t < wall + microsPerDay := by
  have hmod := Int.emod_nonneg (clock.astimezone now) (show microsPerDay ≠ 0 by decide)
  have hmod' := Int.emod_lt_of_pos (clock.astimezone now) (show 0 < microsPerDay by decide)
  have hinDay := minute_in_day hend
  have hon : ∀ days, endOn clock now range days = clock.astimezone now -
      clock.astimezone now % microsPerDay + range.2 * microsPerMinute + days * microsPerDay :=
    fun _ => rfl
  have hyesterday := hon (-1)
  have htoday := hon 0
  have htomorrow := hon 1
  rw [endOf_eq] at hpast
  by_cases hcome : clock.toUTC (endOn clock now range 0) > now
  · -- the end of this day is still to come
    rw [if_pos hcome] at hpast
    have hlater := (not_congr (h.endsNow 0 (by simp))).mpr (Int.not_le.mpr hcome)
    have hlater' := (not_congr (h.ends 0 (by simp))).mpr (by omega)
    have hshown := (h.ends (-1) (by simp)).mpr hpast
    exact ⟨endOn clock now range (-1), .inr (by omega), ⟨by omega, by omega⟩, hshown, by omega⟩
  · rw [if_neg hcome] at hpast
    have hshown := (h.endsNow 0 (by simp)).mpr (Int.not_lt.mp hcome)
    have hshown' := (h.ends 0 (by simp)).mpr hpast
    have hnext := (not_congr (h.endsNow 1 (by simp))).mp (by omega)
    have hnext' := (not_congr (h.ends 1 (by simp))).mpr (by omega)
    exact ⟨endOn clock now range 0, .inl (by omega), ⟨hshown, by omega⟩, hshown', by omega⟩

/-- A range that was open and is closed has ended in between. -/
theorem InStep.lt_endOf {range : Nat × Nat} (h : InStep clock range t now) (ht : t < now)
    (hminutes : range.1 < 1440 ∧ range.2 < 1440)
    (hin : inRange (clock.astimezone t % microsPerDay / microsPerMinute) range = true)
    (hout : inRange (clock.astimezone now % microsPerDay / microsPerMinute) range = false) :
    t < endOf clock now range.2 := by
  obtain ⟨hstart, hend⟩ := hminutes
  by_contra hpast
  obtain ⟨wall, hwall, hnow, hthen⟩ := h.shown_end ht hend (Int.not_lt.mp hpast)
  rw [inRange_iff] at hin
  rw [Bool.eq_false_iff, ne_eq, inRange_iff] at hout
  have hlt : range.1 < range.2 ↔
      (range.1 : Int) * microsPerMinute < (range.2 : Int) * microsPerMinute := by
    unfold microsPerMinute
    omega
  simp only [hlt] at hin hout
  obtain ⟨days, hdays, hstarted, hnot⟩ := exists_start (minute_in_day hstart) (minute_in_day hend)
    hwall hnow hthen hin hout
  -- the clock was past a start, and is before it now
  have hstays : startOn clock now range days ≤ clock.astimezone now := h.starts days hdays hstarted
  unfold startOn replaceMinute at hstays
  omega

/-- Where the clock is in step with the window, its closing is seen. -/
theorem latestEnd_of_orderly {spec : String} (hparse : parse spec = .ok window) (tz : Zone)
    (h : window.Orderly (window.clock tz) t now) (ht : t < now)
    (hclosed : window.contains now tz = false) :
    ∃ last, window.latestEnd now tz = some last ∧ t < last ∧ last ≤ now := by
  have hwf := wf_parse hparse
  obtain ⟨range, hrange, hinStep, hin⟩ := h.inStep
  unfold contains at hclosed
  have hout := List.any_eq_false.mp hclosed range hrange
  have hends : (window.ranges.map fun range => endOf (window.clock tz) now range.2) ≠ [] := by
    rw [ne_eq, List.map_eq_nil_iff]
    exact hwf.nonempty
  obtain ⟨last, hlast⟩ := Option.ne_none_iff_exists'.mp (mt List.max?_eq_none_iff.mp hends)
  obtain ⟨hmem, hmax⟩ := List.max?_eq_some_iff.mp hlast
  obtain ⟨hstart, hend, -⟩ := hwf.minutes range hrange
  refine ⟨last, hlast, ?_, ?_⟩
  · have hlt := hinStep.lt_endOf ht ⟨hstart, hend⟩ hin (by simpa using hout)
    have hle := hmax _ (List.mem_map_of_mem hrange)
    omega
  · obtain ⟨other, hother, rfl⟩ := List.mem_map.mp hmem
    exact endOf_le (h.past other hother)

/-! ## Clock changes -/

/-- No clock change up to now skipped or repeats an end, or repeats a start, on the day of now
    or on one next to it, and the wall times of the changes are in order. -/
structure Undisturbed (window : MaintenanceWindow) (clock : Zone) (now : Int) : Prop where
  ordered : (walls clock.first clock.changes).Pairwise (· ≤ ·)
  ends : ∀ change ∈ clock.steps, change.instant ≤ now → ∀ range ∈ window.ranges,
    ∀ days ∈ [-1, 0, 1], ¬ change.Disturbs (endOn clock now range days)
  starts : ∀ change ∈ clock.steps, change.instant ≤ now → ∀ range ∈ window.ranges,
    ∀ days ∈ [-1, 0, 1], ¬ change.SetsBack (startOn clock now range days)

/-- What the clock shows is at an end or later from the instant on that the end is read as. -/
theorem Undisturbed.shown_iff (h : window.Undisturbed clock now) {range : Nat × Nat}
    (hrange : range ∈ window.ranges) {days : Int} (hdays : days ∈ [-1, 0, 1]) (ht : t ≤ now) :
    endOn clock now range days ≤ clock.astimezone t ↔
      clock.toUTC (endOn clock now range days) ≤ t := by
  rw [clock.astimezone_eq t, toUTC, clock.utcoffset_eq h.ordered]
  exact le_offsetFrom_iff clock.increasing ht
    fun change hmem hinstant => h.ends change hmem hinstant range hrange days hdays

/-- No change up to now disturbs the window, so the clock is in step with it. -/
theorem Undisturbed.orderly (h : window.Undisturbed clock now) (hwf : window.Wf) (ht : t < now)
    {range : Nat × Nat} (hrange : range ∈ window.ranges)
    (hin : inRange (clock.astimezone t % microsPerDay / microsPerMinute) range = true) :
    window.Orderly clock t now := by
  refine ⟨?_, range, hrange, ⟨?_, ?_, ?_⟩, hin⟩
  · intro other hother
    rw [← h.shown_iff hother (by simp) (Int.le_refl _)]
    have hmod := Int.emod_nonneg (clock.astimezone now) (show microsPerDay ≠ 0 by decide)
    have hinDay := minute_in_day (hwf.minutes other hother).2.1
    unfold endOn replaceMinute
    omega
  · exact fun days hdays => h.shown_iff hrange hdays (Int.le_of_lt ht)
  · exact fun days hdays => h.shown_iff hrange hdays (Int.le_refl _)
  · intro days hdays hshown
    rw [clock.astimezone_eq t] at hshown
    rw [clock.astimezone_eq now]
    exact offsetFrom_stays clock.increasing (Int.le_of_lt ht)
      (fun change hmem hinstant => h.starts change hmem hinstant range hrange days hdays) hshown

theorem latestEnd_of_orderly_utc : ∃ last,
    (⟨[(60, 120), (1380, 30)], true⟩ : MaintenanceWindow).latestEnd 7260000000 Zone.utc =
      some last ∧ 7140000000 < last ∧ last ≤ 7260000000 := by
  have hparse : parse "01:00-02:00,23:00-00:30Z" = .ok ⟨[(60, 120), (1380, 30)], true⟩ := by
    decide +kernel
  have hundisturbed : (⟨[(60, 120), (1380, 30)], true⟩ : MaintenanceWindow).Undisturbed Zone.utc
      7260000000 :=
    ⟨List.Pairwise.nil, (fun change hmem => nomatch hmem), fun change hmem => nomatch hmem⟩
  have horderly := hundisturbed.orderly (wf_parse hparse) (t := 7140000000) (by decide)
    List.mem_cons_self (by decide +kernel)
  exact latestEnd_of_orderly hparse Zone.utc horderly (by decide) (by decide +kernel)

/-- A zone that sets its clock back from three to two o'clock. -/
def summerEnds : Zone := ⟨7200000000, [(1761440400000000, 3600000000)], by decide⟩

/-- A window that ends in the repeated hour, open and closed in the second one. -/
theorem closing_not_seen : ¬ ∀ (spec : String) (window : MaintenanceWindow) (tz : Zone) (t now : Int),
    parse spec = .ok window → t < now → window.contains t tz = true →
      window.contains now tz = false →
        ∃ last, window.latestEnd now tz = some last ∧ t < last ∧ last ≤ now := by
  intro hall
  obtain ⟨last, hlast, hlt, -⟩ := hall "01:30-02:30" ⟨[(90, 150)], false⟩ summerEnds
    1761441600000000 1761442800000000 (by decide +kernel) (by decide) (by decide +kernel)
    (by decide +kernel)
  have hends : (⟨[(90, 150)], false⟩ : MaintenanceWindow).latestEnd 1761442800000000 summerEnds =
      some 1761438600000000 := by decide +kernel
  rw [hends] at hlast
  obtain rfl := Option.some.inj hlast
  exact absurd hlt (by decide)

end MaintenanceWindow

end SummitFlow
