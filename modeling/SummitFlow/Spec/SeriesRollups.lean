import Mathlib.Algebra.Order.Ring.Rat
import Mathlib.Tactic.FieldSimp
import Mathlib.Tactic.Tauto
import SummitFlow.Spec.HostRollups
import SummitFlow.Spec.SeriesBuckets

/-!
# Samples and rollups tell the same

A bucket of a series is read from the samples in it, or from the minute rollups in it.
With exact numbers and complete rollups the two have the same values and counts.  Both
are told apart from the numbers of the bucket in order: `RollupTotals.Describes` says
what the loop over the minutes has added up after some of them.
-/

namespace SummitFlow.HostStore

/-! ## The mean of a rollup -/

/-- Exact arithmetic. -/
def exactFloats : Floats ℚ ℚ where
  toF64 := id
  zero := 0
  runningMean mean n number := (mean * n + number) / (n + 1)

/-- The mean of an item, times the count, is the sum. -/
def Item.Sums (item : Item ℚ ℚ) (ns : List ℚ) : Prop :=
  item.mean.getD 0 * item.validCount = ns.sum ∧ (item.validCount ≠ 0 → item.mean.isSome = true)

theorem Item.Sums.add {item : Item ℚ ℚ} {ns : List ℚ} (h : item.Sums ns) (r : Reading ℚ) :
    (item.add exactFloats r).Sums (ns ++ r.number?.toList) := by
  cases r with
  | other => simpa [Item.add, Reading.number?] using h
  | number n =>
    refine ⟨?_, fun _ => rfl⟩
    have hpos : (item.validCount : ℚ) + 1 ≠ 0 := Nat.cast_add_one_ne_zero item.validCount
    have hsum : (ns ++ [n]).sum = ns.sum + n := by simp
    show (item.mean.getD 0 * item.validCount + n) / (item.validCount + 1) *
      ((item.validCount + 1 : Nat) : ℚ) = (ns ++ [n]).sum
    rw [hsum, ← h.1]
    push_cast
    field_simp

/-- Every item of the accumulator has the mean of its numbers. -/
def Acc.Means (samples : List (Sample ℚ)) (acc : Acc ℚ ℚ) : Prop :=
  ∀ key item, acc.values.lookup key = some item → item.Sums (numbers key samples)

theorem Acc.Means.foldSample {samples : List (Sample ℚ)} {acc acc' : Acc ℚ ℚ}
    (hsummary : acc.Summarises exactFloats samples) (h : acc.Means samples) {s : Sample ℚ}
    (hfold : foldSample exactFloats acc s = .ok acc') : acc'.Means (samples ++ [s]) := by
  unfold HostStore.foldSample at hfold
  split at hfold
  · cases hfold
  · next fields hhost =>
    obtain rfl := Except.ok.inj hfold
    intro key item hitem
    dsimp only at hitem
    rw [lookup_values_foldl exactFloats key fields.nodup] at hitem
    rw [numbers_concat key samples hhost]
    cases hlookup : fields.entries.lookup key with
    | none =>
      rw [hlookup] at hitem
      simpa using h key item hitem
    | some raw =>
      rw [hlookup] at hitem
      dsimp only at hitem
      by_cases hkey : key ∈ ignoredKeys
      · -- an ignored field has no item
        rw [if_pos hkey] at hitem
        have hvalues := hsummary.values key
        rw [if_pos (.inl hkey), hitem] at hvalues
        cases hvalues
      · rw [if_neg hkey] at hitem
        obtain rfl := Option.some.inj hitem
        have hold : ((acc.values.lookup key).getD .empty).Sums (numbers key samples) := by
          cases hold : acc.values.lookup key with
          | some old => exact h key old hold
          | none =>
            have hnone := hsummary.item hkey
            rw [hold] at hnone
            have hempty : numbers key samples = [] := List.length_eq_zero_iff.mp hnone.validCount.symm
            rw [hempty]
            exact ⟨by simp [Item.empty], by simp [Item.empty]⟩
        have hadd := hold.add raw
        cases raw with
        | number n => exact hadd
        | other => exact hadd

/-- The row made of some samples has their means. -/
theorem means_rollupOf {samples : List (Sample ℚ)} {row : Rollup ℚ ℚ}
    (h : rollupOf exactFloats samples = .ok (some row)) :
    ∀ key item, row.values.lookup key = some item → item.Sums (numbers key samples) := by
  obtain ⟨acc, hfold, hrow⟩ := bind_ok h
  have hinit : Acc.Summarises exactFloats ([] : List (Sample ℚ)) ⟨[], [], 0, 0, none⟩ ∧
      Acc.Means [] ⟨[], [], 0, 0, none⟩ :=
    ⟨⟨rfl, by simp [readings], by simp [missing, readings], rfl, rfl⟩, fun _ _ h => nomatch h⟩
  have hacc : acc.Summarises exactFloats samples ∧ acc.Means samples :=
    foldlM_ok (P := fun done b => Acc.Summarises exactFloats done b ∧ Acc.Means done b)
      (fun done b s b' hb hs => ⟨hb.1.foldSample hs, hb.2.foldSample hb.1 hs⟩) hinit hfold
  split at hrow
  · cases hrow
  · cases hrow
    exact hacc.2

end SummitFlow.HostStore

namespace SummitFlow.Monitor

open HostStore (Rollup Reading Summarises exactFloats numbers readings ignoredKeys)

/-! ## Exact numbers -/

/-- Exact arithmetic. -/
def exactNumbers : Numbers ℚ where
  zero := 0
  int? x := if x.den = 1 then some x.num else none
  isFinite _ := true
  eq x y := x = y
  lt x y := x < y
  mean xs := xs.sum / xs.length
  ratio a b := a / b
  rate new old scale interval := (new - old) * scale / interval
  addWeighted total mean count := total + mean * count
  divide total count := total / count

theorem lesser_exact (a b : ℚ) : lesser exactNumbers a b = min a b := by
  show (if decide (b < a) = true then b else a) = min a b
  rw [min_def]
  split
  · rename_i h
    rw [if_neg (not_le.mpr (of_decide_eq_true h))]
  · rename_i h
    rw [if_pos (not_lt.mp fun hlt => h (decide_eq_true hlt))]

theorem greater_exact (a b : ℚ) : greater exactNumbers a b = max a b := by
  show (if decide (a < b) = true then b else a) = max a b
  rw [max_def]
  split
  · rename_i h
    rw [if_pos (of_decide_eq_true h).le]
  · rename_i h
    have hle : b ≤ a := not_lt.mp fun hlt => h (decide_eq_true hlt)
    by_cases hab : a ≤ b
    · rw [if_pos hab, le_antisymm hab hle]
    · rw [if_neg hab]

theorem minimum_exact (x : ℚ) (xs : List ℚ) : minimum exactNumbers x xs = xs.foldl min x := by
  have hstep : (fun least value : ℚ => if exactNumbers.lt value least = true then value else least) =
      min := by
    funext a b
    exact lesser_exact a b
  unfold minimum
  rw [hstep]

theorem maximum_exact (x : ℚ) (xs : List ℚ) : maximum exactNumbers x xs = xs.foldl max x := by
  have hstep : (fun greatest value : ℚ =>
      if exactNumbers.lt greatest value = true then value else greatest) = max := by
    funext a b
    exact greater_exact a b
  unfold maximum
  rw [hstep]

theorem foldl_min (a x : ℚ) (xs : List ℚ) : (x :: xs).foldl min a = min a (xs.foldl min x) := by
  rw [List.foldl_cons]
  exact List.foldl_assoc

theorem foldl_max (a x : ℚ) (xs : List ℚ) : (x :: xs).foldl max a = max a (xs.foldl max x) := by
  rw [List.foldl_cons]
  exact List.foldl_assoc

/-! ## Adding up minutes -/

/-- The loop over minutes has seen these numbers, in this many samples. -/
structure RollupTotals.Describes (t : RollupTotals ℚ) (ns : List ℚ) (count : Nat) : Prop where
  valid : t.valid = ns.length
  observed : t.observed = count
  minimum : t.minimum = ns.min?
  maximum : t.maximum = ns.max?
  last : t.last = ns.getLast?
  weightedSum : t.weightedSum = ns.sum

theorem RollupTotals.describes_empty : (RollupTotals.empty exactNumbers).Describes [] 0 :=
  ⟨rfl, rfl, rfl, rfl, rfl, rfl⟩

theorem min?_append (xs : List ℚ) (y : ℚ) (ys : List ℚ) :
    (xs ++ y :: ys).min? = some (xs.min?.elim (ys.foldl min y) (min · (ys.foldl min y))) := by
  cases xs with
  | nil => rw [List.nil_append, List.min?_cons']; rfl
  | cons x xs =>
    rw [List.cons_append, List.min?_cons', List.min?_cons', List.foldl_append, foldl_min]
    rfl

theorem max?_append (xs : List ℚ) (y : ℚ) (ys : List ℚ) :
    (xs ++ y :: ys).max? = some (xs.max?.elim (ys.foldl max y) (max · (ys.foldl max y))) := by
  cases xs with
  | nil => rw [List.nil_append, List.max?_cons']; rfl
  | cons x xs =>
    rw [List.cons_append, List.max?_cons', List.max?_cons', List.foldl_append, foldl_max]
    rfl

/-- One more minute. -/
theorem RollupTotals.Describes.add {t : RollupTotals ℚ} {ns : List ℚ} {count : Nat}
    (h : t.Describes ns count) {metric : String} (hmetric : metric ∉ ignoredKeys)
    {samples : List (HostStore.Sample ℚ)} {row : Rollup ℚ ℚ}
    (hrow : HostStore.rollupOf exactFloats samples = .ok (some row)) :
    ∃ t', t.add exactNumbers metric row = .ok t' ∧
      t'.Describes (ns ++ numbers metric samples) (count + samples.length) := by
  have hsummary : Summarises exactFloats samples row := HostStore.summarises_rollupOf hrow
  have hvalues := hsummary.values metric
  unfold RollupTotals.add
  dsimp only
  -- a minute without a number of the field only adds its samples
  have hidle : numbers metric samples = [] → ({ t with
      observed := t.observed + row.sampleCount
      unavailable := t.unavailable + (row.unavailable.lookup metric).getD 0
      gaps := t.gaps + row.gapCount } : RollupTotals ℚ).Describes
        (ns ++ numbers metric samples) (count + samples.length) := by
    intro hnil
    rw [hnil, List.append_nil, ← hsummary.sampleCount, ← h.observed]
    exact ⟨h.valid, rfl, h.minimum, h.maximum, h.last, h.weightedSum⟩
  cases hlookup : row.values.lookup metric with
  | none =>
    refine ⟨_, rfl, hidle ?_⟩
    rw [hlookup, Option.map_none] at hvalues
    split at hvalues
    · rename_i hskip
      have hnil : readings metric samples = [] := hskip.resolve_left hmetric
      unfold numbers
      rw [hnil]
      rfl
    · cases hvalues
  | some item =>
    rw [hlookup, Option.map_some] at hvalues
    split at hvalues
    · cases hvalues
    · have hfields := Option.some.inj hvalues
      rw [Prod.mk.injEq, Prod.mk.injEq, Prod.mk.injEq] at hfields
      obtain ⟨hmin, hmax, hlast, hcount⟩ := hfields
      obtain ⟨hmean, hsome⟩ := HostStore.means_rollupOf hrow metric item hlookup
      have hid : (numbers metric samples).map exactFloats.toF64 = numbers metric samples :=
        List.map_id _
      rw [hid] at hmin hmax
      cases hnumbers : numbers metric samples with
      | nil =>
        rw [hnumbers] at hidle
        rw [hnumbers, List.length_nil] at hcount
        dsimp only
        rw [if_pos hcount]
        exact ⟨_, rfl, hidle rfl⟩
      | cons y ys =>
        rw [hnumbers] at hmin hmax hlast hcount hmean
        have hpos : item.validCount ≠ 0 := by
          rw [hcount]
          exact Nat.succ_ne_zero _
        obtain ⟨mean, hmean'⟩ := Option.isSome_iff_exists.mp (hsome hpos)
        rw [hmean', Option.getD_some] at hmean
        rw [List.min?_cons'] at hmin
        rw [List.max?_cons'] at hmax
        rw [List.getLast?_eq_some_getLast (List.cons_ne_nil y ys)] at hlast
        dsimp only
        rw [if_neg hpos, hmin, hmax, hmean', hlast]
        refine ⟨_, rfl, ?_⟩
        constructor
        · show t.valid + item.validCount = (ns ++ y :: ys).length
          rw [List.length_append, h.valid, hcount]
        · show t.observed + row.sampleCount = count + samples.length
          rw [h.observed, hsummary.sampleCount]
        · rw [min?_append, h.minimum]
          simp only [lesser_exact]
        · rw [max?_append, h.maximum]
          simp only [greater_exact]
        · rw [List.getLast?_append, List.getLast?_eq_some_getLast (List.cons_ne_nil y ys)]
          rfl
        · show t.weightedSum + mean * item.validCount = (ns ++ y :: ys).sum
          rw [List.sum_append, h.weightedSum, hmean]

/-- The value of the bucket is that of the numbers. -/
theorem RollupTotals.Describes.stats {t : RollupTotals ℚ} {ns : List ℚ} {count : Nat}
    (h : t.Describes ns count) : t.stats exactNumbers = Monitor.stats exactNumbers ns := by
  unfold RollupTotals.stats
  rw [h.minimum, h.maximum, h.last, h.valid, h.weightedSum]
  cases ns with
  | nil => rfl
  | cons x xs =>
    rw [List.min?_cons', List.max?_cons', List.getLast?_eq_some_getLast (List.cons_ne_nil x xs)]
    dsimp only
    rw [if_neg (by simp)]
    show _ = some (Stats.mk (Monitor.minimum exactNumbers x xs) (Monitor.maximum exactNumbers x xs) _ _)
    rw [minimum_exact, maximum_exact, List.getLastD_eq_getLast?,
      List.getLast?_eq_some_getLast (List.cons_ne_nil x xs)]
    rfl

/-! ## Rows as samples -/

/-- What the collector reads of a value. -/
def Json.reading {N : Type} : Json N → Reading N
  | .num n => .number n
  | _ => .other

/-- A row of `samples` as the collector reads it when it rebuilds a rollup.  An object has
    every key once. -/
def Row.sample {N : Type} (row : Row N) : HostStore.Sample N where
  atNs := row.sampledAtNs
  monoNs := row.monotonicNs
  bootId := row.bootId
  mode := row.mode
  host := match row.host with
    | .obj fields =>
      if h : (fields.map Prod.fst).Nodup then
        some ⟨fields.map fun e => (e.1, e.2.reading), by simpa [List.map_map, Function.comp_def] using h⟩
      else none
    | _ => none
  blobBytes := 0

/-- The number a row has for a metric of the host. -/
def Row.number {N : Type} (metric : String) (row : Row N) : Option N :=
  (row.sample.host.bind fun fields => fields.entries.lookup metric).bind Reading.number?

theorem numbers_eq (metric : String) (rows : List (Row ℚ)) :
    numbers metric (rows.map Row.sample) = rows.filterMap (Row.number metric) := by
  unfold numbers readings
  rw [List.filterMap_map, List.filterMap_filterMap]
  rfl

theorem numbers_append (metric : String) (samples samples' : List (HostStore.Sample ℚ)) :
    numbers metric (samples ++ samples') = numbers metric samples ++ numbers metric samples' := by
  unfold numbers readings
  rw [List.filterMap_append, List.filterMap_append]

theorem Json.reading_number? (value : Json ℚ) : value.reading.number? = value.num? := by
  cases value <;> rfl

/-- The reader finds the number of the row. -/
theorem rowValue_eq {q : SeriesFilters} (hentity : q.entity = "host") {row : Row ℚ}
    (hhost : row.sample.host.isSome = true) :
    rowValue exactNumbers q none row = .ok (row.number q.metric) := by
  unfold rowValue entityMetrics
  rw [if_pos hentity]
  cases hjson : row.host with
  | obj fields =>
    have hnodup : (fields.map Prod.fst).Nodup := by
      by_contra hdup
      simp [Row.sample, hjson, hdup] at hhost
    have hnumber : row.number q.metric = (Json.get fields q.metric).num? := by
      unfold Row.number
      simp only [Row.sample, hjson, dif_pos hnodup, Option.bind_some]
      rw [Dict.lookup_map_value]
      unfold Json.get
      cases hlookup : fields.lookup q.metric with
      | none => rfl
      | some value => exact Json.reading_number? value
    rw [hnumber]
    show Except.ok ((Json.get fields q.metric).num?.filter fun _ => true) = _
    cases (Json.get fields q.metric).num? <;> rfl
  | _ => simp [Row.sample, hjson] at hhost

theorem sampledAt_of_rawBucket {q : SeriesFilters} {unit : String} {now index : Int}
    {subset : List (Row ℚ)} {b : Bucket ℚ}
    (h : rawBucket exactNumbers q unit now none subset index = .ok b) :
    b.sampledAt = q.bucketStart index := by
  obtain ⟨found, -, hitem⟩ := bind_ok h
  obtain rfl := Except.ok.inj hitem
  rfl

/-- The item of a bucket of samples. -/
theorem rawBucket_eq {q : SeriesFilters} (hentity : q.entity = "host") {unit : String} {now : Int}
    {subset : List (Row ℚ)} {index : Int} {b : Bucket ℚ}
    (hhosts : ∀ row ∈ subset, row.sample.host.isSome = true)
    (h : rawBucket exactNumbers q unit now none subset index = .ok b) :
    b.value = stats exactNumbers (numbers q.metric (subset.map Row.sample)) ∧
      b.coverage.valid = (numbers q.metric (subset.map Row.sample)).length ∧
      b.coverage.observed = subset.length := by
  obtain ⟨found, hfound, hitem⟩ := bind_ok h
  have hvalues : found.filterMap Prod.snd = numbers q.metric (subset.map Row.sample) := by
    rw [numbers_eq]
    have heach := forall₂_of_mapM_ok hfound
    clear h hfound hitem
    induction heach with
    | nil => rfl
    | @cons row entry rows found hrow _ ih =>
      rw [rowValue_eq hentity (hhosts row List.mem_cons_self)] at hrow
      obtain rfl := Except.ok.inj hrow
      rw [List.filterMap_cons, List.filterMap_cons]
      rw [ih fun row hmem => hhosts row (List.mem_cons_of_mem _ hmem)]
  obtain rfl := Except.ok.inj hitem
  rw [hvalues]
  exact ⟨rfl, rfl, rfl⟩

/-! ## Minute by minute -/

open HostStore (minuteNs wrap64 selectBucket rollupOf)

/-- Every minute has the rollup that `rebuild_rollup` makes of its samples. -/
def RollupsComplete (content : Content ℚ) : Prop :=
  ∀ bucket, if bucket % minuteNs = 0 ∧ -2 ^ 63 ≤ bucket ∧ bucket < 2 ^ 63 then
      rollupOf exactFloats (selectBucket bucket (content.samples.map Row.sample)) =
        .ok (content.rollups.lookup bucket)
    else content.rollups.lookup bucket = none

theorem selectBucket_eq_slice (content : Content ℚ) {bucket : Int} (hlow : -2 ^ 63 ≤ bucket)
    (hhigh : bucket + minuteNs < 2 ^ 63) :
    selectBucket bucket (content.samples.map Row.sample) =
      (slice Row.sampledAtNs bucket (bucket + minuteNs) content.byTime).map Row.sample := by
  have hwrap : wrap64 (bucket + minuteNs) = bucket + minuteNs := by
    have hminute : 0 < minuteNs := by decide
    unfold wrap64
    omega
  rw [← baselineRows_eq]
  unfold selectBucket baselineRows
  rw [hwrap, List.filter_map]
  symm
  exact List.map_insertionSort _ _ _ _ fun _ _ _ _ => Iff.rfl

/-- The rollups of a minute. -/
theorem slice_byMinute {content : Content ℚ} (h : RollupsComplete content) {bucket : Int}
    (hbucket : bucket % minuteNs = 0) :
    slice Prod.fst bucket (bucket + minuteNs) content.byMinute =
      (content.rollups.lookup bucket).toList.map (bucket, ·) := by
  have hselect : content.rollups.filter (fun e => bucket ≤ e.1 && e.1 < bucket + minuteNs) =
      content.rollups.filter fun e => e.1 == bucket := by
    apply List.filter_congr
    intro e he
    -- the row is that of a minute
    have haligned : e.1 % minuteNs = 0 := by
      by_contra hne
      have hrow := h e.1
      rw [if_neg fun hmin => hne hmin.1] at hrow
      have hsome := Dict.isSome_lookup_of_mem he
      rw [hrow] at hsome
      cases hsome
    rw [Bool.eq_iff_iff, Bool.and_eq_true, decide_eq_true_eq, decide_eq_true_eq, beq_iff_eq]
    unfold minuteNs at *
    omega
  unfold slice Content.byMinute
  rw [filter_sortBy, hselect, Dict.filter_key content.buckets]
  cases content.rollups.lookup bucket <;> rfl

/-- Rebuilding a rollup reads a host object in every sample. -/
theorem host_of_rollupOf {samples : List (HostStore.Sample ℚ)} {row : Option (Rollup ℚ ℚ)}
    (h : rollupOf exactFloats samples = .ok row) : ∀ s ∈ samples, s.host.isSome = true := by
  obtain ⟨acc, hfold, -⟩ := bind_ok h
  have hstep : ∀ (done : List (HostStore.Sample ℚ)) acc s acc', (∀ s ∈ done, s.host.isSome = true) →
      HostStore.foldSample exactFloats acc s = .ok acc' →
      ∀ s' ∈ done ++ [s], s'.host.isSome = true := by
    intro done acc s acc' hdone hs s' hs'
    rcases List.mem_append.mp hs' with hmem | hmem
    · exact hdone s' hmem
    · obtain rfl := List.mem_singleton.mp hmem
      unfold HostStore.foldSample at hs
      split at hs
      · cases hs
      · rename_i hhost
        rw [hhost]
        rfl
  have hnil : ∀ s ∈ ([] : List (HostStore.Sample ℚ)), s.host.isSome = true := nofun
  exact foldlM_ok (P := fun done _ => ∀ s ∈ done, s.host.isSome = true) hstep hnil hfold

/-- Adding up the minutes of a range describes its samples. -/
theorem describes_minutes {content : Content ℚ} (h : RollupsComplete content) {metric : String}
    (hmetric : metric ∉ ignoredKeys) {start : Int} (hstart : start % minuteNs = 0)
    (hlow : -2 ^ 63 ≤ start) (n : Nat) (hhigh : start + n * minuteNs < 2 ^ 63) :
    (∀ row ∈ slice Row.sampledAtNs start (start + n * minuteNs) content.byTime,
      row.sample.host.isSome = true) ∧
    ∃ t, ((slice Prod.fst start (start + n * minuteNs) content.byMinute).map Prod.snd).foldlM
        (RollupTotals.add exactNumbers metric) (.empty exactNumbers) = .ok t ∧
      t.Describes
        (numbers metric
          ((slice Row.sampledAtNs start (start + n * minuteNs) content.byTime).map Row.sample))
        (slice Row.sampledAtNs start (start + n * minuteNs) content.byTime).length := by
  induction n with
  | zero =>
    have hnil : ∀ {α : Type} (key : α → Int) (l : List α),
        slice key start (start + (0 : Nat) * minuteNs) l = [] := by
      intro α key l
      unfold slice
      rw [List.filter_eq_nil_iff]
      intro a _
      simp
    rw [hnil, hnil]
    exact ⟨nofun, _, rfl, RollupTotals.describes_empty⟩
  | succ n ih =>
    have hminute : 0 < minuteNs := by decide
    have hcast : ((n + 1 : Nat) : Int) * minuteNs = n * minuteNs + minuteNs := by
      push_cast
      ring
    rw [hcast] at hhigh ⊢
    have hn : 0 ≤ n * minuteNs := Int.mul_nonneg (Int.natCast_nonneg n) hminute.le
    obtain ⟨hhosts, t, hfold, ht⟩ := ih (by omega)
    -- the last minute
    have hbucket : (start + n * minuteNs) % minuteNs = 0 := by
      rw [Int.add_mul_emod_self_right]
      exact hstart
    have hrow := h (start + n * minuteNs)
    rw [if_pos ⟨hbucket, by omega, by omega⟩, selectBucket_eq_slice content (by omega) (by omega)] at hrow
    have hrows : slice Row.sampledAtNs start (start + (n * minuteNs + minuteNs)) content.byTime =
        slice Row.sampledAtNs start (start + n * minuteNs) content.byTime ++
          slice Row.sampledAtNs (start + n * minuteNs) (start + n * minuteNs + minuteNs)
            content.byTime := by
      rw [← Int.add_assoc]
      exact slice_append (pairwise_sortBy _ _) (by omega) (by omega)
    have hminutes : slice Prod.fst start (start + (n * minuteNs + minuteNs)) content.byMinute =
        slice Prod.fst start (start + n * minuteNs) content.byMinute ++
          (content.rollups.lookup (start + n * minuteNs)).toList.map (start + n * minuteNs, ·) := by
      rw [← slice_byMinute h hbucket, ← Int.add_assoc]
      exact slice_append (pairwise_sortBy _ _) (by omega) (by omega)
    rw [hrows, hminutes, List.map_append, List.map_append, List.foldlM_append, hfold]
    generalize slice Row.sampledAtNs (start + n * minuteNs) (start + n * minuteNs + minuteNs)
      content.byTime = rows at hrow ⊢
    constructor
    · intro row hmem
      rcases List.mem_append.mp hmem with hmem | hmem
      · exact hhosts row hmem
      · exact host_of_rollupOf hrow _ (List.mem_map_of_mem hmem)
    · rw [numbers_append, List.length_append]
      cases hlookup : content.rollups.lookup (start + n * minuteNs) with
      | none =>
        rw [hlookup] at hrow
        have hempty : rows.map Row.sample = [] := HostStore.summarises_rollupOf hrow
        rw [List.map_eq_nil_iff] at hempty
        subst hempty
        refine ⟨t, rfl, ?_⟩
        simpa [numbers, readings] using ht
      | some row =>
        rw [hlookup] at hrow
        obtain ⟨t', hadd, ht'⟩ := ht.add hmetric hrow
        rw [List.length_map] at ht'
        refine ⟨t', ?_, ht'⟩
        show (RollupTotals.add exactNumbers metric t row >>= pure) = _
        rw [hadd]
        rfl

/-! ## Pages -/

/-- A query whose buckets are made of whole minutes: a host metric that is stored, a window
    and a step of whole minutes. -/
structure MinuteQuery (q : SeriesFilters) : Prop where
  entity : q.entity = "host"
  metric : (hostMetrics.lookup q.metric).isSome = true
  notRate : hostRateMetrics.lookup q.metric = none
  notGpu : gpuHostMetrics.lookup q.metric = none
  window : q.since < q.until
  since_aligned : q.since % (60 * nsec) = 0
  until_aligned : q.until % (60 * nsec) = 0
  step_pos : 0 < q.step
  step_aligned : q.step % 60 = 0
  /-- Times are `i64` nanoseconds. -/
  since_range : -2 ^ 63 ≤ q.since
  until_range : q.until < 2 ^ 63

namespace MinuteQuery

variable {q : SeriesFilters} (h : MinuteQuery q)

include h

theorem stepNs_pos : 0 < q.stepNs := Int.mul_pos h.step_pos (by decide)

theorem metric_notMem : q.metric ∉ ignoredKeys := by
  obtain ⟨unit, hunit⟩ := Option.isSome_iff_exists.mp h.metric
  have hmem := Dict.mem_of_lookup hunit
  have hall : ∀ e ∈ hostMetrics, e.1 ∉ ignoredKeys := by decide
  exact hall _ hmem

theorem bucketStart_aligned (index : Int) : q.bucketStart index % minuteNs = 0 :=
  SeriesFilters.bucketStart_aligned h.since_aligned h.step_aligned index

/-- A bucket is a number of minutes. -/
theorem bucketEnd_eq {index : Int} (hindex : index < q.bucketCount) :
    ∃ n : Nat, q.bucketEnd index = q.bucketStart index + n * minuteNs := by
  have hstart := h.bucketStart_aligned index
  have hnext := h.bucketStart_aligned (index + 1)
  have huntil : q.until % minuteNs = 0 := h.until_aligned
  have hbefore := (SeriesFilters.lt_bucketCount_iff h.stepNs_pos).mp hindex
  have hpos := h.stepNs_pos
  have hsucc := q.bucketStart_succ index
  refine ⟨((q.bucketEnd index - q.bucketStart index) / minuteNs).toNat, ?_⟩
  unfold SeriesFilters.bucketEnd minuteNs at *
  omega

end MinuteQuery

/-- A page of samples: its candidates, with the rows of each. -/
theorem rawSeries_ok {size : SeriesPage ℚ → Nat} {content : Content ℚ} {q : SeriesFilters}
    (hq : MinuteQuery q) {unit : String} {now : Int} {after : Option Int} {limit budget : Nat}
    {page : SeriesPage ℚ}
    (h : rawSeries exactNumbers size content q unit now after limit budget = .ok page) :
    ∃ candidates coverage,
      (q.indexes (firstIndex after) limit).mapM (fun index => do
        return (← rawBucket exactNumbers q unit now none
          (slice Row.sampledAtNs (q.bucketStart index) (q.bucketEnd index) content.byTime) index,
          index)) = .ok candidates ∧
      pack size (.base q now (some coverage)) candidates q limit budget false = .ok page := by
  unfold rawSeries at h
  dsimp only at h
  have hread : readStart q (firstIndex after) = q.bucketStart (firstIndex after) := by
    unfold readStart isRate
    rw [if_pos hq.entity, hq.notRate]
    rfl
  obtain ⟨_, hcap, h⟩ := bind_ok h
  rw [take_of_length (refuseIf_ok hcap), hread, baselineRows_eq] at h
  obtain ⟨candidates, hcandidates, hpack⟩ := bind_ok h
  refine ⟨candidates, _, ?_, hpack⟩
  rw [← hcandidates]
  unfold rawBuckets seriesRates rateSource
  rw [if_pos hq.entity, hq.notRate]
  apply mapM_congr
  intro index hindex
  have hstep := hq.stepNs_pos
  have hstop := SeriesFilters.bucketEnd_le_queryEnd hstep hindex
  have hstart := SeriesFilters.bucketStart_mono hstep (SeriesFilters.mem_indexes.mp hindex).1
  have hsubset : (slice Row.sampledAtNs (q.bucketStart (firstIndex after))
      (q.queryEnd (firstIndex after) limit) content.byTime).filter (fun row =>
        q.bucketStart (firstIndex after) ≤ row.sampledAtNs && q.bucketOf row.sampledAtNs == index) =
      slice Row.sampledAtNs (q.bucketStart index) (q.bucketEnd index) content.byTime := by
    apply slice_slice
    intro row
    have hbucket : q.bucketOf row.sampledAtNs = index ↔ _ := SeriesFilters.bucketOf_eq_iff hstep
    rw [Bool.and_eq_true, decide_eq_true_eq, beq_iff_eq, hbucket]
    unfold SeriesFilters.bucketEnd SeriesFilters.queryEnd at *
    omega
  rw [hsubset]

theorem firstIndex_nonneg {size : SeriesPage ℚ → Nat} {content : Content ℚ} {q : SeriesFilters}
    (hq : MinuteQuery q) {unit : String} {now : Int} {after : Option Int}
    (h : Followed (rollupSeries exactNumbers size content q unit now) after) :
    0 ≤ firstIndex after := by
  induction h with
  | start => exact Int.le_refl 0
  | next h hpage hcursor ih =>
    obtain ⟨candidates, coverage, hcandidates, hpack⟩ := rollupSeries_ok hq.stepNs_pos hq.bucketStart_aligned ih hpage
    have hmem := position_mem_indexes hcandidates hpack hcursor
    have hfirst := (SeriesFilters.mem_indexes.mp hmem).1
    show 0 ≤ _ + 1
    omega

/-- The item of a bucket of rollups, from the samples of the bucket. -/
theorem rollupBucket_eq {q : SeriesFilters} {unit : String} {now index : Int}
    {subset : List (Rollup ℚ ℚ)} {b : Bucket ℚ} {t : RollupTotals ℚ} {ns : List ℚ} {count : Nat}
    (hfold : subset.foldlM (RollupTotals.add exactNumbers q.metric) (.empty exactNumbers) = .ok t)
    (ht : t.Describes ns count)
    (h : rollupBucket exactNumbers q unit now subset index = .ok b) :
    b.sampledAt = q.bucketStart index ∧ b.value = stats exactNumbers ns ∧
      b.coverage.valid = ns.length ∧ b.coverage.observed = count := by
  unfold rollupBucket at h
  rw [hfold] at h
  obtain rfl := Except.ok.inj h
  exact ⟨rfl, ht.stats, ht.valid, ht.observed⟩

/-- With exact numbers and complete rollups, a bucket that is read from the samples and
    from the rollups has the same value and counts both times. -/
theorem raw_and_rollup_series_agree (size : SeriesPage ℚ → Nat) (content : Content ℚ)
    (hcomplete : RollupsComplete content) (q : SeriesFilters) (hq : MinuteQuery q) (unit : String)
    (now : Int) (after after' : Option Int) (limit limit' budget budget' : Nat)
    (page page' : SeriesPage ℚ)
    (hafter' : Followed (rollupSeries exactNumbers size content q unit now) after')
    (hraw : rawSeries exactNumbers size content q unit now after limit budget = .ok page)
    (hrollup : rollupSeries exactNumbers size content q unit now after' limit' budget' = .ok page')
    (b b' : Bucket ℚ) (hb : b ∈ page.items) (hb' : b' ∈ page'.items)
    (hsame : b.sampledAt = b'.sampledAt) :
    b.value = b'.value ∧ b.coverage.valid = b'.coverage.valid ∧
      b.coverage.observed = b'.coverage.observed := by
  have hfirst := firstIndex_nonneg hq hafter'
  obtain ⟨candidates, coverage, hcandidates, hpack⟩ := rawSeries_ok hq hraw
  obtain ⟨candidates', coverage', hcandidates', hpack'⟩ := rollupSeries_ok hq.stepNs_pos hq.bucketStart_aligned hfirst hrollup
  obtain ⟨index, hindex, hbucket⟩ := bucket_of_mem_items hcandidates hpack hb
  obtain ⟨index', hindex', hbucket'⟩ := bucket_of_mem_items hcandidates' hpack' hb'
  obtain ⟨hlow, hcount, -⟩ := SeriesFilters.mem_indexes.mp hindex'
  obtain ⟨n, hn⟩ := hq.bucketEnd_eq hcount
  have hstart : q.since ≤ q.bucketStart index' := by
    have hmono := SeriesFilters.bucketStart_mono hq.stepNs_pos (show 0 ≤ index' by omega)
    unfold SeriesFilters.bucketStart at hmono ⊢
    omega
  have hstop : q.bucketStart index' + n * minuteNs < 2 ^ 63 := by
    have huntil := hq.until_range
    rw [← hn]
    unfold SeriesFilters.bucketEnd
    omega
  obtain ⟨hhosts, t, hfold, ht⟩ := describes_minutes hcomplete hq.metric_notMem
    (hq.bucketStart_aligned index') (hq.since_range.trans hstart) n hstop
  rw [← hn] at hhosts hfold ht
  obtain ⟨hat', hvalue', hvalid', hobserved'⟩ := rollupBucket_eq hfold ht hbucket'
  -- the two items are of one bucket
  have hindexes : index = index' := by
    apply SeriesFilters.bucketStart_injective hq.stepNs_pos
    rw [← sampledAt_of_rawBucket hbucket, hsame, hat']
  subst hindexes
  obtain ⟨hvalue, hvalid, hobserved⟩ := rawBucket_eq hq.entity hhosts hbucket
  exact ⟨hvalue.trans hvalue'.symm, hvalid.trans hvalid'.symm, hobserved.trans hobserved'.symm⟩

/-- A baseline row with this much CPU time. -/
def cpuRow (id atNs : Int) (cpu : Json ℚ) : Row ℚ where
  id := id
  sampledAtNs := atNs
  monotonicNs := atNs
  bootId := "boot"
  mode := "baseline"
  host := .obj [("cpu_busy_pct", cpu)]
  services := .obj []
  errors := []

/-- Two samples in the first minute, one of them without a value, and one in the next. -/
def twoMinutes : Content ℚ where
  samples := [cpuRow 1 5000000000 (.num 10), cpuRow 2 10000000000 .null,
    cpuRow 3 65000000000 (.num 40)]
  rollups := [
    (0, ⟨2, [("cpu_busy_pct", ⟨some 10, some 10, some 10, some 10, 1⟩)], 0, [("cpu_busy_pct", 1)]⟩),
    (60000000000, ⟨1, [("cpu_busy_pct", ⟨some 40, some 40, some 40, some 40, 1⟩)], 0, []⟩)]
  ids := by decide
  buckets := by decide

theorem twoMinutes_complete : RollupsComplete twoMinutes := by
  intro bucket
  by_cases hfirst : bucket = 0
  · subst hfirst
    decide +kernel
  by_cases hsecond : bucket = 60000000000
  · subst hsecond
    decide +kernel
  have hlookup : twoMinutes.rollups.lookup bucket = none := by
    show List.lookup bucket [(0, _), (60000000000, _)] = none
    rw [Dict.lookup_cons_if, if_neg hfirst, Dict.lookup_cons_if, if_neg hsecond]
    rfl
  rw [hlookup]
  split
  · rename_i hminute
    -- no sample is in another minute
    have hselect : selectBucket bucket (twoMinutes.samples.map Row.sample) = [] := by
      have hwrap : wrap64 (bucket + minuteNs) ≤ bucket + minuteNs := by
        unfold wrap64 minuteNs
        omega
      have hout : ∀ s ∈ twoMinutes.samples.map Row.sample,
          ¬ (bucket ≤ s.atNs ∧ s.atNs < wrap64 (bucket + minuteNs)) := by
        intro s hs
        have hat : s.atNs = 5000000000 ∨ s.atNs = 10000000000 ∨ s.atNs = 65000000000 := by
          obtain ⟨row, hrow, rfl⟩ := List.mem_map.mp hs
          have hrows : ∀ row ∈ twoMinutes.samples, row.sampledAtNs = 5000000000 ∨
              row.sampledAtNs = 10000000000 ∨ row.sampledAtNs = 65000000000 := by
            simp [twoMinutes, cpuRow]
          exact hrows row hrow
        unfold minuteNs at *
        omega
      unfold selectBucket
      rw [List.filter_eq_nil_iff.mpr]
      · rfl
      · intro s hs
        have hno := hout s hs
        simp only [Bool.and_eq_true, decide_eq_true_eq]
        tauto
    rw [hselect]
    rfl
  · rfl

/-- Two minutes as one bucket. -/
def cpuQuery : SeriesFilters := ⟨"cpu_busy_pct", "host", none, 0, 120000000000, 120⟩

theorem raw_and_rollup_series_agree_two_minutes : ∃ page page' : SeriesPage ℚ,
    rawSeries exactNumbers (fun _ => 0) twoMinutes cpuQuery "%" 0 none 10 4096 = .ok page ∧
      rollupSeries exactNumbers (fun _ => 0) twoMinutes cpuQuery "%" 0 none 10 4096 = .ok page' ∧
      page.items.map (·.value) = [some ⟨10, 40, 25, 40⟩] ∧
      ∀ b ∈ page.items, ∀ b' ∈ page'.items, b.sampledAt = b'.sampledAt →
        b.value = b'.value ∧ b.coverage.valid = b'.coverage.valid ∧
          b.coverage.observed = b'.coverage.observed := by
  have hq : MinuteQuery cpuQuery := by
    constructor <;> decide
  obtain ⟨page, hpage⟩ : ∃ page,
      rawSeries exactNumbers (fun _ => 0) twoMinutes cpuQuery "%" 0 none 10 4096 = .ok page :=
    ⟨_, rfl⟩
  obtain ⟨page', hpage'⟩ : ∃ page,
      rollupSeries exactNumbers (fun _ => 0) twoMinutes cpuQuery "%" 0 none 10 4096 = .ok page :=
    ⟨_, rfl⟩
  refine ⟨page, page', hpage, hpage', ?_, ?_⟩
  · have hvalues : (rawSeries exactNumbers (fun _ => 0) twoMinutes cpuQuery "%" 0 none 10
        4096).toOption.map (fun page => page.items.map (·.value)) =
        some [some ⟨10, 40, 25, 40⟩] := by decide +kernel
    rw [hpage] at hvalues
    exact Option.some.inj hvalues
  · intro b hb b' hb' hsame
    exact raw_and_rollup_series_agree (fun _ => 0) twoMinutes twoMinutes_complete cpuQuery hq "%" 0
      none none 10 10 4096 4096 page page' .start hpage hpage' b b' hb hb' hsame

end SummitFlow.Monitor
