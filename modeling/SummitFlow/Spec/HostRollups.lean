import SummitFlow.HostMonitor.Store

/-!
# What a rollup row says

`rebuild_rollup` folds the samples of a minute one by one, field by field.
`Summarises` says what the row is, field by field and without the fold: the number of
samples, the least, greatest and last number of each field and how many there were,
how often the field had something else, and how often a sample did not follow on the
one before it.  `summarises_rollupOf` shows that the fold computes it.
-/

namespace SummitFlow.HostStore

variable {N F : Type} [LinearOrder F]

/-- The readings of a field, in order. -/
def readings (key : String) (samples : List (Sample N)) : List (Reading N) :=
  samples.filterMap fun s => s.host.bind fun fields => fields.entries.lookup key

/-- The number a reading is. -/
def Reading.number? : Reading N → Option N
  | .number n => some n
  | .other => none

/-- The numbers of a field, in order. -/
def numbers (key : String) (samples : List (Sample N)) : List N :=
  (readings key samples).filterMap Reading.number?

/-- How often a field was there without a number. -/
def missing (key : String) (samples : List (Sample N)) : Nat :=
  (readings key samples).countP fun r => r.number?.isNone

/-- How many samples do not follow on the one before, the first of them on `previous`. -/
def gaps (previous : Option (String × Int)) : List (Sample N) → Nat
  | [] => 0
  | s :: samples =>
    (if previous.any (isGap s) then 1 else 0) + gaps (some (s.bootId, s.monoNs)) samples

/-- The row summarises these samples. -/
structure Summarises (fl : Floats N F) (samples : List (Sample N)) (row : Rollup N F) : Prop where
  sampleCount : row.sampleCount = samples.length
  /-- Every field seen, unless ignored, has its extremes, its last number and their count. -/
  values : ∀ key, (row.values.lookup key).map (fun i => (i.min, i.max, i.last, i.validCount)) =
    if key ∈ ignoredKeys ∨ readings key samples = [] then none
    else some (((numbers key samples).map fl.toF64).min?,
      ((numbers key samples).map fl.toF64).max?, (numbers key samples).getLast?,
      (numbers key samples).length)
  unavailable : ∀ key, (row.unavailable.lookup key).getD 0 =
    if key ∈ ignoredKeys then 0 else missing key samples
  gapCount : row.gapCount = gaps none samples

/-! ## One field -/

/-- An item describes a list of numbers. -/
structure Item.Describes (fl : Floats N F) (item : Item N F) (ns : List N) : Prop where
  min : item.min = (ns.map fl.toF64).min?
  max : item.max = (ns.map fl.toF64).max?
  last : item.last = ns.getLast?
  validCount : item.validCount = ns.length

theorem Item.describes_empty (fl : Floats N F) : (Item.empty : Item N F).Describes fl [] :=
  ⟨rfl, rfl, rfl, rfl⟩

theorem min?_concat (xs : List F) (x : F) :
    (xs ++ [x]).min? = some (xs.min?.elim x (Min.min · x)) := by
  cases xs with
  | nil => rfl
  | cons y ys =>
    rw [List.cons_append, List.min?_cons', List.min?_cons', List.foldl_append]
    rfl

theorem max?_concat (xs : List F) (x : F) :
    (xs ++ [x]).max? = some (xs.max?.elim x (Max.max · x)) := by
  cases xs with
  | nil => rfl
  | cons y ys =>
    rw [List.cons_append, List.max?_cons', List.max?_cons', List.foldl_append]
    rfl

theorem Item.Describes.add {fl : Floats N F} {item : Item N F} {ns : List N}
    (h : item.Describes fl ns) (r : Reading N) :
    (item.add fl r).Describes fl (ns ++ r.number?.toList) := by
  cases r with
  | other => simpa [Item.add, Reading.number?] using h
  | number n =>
    constructor
    · simp [Item.add, Reading.number?, min?_concat, h.min]
    · simp [Item.add, Reading.number?, max?_concat, h.max]
    · simp [Item.add, Reading.number?]
    · simp [Item.add, Reading.number?, h.validCount]

/-! ## One sample -/

/-- What folding the fields of a sample does to the item of one of them. -/
theorem lookup_values_foldl (fl : Floats N F) (key : String) {entries : List (String × Reading N)}
    (hnodup : (entries.map Prod.fst).Nodup) (acc : Acc N F) :
    (entries.foldl (foldField fl) acc).values.lookup key =
      match entries.lookup key with
      | some raw => if key ∈ ignoredKeys then acc.values.lookup key
        else some (((acc.values.lookup key).getD .empty).add fl raw)
      | none => acc.values.lookup key := by
  induction entries generalizing acc with
  | nil => rfl
  | cons e entries ih =>
    obtain ⟨k, raw⟩ := e
    rw [List.map_cons, List.nodup_cons] at hnodup
    rw [List.foldl_cons, ih hnodup.2, Dict.lookup_cons_if]
    by_cases hk : key = k
    · subst hk
      rw [Dict.lookup_eq_none_of_notMem hnodup.1, if_pos rfl]
      by_cases hignored : key ∈ ignoredKeys
      · simp [foldField, hignored]
      · simp [foldField, hignored]
    · have hsame : (foldField fl acc (k, raw)).values.lookup key = acc.values.lookup key := by
        unfold foldField
        dsimp only
        split
        · rfl
        · exact Dict.lookup_set_of_ne hk _ _
      rw [if_neg hk, hsame]

theorem lookup_unavailable_foldl (fl : Floats N F) (key : String)
    {entries : List (String × Reading N)} (hnodup : (entries.map Prod.fst).Nodup)
    (acc : Acc N F) :
    ((entries.foldl (foldField fl) acc).unavailable.lookup key).getD 0 =
      (acc.unavailable.lookup key).getD 0 +
        if key ∈ ignoredKeys then 0
        else (entries.lookup key).toList.countP fun r => r.number?.isNone := by
  induction entries generalizing acc with
  | nil => simp
  | cons e entries ih =>
    obtain ⟨k, raw⟩ := e
    rw [List.map_cons, List.nodup_cons] at hnodup
    rw [List.foldl_cons, ih hnodup.2, Dict.lookup_cons_if]
    by_cases hk : key = k
    · subst hk
      rw [Dict.lookup_eq_none_of_notMem hnodup.1, if_pos rfl]
      by_cases hignored : key ∈ ignoredKeys
      · simp [foldField, hignored]
      · cases raw with
        | number n => simp [foldField, hignored, Reading.number?]
        | other => simp [foldField, hignored, Reading.number?]
    · have hsame : (foldField fl acc (k, raw)).unavailable.lookup key =
          acc.unavailable.lookup key := by
        unfold foldField
        dsimp only
        split
        · rfl
        · cases raw with
          | number n => rfl
          | other => exact Dict.lookup_set_of_ne hk _ _
      rw [if_neg hk, hsame]

theorem foldl_foldField (fl : Floats N F) (entries : List (String × Reading N)) (acc : Acc N F) :
    (entries.foldl (foldField fl) acc).gapCount = acc.gapCount ∧
      (entries.foldl (foldField fl) acc).count = acc.count ∧
      (entries.foldl (foldField fl) acc).previous = acc.previous := by
  induction entries generalizing acc with
  | nil => exact ⟨rfl, rfl, rfl⟩
  | cons e entries ih =>
    rw [List.foldl_cons]
    obtain ⟨hgap, hcount, hprevious⟩ := ih (foldField fl acc e)
    rw [hgap, hcount, hprevious]
    unfold foldField
    dsimp only
    split
    · exact ⟨rfl, rfl, rfl⟩
    · exact ⟨rfl, rfl, rfl⟩

/-! ## All samples -/

/-- The accumulator after these samples. -/
structure Acc.Summarises (fl : Floats N F) (samples : List (Sample N)) (acc : Acc N F) :
    Prop where
  count : acc.count = samples.length
  values : ∀ key, if key ∈ ignoredKeys ∨ readings key samples = [] then
      acc.values.lookup key = none
    else ∃ item, acc.values.lookup key = some item ∧ item.Describes fl (numbers key samples)
  unavailable : ∀ key, (acc.unavailable.lookup key).getD 0 =
    if key ∈ ignoredKeys then 0 else missing key samples
  gapCount : acc.gapCount = gaps none samples
  previous : acc.previous = samples.getLast?.map fun s => (s.bootId, s.monoNs)

theorem readings_concat (key : String) (samples : List (Sample N)) {s : Sample N}
    {fields : Fields N} (hhost : s.host = some fields) :
    readings key (samples ++ [s]) = readings key samples ++ (fields.entries.lookup key).toList := by
  cases hlookup : fields.entries.lookup key with
  | none => simp [readings, hhost, hlookup]
  | some raw => simp [readings, hhost, hlookup]

theorem gaps_concat (previous : Option (String × Int)) (samples : List (Sample N))
    (s : Sample N) :
    gaps previous (samples ++ [s]) = gaps previous samples +
      if ((samples.getLast?.map fun s => (s.bootId, s.monoNs)).or previous).any (isGap s) then 1
      else 0 := by
  induction samples generalizing previous with
  | nil => exact Nat.add_comm _ _
  | cons s' samples ih =>
    rw [List.cons_append, gaps, ih, gaps, Nat.add_assoc]
    cases samples with
    | nil => rfl
    | cons s'' samples =>
      rw [List.getLast?_cons_cons]
      cases hlast : (s'' :: samples).getLast? with
      | none => simp at hlast
      | some last => rfl

theorem numbers_concat (key : String) (samples : List (Sample N)) {s : Sample N}
    {fields : Fields N} (hhost : s.host = some fields) :
    numbers key (samples ++ [s]) =
      numbers key samples ++ (fields.entries.lookup key).toList.filterMap Reading.number? := by
  rw [numbers, readings_concat key samples hhost, List.filterMap_append]
  rfl

/-- The item of a field there is, or the empty one where the field was not seen. -/
theorem Acc.Summarises.item {fl : Floats N F} {samples : List (Sample N)} {acc : Acc N F}
    (h : acc.Summarises fl samples) {key : String} (hkey : key ∉ ignoredKeys) :
    ((acc.values.lookup key).getD .empty).Describes fl (numbers key samples) := by
  have hvalues := h.values key
  by_cases hnil : readings key samples = []
  · rw [if_pos (.inr hnil)] at hvalues
    rw [hvalues, numbers, hnil]
    exact Item.describes_empty fl
  · rw [if_neg (by simp [hkey, hnil])] at hvalues
    obtain ⟨item, hlookup, hdescribes⟩ := hvalues
    rw [hlookup]
    exact hdescribes

theorem Acc.Summarises.values_concat {fl : Floats N F} {samples : List (Sample N)}
    {acc : Acc N F} (h : acc.Summarises fl samples) (key : String) {s : Sample N}
    {fields : Fields N} (hhost : s.host = some fields) :
    if key ∈ ignoredKeys ∨ readings key (samples ++ [s]) = [] then
      (match fields.entries.lookup key with
        | some raw => if key ∈ ignoredKeys then acc.values.lookup key
          else some (((acc.values.lookup key).getD .empty).add fl raw)
        | none => acc.values.lookup key) = none
    else ∃ item, (match fields.entries.lookup key with
        | some raw => if key ∈ ignoredKeys then acc.values.lookup key
          else some (((acc.values.lookup key).getD .empty).add fl raw)
        | none => acc.values.lookup key) = some item ∧
      item.Describes fl (numbers key (samples ++ [s])) := by
  have hvalues := h.values key
  rw [readings_concat key samples hhost, numbers_concat key samples hhost]
  cases hlookup : fields.entries.lookup key with
  | none => simpa using hvalues
  | some raw =>
    by_cases hkey : key ∈ ignoredKeys
    · rw [if_pos (.inl hkey)] at hvalues ⊢
      simpa [hkey] using hvalues
    · rw [if_neg (by simp [hkey])]
      dsimp only
      rw [if_neg hkey]
      refine ⟨_, rfl, ?_⟩
      have hadd := (h.item hkey).add raw
      cases raw with
      | number n => exact hadd
      | other => exact hadd

theorem Acc.Summarises.foldSample {fl : Floats N F} {samples : List (Sample N)}
    {acc acc' : Acc N F} (h : acc.Summarises fl samples) {s : Sample N}
    (hfold : foldSample fl acc s = .ok acc') : acc'.Summarises fl (samples ++ [s]) := by
  unfold HostStore.foldSample at hfold
  split at hfold
  · cases hfold
  · next fields hhost =>
    obtain rfl := Except.ok.inj hfold
    obtain ⟨hgap, hcount, hprevious⟩ := foldl_foldField fl fields.entries acc
    constructor
    · simp [hcount, h.count]
    · intro key
      dsimp only
      rw [lookup_values_foldl fl key fields.nodup]
      exact h.values_concat key hhost
    · intro key
      dsimp only
      rw [lookup_unavailable_foldl fl key fields.nodup, h.unavailable key, missing, missing,
        readings_concat key samples hhost, List.countP_append]
      split <;> simp
    · dsimp only
      rw [gaps_concat, hgap, hprevious, h.previous, h.gapCount, Option.or_none]
      split <;> rfl
    · simp

/-- The row made of some samples summarises them; it is missing when there are none. -/
theorem summarises_rollupOf {fl : Floats N F} {samples : List (Sample N)}
    {row : Option (Rollup N F)} (h : rollupOf fl samples = .ok row) :
    row.elim (samples = []) (Summarises fl samples) := by
  obtain ⟨acc, hfold, hrow⟩ := bind_ok h
  have hinit : Acc.Summarises fl ([] : List (Sample N)) ⟨[], [], 0, 0, none⟩ :=
    ⟨rfl, by simp [readings], by simp [missing, readings], rfl, rfl⟩
  have hacc : acc.Summarises fl samples :=
    foldlM_ok (fun done b s b' hb hs => hb.foldSample hs) hinit hfold
  split at hrow
  · next hcount =>
    obtain rfl := Except.ok.inj hrow
    rw [hacc.count] at hcount
    exact List.length_eq_zero_iff.mp hcount
  · obtain rfl := Except.ok.inj hrow
    refine ⟨hacc.count, ?_, hacc.unavailable, hacc.gapCount⟩
    intro key
    have hvalues := hacc.values key
    split at hvalues
    · next hskip => rw [hvalues, if_pos hskip]; rfl
    · next hskip =>
      obtain ⟨item, hlookup, hitem⟩ := hvalues
      rw [hlookup, if_neg hskip, ← hitem.min, ← hitem.max, ← hitem.last, ← hitem.validCount]
      rfl

end SummitFlow.HostStore
