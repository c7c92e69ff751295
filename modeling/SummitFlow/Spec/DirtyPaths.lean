import SummitFlow.Cli.DirtyPaths

/-!
# What is read of a status

The output of git is read field by field, and only the first letter is asked whether a field
is followed by a source path.  Where that is enough, the paths are those of the entries, as
long as no carriage return is taken for a line end.
-/

namespace SummitFlow.Coord

/-! ## Fields -/

/-- A field whose first letter says that a source path follows. -/
abbrev Announces (item : List Char) : Prop := item.head? = some 'R' ∨ item.head? = some 'C'

theorem dirtyItems_short {item : List Char} (h : item.length < 4) (items : List (List Char)) :
    dirtyItems (item :: items) = dirtyItems items := by
  rw [dirtyItems.eq_def]
  dsimp only
  rw [if_pos h]

theorem dirtyItems_plain {item : List Char} (h : ¬ item.length < 4) (hplain : ¬ Announces item)
    (items : List (List Char)) : dirtyItems (item :: items) = item.drop 3 :: dirtyItems items := by
  rw [dirtyItems.eq_def]
  dsimp only
  rw [if_neg h, if_neg hplain]

theorem dirtyItems_announced {item source : List Char} (h : ¬ item.length < 4)
    (hsource : Announces item) (items : List (List Char)) :
    dirtyItems (item :: source :: items) = item.drop 3 ::
      ((if item.head? = some 'R' ∧ source ≠ [] then [source] else []) ++ dirtyItems items) := by
  rw [dirtyItems.eq_def]
  dsimp only
  rw [if_neg h, if_pos hsource]
  split
  · rfl
  · rfl

/-- The fields as text mode gives them. -/
theorem splitOnChar_porcelain (fields : List (List Char)) (h : ∀ field ∈ fields, '\x00' ∉ field) :
    Str.splitOnChar '\x00' (Str.newlines (fields.flatMap fun field => field ++ ['\x00'])) =
      fields.map Str.newlines ++ [[]] := by
  induction fields with
  | nil => rfl
  | cons field fields ih =>
    have hfield : '\x00' ∉ Str.newlines field :=
      Str.not_mem_newlines (by decide) (h field List.mem_cons_self)
    rw [List.flatMap_cons, List.append_assoc, List.singleton_append,
      Str.newlines_append _ _ (by decide) (by decide), Str.splitOnChar_append,
      Str.splitOnChar_of_not_mem hfield, ih fun f hf => h f (List.mem_cons_of_mem _ hf)]
    rfl

namespace StatusEntry

variable {e : StatusEntry}

/-- The first letter tells a source path, and a rename from a copy; or a path that is taken
    for an entry is too short for one. -/
def Read (e : StatusEntry) : Prop :=
  Coord.sourced e.x e.y = true →
    (e.x = 'R' ∨ e.x = 'C' ∧ e.y ≠ 'R') ∨
      (e.x ≠ 'R' ∧ e.x ≠ 'C' ∧ e.y = 'C' ∧
        ∀ s ∈ e.source, (Str.newlines s.text.toList).length < 4)

/-- The fields as they are read. -/
def readFields (e : StatusEntry) : List (List Char) := e.fields.map Str.newlines

/-- The paths as they are read. -/
def readPaths (e : StatusEntry) : List (List Char) :=
  e.paths.map fun path => Str.newlines path.toList

theorem newlines_ne_nil {cs : List Char} (h : cs ≠ []) : Str.newlines cs ≠ [] := by
  cases cs with
  | nil => exact absurd rfl h
  | cons c cs =>
    unfold Str.newlines
    rw [Str.newlinesAux]
    split
    · exact List.cons_ne_nil _ _
    · rw [if_neg (by simp)]
      exact List.cons_ne_nil _ _

/-- The first field of an entry. -/
theorem newlines_head (e : StatusEntry) :
    Str.newlines (e.x :: e.y :: ' ' :: e.path.text.toList) =
      e.x :: e.y :: ' ' :: Str.newlines e.path.text.toList := by
  have hreturn : ∀ c ∈ statusLetters, c ≠ '\r' := by simp [statusLetters]
  have hx := hreturn e.x e.letters.1
  have hy := hreturn e.y e.letters.2
  unfold Str.newlines
  rw [Str.newlinesAux, if_neg hx, if_neg (by simp), Str.newlinesAux, if_neg hy, if_neg (by simp),
    Str.newlinesAux, if_neg (by decide), if_neg (by simp)]

/-- An entry is long enough, and its path stands after its letters. -/
theorem length_head (e : StatusEntry) :
    ¬ (e.x :: e.y :: ' ' :: Str.newlines e.path.text.toList).length < 4 := by
  have hpos := List.length_pos_iff.mpr (newlines_ne_nil e.path.nonempty)
  simp only [List.length_cons]
  omega

theorem dirtyItems_unsourced (hx : e.x ≠ 'R' ∧ e.x ≠ 'C') (items : List (List Char)) :
    dirtyItems ((e.x :: e.y :: ' ' :: Str.newlines e.path.text.toList) :: items) =
      Str.newlines e.path.text.toList :: dirtyItems items := by
  have hplain : ¬ Announces (e.x :: e.y :: ' ' :: Str.newlines e.path.text.toList) := by
    unfold Announces
    rw [List.head?_cons, Option.some_inj, Option.some_inj, not_or]
    exact hx
  rw [dirtyItems_plain e.length_head hplain]
  rfl

theorem dirtyItems_sourced (hx : e.x = 'R' ∨ e.x = 'C') {source : List Char} (hsource : source ≠ [])
    (items : List (List Char)) :
    dirtyItems ((e.x :: e.y :: ' ' :: Str.newlines e.path.text.toList) :: source :: items) =
      Str.newlines e.path.text.toList ::
        ((if e.x = 'R' then [source] else []) ++ dirtyItems items) := by
  have hannounces : Announces (e.x :: e.y :: ' ' :: Str.newlines e.path.text.toList) := by
    unfold Announces
    rw [List.head?_cons, Option.some_inj, Option.some_inj]
    exact hx
  rw [dirtyItems_announced e.length_head hannounces]
  by_cases hrename : e.x = 'R'
  · rw [if_pos ⟨by rw [hrename]; rfl, hsource⟩, if_pos hrename]
    rfl
  · rw [if_neg fun h => hrename (Option.some.inj h.1), if_neg hrename]
    rfl

/-- An entry and its source. -/
theorem source_cases (e : StatusEntry) :
    (Coord.sourced e.x e.y = false ∧ e.source = none) ∨
      Coord.sourced e.x e.y = true ∧ ∃ s, e.source = some s := by
  have hsourced := e.sourced
  cases hsource : e.source with
  | none =>
    rw [hsource] at hsourced
    exact .inl ⟨hsourced.symm, rfl⟩
  | some s =>
    rw [hsource] at hsourced
    exact .inr ⟨hsourced.symm, s, rfl⟩

theorem sourced_eq_false {x y : Char} (h : Coord.sourced x y = false) :
    x ≠ 'R' ∧ x ≠ 'C' ∧ y ≠ 'R' ∧ y ≠ 'C' := by
  unfold Coord.sourced at h
  simp only [Bool.or_eq_false_iff, beq_eq_false_iff_ne] at h
  exact ⟨h.1.1.1, h.1.1.2, h.1.2, h.2⟩

/-- An entry whose first letter is enough is read, whatever comes after it. -/
theorem dirtyItems_read (h : e.Read) (items : List (List Char)) :
    dirtyItems (e.readFields ++ items) = e.readPaths ++ dirtyItems items := by
  unfold readFields readPaths fields paths
  rw [List.map_cons, newlines_head, List.map_cons, List.cons_append, List.cons_append]
  rcases e.source_cases with ⟨hno, hsource⟩ | ⟨hyes, s, hsource⟩
  · obtain ⟨hxr, hxc, hyr, hyc⟩ := sourced_eq_false hno
    rw [hsource, dirtyItems_unsourced ⟨hxr, hxc⟩, if_neg (not_or.mpr ⟨hxr, hyr⟩)]
    rfl
  · have hne : Str.newlines s.text.toList ≠ [] := newlines_ne_nil s.nonempty
    rw [hsource]
    rcases h hyes with hfirst | ⟨hxr, hxc, hy, hshort⟩
    · have hx : e.x = 'R' ∨ e.x = 'C' := hfirst.imp_right fun h => h.1
      show dirtyItems (_ :: Str.newlines s.text.toList :: items) = _
      rw [dirtyItems_sourced hx hne]
      rcases hfirst with hr | ⟨hc, hyr⟩
      · rw [if_pos hr, if_pos (.inl hr)]
        rfl
      · have hxr : e.x ≠ 'R' := by
          rw [hc]
          decide
        rw [if_neg hxr, if_neg (not_or.mpr ⟨hxr, hyr⟩)]
        rfl
    · have hyr : e.y ≠ 'R' := by
        rw [hy]
        decide
      have hlength := hshort s hsource
      show dirtyItems (_ :: Str.newlines s.text.toList :: items) = _
      rw [dirtyItems_unsourced ⟨hxr, hxc⟩, dirtyItems_short hlength,
        if_neg (not_or.mpr ⟨hxr, hyr⟩)]
      rfl

end StatusEntry

theorem dirtyItems_flatMap {es : List StatusEntry} (h : ∀ e ∈ es, e.Read)
    (items : List (List Char)) :
    dirtyItems (es.flatMap StatusEntry.readFields ++ items) =
      es.flatMap StatusEntry.readPaths ++ dirtyItems items := by
  induction es with
  | nil => rfl
  | cons e es ih =>
    rw [List.flatMap_cons, List.append_assoc, StatusEntry.dirtyItems_read (h e List.mem_cons_self),
      ih fun d hd => h d (List.mem_cons_of_mem _ hd), List.flatMap_cons, List.append_assoc]

/-! ## Lists of entries -/

/-- The paths of the entries, in order. -/
def statusPaths (es : List StatusEntry) : List String := es.flatMap StatusEntry.paths

theorem not_nul_of_mem_fields {e : StatusEntry} {field : List Char} (h : field ∈ e.fields) :
    '\x00' ∉ field := by
  have hletters : ∀ c ∈ statusLetters, '\x00' ≠ c := by simp [statusLetters]
  rcases List.mem_cons.mp h with rfl | h
  · simp only [List.mem_cons, not_or]
    exact ⟨hletters e.x e.letters.1, hletters e.y e.letters.2, by decide, e.path.noNul⟩
  · obtain ⟨s, -, rfl⟩ := Option.map_eq_some_iff.mp (Option.mem_toList.mp h)
    exact s.noNul

theorem dirtyPaths_porcelain (es : List StatusEntry) :
    dirtyPaths (some (porcelain es)) =
      some ((dirtyItems (es.flatMap StatusEntry.readFields ++ [[]])).map String.ofList) := by
  have hfields : (es.flatMap StatusEntry.fields).map Str.newlines =
      es.flatMap StatusEntry.readFields := List.map_flatMap
  have hnul : ∀ field ∈ es.flatMap StatusEntry.fields, '\x00' ∉ field := by
    intro field hfield
    obtain ⟨e, -, he⟩ := List.mem_flatMap.mp hfield
    exact not_nul_of_mem_fields he
  unfold dirtyPaths porcelain
  rw [Option.map_some, String.toList_ofList, splitOnChar_porcelain _ hnul, hfields]

/-- The paths are the ones read, as characters. -/
theorem dirtyPaths_eq_iff_items (es : List StatusEntry) :
    dirtyPaths (some (porcelain es)) = some (statusPaths es) ↔
      dirtyItems (es.flatMap StatusEntry.readFields ++ [[]]) =
        (statusPaths es).map String.toList := by
  rw [dirtyPaths_porcelain, Option.some_inj]
  constructor
  · intro h
    rw [← h, List.map_map]
    simp
  · intro h
    rw [h, List.map_map]
    simp

theorem readPaths_flatMap (es : List StatusEntry) :
    es.flatMap StatusEntry.readPaths =
      (statusPaths es).map fun path => Str.newlines path.toList := by
  unfold statusPaths
  rw [List.map_flatMap]
  rfl

/-- Entries whose first letter is enough are decoded exactly when no path of theirs has a
    carriage return. -/
theorem dirtyPaths_read {es : List StatusEntry} (h : ∀ e ∈ es, e.Read) :
    dirtyPaths (some (porcelain es)) = some (statusPaths es) ↔
      ∀ path ∈ statusPaths es, '\r' ∉ path.toList := by
  have hend : dirtyItems [[]] = [] := rfl
  rw [dirtyPaths_eq_iff_items, dirtyItems_flatMap h, readPaths_flatMap, hend, List.append_nil,
    List.map_inj_left]
  constructor
  · exact fun hall path hpath => Str.newlines_eq_iff.mp (hall path hpath)
  · exact fun hall path hpath => Str.newlines_eq_iff.mpr (hall path hpath)

/-- An entry with a copy's source that would be taken for an entry with a source of its own. -/
def StatusEntry.Shifts (e : StatusEntry) : Prop :=
  e.x ≠ 'R' ∧ e.x ≠ 'C' ∧ e.y = 'C' ∧ ∃ s ∈ e.source, Announces (Str.newlines s.text.toList)

/-- One entry that is misread is never made good by the others. -/
theorem dirtyItems_misread {e : StatusEntry} (h : ¬ e.Read) (hshifts : ¬ e.Shifts)
    {items paths : List (List Char)} (hitems : (dirtyItems items).length = paths.length) :
    dirtyItems (e.readFields ++ items) ≠ e.paths.map String.toList ++ paths := by
  unfold StatusEntry.Read at h
  rw [Classical.not_imp, not_or] at h
  obtain ⟨hsourced, hfirst, hsecond⟩ := h
  obtain ⟨hno, -⟩ | ⟨-, s, hsource⟩ := e.source_cases
  · rw [hno] at hsourced
    cases hsourced
  have hne : Str.newlines s.text.toList ≠ [] := StatusEntry.newlines_ne_nil s.nonempty
  have hpaths : e.paths = e.path.text :: if e.x = 'R' ∨ e.y = 'R' then [s.text] else [] := by
    rw [StatusEntry.paths, hsource]
    rfl
  have hfields : e.readFields = (e.x :: e.y :: ' ' :: Str.newlines e.path.text.toList) ::
      [Str.newlines s.text.toList] := by
    rw [StatusEntry.readFields, StatusEntry.fields, hsource, List.map_cons,
      StatusEntry.newlines_head]
    rfl
  rw [not_or] at hfirst
  rw [hpaths, hfields, List.cons_append, List.singleton_append]
  intro heq
  by_cases hxc : e.x = 'C'
  · -- the source of a rename is left out
    have hyr : e.y = 'R' := by
      by_contra hyr
      exact hfirst.2 ⟨hxc, hyr⟩
    rw [StatusEntry.dirtyItems_sourced (.inr hxc) hne, if_neg hfirst.1, if_pos (.inr hyr)] at heq
    have hlength := congrArg List.length heq
    simp only [List.length_cons, List.nil_append, List.map_cons, List.map_nil, List.cons_append,
      hitems] at hlength
    omega
  · rw [StatusEntry.dirtyItems_unsourced ⟨hfirst.1, hxc⟩] at heq
    by_cases hshort : (Str.newlines s.text.toList).length < 4
    · -- the source is passed over
      have hyr : e.y = 'R' := by
        unfold sourced at hsourced
        simp only [Bool.or_eq_true, beq_iff_eq, hfirst.1, hxc, or_false, false_or] at hsourced
        refine hsourced.resolve_right fun hyc => hsecond ⟨hfirst.1, hxc, hyc, ?_⟩
        intro s' hs'
        rw [hsource] at hs'
        obtain rfl := Option.some.inj hs'
        exact hshort
      rw [dirtyItems_short hshort, if_pos (.inr hyr)] at heq
      have hlength := congrArg List.length heq
      simp only [List.length_cons, List.map_cons, List.map_nil, List.cons_append, List.nil_append,
        hitems] at hlength
      omega
    · -- the source is taken for an entry, and cut
      have hcut : (Str.newlines s.text.toList).drop 3 ≠ s.text.toList := by
        intro hsame
        have hlength := congrArg List.length hsame
        have hle := Str.length_newlines_le s.text.toList
        rw [List.length_drop] at hlength
        omega
      by_cases hyr : e.y = 'R'
      · rw [if_pos (.inr hyr)] at heq
        have htail := (List.cons.inj heq).2
        have hhead : ∃ rest, dirtyItems (Str.newlines s.text.toList :: items) =
            (Str.newlines s.text.toList).drop 3 :: rest := by
          rw [dirtyItems.eq_def]
          dsimp only
          rw [if_neg hshort]
          split
          · split
            · exact ⟨_, rfl⟩
            · split
              · exact ⟨_, rfl⟩
              · exact ⟨_, rfl⟩
          · exact ⟨_, rfl⟩
        obtain ⟨rest, hrest⟩ := hhead
        rw [hrest] at htail
        exact hcut (List.cons.inj htail).1
      · have hyc : e.y = 'C' := by
          unfold sourced at hsourced
          simpa [hfirst.1, hxc, hyr] using hsourced
        have hplain : ¬ Announces (Str.newlines s.text.toList) := fun hann =>
          hshifts ⟨hfirst.1, hxc, hyc, s, hsource, hann⟩
        rw [dirtyItems_plain hshort hplain, if_neg (not_or.mpr ⟨hfirst.1, hyr⟩)] at heq
        have hlength := congrArg List.length heq
        simp only [List.length_cons, List.map_cons, List.map_nil, List.cons_append,
          List.nil_append, hitems] at hlength
        omega

/-- Entries are decoded where the first letter tells of every source path; an entry whose
    first letter does not is misread among any others. -/
theorem dirtyPaths_complete_iff (es : List StatusEntry) :
    ((∀ e ∈ es, e.Read) → (dirtyPaths (some (porcelain es)) = some (statusPaths es) ↔
      ∀ path ∈ statusPaths es, '\r' ∉ path.toList)) ∧
    ∀ (es₁ es₂ : List StatusEntry) (e : StatusEntry), es = es₁ ++ e :: es₂ →
      (∀ d ∈ es₁ ++ es₂, d.Read) → ¬ e.Read → ¬ e.Shifts →
        dirtyPaths (some (porcelain es)) ≠ some (statusPaths es) := by
  refine ⟨fun h => dirtyPaths_read h, ?_⟩
  rintro es₁ es₂ e rfl hread he hshifts heq
  have hread₁ : ∀ d ∈ es₁, d.Read := fun d hd => hread d (List.mem_append_left _ hd)
  have hread₂ : ∀ d ∈ es₂, d.Read := fun d hd => hread d (List.mem_append_right _ hd)
  rw [dirtyPaths_eq_iff_items] at heq
  unfold statusPaths at heq
  rw [List.flatMap_append, List.flatMap_append, List.flatMap_cons, List.flatMap_cons,
    List.append_assoc, List.append_assoc, dirtyItems_flatMap hread₁, List.map_append,
    List.map_append] at heq
  have hprefix : (es₁.flatMap StatusEntry.readPaths).length =
      ((es₁.flatMap StatusEntry.paths).map String.toList).length := by
    rw [readPaths_flatMap, List.length_map, List.length_map]
    rfl
  have htail := List.append_inj_right heq hprefix
  refine dirtyItems_misread he hshifts ?_ htail
  have hend : dirtyItems [[]] = [] := rfl
  rw [dirtyItems_flatMap hread₂, hend, List.append_nil, readPaths_flatMap, List.length_map,
    List.length_map]
  rfl

/-! ## A rename in the working tree -/

/-- ` R new` with the source `old/path`. -/
def movedEntry : StatusEntry where
  x := ' '
  y := 'R'
  path := ⟨"new", by decide, by decide⟩
  source := some ⟨"old/path", by decide, by decide⟩
  letters := by decide
  sourced := rfl

/-- `R  new` with the source `old`. -/
def renamedEntry : StatusEntry where
  x := 'R'
  y := ' '
  path := ⟨"new", by decide, by decide⟩
  source := some ⟨"old", by decide, by decide⟩
  letters := by decide
  sourced := rfl

theorem dirtyPaths_renamed : dirtyPaths (some (porcelain [renamedEntry])) = some ["new", "old"] := by
  have hread : ∀ e ∈ [renamedEntry], e.Read := by
    intro e he
    obtain rfl := List.mem_singleton.mp he
    exact fun _ => .inl (.inl rfl)
  exact ((dirtyPaths_complete_iff [renamedEntry]).1 hread).mpr (by decide)

theorem dirtyPaths_moved : ¬ ∀ es : List StatusEntry,
    dirtyPaths (some (porcelain es)) = some (statusPaths es) := by
  intro hall
  have hmoved := hall [movedEntry]
  revert hmoved
  decide +kernel

end SummitFlow.Coord
