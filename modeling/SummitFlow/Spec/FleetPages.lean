import Mathlib.Data.List.Pairwise
import SummitFlow.Storage.FleetEvents

/-!
# What a fleet stream keeps, and what its readers get

The sequences a stream's commits use only grow, and the greatest one is retained
(`Stored`).  From this alone a reader, which holds no lock, is safe: a page without
gaps is exactly a stretch of the log of all commits (`page_eq_stretch`), and a later
commit is after every reader's cursor (`Reader.Ok.commit`).
-/

namespace SummitFlow.Fleet

variable {J : Type}

/-! ## Rows of one stream -/

@[simp] theorem mem_rowsOf {table : List (Row J)} {traceId : String} {row : Row J} :
    row ∈ rowsOf table traceId ↔ row ∈ table ∧ row.traceId = traceId := by
  simp [rowsOf]

@[simp] theorem rowsOf_append (as bs : List (Row J)) (traceId : String) :
    rowsOf (as ++ bs) traceId = rowsOf as traceId ++ rowsOf bs traceId := by
  simp [rowsOf]

theorem maxSequence_eq_some {rows : List (Row J)} {q : Int} (h : maxSequence rows = some q) :
    (∃ row ∈ rows, row.sequence = q) ∧ ∀ row ∈ rows, row.sequence ≤ q := by
  obtain ⟨hmem, hle⟩ := List.max?_eq_some_iff.mp h
  refine ⟨List.mem_map.mp hmem, fun row hrow => ?_⟩
  exact hle _ (List.mem_map_of_mem hrow)

/-- An allocated sequence is above every retained row of its stream. -/
theorem lt_nextSequence {table : List (Row J)} {traceId : String} {row : Row J}
    (h : row ∈ rowsOf table traceId) : row.sequence < nextSequence table traceId := by
  unfold nextSequence
  cases hmax : maxSequence (rowsOf table traceId) with
  | none =>
    have hnil : rowsOf table traceId = [] := by simpa [maxSequence] using hmax
    rw [hnil] at h
    cases h
  | some q =>
    have hle := (maxSequence_eq_some hmax).2 row h
    show row.sequence < q + 1
    omega

/-- A retained row of every stream that has one is above all the others. -/
theorem exists_highest {table : List (Row J)} {traceId : String} {row : Row J}
    (h : row ∈ rowsOf table traceId) :
    ∃ top ∈ rowsOf table traceId, ∀ r ∈ rowsOf table traceId, r.sequence ≤ top.sequence := by
  cases hmax : maxSequence (rowsOf table traceId) with
  | none =>
    have hnil : rowsOf table traceId = [] := by simpa [maxSequence] using hmax
    rw [hnil] at h
    cases h
  | some q =>
    obtain ⟨⟨top, htop, rfl⟩, hle⟩ := maxSequence_eq_some hmax
    exact ⟨top, htop, hle⟩

/-- What a cleanup deletes from a stream has a retained row above it. -/
theorem expired_below {table : List (Row J)} {root : String} {now : Int} {maxAgeDays : Nat}
    {row : Row J} (h : row ∈ expired table root now maxAgeDays) :
    row ∈ rowsOf table root ∧ ∃ r ∈ rowsOf table root, row.sequence < r.sequence := by
  simp only [expired, List.mem_filter, Bool.and_eq_true] at h
  obtain ⟨hrow, -, hlt⟩ := h
  refine ⟨hrow, ?_⟩
  cases hmax : maxSequence (rowsOf table root) with
  | none => simp [hmax] at hlt
  | some q =>
    obtain ⟨⟨top, htop, rfl⟩, -⟩ := maxSequence_eq_some hmax
    refine ⟨top, htop, ?_⟩
    simpa [hmax] using hlt

/-! ## What the table and the log keep -/

/-- Two commits to one stream, the earlier one first. -/
def Later (a b : Row J) : Prop := a.traceId = b.traceId → a.sequence < b.sequence

/-- Two rows do not share a stream and a source key. -/
def KeysDiffer (a b : Row J) : Prop := a.traceId = b.traceId → a.sourceKey ≠ b.sourceKey

/-- The retained rows are committed rows, in the order of their commits; the sequences
    of a stream grew with every commit; the greatest one is still there; and no two
    retained rows have one source key. -/
structure Stored (table log : List (Row J)) : Prop where
  sublist : table.Sublist log
  increasing : log.Pairwise Later
  highWater : ∀ row ∈ log, ∃ r ∈ rowsOf table row.traceId, row.sequence ≤ r.sequence
  keys : table.Pairwise KeysDiffer

theorem Stored.nil : Stored ([] : List (Row J)) [] :=
  ⟨List.Sublist.refl _, List.Pairwise.nil, by simp, List.Pairwise.nil⟩

/-- Committing a row above the retained rows of its stream. -/
theorem Stored.commit {table log : List (Row J)} (h : Stored table log) {row : Row J}
    (habove : ∀ r ∈ rowsOf table row.traceId, r.sequence < row.sequence)
    (hkey : ∀ r ∈ rowsOf table row.traceId, r.sourceKey ≠ row.sourceKey) :
    Stored (table ++ [row]) (log ++ [row]) where
  sublist := h.sublist.append (List.Sublist.refl _)
  increasing := by
    rw [List.pairwise_append]
    refine ⟨h.increasing, List.pairwise_singleton _ _, ?_⟩
    intro a ha b hb htrace
    obtain rfl := List.mem_singleton.mp hb
    -- the old row may be gone from the table; its stream's greatest one is not
    obtain ⟨r, hr, hle⟩ := h.highWater a ha
    rw [htrace] at hr
    have := habove r hr
    omega
  highWater := by
    intro a ha
    rcases List.mem_append.mp ha with ha | ha
    · obtain ⟨r, hr, hle⟩ := h.highWater a ha
      exact ⟨r, by rw [rowsOf_append]; exact List.mem_append_left _ hr, hle⟩
    · obtain rfl := List.mem_singleton.mp ha
      exact ⟨a, by simp, le_refl _⟩
  keys := by
    rw [List.pairwise_append]
    refine ⟨h.keys, List.pairwise_singleton _ _, ?_⟩
    intro a ha b hb htrace
    obtain rfl := List.mem_singleton.mp hb
    exact hkey a (mem_rowsOf.mpr ⟨ha, htrace⟩)

/-- Deleting rows that each have a retained row of their stream above them. -/
theorem Stored.delete {table log : List (Row J)} (h : Stored table log) {p : Row J → Bool}
    (hbelow : ∀ row ∈ table, p row = false →
      ∃ r ∈ rowsOf table row.traceId, row.sequence < r.sequence) :
    Stored (table.filter p) log where
  sublist := List.filter_sublist.trans h.sublist
  increasing := h.increasing
  highWater := by
    intro row hrow
    obtain ⟨r, hr, hle⟩ := h.highWater row hrow
    obtain ⟨top, htop, hmax⟩ := exists_highest hr
    have hr_top := hmax r hr
    rw [mem_rowsOf] at htop
    refine ⟨top, ?_, by omega⟩
    simp only [mem_rowsOf, List.mem_filter]
    refine ⟨⟨htop.1, ?_⟩, htop.2⟩
    -- the highest row has nothing above it, so it is not among the deleted
    by_contra hp
    obtain ⟨r', hr', hlt⟩ := hbelow top htop.1 (by simpa using hp)
    rw [htop.2] at hr'
    have := hmax r' hr'
    omega
  keys := h.keys.filter p

/-- A sequence of a stream was committed at most once. -/
theorem Stored.sequence_inj {table log : List (Row J)} (h : Stored table log) {a b : Row J}
    (ha : a ∈ log) (hb : b ∈ log) (htrace : a.traceId = b.traceId)
    (hseq : a.sequence = b.sequence) : a = b := by
  let differ : Row J → Row J → Prop := fun a b => a.traceId = b.traceId → a.sequence ≠ b.sequence
  have : Std.Symm differ := ⟨fun _ _ hxy ht => (hxy ht.symm).symm⟩
  have hdiffer : log.Pairwise differ := h.increasing.imp fun hlt ht => (hlt ht).ne
  by_contra hne
  exact hdiffer.forall ha hb hne htrace hseq

/-- A stream has at most one retained row for a source key. -/
theorem Stored.key_inj {table log : List (Row J)} (h : Stored table log) {a b : Row J}
    (ha : a ∈ table) (hb : b ∈ table) (htrace : a.traceId = b.traceId)
    (hkey : a.sourceKey = b.sourceKey) : a = b := by
  have : Std.Symm (KeysDiffer : Row J → Row J → Prop) := ⟨fun _ _ hxy ht => (hxy ht.symm).symm⟩
  by_contra hne
  exact h.keys.forall ha hb hne htrace hkey

/-! ## Pages -/

/-- The `n` sequences that follow `cursor`. -/
def sequencesFrom (cursor : Int) (n : Nat) : List Int :=
  (List.range n).map fun (i : Nat) => cursor + 1 + i

@[simp] theorem sequencesFrom_zero (cursor : Int) : sequencesFrom cursor 0 = [] := rfl

@[simp] theorem mem_sequencesFrom {cursor q : Int} {n : Nat} :
    q ∈ sequencesFrom cursor n ↔ cursor < q ∧ q ≤ cursor + n := by
  simp only [sequencesFrom, List.mem_map, List.mem_range]
  constructor
  · rintro ⟨i, hi, rfl⟩
    omega
  · intro h
    exact ⟨(q - cursor - 1).toNat, by omega, by omega⟩

theorem sequencesFrom_add (cursor : Int) (m n : Nat) :
    sequencesFrom cursor (m + n) = sequencesFrom cursor m ++ sequencesFrom (cursor + m) n := by
  simp only [sequencesFrom, List.range_add, List.map_append, List.map_map]
  congr 1
  apply List.map_congr_left
  intro i _
  simp only [Function.comp_apply]
  omega

theorem sequencesFrom_succ (cursor : Int) (n : Nat) :
    sequencesFrom cursor (n + 1) = (cursor + 1) :: sequencesFrom (cursor + 1) n := by
  rw [Nat.add_comm, sequencesFrom_add]
  simp [sequencesFrom]

theorem sequencesFrom_increasing (cursor : Int) (n : Nat) :
    (sequencesFrom cursor n).Pairwise (· < ·) := by
  rw [sequencesFrom, List.pairwise_map]
  exact List.pairwise_lt_range.imp fun h => by omega

/-- The loop accepts a page exactly when its sequences follow the cursor without gap. -/
theorem checkContiguous_ok {cursor : Int} {rows : List (Row J)} :
    checkContiguous (cursor + 1) rows = .ok () ↔
      rows.map Row.sequence = sequencesFrom cursor rows.length := by
  induction rows generalizing cursor with
  | nil => simp [checkContiguous]
  | cons row rows ih =>
    rw [checkContiguous, List.map_cons, List.length_cons, sequencesFrom_succ]
    by_cases hrow : row.sequence = cursor + 1
    · simp [hrow, ih]
    · simp [hrow]

/-- It refuses a page at the first gap. -/
theorem checkContiguous_error {cursor : Int} {rows : List (Row J)} {e : FleetError}
    (h : checkContiguous (cursor + 1) rows = .error e) :
    ∃ before row after, rows = before ++ row :: after ∧
      before.map Row.sequence = sequencesFrom cursor before.length ∧
      row.sequence ≠ cursor + before.length + 1 ∧
      e = .staleCursor (cursor + before.length) row.sequence := by
  induction rows generalizing cursor with
  | nil => cases h
  | cons row rows ih =>
    rw [checkContiguous] at h
    split at h
    · next hgap =>
      cases h
      exact ⟨[], row, rows, rfl, rfl, by simpa using hgap, by simp⟩
    · next hrow =>
      have hrow : row.sequence = cursor + 1 := by simpa using hrow
      obtain ⟨before, gap, after, rfl, hbefore, hgap, rfl⟩ := ih h
      refine ⟨row :: before, gap, after, rfl, ?_, ?_, ?_⟩
      · rw [List.map_cons, List.length_cons, sequencesFrom_succ, hbefore, hrow]
      · rw [List.length_cons]
        push_cast
        omega
      · rw [List.length_cons]
        push_cast
        congr 1
        omega

@[simp] theorem mem_rowsAfter {table : List (Row J)} {projectId traceId : String} {cursor : Int}
    {row : Row J} : row ∈ rowsAfter table projectId traceId cursor ↔
      row ∈ table ∧ row.projectId = projectId ∧ row.traceId = traceId ∧
        cursor < row.sequence := by
  simp [rowsAfter]

theorem rowsAfter_sorted (table : List (Row J)) (projectId traceId : String) (cursor : Int) :
    (rowsAfter table projectId traceId cursor).Pairwise (·.sequence ≤ ·.sequence) := by
  have : Std.Total fun a b : Row J => a.sequence ≤ b.sequence :=
    ⟨fun _ _ => Int.le_total _ _⟩
  have : IsTrans (Row J) (·.sequence ≤ ·.sequence) := ⟨fun _ _ _ => Int.le_trans⟩
  exact List.pairwise_insertionSort _ _

/-- What a page is: the first rows after the cursor, with no gap from the cursor on. -/
theorem readFleetPage_ok {table : List (Row J)} {projectId traceId : String}
    {cursor limit : Int} {page : List (Row J)}
    (h : readFleetPage table projectId traceId cursor limit = .ok page) :
    page = (rowsAfter table projectId traceId cursor).take limit.toNat ∧
      page.map Row.sequence = sequencesFrom cursor page.length := by
  unfold readFleetPage at h
  split at h
  · cases h
  · cases hcheck : checkContiguous (cursor + 1)
      ((rowsAfter table projectId traceId cursor).take limit.toNat) with
    | error e => simp [hcheck, bind, Except.bind] at h
    | ok u =>
      simp only [hcheck, bind, Except.bind, Except.ok.injEq] at h
      subst h
      exact ⟨rfl, checkContiguous_ok.mp hcheck⟩

/-- The committed rows of a project's stream with a sequence in `(lower, upper]`, in the
    order of their commits. -/
def stretch (log : List (Row J)) (projectId traceId : String) (lower upper : Int) :
    List (Row J) :=
  log.filter fun row => row.projectId = projectId ∧ row.traceId = traceId ∧
    lower < row.sequence ∧ row.sequence ≤ upper

@[simp] theorem mem_stretch {log : List (Row J)} {projectId traceId : String}
    {lower upper : Int} {row : Row J} : row ∈ stretch log projectId traceId lower upper ↔
      row ∈ log ∧ row.projectId = projectId ∧ row.traceId = traceId ∧
        lower < row.sequence ∧ row.sequence ≤ upper := by
  simp [stretch]

theorem stretch_increasing {table log : List (Row J)} (h : Stored table log)
    (projectId traceId : String) (lower upper : Int) :
    (stretch log projectId traceId lower upper).Pairwise (·.sequence < ·.sequence) := by
  apply (h.increasing.filter _).imp_of_mem
  intro a b ha hb hlater
  have ha := (mem_stretch.mp ha).2.2.1
  have hb := (mem_stretch.mp hb).2.2.1
  exact hlater (ha.trans hb.symm)

/-- Lists of rows with growing sequences are equal when they have the same rows. -/
theorem eq_of_increasing {as bs : List (Row J)} (ha : as.Pairwise (·.sequence < ·.sequence))
    (hb : bs.Pairwise (·.sequence < ·.sequence)) (h : ∀ row, row ∈ as ↔ row ∈ bs) : as = bs := by
  have : Std.Irrefl fun a b : Row J => a.sequence < b.sequence := ⟨fun _ => Int.lt_irrefl _⟩
  have : Std.Antisymm fun a b : Row J => a.sequence < b.sequence :=
    ⟨fun _ _ hab hba => absurd (Int.lt_trans hab hba) (Int.lt_irrefl _)⟩
  exact ha.eq_of_mem_iff hb h

/-- A stretch of the log splits at any sequence. -/
theorem stretch_append {table log : List (Row J)} (h : Stored table log)
    (projectId traceId : String) {lower upper : Int} (mid : Int) (hlo : lower ≤ mid)
    (hhi : mid ≤ upper) :
    stretch log projectId traceId lower mid ++ stretch log projectId traceId mid upper =
      stretch log projectId traceId lower upper := by
  apply eq_of_increasing
  · rw [List.pairwise_append]
    refine ⟨stretch_increasing h .., stretch_increasing h .., ?_⟩
    intro a ha b hb
    have ha := (mem_stretch.mp ha).2.2.2
    have hb := (mem_stretch.mp hb).2.2.2
    omega
  · exact stretch_increasing h ..
  · intro row
    simp only [List.mem_append, mem_stretch]
    grind

/-- A page without gap is the stretch of the log it covers: a row that was deleted, or
    belongs to another project, would have left a gap. -/
theorem page_eq_stretch {table log page : List (Row J)} (h : Stored table log)
    {projectId traceId : String} {cursor : Int}
    (hmem : ∀ row ∈ page, row ∈ table ∧ row.projectId = projectId ∧ row.traceId = traceId)
    (hseq : page.map Row.sequence = sequencesFrom cursor page.length) :
    page = stretch log projectId traceId cursor (cursor + page.length) := by
  have hrange : ∀ q, (∃ row ∈ page, row.sequence = q) ↔ cursor < q ∧ q ≤ cursor + page.length := by
    intro q
    rw [← mem_sequencesFrom, ← hseq, List.mem_map]
  apply eq_of_increasing
  · have hinc := sequencesFrom_increasing cursor page.length
    rw [← hseq, List.pairwise_map] at hinc
    exact hinc
  · exact stretch_increasing h ..
  · intro row
    rw [mem_stretch]
    constructor
    · intro hrow
      obtain ⟨htable, hproject, htrace⟩ := hmem row hrow
      exact ⟨h.sublist.subset htable, hproject, htrace, (hrange _).mp ⟨row, hrow, rfl⟩⟩
    · rintro ⟨hlog, -, htrace, hbounds⟩
      -- the page has a row with this sequence, and a sequence was committed once
      obtain ⟨row', hrow', hseq'⟩ := (hrange row.sequence).mpr hbounds
      obtain ⟨htable', -, htrace'⟩ := hmem row' hrow'
      have heq : row' = row := h.sequence_inj (h.sublist.subset htable') hlog
        (htrace'.trans htrace.symm) hseq'
      rw [← heq]
      exact hrow'

/-! ## Readers -/

/-- What a reader has received: every row ever committed to its stream between its start
    and its cursor, with no gap. -/
structure Reader.Ok (log : List (Row J)) (reader : Reader J) : Prop where
  complete : reader.received =
    stretch log reader.projectId reader.traceId reader.start reader.cursor
  contiguous : reader.received.map Row.sequence =
    sequencesFrom reader.start reader.received.length
  cursor_eq : reader.cursor = reader.start + reader.received.length

theorem getLast_sequence {page : List (Row J)} {cursor : Int}
    (hseq : page.map Row.sequence = sequencesFrom cursor page.length) :
    (page.getLast?.map Row.sequence).getD cursor = cursor + page.length := by
  rw [← List.getLast?_map, hseq]
  cases hn : page.length with
  | zero => simp
  | succ n =>
    rw [sequencesFrom_add]
    simp [sequencesFrom]
    omega

theorem Reader.Ok.read {table log : List (Row J)} (h : Stored table log) {reader reader' : Reader J}
    (hr : reader.Ok log) {limit : Int} {page : List (Row J)}
    (hread : reader.read table limit = .ok (reader', page)) : reader'.Ok log := by
  unfold Reader.read at hread
  cases hpage : readFleetPage table reader.projectId reader.traceId reader.cursor limit with
  | error e => simp [hpage, bind, Except.bind] at hread
  | ok rows =>
    simp only [hpage, bind, Except.bind, Except.ok.injEq, Prod.mk.injEq] at hread
    obtain ⟨rfl, rfl⟩ := hread
    obtain ⟨hrows, hseq⟩ := readFleetPage_ok hpage
    have hmem : ∀ row ∈ rows, row ∈ table ∧ row.projectId = reader.projectId ∧
        row.traceId = reader.traceId := by
      intro row hrow
      rw [hrows] at hrow
      obtain ⟨htable, hproject, htrace, -⟩ := mem_rowsAfter.mp (List.mem_of_mem_take hrow)
      exact ⟨htable, hproject, htrace⟩
    have hcursor := getLast_sequence hseq
    constructor
    · show reader.received ++ rows = stretch log _ _ reader.start
        ((rows.getLast?.map Row.sequence).getD reader.cursor)
      have hstart : reader.start ≤ reader.cursor := by
        rw [hr.cursor_eq]
        omega
      rw [hcursor, ← stretch_append h _ _ reader.cursor hstart (by omega),
        ← page_eq_stretch h hmem hseq, ← hr.complete]
    · show (reader.received ++ rows).map Row.sequence = sequencesFrom reader.start _
      rw [List.map_append, List.length_append, sequencesFrom_add, ← hr.cursor_eq, ← hseq,
        hr.contiguous]
    · show _ = reader.start + ((reader.received ++ rows).length : Int)
      rw [hcursor, hr.cursor_eq, List.length_append]
      push_cast
      omega

/-- A commit above everything in its stream is after every reader's cursor. -/
theorem Reader.Ok.commit {log : List (Row J)} {reader : Reader J} (hr : reader.Ok log)
    {row : Row J} (habove : ∀ r ∈ log, r.traceId = row.traceId → r.sequence < row.sequence) :
    reader.Ok (log ++ [row]) := by
  refine ⟨?_, hr.contiguous, hr.cursor_eq⟩
  have hout : stretch [row] reader.projectId reader.traceId reader.start reader.cursor = [] := by
    rw [List.eq_nil_iff_forall_not_mem]
    intro r hmem
    simp only [mem_stretch, List.mem_singleton] at hmem
    obtain ⟨rfl, -, htrace, hlo, hhi⟩ := hmem
    -- the sequence would be one the reader already has
    have hseq : r.sequence ∈ reader.received.map Row.sequence := by
      rw [hr.contiguous, mem_sequencesFrom, ← hr.cursor_eq]
      exact ⟨hlo, hhi⟩
    obtain ⟨old, hold, holdseq⟩ := List.mem_map.mp hseq
    rw [hr.complete, mem_stretch] at hold
    have := habove old hold.1 (hold.2.2.1.trans htrace.symm)
    omega
  unfold stretch at hout ⊢
  rw [List.filter_append, hout, List.append_nil]
  exact hr.complete

/-! ## The answer of a page request -/

/-- `read_fleet_page` answers a cursor with the rows that follow it, all of them unless
    the page is full; with the gap it found; or with a refusal of its arguments. -/
inductive PageAnswer (table : List (Row J)) (projectId traceId : String) (cursor limit : Int) :
    Except FleetError (List (Row J)) → Prop where
  | page (rows : List (Row J))
      (retained : ∀ row ∈ rows, row ∈ table ∧ row.projectId = projectId ∧ row.traceId = traceId)
      (contiguous : rows.map Row.sequence = sequencesFrom cursor rows.length)
      (complete : ∀ row ∈ table, row.projectId = projectId → row.traceId = traceId →
        cursor < row.sequence →
          row ∈ rows ∨ (rows.length = limit ∧ cursor + limit < row.sequence)) :
      PageAnswer table projectId traceId cursor limit (.ok rows)
  | stale (last : Int) (row : Row J) (retained : row ∈ table) (project : row.projectId = projectId)
      (trace : row.traceId = traceId) (after : cursor ≤ last) (gap : last + 1 < row.sequence)
      (lost : ∀ r ∈ table, r.projectId = projectId → r.traceId = traceId →
        last < r.sequence → row.sequence ≤ r.sequence) :
      PageAnswer table projectId traceId cursor limit (.error (.staleCursor last row.sequence))
  | invalid (arguments : cursor < 0 ∨ limit < 1 ∨ 1000 < limit) :
      PageAnswer table projectId traceId cursor limit
        (.error (.raised (.valueError "Invalid fleet cursor or page limit")))

theorem rowsAfter_increasing {table log : List (Row J)} (h : Stored table log)
    (projectId traceId : String) (cursor : Int) :
    (rowsAfter table projectId traceId cursor).Pairwise (·.sequence < ·.sequence) := by
  have hnodup : (rowsAfter table projectId traceId cursor).Nodup := by
    have hlog : log.Nodup := by
      apply h.increasing.imp
      rintro a b hlater rfl
      exact Int.lt_irrefl _ (hlater rfl)
    exact (List.perm_insertionSort _ _).nodup_iff.mpr ((h.sublist.nodup hlog).filter _)
  apply (hnodup.and (rowsAfter_sorted table projectId traceId cursor)).imp_of_mem
  intro a b ha hb hab
  rw [mem_rowsAfter] at ha hb
  -- two different rows of one stream have different sequences
  have hne : a.sequence ≠ b.sequence := fun hseq =>
    hab.1 (h.sequence_inj (h.sublist.subset ha.1) (h.sublist.subset hb.1)
      (ha.2.2.1.trans hb.2.2.1.symm) hseq)
  have := hab.2
  omega

/-- Whatever follows a gapless prefix of the rows after a cursor is after its last
    sequence. -/
theorem lt_of_contiguous_prefix {rows later : List (Row J)} {cursor : Int}
    (hinc : (rows ++ later).Pairwise (·.sequence < ·.sequence))
    (hseq : rows.map Row.sequence = sequencesFrom cursor rows.length)
    {row : Row J} (hrow : row ∈ later) (hafter : cursor < row.sequence) :
    cursor + rows.length < row.sequence := by
  rcases Nat.eq_zero_or_pos rows.length with hzero | hpos
  · omega
  · have hlast : cursor + rows.length ∈ rows.map Row.sequence := by
      rw [hseq, mem_sequencesFrom]
      omega
    obtain ⟨last, hlast, hlastseq⟩ := List.mem_map.mp hlast
    have := (List.pairwise_append.mp hinc).2.2 last hlast row hrow
    omega

theorem readFleetPage_answer {table log : List (Row J)} (h : Stored table log)
    (projectId traceId : String) (cursor limit : Int) :
    PageAnswer table projectId traceId cursor limit
      (readFleetPage table projectId traceId cursor limit) := by
  unfold readFleetPage
  split
  · next hinvalid => exact .invalid (by omega)
  next hvalid =>
  have hinc := rowsAfter_increasing h projectId traceId cursor
  set rows := rowsAfter table projectId traceId cursor with hrows
  have hsplit := List.take_append_drop limit.toNat rows
  cases hcheck : checkContiguous (cursor + 1) (rows.take limit.toNat) with
  | ok u =>
    have hseq := checkContiguous_ok.mp hcheck
    simp only [hcheck, bind, Except.bind]
    refine .page _ (fun row hrow => ?_) hseq (fun row htable hproject htrace hafter => ?_)
    · have hrow := mem_rowsAfter.mp (List.mem_of_mem_take hrow)
      exact ⟨hrow.1, hrow.2.1, hrow.2.2.1⟩
    · have hrow : row ∈ rows := mem_rowsAfter.mpr ⟨htable, hproject, htrace, hafter⟩
      rw [← hsplit] at hrow hinc
      rcases List.mem_append.mp hrow with hrow | hrow
      · exact .inl hrow
      · have hfull : (rows.take limit.toNat).length = limit.toNat := by
          have := List.length_pos_of_mem hrow
          rw [List.length_drop] at this
          rw [List.length_take]
          omega
        have hlt := lt_of_contiguous_prefix hinc hseq hrow hafter
        right
        omega
  | error e =>
    obtain ⟨before, row, later, hpage, hseq, hgap, rfl⟩ := checkContiguous_error hcheck
    have hall : rows = before ++ row :: (later ++ rows.drop limit.toNat) := by
      rw [← List.cons_append, ← List.append_assoc, ← hpage, hsplit]
    rw [hall] at hinc
    have hrow : row ∈ rows := by
      rw [hall]
      simp
    obtain ⟨htable, hproject, htrace, hafter⟩ := mem_rowsAfter.mp hrow
    have hlt := lt_of_contiguous_prefix hinc hseq (List.mem_cons_self ..) hafter
    simp only [hcheck, bind, Except.bind]
    refine .stale (cursor + before.length) row htable hproject htrace (by omega) (by omega) ?_
    intro r hr hrproject hrtrace hrafter
    have hmem : r ∈ rows := mem_rowsAfter.mpr ⟨hr, hrproject, hrtrace, by omega⟩
    rw [hall, List.mem_append, List.mem_cons] at hmem
    rcases hmem with hbefore | rfl | hlater
    · have hin : r.sequence ∈ before.map Row.sequence := List.mem_map_of_mem hbefore
      rw [hseq, mem_sequencesFrom] at hin
      omega
    · exact le_refl _
    · have htail := (List.pairwise_append.mp hinc).2.1
      exact ((List.pairwise_cons.mp htail).1 r hlater).le

end SummitFlow.Fleet
