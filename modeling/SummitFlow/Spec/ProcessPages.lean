import SummitFlow.HostMonitor.Retention
import SummitFlow.Spec.ProcessOrder
import SummitFlow.Spec.SeriesRollups

/-!
# Pages of one sample

A client follows the cursors of `processes` while the collector writes samples and deletes
old ones.  Its pages are of one sample as long as the sample its cursor names is not
replaced by another one, and the order of its processes does not change between pages.
A tree takes care of both.  The cursor of a list only has the id of the sample, which
SQLite can use again, and the order of a list by rates needs the samples before.
-/

namespace SummitFlow.Monitor

open HostStore

variable {N : Type}

/-! ## The system -/

/-- A client that follows the cursors with the same filters. -/
structure ProcessClient (N : Type) where
  /-- The cursor of the last page that had processes. -/
  cursor : Option (Cursor ProcessFilters ProcessPosition)
  /-- The request under way. -/
  reading : Option (ProcessReading N)
  /-- The pages that had processes. -/
  pages : List (ProcessPage N)
  finished : Bool
  /-- What the first of them was made from: the sample, and those before it. -/
  observation : Option (ProcessRow N × List (ProcessRow N))

structure ProcessSystem (N : Type) where
  rows : List (ProcessRow N)
  client : ProcessClient N

inductive ProcessOp (N : Type) where
  | write (sample : ProcessRow N)
  | deleteAged (now : Int)
  | deleteDetail
  | deleteBaseline (now : Int)
  | start (limit budget : Nat) (now : Int)
  | finish

/-- The id SQLite gives to a new row: one more than the highest. -/
def nextId (rows : List (ProcessRow N)) : Int := (rows.map (·.id)).max?.elim 1 (· + 1)

/-- What a step of the collector makes of the samples. -/
def storeRows (rows : List (ProcessRow N)) : ProcessOp N → List (ProcessRow N)
  | .write sample => rows ++ [{ sample with id := nextId rows }]
  | .deleteAged now => deleteOldest (·.sampledAtNs)
      (fun row => olderThan rawAgeNs now row.sampledAtNs) rows
  | .deleteDetail => deleteOldest (·.sampledAtNs) (·.mode == "detail") rows
  | .deleteBaseline now => deleteOldest (·.sampledAtNs)
      (fun row => row.mode == "baseline" && olderThan recentBaselineNs now row.sampledAtNs) rows
  | .start .. | .finish => rows

section

variable (nums : ProcessNumbers N) (size : ProcessPage N → Nat) (q : ProcessFilters)

/-- The client asks for the next page. -/
def startPage (rows : List (ProcessRow N)) (limit budget : Nat) (now : Int)
    (client : ProcessClient N) : ProcessClient N :=
  if client.finished || client.reading.isSome then client
  else { client with
    reading := (startProcesses q client.cursor limit budget now rows).toOption }

/-- The client gets its page. -/
def finishPage (rows : List (ProcessRow N)) (client : ProcessClient N) : ProcessClient N :=
  match client.reading with
  | none => client
  | some reading =>
    match finishProcesses nums size q reading rows with
    | .error _ => { client with reading := none }
    | .ok page =>
      -- a page without processes, such as one that says that its budget was too small
      if page.items.isEmpty then { client with reading := none }
      else
        { cursor := page.nextCursor
          reading := none
          pages := client.pages ++ [page]
          finished := page.nextCursor.isNone
          observation := client.observation.or
            (reading.row.map fun row => (row, selectPrevious q row rows)) }

def processStep (s : ProcessSystem N) (op : ProcessOp N) : ProcessSystem N where
  rows := storeRows s.rows op
  client :=
    match op with
    | .start limit budget now => startPage q s.rows limit budget now s.client
    | .finish => finishPage nums size q s.rows s.client
    | _ => s.client

/-- A client that has asked for nothing yet. -/
def ProcessSystem.init (rows : List (ProcessRow N)) : ProcessSystem N :=
  ⟨rows, ⟨none, none, [], false, none⟩⟩

/-! ## The condition -/

/-- The sample is what a cursor with this position goes on with. -/
def Names (position : ProcessPosition) (row : ProcessRow N) : Prop :=
  row.id = position.id ∧
    (q.view = .tree → some (row.sampledAtNs, row.bootId) = position.observation)

/-- The positions the client is at: that of its cursor, and the sample it is reading. -/
def ProcessClient.positions (client : ProcessClient N) : List ProcessPosition :=
  (client.cursor.map (·.position)).toList ++
    ((client.reading.bind (·.row)).map fun row => processPosition q row 0).toList

/-- The collector's step leaves the client its sample: no new sample takes its place, and
    where the order needs the samples before, they stay what they are between pages. -/
structure Undisturbed (s : ProcessSystem N) (op : ProcessOp N) : Prop where
  named : ∀ p ∈ s.client.positions q, ∀ row ∈ storeRows s.rows op, Names q p row → row ∈ s.rows
  before : ordersByRates q → s.client.cursor.isSome = true → ∀ row,
    (s.client.reading.bind (·.row) = some row ∨
      row ∈ storeRows s.rows op ∧ ∃ p ∈ s.client.positions q, Names q p row) →
    selectPrevious q row (storeRows s.rows op) = selectPrevious q row s.rows

/-! ## The invariant -/

/-- The pages are the first processes of a sample. -/
def Paged (pages : List (ProcessPage N)) (row : ProcessRow N) (previous : List (ProcessRow N)) :
    Prop :=
  (∀ item ∈ pages.flatMap (·.items), item.sampledAt = row.sampledAtNs ∧ item.bootId = row.bootId) ∧
    ∃ processes prior, row.blob = .ok processes ∧ priorProcesses nums previous = .ok prior ∧
      (pages.flatMap (·.items)).map (·.process) <+:
        (orderedProcesses nums q row prior processes).map Prod.fst

/-- The client goes on with this sample. -/
structure GoesOn (rows : List (ProcessRow N)) (position : ProcessPosition) (row : ProcessRow N) :
    Prop where
  names : Names q position row
  only : ∀ row' ∈ rows, Names q position row' → row' = row

structure ProcessInv (s : ProcessSystem N) : Prop where
  ids : (s.rows.map (·.id)).Nodup
  fresh : s.client.observation = none → s.client.pages = [] ∧ s.client.cursor = none
  pages : ∀ row previous, s.client.observation = some (row, previous) →
    Paged nums q s.client.pages row previous
  done : s.client.observation ≠ none → s.client.cursor = none → s.client.finished = true
  idle : s.client.finished = true → s.client.reading = none
  cursor : ∀ c row previous, s.client.cursor = some c →
    s.client.observation = some (row, previous) →
    c = ⟨q, processPosition q row (s.client.pages.flatMap (·.items)).length⟩ ∧
      GoesOn q s.rows c.position row ∧
      (ordersByRates q → row ∈ s.rows → selectPrevious q row s.rows = previous)
  position : ∀ reading, s.client.reading = some reading →
    reading.position = s.client.cursor.map (·.position)
  reading : ∀ row, s.client.reading.bind (·.row) = some row →
    GoesOn q s.rows (processPosition q row 0) row ∧
      ∀ c row' previous, s.client.cursor = some c →
        s.client.observation = some (row', previous) →
        row = row' ∧ (ordersByRates q → selectPrevious q row s.rows = previous)

end

/-! ## Steps of the collector -/

theorem nextId_notMem (rows : List (ProcessRow N)) : nextId rows ∉ rows.map (·.id) := by
  intro hmem
  unfold nextId at hmem
  cases hmax : (rows.map (·.id)).max? with
  | none =>
    rw [List.max?_eq_none_iff.mp hmax] at hmem
    cases hmem
  | some greatest =>
    rw [hmax] at hmem
    have hle := (List.max?_eq_some_iff.mp hmax).2 _ hmem
    dsimp only [Option.elim] at hle
    omega

theorem nodup_storeRows {rows : List (ProcessRow N)} (h : (rows.map (·.id)).Nodup)
    (op : ProcessOp N) : ((storeRows rows op).map (·.id)).Nodup := by
  cases op with
  | write sample =>
    show ((rows ++ [_]).map _).Nodup
    rw [List.map_append]
    exact h.append (List.nodup_singleton _) (List.disjoint_singleton.mpr (nextId_notMem rows))
  | deleteAged now => exact h.sublist ((deleteOldest_sublist _ _ _).map _)
  | deleteDetail => exact h.sublist ((deleteOldest_sublist _ _ _).map _)
  | deleteBaseline now => exact h.sublist ((deleteOldest_sublist _ _ _).map _)
  | start | finish => exact h

/-- A step that only changes the samples keeps the invariant. -/
theorem ProcessInv.store {nums : ProcessNumbers N} {q : ProcessFilters} {s : ProcessSystem N}
    (h : ProcessInv nums q s) {op : ProcessOp N} (hop : Undisturbed q s op) :
    ProcessInv nums q ⟨storeRows s.rows op, s.client⟩ := by
  have hgoes : ∀ {position row}, position ∈ s.client.positions q → GoesOn q s.rows position row →
      GoesOn q (storeRows s.rows op) position row := by
    intro position row hposition hgoes
    refine ⟨hgoes.names, ?_⟩
    intro row' hrow' hnames
    exact hgoes.only row' (hop.named position hposition row' hrow' hnames) hnames
  refine ⟨nodup_storeRows h.ids op, h.fresh, h.pages, h.done, h.idle, ?_, h.position, ?_⟩
  · intro c row previous hc hobservation
    obtain ⟨heq, hon, hprevious⟩ := h.cursor c row previous hc hobservation
    have hposition : c.position ∈ s.client.positions q := by
      apply List.mem_append_left
      rw [hc]
      exact List.mem_singleton_self _
    refine ⟨heq, hgoes hposition hon, ?_⟩
    intro hrates hrow
    have hold := hop.named c.position hposition row hrow hon.names
    rw [← hprevious hrates hold]
    exact hop.before hrates (by rw [hc]; rfl) row (.inr ⟨hrow, c.position, hposition, hon.names⟩)
  · intro row hrow
    obtain ⟨hon, hsame⟩ := h.reading row hrow
    have hposition : processPosition q row 0 ∈ s.client.positions q := by
      apply List.mem_append_right
      rw [hrow]
      exact List.mem_singleton_self _
    refine ⟨hgoes hposition hon, ?_⟩
    intro c row' previous hc hobservation
    obtain ⟨heq, hprevious⟩ := hsame c row' previous hc hobservation
    refine ⟨heq, ?_⟩
    intro hrates
    rw [← hprevious hrates]
    exact hop.before hrates (by rw [hc]; rfl) row (.inl hrow)

/-! ## Requests -/

theorem mem_newestFirst {rows : List (ProcessRow N)} {row : ProcessRow N} :
    row ∈ newestFirst rows ↔ row ∈ rows := (List.perm_insertionSort _ _).mem_iff

/-- The sample of a request is stored, and is the one its cursor names. -/
theorem selectRow_some {q : ProcessFilters} {position : Option ProcessPosition} {atNs : Int}
    {rows : List (ProcessRow N)} {row : ProcessRow N}
    (h : selectRow q position atNs rows = some row) :
    row ∈ rows ∧ ∀ p ∈ position, Names q p row := by
  cases position with
  | none =>
    have hmem := mem_newestFirst.mp (List.mem_of_mem_head? h)
    exact ⟨List.mem_of_mem_filter hmem, nofun⟩
  | some position =>
    obtain ⟨hfind, hview⟩ := Option.filter_eq_some_iff.mp h
    refine ⟨List.mem_of_find?_eq_some hfind, ?_⟩
    intro p hp
    obtain rfl : position = p := Option.some.inj hp
    have hid := List.find?_some hfind
    refine ⟨beq_iff_eq.mp hid, ?_⟩
    intro htree
    rw [htree] at hview
    exact beq_iff_eq.mp hview

/-- What a request has read. -/
theorem startProcesses_ok {q : ProcessFilters}
    {cursor : Option (Cursor ProcessFilters ProcessPosition)} {limit budget : Nat} {now : Int}
    {rows : List (ProcessRow N)} {reading : ProcessReading N}
    (h : startProcesses q cursor limit budget now rows = .ok reading) :
    reading.position = cursor.map (·.position) ∧
      ∀ row, reading.row = some row → row ∈ rows ∧ ∀ p ∈ reading.position, Names q p row := by
  unfold startProcesses at h
  obtain ⟨_, -, h⟩ := bind_ok h
  obtain ⟨_, -, h⟩ := bind_ok h
  obtain ⟨now', -, h⟩ := bind_ok h
  obtain ⟨atNs, -, h⟩ := bind_ok h
  obtain ⟨_, -, h⟩ := bind_ok h
  obtain ⟨_, -, h⟩ := bind_ok h
  obtain ⟨_, -, h⟩ := bind_ok h
  obtain ⟨position, hposition, h⟩ := bind_ok h
  obtain rfl := Except.ok.inj h
  obtain ⟨position', hcursor, hreturn⟩ := bind_ok hposition
  obtain ⟨_, -, hreturn⟩ := bind_ok hreturn
  obtain rfl := Except.ok.inj hreturn
  exact ⟨cursorPosition_ok hcursor, fun row hrow => selectRow_some hrow⟩

/-- A row is the only one of its id. -/
theorem goesOn_of_mem {q : ProcessFilters} {rows : List (ProcessRow N)}
    (h : (rows.map (·.id)).Nodup) {row : ProcessRow N} (hrow : row ∈ rows) (offset : Nat) :
    GoesOn q rows (processPosition q row offset) row := by
  refine ⟨⟨rfl, fun htree => ?_⟩, ?_⟩
  · show _ = if q.view = .tree then _ else _
    rw [if_pos htree]
  · intro row' hrow' hnames
    exact List.inj_on_of_nodup_map h hrow' hrow hnames.1

/-- A request that comes to nothing. -/
theorem ProcessInv.stop {nums : ProcessNumbers N} {q : ProcessFilters} {s : ProcessSystem N}
    (h : ProcessInv nums q s) : ProcessInv nums q ⟨s.rows, { s.client with reading := none }⟩ where
  ids := h.ids
  fresh := h.fresh
  pages := h.pages
  done := h.done
  idle := fun _ => rfl
  cursor := h.cursor
  position := fun _ hsome => by cases hsome
  reading := fun _ hsome => by cases hsome

/-- The client asks for a page. -/
theorem ProcessInv.start {nums : ProcessNumbers N} {q : ProcessFilters} {s : ProcessSystem N}
    (h : ProcessInv nums q s) (limit budget : Nat) (now : Int) :
    ProcessInv nums q ⟨s.rows, startPage q s.rows limit budget now s.client⟩ := by
  unfold startPage
  split
  · exact h
  · rename_i hfree
    have hfree' : s.client.finished = false := by
      simp only [Bool.or_eq_true, not_or, Bool.not_eq_true] at hfree
      exact hfree.1
    cases hstart : startProcesses q s.client.cursor limit budget now s.rows with
    | error e => exact h.stop
    | ok reading =>
      obtain ⟨hposition, hrow⟩ := startProcesses_ok hstart
      refine ⟨h.ids, h.fresh, h.pages, h.done, ?_, h.cursor, ?_, ?_⟩
      · intro hfinished
        rw [hfree'] at hfinished
        cases hfinished
      · intro reading' heq
        obtain rfl := Option.some.inj heq
        exact hposition
      · intro row heq
        obtain ⟨hmem, hnames⟩ := hrow row heq
        refine ⟨goesOn_of_mem h.ids hmem 0, ?_⟩
        intro c row' previous hc hobservation
        obtain ⟨-, hon, hprevious⟩ := h.cursor c row' previous hc hobservation
        have hsame : row = row' := by
          apply hon.only row hmem
          apply hnames
          rw [hposition, show s.client.cursor = some c from hc]
          rfl
        subst hsame
        exact ⟨rfl, fun hrates => hprevious hrates hmem⟩

/-- The processes of a page. -/
theorem map_process_items {nums : ProcessNumbers N} {q : ProcessFilters} {now atNs : Int}
    {row : ProcessRow N} {prior : List (Int × Process N)} {items : List (ProcessItem N)}
    {ordered : List (Process N × Option TreeMetadata)}
    (h : items = ordered.map (processItem nums q now atNs row prior)) :
    items.map (·.process) = ordered.map Prod.fst ∧
      ∀ item ∈ items, item.sampledAt = row.sampledAtNs ∧ item.bootId = row.bootId := by
  subst h
  refine ⟨by rw [List.map_map]; rfl, ?_⟩
  intro item hitem
  obtain ⟨p, -, rfl⟩ := List.mem_map.mp hitem
  exact ⟨rfl, rfl⟩

/-- The first page. -/
theorem paged_first {nums : ProcessNumbers N} {size : ProcessPage N → Nat} {q : ProcessFilters}
    {reading : ProcessReading N} {rows : List (ProcessRow N)} {page : ProcessPage N}
    (h : finishProcesses nums size q reading rows = .ok page) (hitems : page.items ≠ [])
    (hposition : reading.position = none) :
    ∃ row, reading.row = some row ∧ Paged nums q [page] row (selectPrevious q row rows) ∧
      ∀ c, page.nextCursor = some c → c = ⟨q, processPosition q row page.items.length⟩ := by
  obtain ⟨row, processes, prior, hrow, hblob, hprior, hpage, hcursor⟩ :=
    finishProcesses_ok h hitems
  rw [hposition] at hpage hcursor
  obtain ⟨hmap, hsample⟩ := map_process_items hpage
  refine ⟨row, hrow, ⟨?_, processes, prior, hblob, hprior, ?_⟩, ?_⟩
  · rw [List.flatMap_singleton]
    exact hsample
  · rw [List.flatMap_singleton, hmap]
    exact (List.take_prefix _ _).map Prod.fst
  · intro c hc
    rw [hcursor c hc]
    show Cursor.mk q (processPosition q row (0 + page.items.length)) = _
    rw [Nat.zero_add]

/-- A page that goes on. -/
theorem Paged.next {nums : ProcessNumbers N} {size : ProcessPage N → Nat} {q : ProcessFilters}
    {pages : List (ProcessPage N)} {row : ProcessRow N} {previous rows : List (ProcessRow N)}
    (h : Paged nums q pages row previous) {reading : ProcessReading N} {page : ProcessPage N}
    (hpage : finishProcesses nums size q reading rows = .ok page) (hitems : page.items ≠ [])
    (hposition : reading.position.elim 0 (·.offset) = (pages.flatMap (·.items)).length)
    (hrow : reading.row = some row)
    (hprevious : ordersByRates q → selectPrevious q row rows = previous) :
    Paged nums q (pages ++ [page]) row previous ∧
      ∀ c, page.nextCursor = some c →
        c = ⟨q, processPosition q row ((pages ++ [page]).flatMap (·.items)).length⟩ := by
  obtain ⟨row', processes', prior', hrow', hblob', hprior', hpage', hcursor⟩ :=
    finishProcesses_ok hpage hitems
  obtain rfl : row = row' := Option.some.inj (hrow.symm.trans hrow')
  obtain ⟨hsample, processes, prior, hblob, hprior, hinitial⟩ := h
  obtain rfl : processes = processes' := Except.ok.inj (hblob.symm.trans hblob')
  -- the order has not changed since the first page
  have hordered : orderedProcesses nums q row prior' processes =
      orderedProcesses nums q row prior processes := by
    by_cases hrates : ordersByRates q
    · rw [hprevious hrates] at hprior'
      obtain rfl : prior = prior' := Except.ok.inj (hprior.symm.trans hprior')
      rfl
    · exact orderedProcesses_congr nums hrates _ _ _ _
  rw [hposition, hordered] at hpage'
  rw [hposition] at hcursor
  obtain ⟨hmap, hsample'⟩ := map_process_items hpage'
  rw [Paged, List.flatMap_append, List.flatMap_singleton, List.length_append]
  refine ⟨⟨?_, processes, prior, hblob, hprior, ?_⟩, hcursor⟩
  · intro item hitem
    rcases List.mem_append.mp hitem with hold | hnew
    · exact hsample item hold
    · exact hsample' item hnew
  · have hold := List.prefix_iff_eq_take.mp hinitial
    rw [List.length_map] at hold
    rw [List.map_append, hmap, hold, List.map_take, List.map_drop, ← List.take_add]
    exact List.take_prefix _ _

/-- A client with one more page of its sample. -/
theorem ProcessInv.ofPage {nums : ProcessNumbers N} {q : ProcessFilters}
    {rows : List (ProcessRow N)} (hids : (rows.map (·.id)).Nodup)
    {pages : List (ProcessPage N)} {row : ProcessRow N} {previous : List (ProcessRow N)}
    (hpaged : Paged nums q pages row previous)
    {next : Option (Cursor ProcessFilters ProcessPosition)}
    (hnext : ∀ c, next = some c → c = ⟨q, processPosition q row (pages.flatMap (·.items)).length⟩)
    (hon : GoesOn q rows (processPosition q row 0) row)
    (hprevious : ordersByRates q → selectPrevious q row rows = previous) :
    ProcessInv nums q ⟨rows, ⟨next, none, pages, next.isNone, some (row, previous)⟩⟩ where
  ids := hids
  fresh := fun hnone => by cases hnone
  pages := by
    intro row' previous' heq
    obtain ⟨rfl, rfl⟩ := Prod.mk.inj (Option.some.inj heq)
    exact hpaged
  done := by
    intro _ hnone
    show next.isNone = true
    rw [show next = none from hnone]
    rfl
  idle := fun _ => rfl
  cursor := by
    intro c row' previous' hc heq
    obtain ⟨rfl, rfl⟩ := Prod.mk.inj (Option.some.inj heq)
    obtain rfl := hnext c hc
    exact ⟨rfl, ⟨hon.names, hon.only⟩, fun hrates _ => hprevious hrates⟩
  position := fun _ hsome => by cases hsome
  reading := fun _ hsome => by cases hsome

/-- The client gets its page. -/
theorem ProcessInv.finish {nums : ProcessNumbers N} {size : ProcessPage N → Nat}
    {q : ProcessFilters} {s : ProcessSystem N} (h : ProcessInv nums q s) :
    ProcessInv nums q ⟨s.rows, finishPage nums size q s.rows s.client⟩ := by
  have hidle := h.stop
  unfold finishPage
  cases hreading : s.client.reading with
  | none => exact h
  | some reading =>
    dsimp only
    cases hpage : finishProcesses nums size q reading s.rows with
    | error e => exact hidle
    | ok page =>
      dsimp only
      split
      · exact hidle
      rename_i hsome
      have hitems : page.items ≠ [] := fun hnil => hsome (by rw [hnil]; rfl)
      have hposition := h.position reading hreading
      have hread : ∀ row, reading.row = some row → s.client.reading.bind (·.row) = some row := by
        intro row hrow
        rw [hreading]
        exact hrow
      cases hobservation : s.client.observation with
      | none =>
        obtain ⟨hpages, hcursor⟩ := h.fresh hobservation
        rw [hcursor] at hposition
        obtain ⟨row, hrow, hpaged, hnext⟩ := paged_first hpage hitems hposition
        rw [hpages, hrow]
        refine .ofPage h.ids hpaged ?_ (h.reading row (hread row hrow)).1 fun _ => rfl
        rw [List.flatMap_singleton]
        exact hnext
      | some observation =>
        obtain ⟨row, previous⟩ := observation
        obtain ⟨c, hc⟩ : ∃ c, s.client.cursor = some c := by
          -- without a cursor the client would have finished
          cases hcursor : s.client.cursor with
          | some c => exact ⟨c, rfl⟩
          | none =>
            have hidle' := h.idle (h.done (by rw [hobservation]; nofun) hcursor)
            rw [hreading] at hidle'
            cases hidle'
        obtain ⟨hcursor, -, -⟩ := h.cursor c row previous hc hobservation
        obtain ⟨row', hrow'⟩ : ∃ row', reading.row = some row' := by
          obtain ⟨row', -, -, hrow', -⟩ := finishProcesses_ok hpage hitems
          exact ⟨row', hrow'⟩
        obtain ⟨hon, hsame⟩ := h.reading row' (hread row' hrow')
        obtain ⟨rfl, hprevious⟩ := hsame c row previous hc hobservation
        have hoffset : reading.position.elim 0 (·.offset) =
            (s.client.pages.flatMap (·.items)).length := by
          rw [hposition, hc, hcursor]
          rfl
        obtain ⟨hpaged, hnext⟩ := (h.pages row' previous hobservation).next hpage hitems hoffset
          hrow' hprevious
        exact .ofPage h.ids hpaged hnext hon hprevious

/-! ## Runs -/

theorem ProcessInv.init (nums : ProcessNumbers N) (q : ProcessFilters)
    {rows : List (ProcessRow N)} (h : (rows.map (·.id)).Nodup) :
    ProcessInv nums q (.init rows) :=
  { ids := h
    fresh := fun _ => ⟨rfl, rfl⟩
    pages := fun _ _ hsome => by cases hsome
    done := fun hnone => absurd rfl hnone
    idle := fun hfinished => by cases hfinished
    cursor := fun _ _ _ hsome => by cases hsome
    position := fun _ hsome => by cases hsome
    reading := fun _ hsome => by cases hsome }

theorem ProcessInv.step {nums : ProcessNumbers N} {size : ProcessPage N → Nat} {q : ProcessFilters}
    {s : ProcessSystem N} (h : ProcessInv nums q s) {op : ProcessOp N} (hop : Undisturbed q s op) :
    ProcessInv nums q (processStep nums size q s op) := by
  cases op with
  | start limit budget now => exact h.start limit budget now
  | finish => exact h.finish
  | write sample => exact h.store hop
  | deleteAged now => exact h.store hop
  | deleteDetail => exact h.store hop
  | deleteBaseline now => exact h.store hop

/-- Exact numbers, also for scores. -/
def exactProcessNumbers : ProcessNumbers ℚ where
  toNumbers := exactNumbers
  sum := List.sum
  sub := fun a b => a - b
  perTime := fun delta scale elapsed => delta * scale / elapsed
  text
    | .str s => s
    | _ => ""

def processOf (pid rss : ℚ) : Json ℚ :=
  .obj [("pid", .num pid), ("start_ticks", .num 1), ("rss_bytes", .num rss)]

def detailRow (id atNs : Int) (processes : List (Json ℚ)) : ProcessRow ℚ where
  id := id
  sampledAtNs := atNs
  bootId := "boot"
  mode := "detail"
  blob := .ok processes
  seen := processes.length
  denied := 0

/-- The list of processes by memory. -/
def byMemory : ProcessFilters := ⟨none, none, none, none, .rss, .list⟩

def processSize (page : ProcessPage ℚ) : Nat := 600 + 500 * page.items.length

def firstSample : ProcessRow ℚ := detailRow 1 5000000000 [processOf 10 300, processOf 11 200]

/-- When and which processes the client has got. -/
def received (ops : List (ProcessOp ℚ)) : List (Int × Option ℚ) :=
  ((run (processStep exactProcessNumbers processSize byMemory) (.init [firstSample]) ops).client.pages.flatMap
    (·.items)).map fun item => (item.sampledAt, item.pid.num?)

end SummitFlow.Monitor
