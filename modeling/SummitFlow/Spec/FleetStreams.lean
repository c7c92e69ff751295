import SummitFlow.Spec.FleetPages

/-!
# Fleet streams replay exactly

An append allocates above the greatest retained sequence under the stream's lock, and a
cleanup, under the same lock, never deletes the row with the greatest sequence.  What
carries both facts through every interleaving is that a transaction's view of a stream
(`PhaseOk`, `Tx.Ok`) depends on the rows of that stream only, and nobody else can
change these while it has the lock (`Tx.Ok.transfer`).
-/

namespace SummitFlow.Fleet

variable {J : Type}

/-! ## Transactions under their locks -/

/-- What an append knows about the rows of its stream before each statement, once it has
    the stream's lock. -/
def PhaseOk (rows : List (Row J)) (args : AppendArgs J) : Phase J → Prop
  | .lockTrace | .selectExisting => True
  | .checkOpen | .lockLead _ | .checkLeadClosed _ | .checkFacet _ _ | .lockTarget _
  | .checkTarget _ | .selectMax => ∀ r ∈ rows, r.sourceKey ≠ args.sourceKey
  | .insert sequence =>
    (∀ r ∈ rows, r.sourceKey ≠ args.sourceKey) ∧ ∀ r ∈ rows, r.sequence < sequence
  | .commitExisting row => row ∈ rows ∧ row.sourceKey = args.sourceKey
  | .commitNew row => row.traceId = args.traceId ∧ row.sourceKey = args.sourceKey ∧
    (∀ r ∈ rows, r.sourceKey ≠ row.sourceKey) ∧ ∀ r ∈ rows, r.sequence < row.sequence

variable {env : Env J}

/-- The transaction holds a stream's lock. -/
def Sys.Holds (env : Env J) (s : Sys J) (id : Nat) (traceId : String) : Prop :=
  s.locks (env.lockKey traceId) = some id

/-- What a transaction in progress may rely on. -/
def Tx.Ok (env : Env J) (s : Sys J) (id : Nat) : Tx J → Prop
  | .append args _ phase => PhaseOk (rowsOf s.table args.traceId) args phase ∧
    match phase with
    | .lockTrace => True
    | _ => s.Holds env id args.traceId
  | .cleanup _ _ phase deleted =>
    (∀ row ∈ deleted, s.Holds env id row.traceId ∧
      ∃ r ∈ rowsOf s.table row.traceId, row.sequence < r.sequence) ∧
    match phase with
    | .deleteFrom root _ => s.Holds env id root
    | _ => True

/-- The step left a transaction its locks, and the streams these protect. -/
def Undisturbed (env : Env J) (s s' : Sys J) (id : Nat) : Prop :=
  ∀ traceId, s.Holds env id traceId →
    s'.Holds env id traceId ∧ rowsOf s'.table traceId = rowsOf s.table traceId

theorem Tx.Ok.transfer {s s' : Sys J} {id : Nat} {tx : Tx J} (h : tx.Ok env s id)
    (hs : Undisturbed env s s' id) : tx.Ok env s' id := by
  cases tx with
  | append args now phase =>
    obtain ⟨hphase, hheld⟩ := h
    cases phase with
    | lockTrace => exact ⟨trivial, trivial⟩
    | _ =>
      obtain ⟨hheld', hrows⟩ := hs _ hheld
      refine ⟨?_, hheld'⟩
      rw [hrows]
      exact hphase
  | cleanup maxAgeDays now phase deleted =>
    obtain ⟨hdeleted, hphase⟩ := h
    refine ⟨fun row hrow => ?_, ?_⟩
    · obtain ⟨hheld, hbelow⟩ := hdeleted row hrow
      obtain ⟨hheld', hrows⟩ := hs _ hheld
      rw [hrows]
      exact ⟨hheld', hbelow⟩
    · cases phase with
      | deleteFrom root roots => exact (hs _ hphase).1
      | selectRoots => trivial
      | lockRoot roots => trivial

theorem undisturbed_setTx (s : Sys J) (id : Nat) (tx : Tx J) (other : Nat) :
    Undisturbed env s (s.setTx id tx) other := fun _ h => ⟨h, rfl⟩

/-- The end of a transaction disturbs nobody who did not share its locks. -/
theorem undisturbed_endTx (s : Sys J) {id other : Nat} (hne : other ≠ id) :
    Undisturbed env s (s.endTx id) other :=
  fun _ h => ⟨LockTable.releaseAll_of_held hne h, rfl⟩

theorem undisturbed_take {s : Sys J} {id : Nat} {key : Int}
    (havail : s.locks.available id key) (other : Nat) :
    Undisturbed env s { s with locks := s.locks.take id key } other :=
  fun _ h => ⟨LockTable.take_of_held havail h, rfl⟩

theorem Undisturbed.trans {s t u : Sys J} {id : Nat} (hst : Undisturbed env s t id)
    (htu : Undisturbed env t u id) : Undisturbed env s u id := by
  intro traceId h
  obtain ⟨ht, hrows⟩ := hst traceId h
  obtain ⟨hu, hrows'⟩ := htu traceId ht
  exact ⟨hu, hrows'.trans hrows⟩

/-- A change of streams whose locks one transaction holds disturbs no other one. -/
theorem undisturbed_table {s : Sys J} {id other : Nat} (hne : other ≠ id)
    {table log : List (Row J)}
    (hsame : ∀ traceId, ¬ s.Holds env id traceId → rowsOf table traceId = rowsOf s.table traceId) :
    Undisturbed env s { s with table := table, log := log } other := by
  intro traceId h
  refine ⟨h, hsame traceId fun hid => hne ?_⟩
  exact Option.some.inj (h.symm.trans hid)

/-! ## The invariant -/

/-- The invariant of the whole system. -/
structure Inv (env : Env J) (s : Sys J) : Prop where
  stored : Stored s.table s.log
  txs : ∀ id tx, s.txs id = some tx → tx.Ok env s id
  readers : ∀ id reader, s.readers id = some reader → reader.Ok s.log

theorem Inv.initial : Inv env (Sys.initial : Sys J) :=
  ⟨Stored.nil, fun _ _ h => (nomatch h), fun _ _ h => (nomatch h)⟩

/-- A step of one transaction keeps the others' knowledge when it disturbs none of them. -/
theorem Inv.txs_of_undisturbed {s s' : Sys J} (h : Inv env s) (id : Nat)
    (hothers : ∀ other, other ≠ id → s'.txs other = s.txs other ∧ Undisturbed env s s' other)
    (hself : ∀ tx, s'.txs id = some tx → tx.Ok env s' id) :
    ∀ other tx, s'.txs other = some tx → tx.Ok env s' other := by
  intro other tx htx
  by_cases hid : other = id
  · subst hid
    exact hself tx htx
  · obtain ⟨hsame, hund⟩ := hothers other hid
    rw [hsame] at htx
    exact (h.txs other tx htx).transfer hund

/-- The next statement of a transaction that knows enough for it. -/
theorem Inv.setTx {s : Sys J} (h : Inv env s) {id : Nat} {tx : Tx J} (htx : tx.Ok env s id) :
    Inv env (s.setTx id tx) where
  stored := h.stored
  readers := h.readers
  txs := by
    apply h.txs_of_undisturbed id
    · intro other hne
      exact ⟨by simp [Sys.setTx, hne], undisturbed_setTx s id tx other⟩
    · intro tx' htx'
      obtain rfl : tx = tx' := by simpa [Sys.setTx] using htx'
      exact htx.transfer (undisturbed_setTx s id tx id)

theorem Inv.take {s : Sys J} (h : Inv env s) {id : Nat} {key : Int}
    (havail : s.locks.available id key) :
    Inv env { s with locks := s.locks.take id key } where
  stored := h.stored
  readers := h.readers
  txs := fun other tx htx => (h.txs other tx htx).transfer (undisturbed_take havail other)

theorem Inv.endTx {s : Sys J} (h : Inv env s) (id : Nat) : Inv env (s.endTx id) where
  stored := h.stored
  readers := h.readers
  txs := by
    apply h.txs_of_undisturbed id
    · intro other hne
      exact ⟨by simp [Sys.endTx, hne], undisturbed_endTx s hne⟩
    · intro tx htx
      simp [Sys.endTx] at htx

/-- Waiting for a lock, or going on with it. -/
theorem Inv.lockThen {s : Sys J} (h : Inv env s) {id : Nat} {key : Int} {tx : Tx J}
    (htx : ∀ s', s'.table = s.table → s'.locks key = some id →
      (∀ k, s.locks k = some id → s'.locks k = some id) → tx.Ok env s' id) :
    Inv env (s.lockThen id key tx).1 := by
  unfold Sys.lockThen
  split
  · next havail =>
    exact (h.take havail).setTx (htx _ rfl (LockTable.take_self _ _)
      fun k hk => LockTable.take_of_held havail hk)
  · exact h

/-! ## One statement -/

theorem admission_ok {rows : List (Row J)} {args : AppendArgs J} {phase : Phase J}
    (hkey : ∀ r ∈ rows, r.sourceKey ≠ args.sourceKey) (h : admission args = .ok phase) :
    PhaseOk rows args phase := by
  unfold admission at h
  split at h
  · split at h <;> cases h
    exact hkey
  · split at h
    · split at h <;> cases h
      exact hkey
    · cases h
      exact hkey

theorem selectExisting_some {table : List (Row J)} {traceId sourceKey : String} {row : Row J}
    (h : selectExisting table traceId sourceKey = some row) :
    row ∈ rowsOf table traceId ∧ row.sourceKey = sourceKey := by
  have hp := List.find?_some h
  simp only [Bool.and_eq_true, beq_iff_eq] at hp
  exact ⟨mem_rowsOf.mpr ⟨List.mem_of_find?_eq_some h, hp.1⟩, hp.2⟩

theorem selectExisting_none {table : List (Row J)} {traceId sourceKey : String}
    (h : selectExisting table traceId sourceKey = none) :
    ∀ r ∈ rowsOf table traceId, r.sourceKey ≠ sourceKey := by
  intro r hr hkey
  rw [mem_rowsOf] at hr
  have := List.find?_eq_none.mp h r hr.1
  simp [hr.2, hkey] at this

/-- A statement turns what the transaction knows into what the next one needs; the lock
    keeps it true until then. -/
theorem statement_ok {s : Sys J} {args : AppendArgs J} {now : Int} {phase phase' : Phase J}
    (hphase : PhaseOk (rowsOf s.table args.traceId) args phase)
    (h : statement env s args now phase = .ok phase') :
    PhaseOk (rowsOf s.table args.traceId) args phase' := by
  cases phase with
  | selectExisting =>
    simp only [statement] at h
    cases hrow : Fleet.selectExisting s.table args.traceId args.sourceKey with
    | some row =>
      rw [hrow] at h
      simp only at h
      split at h <;> cases h
      exact selectExisting_some hrow
    | none =>
      have hkey := selectExisting_none hrow
      rw [hrow] at h
      simp only at h
      split at h
      · cases h
        exact hkey
      · exact admission_ok hkey h
  | checkOpen =>
    simp only [statement] at h
    split at h
    · cases h
    · exact admission_ok hphase h
  | checkLeadClosed lead =>
    simp only [statement] at h
    split at h
    · cases h
    · split at h <;> cases h
      exact hphase
  | checkFacet lead facet =>
    simp only [statement] at h
    split at h <;> cases h
    exact hphase
  | checkTarget target =>
    simp only [statement] at h
    split at h <;> cases h
    exact hphase
  | selectMax =>
    cases h
    exact ⟨hphase, fun r hr => lt_nextSequence hr⟩
  | insert sequence =>
    simp only [statement] at h
    split at h <;> cases h
    exact ⟨rfl, rfl, hphase⟩
  | lockTrace => cases h; exact hphase
  | lockLead lead => cases h; exact hphase
  | lockTarget target => cases h; exact hphase
  | commitExisting row => cases h; exact hphase
  | commitNew row => cases h; exact hphase

/-- Committing a new row. -/
theorem Inv.commitNew {s : Sys J} (h : Inv env s) {id : Nat} {row : Row J}
    (hheld : s.Holds env id row.traceId)
    (hkey : ∀ r ∈ rowsOf s.table row.traceId, r.sourceKey ≠ row.sourceKey)
    (habove : ∀ r ∈ rowsOf s.table row.traceId, r.sequence < row.sequence) :
    Inv env ({ s with table := s.table ++ [row], log := s.log ++ [row] }.endTx id) := by
  have hlog : ∀ r ∈ s.log, r.traceId = row.traceId → r.sequence < row.sequence := by
    intro r hr htrace
    obtain ⟨top, htop, hle⟩ := h.stored.highWater r hr
    rw [htrace] at htop
    have := habove top htop
    omega
  refine ⟨h.stored.commit habove hkey, ?_, fun other reader hr => (h.readers other reader hr).commit hlog⟩
  apply h.txs_of_undisturbed id
  · intro other hne
    refine ⟨by simp [Sys.endTx, hne], ?_⟩
    apply Undisturbed.trans (undisturbed_table hne fun traceId hnot => ?_) (undisturbed_endTx _ hne)
    have hother : row.traceId ≠ traceId := fun heq => hnot (heq ▸ hheld)
    simp [rowsOf, hother]
  · intro tx htx
    simp [Sys.endTx] at htx

/-- Every row of a stream whose lock is not held stays. -/
theorem rowsOf_filter_of_held {s : Sys J} {id : Nat} {p : Row J → Bool} {traceId : String}
    (hheld : ∀ row ∈ s.table, p row = false → s.Holds env id row.traceId)
    (hnot : ¬ s.Holds env id traceId) :
    rowsOf (s.table.filter p) traceId = rowsOf s.table traceId := by
  simp only [rowsOf, List.filter_filter]
  apply List.filter_congr
  intro row hrow
  by_cases htrace : row.traceId = traceId
  · have hp : p row = true := by
      by_contra hp
      exact hnot (htrace ▸ hheld row hrow (by simpa using hp))
    simp [hp]
  · simp [htrace]

/-- Committing deletions. -/
theorem Inv.commitDeleted {s : Sys J} (h : Inv env s) {id : Nat} {p : Row J → Bool}
    (hdeleted : ∀ row ∈ s.table, p row = false → s.Holds env id row.traceId ∧
      ∃ r ∈ rowsOf s.table row.traceId, row.sequence < r.sequence) :
    Inv env ({ s with table := s.table.filter p }.endTx id) := by
  refine ⟨h.stored.delete fun row hrow hp => (hdeleted row hrow hp).2, ?_, h.readers⟩
  apply h.txs_of_undisturbed id
  · intro other hne
    refine ⟨by simp [Sys.endTx, hne], ?_⟩
    apply Undisturbed.trans (undisturbed_table hne fun traceId hnot => ?_) (undisturbed_endTx _ hne)
    exact rowsOf_filter_of_held (fun row hrow hp => (hdeleted row hrow hp).1) hnot
  · intro tx htx
    simp [Sys.endTx] at htx

theorem Inv.advanceAppend {s : Sys J} (h : Inv env s) {id : Nat} {args : AppendArgs J} {now : Int}
    {phase : Phase J} (htx : (Tx.append args now phase).Ok env s id) :
    Inv env (Fleet.advanceAppend env s id args now phase).1 := by
  obtain ⟨hphase, hheld⟩ := htx
  cases phase with
  | lockTrace =>
    exact h.lockThen fun s' _ hkey _ => ⟨trivial, hkey⟩
  | lockLead lead =>
    refine h.lockThen fun s' htable _ hlocks => ⟨?_, hlocks _ hheld⟩
    rw [htable]
    exact hphase
  | lockTarget target =>
    refine h.lockThen fun s' htable _ hlocks => ⟨?_, hlocks _ hheld⟩
    rw [htable]
    exact hphase
  | commitExisting row => exact h.endTx id
  | commitNew row =>
    obtain ⟨htrace, hsource, hkey, habove⟩ := hphase
    rw [← htrace] at hheld hkey habove
    exact h.commitNew hheld hkey habove
  | _ =>
    unfold Fleet.advanceAppend
    dsimp only
    split
    · exact h.endTx id
    · next next hnext =>
      apply h.setTx
      constructor
      · exact statement_ok hphase hnext
      · cases next <;> first | exact hheld | trivial

section

variable [DecidableEq J]

theorem Inv.advanceCleanup {s : Sys J} (h : Inv env s) {id : Nat} {maxAgeDays : Nat} {now : Int}
    {phase : CleanupPhase} {deleted : List (Row J)}
    (htx : (Tx.cleanup maxAgeDays now phase deleted).Ok env s id) :
    Inv env (Fleet.advanceCleanup env s id maxAgeDays now deleted phase).1 := by
  obtain ⟨hdeleted, hphase⟩ := htx
  cases phase with
  | selectRoots => exact h.setTx ⟨hdeleted, trivial⟩
  | deleteFrom root roots =>
    refine h.setTx ⟨fun row hrow => ?_, trivial⟩
    rcases List.mem_append.mp hrow with hrow | hrow
    · exact hdeleted row hrow
    · obtain ⟨hmem, hbelow⟩ := expired_below hrow
      obtain ⟨-, rfl⟩ := mem_rowsOf.mp hmem
      exact ⟨hphase, hbelow⟩
  | lockRoot roots =>
    cases roots with
    | nil =>
      apply h.commitDeleted
      intro row _ hp
      exact hdeleted row (by simpa using hp)
    | cons root roots =>
      refine h.lockThen fun s' htable hkey hlocks => ⟨fun row hrow => ?_, hkey⟩
      obtain ⟨hheld, hbelow⟩ := hdeleted row hrow
      rw [htable]
      exact ⟨hlocks _ hheld, hbelow⟩

/-- Every step of the system keeps the invariant. -/
theorem Inv.next {s : Sys J} (h : Inv env s) (a : Action J) : Inv env (next env s a) := by
  unfold Fleet.next
  cases a with
  | beginAppend id args now =>
    simp only [step]
    split
    · exact h
    · exact h.setTx ⟨trivial, trivial⟩
    · exact h
  | beginCleanup id maxAgeDays now =>
    simp only [step]
    split
    · exact h
    · split
      · exact h.setTx ⟨by simp, trivial⟩
      · exact h
  | advance id =>
    simp only [step]
    split
    · exact h
    · next tx htx =>
      have hok := h.txs id tx htx
      cases tx with
      | append args now phase => exact h.advanceAppend hok
      | cleanup maxAgeDays now phase deleted => exact h.advanceCleanup hok
  | abort id => exact h.endTx id
  | openReader id projectId traceId cursor =>
    refine ⟨h.stored, h.txs, fun other reader hr => ?_⟩
    by_cases hid : other = id
    · subst hid
      obtain rfl : Reader.mk projectId traceId cursor cursor [] = reader := by
        simpa [step] using hr
      have hempty : stretch s.log projectId traceId cursor cursor = [] := by
        rw [List.eq_nil_iff_forall_not_mem]
        intro row hrow
        have := (mem_stretch.mp hrow).2.2.2
        omega
      exact ⟨hempty.symm, rfl, by simp⟩
    · exact h.readers other reader (by simpa [step, hid] using hr)
  | read id limit =>
    simp only [step]
    split
    · exact h
    · next reader hreader =>
      split
      · exact h
      · next reader' page hread =>
        refine ⟨h.stored, h.txs, fun other r hr => ?_⟩
        by_cases hid : other = id
        · subst hid
          obtain rfl : reader' = r := by simpa using hr
          exact (h.readers other reader hreader).read h.stored hread
        · exact h.readers other r (by simpa [hid] using hr)
  | setPlain events => exact ⟨h.stored, h.txs, h.readers⟩

/-- The invariant holds after every run. -/
theorem Inv.run (actions : List (Action J)) :
    Inv env (run (Fleet.next env) Sys.initial actions) :=
  run_invariant (fun _ a _ h => h.next a) Inv.initial

end

/-! ## What an append returns -/

/-- Only the two commits of an append answer with a record. -/
theorem advanceAppend_appended {s : Sys J} {id : Nat} {args : AppendArgs J} {now : Int}
    {phase : Phase J} {record : Record J}
    (h : (advanceAppend env s id args now phase).2 = .appended record) :
    (∃ row, phase = .commitExisting row ∧ record = args.record row false) ∨
      ∃ row, phase = .commitNew row ∧ record = args.record row true := by
  cases phase with
  | commitExisting row =>
    cases h
    exact .inl ⟨row, rfl, rfl⟩
  | commitNew row =>
    cases h
    exact .inr ⟨row, rfl, rfl⟩
  | lockTrace | lockLead lead | lockTarget target =>
    simp only [advanceAppend, Sys.lockThen] at h
    split at h <;> cases h
  | _ =>
    simp only [advanceAppend, Sys.fail] at h
    split at h <;> cases h

section

variable [DecidableEq J]

/-- An append that returns a record committed it, or found it: the stream's retained row
    with the source key. -/
theorem appended_retained {s : Sys J} (h : Inv env s) {id : Nat} {record : Record J}
    (ha : (step env s (.advance id)).2 = .appended record) :
    ∃ args now phase, s.txs id = some (.append args now phase) ∧
      record.row ∈ (next env s (.advance id)).table ∧
      record.row.traceId = args.traceId ∧ record.row.sourceKey = args.sourceKey := by
  unfold next
  simp only [step] at ha ⊢
  cases htx : s.txs id with
  | none => simp [htx] at ha
  | some tx =>
    have hok := h.txs id tx htx
    simp only [htx] at ha ⊢
    cases tx with
    | cleanup maxAgeDays now phase deleted =>
      cases phase with
      | lockRoot roots =>
        cases roots with
        | nil => cases ha
        | cons root roots =>
          simp only [advance, advanceCleanup, Sys.lockThen] at ha
          split at ha <;> cases ha
      | selectRoots => cases ha
      | deleteFrom root roots => cases ha
    | append args now phase =>
      refine ⟨args, now, phase, rfl, ?_⟩
      simp only [advance] at ha ⊢
      rcases advanceAppend_appended ha with ⟨row, rfl, rfl⟩ | ⟨row, rfl, rfl⟩
      · obtain ⟨hmem, hkey⟩ := hok.1
        obtain ⟨htable, htrace⟩ := mem_rowsOf.mp hmem
        exact ⟨htable, htrace, hkey⟩
      · obtain ⟨htrace, hkey, -⟩ := hok.1
        exact ⟨List.mem_append_right _ List.mem_cons_self, htrace, hkey⟩

/-- In every run of appends, cleanups and readers, after each of its steps: the sequences
    committed to a stream grew with every commit; the retained rows are among them and
    differ in their source keys; a record an append returns is the retained row of its
    source key; what a reader received are the rows committed to its stream from its
    start up to its cursor, without a gap; and a page is the retained rows that follow
    the cursor, or the report of a gap. -/
theorem fleet_streams_replay (env : Env J) (actions : List (Action J)) :
    let s := run (next env) Sys.initial actions
    s.log.Pairwise Later ∧ s.table.Sublist s.log ∧ s.table.Pairwise KeysDiffer ∧
    (∀ id record, (step env s (.advance id)).2 = .appended record →
      ∃ args now phase, s.txs id = some (.append args now phase) ∧
        record.row ∈ (next env s (.advance id)).table ∧
        record.row.traceId = args.traceId ∧ record.row.sourceKey = args.sourceKey ∧
        ∀ r ∈ (next env s (.advance id)).table, r.traceId = args.traceId →
          r.sourceKey = args.sourceKey → r.sequence = record.row.sequence) ∧
    (∀ id reader, s.readers id = some reader →
      reader.received =
        stretch s.log reader.projectId reader.traceId reader.start reader.cursor ∧
      reader.received.map Row.sequence = sequencesFrom reader.start reader.received.length ∧
      reader.cursor = reader.start + reader.received.length) ∧
    (∀ projectId traceId cursor limit, PageAnswer s.table projectId traceId cursor limit
      (readFleetPage s.table projectId traceId cursor limit)) := by
  intro s
  have h : Inv env s := Inv.run actions
  refine ⟨h.stored.increasing, h.stored.sublist, h.stored.keys, ?_, ?_, ?_⟩
  · intro id record ha
    obtain ⟨args, now, phase, htx, hmem, htrace, hkey⟩ := appended_retained h ha
    refine ⟨args, now, phase, htx, hmem, htrace, hkey, fun r hr hrtrace hrkey => ?_⟩
    have heq : r = record.row := (h.next (.advance id)).stored.key_inj hr hmem
      (hrtrace.trans htrace.symm) (hrkey.trans hkey.symm)
    rw [heq]
  · intro id reader hreader
    have hok := h.readers id reader hreader
    exact ⟨hok.complete, hok.contiguous, hok.cursor_eq⟩
  · intro projectId traceId cursor limit
    exact readFleetPage_answer h.stored projectId traceId cursor limit

end

end SummitFlow.Fleet
