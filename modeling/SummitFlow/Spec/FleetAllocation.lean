import SummitFlow.Spec.FleetStreams

/-!
# Fleet allocation is exclusive

A root takes a slot: a target root the target of its project, a support root a facet
of its lead.  Before it inserts a root, an append takes the lock of the slot and finds
no open root in it; it has the lock until the row is committed, and so has everybody
who commits a root to that slot.  The lock of a facet is the lead's own, which the
lead's `root.closed` needs too.

Rows of the `root.` kind are never deleted: a root that is closed stays closed.
-/

namespace SummitFlow.Fleet

variable {J : Type} {env : Env J}

/-! ## Slots -/

/-- What a root can be allocated. -/
inductive Slot where
  | target (projectId name : String)
  | facet (lead name : String)

/-- The name whose lock protects a slot. -/
def Slot.lockName : Slot → String
  | .target projectId name => "allocation:" ++ projectId ++ ":" ++ name
  | .facet lead _ => lead

/-- Whether an event starts a root in the slot. -/
def Slot.fits (slot : Slot) (e : Event J) : Bool :=
  e.eventType == "root.started" && match slot with
  | .target projectId name => e.attributes.role == some "neri-target-root" &&
    e.projectId == projectId && e.attributes.scopeTarget == some name
  | .facet lead name => e.attributes.role == some "neri-support-root" &&
    e.attributes.leadRoot == some lead && e.attributes.facet == some name

/-- The stream has a `root.closed` row. -/
def closedIn (table : List (Row J)) (traceId : String) : Bool :=
  table.any fun row => row.traceId == traceId && row.eventType == "root.closed"

/-- The roots started in a slot and not closed. -/
def openRoots (slot : Slot) (table : List (Row J)) : List (Row J) :=
  table.filter fun row => slot.fits row.toEvent && !closedIn table row.traceId

theorem closedIn_append (table : List (Row J)) (row : Row J) (traceId : String) :
    closedIn (table ++ [row]) traceId =
      (closedIn table traceId || (row.traceId == traceId && row.eventType == "root.closed")) := by
  simp [closedIn]

/-- A commit opens no root but its own. -/
theorem openRoots_commit (slot : Slot) (table : List (Row J)) (row : Row J) :
    (openRoots slot (table ++ [row])).Sublist
      (openRoots slot table ++ if slot.fits row.toEvent then [row] else []) := by
  unfold openRoots
  rw [List.filter_append]
  apply List.Sublist.append
  · apply List.monotone_filter_right
    intro r hr
    rw [closedIn_append] at hr
    simp only [Bool.and_eq_true, Bool.not_eq_true', Bool.or_eq_false_iff] at hr ⊢
    exact ⟨hr.1, hr.2.1⟩
  · split
    · exact List.filter_sublist
    · next hfits => simp [hfits]

theorem lifecycle_root_closed : lifecycle "root.closed" = true := by decide

/-- A deletion that keeps the lifecycle rows reopens no root. -/
theorem closedIn_delete {table : List (Row J)} {p : Row J → Bool}
    (hkeep : ∀ row ∈ table, lifecycle row.eventType = true → p row = true) (traceId : String) :
    closedIn (table.filter p) traceId = closedIn table traceId := by
  unfold closedIn
  rw [List.any_filter, Bool.eq_iff_iff, List.any_eq_true, List.any_eq_true]
  constructor
  · rintro ⟨row, hrow, hp⟩
    exact ⟨row, hrow, (Bool.and_eq_true_iff.mp hp).2⟩
  · rintro ⟨row, hrow, hclosed⟩
    refine ⟨row, hrow, Bool.and_eq_true_iff.mpr ⟨hkeep row hrow ?_, hclosed⟩⟩
    have htype : row.eventType = "root.closed" := by
      simp only [Bool.and_eq_true, beq_iff_eq] at hclosed
      exact hclosed.2
    rw [htype]
    exact lifecycle_root_closed

theorem openRoots_delete (slot : Slot) {table : List (Row J)} {p : Row J → Bool}
    (hkeep : ∀ row ∈ table, lifecycle row.eventType = true → p row = true) :
    (openRoots slot (table.filter p)).Sublist (openRoots slot table) := by
  unfold openRoots
  simp only [closedIn_delete hkeep]
  exact List.filter_sublist.filter _

/-! ## What the checks of an append find -/

theorem rootClosed_events {s : Sys J} (hplain : s.plain = []) (traceId : String) :
    rootClosed s.events traceId = closedIn s.table traceId := by
  simp [rootClosed, closedIn, Sys.events, hplain, List.any_map, Function.comp_def]

theorem openRoots_target {s : Sys J} (hplain : s.plain = []) {projectId name : String}
    (h : targetOpen s.events projectId name = false) :
    openRoots (.target projectId name) s.table = [] := by
  unfold openRoots
  rw [List.filter_eq_nil_iff]
  intro row hrow hopen
  simp only [Slot.fits, Bool.and_eq_true, beq_iff_eq, Bool.not_eq_true'] at hopen
  obtain ⟨⟨htype, ⟨hrole, hproject⟩, htarget⟩, hclosed⟩ := hopen
  have hfound : targetOpen s.events projectId name = true := by
    apply List.any_eq_true.mpr
    refine ⟨row.toEvent, ?_, ?_⟩
    · simp only [Sys.events, hplain, List.append_nil]
      exact List.mem_map_of_mem hrow
    · rw [rootClosed_events hplain]
      simp [htype, hrole, hproject, htarget, hclosed]
  rw [h] at hfound
  cases hfound

theorem openRoots_facet {s : Sys J} (hplain : s.plain = []) {lead name : String}
    (h : supportOpen s.events lead name = false) : openRoots (.facet lead name) s.table = [] := by
  unfold openRoots
  rw [List.filter_eq_nil_iff]
  intro row hrow hopen
  simp only [Slot.fits, Bool.and_eq_true, beq_iff_eq, Bool.not_eq_true'] at hopen
  obtain ⟨⟨htype, ⟨hrole, hlead⟩, hfacet⟩, hclosed⟩ := hopen
  have hfound : supportOpen s.events lead name = true := by
    apply List.any_eq_true.mpr
    refine ⟨row.toEvent, ?_, ?_⟩
    · simp only [Sys.events, hplain, List.append_nil]
      exact List.mem_map_of_mem hrow
    · rw [rootClosed_events hplain]
      simp [htype, hlead, hfacet, hclosed]
  rw [h] at hfound
  cases hfound

/-! ## What a transaction knows -/

/-- The event an append inserts. -/
def AppendArgs.event (args : AppendArgs J) (now : Int) : Event J :=
  ⟨args.projectId, args.traceId, args.eventType, args.attributes, now⟩

/-- The append starts a support root of this lead. -/
def AppendArgs.Support (args : AppendArgs J) (lead : String) : Prop :=
  args.eventType = "root.started" ∧ args.attributes.role = some "neri-support-root" ∧
    args.attributes.leadRoot = some lead

/-- The append starts a target root on this target. -/
def AppendArgs.Target (args : AppendArgs J) (name : String) : Prop :=
  args.eventType = "root.started" ∧ args.attributes.role = some "neri-target-root" ∧
    args.attributes.scopeTarget = some name

/-- The slot of the new root is free and locked. -/
def Cleared (env : Env J) (s : Sys J) (id : Nat) (args : AppendArgs J) : Prop :=
  ∀ slot : Slot, (∀ now, slot.fits (args.event now) = true) →
    s.Holds env id slot.lockName ∧ openRoots slot s.table = []

/-- The lead of a new support root is open and locked. -/
def LeadOpen (env : Env J) (s : Sys J) (id : Nat) (args : AppendArgs J) : Prop :=
  ∀ lead, args.Support lead → s.Holds env id lead ∧ closedIn s.table lead = false

/-- What the admission checks have established before each statement of an append. -/
def PhaseAdmitted (env : Env J) (s : Sys J) (id : Nat) (args : AppendArgs J) : Phase J → Prop
  | .lockTrace | .selectExisting | .checkOpen | .commitExisting _ => True
  | .lockLead lead => args.Support lead
  | .checkLeadClosed lead => args.Support lead ∧ s.Holds env id lead
  | .checkFacet lead name => args.Support lead ∧ args.attributes.facet = some name ∧
    s.Holds env id lead ∧ closedIn s.table lead = false
  | .lockTarget name => args.Target name
  | .checkTarget name => args.Target name ∧
    s.Holds env id (Slot.target args.projectId name).lockName
  | .selectMax | .insert _ => Cleared env s id args ∧ LeadOpen env s id args
  | .commitNew row => Cleared env s id args ∧ LeadOpen env s id args ∧
    ∃ now sequence, row = newRow env args now sequence

/-- The append was to an open root only, and has found it open. -/
def OpenKnown (s : Sys J) (args : AppendArgs J) : Phase J → Prop
  | .lockTrace | .selectExisting | .checkOpen | .commitExisting _ => True
  | _ => args.requireOpen = true → streamClosed s.table args.traceId = false

/-- A transaction in progress: an append has passed its checks, and a cleanup takes no
    lifecycle row. -/
def Tx.Admitted (env : Env J) (s : Sys J) (id : Nat) : Tx J → Prop
  | .append args _ phase => PhaseAdmitted env s id args phase ∧ OpenKnown s args phase
  | .cleanup _ _ _ deleted => ∀ row ∈ deleted, lifecycle row.eventType = false

theorem closedIn_rowsOf (table : List (Row J)) (traceId : String) :
    closedIn table traceId = (rowsOf table traceId).any (·.eventType == "root.closed") := by
  rw [closedIn, rowsOf, List.any_filter]
  rfl

theorem streamClosed_rowsOf (table : List (Row J)) (traceId : String) :
    streamClosed table traceId = (rowsOf table traceId).any fun row =>
      row.eventType == "root.closed" || row.eventType == "root.close-uncertain" := by
  rw [streamClosed, rowsOf, List.any_filter]
  rfl

/-- The step left a transaction what it knows: its locks, the streams these protect, and
    the free slots. -/
structure Kept (env : Env J) (s s' : Sys J) (id : Nat) : Prop where
  streams : Undisturbed env s s' id
  slots : ∀ slot : Slot, s.Holds env id slot.lockName → openRoots slot s.table = [] →
    openRoots slot s'.table = []

theorem Kept.closedIn {s s' : Sys J} {id : Nat} (h : Kept env s s' id) {traceId : String}
    (hheld : s.Holds env id traceId) : closedIn s'.table traceId = closedIn s.table traceId := by
  rw [closedIn_rowsOf, closedIn_rowsOf, (h.streams traceId hheld).2]

theorem Cleared.transfer {s s' : Sys J} {id : Nat} {args : AppendArgs J}
    (h : Cleared env s id args) (hkept : Kept env s s' id) : Cleared env s' id args := by
  intro slot hfits
  obtain ⟨hheld, hfree⟩ := h slot hfits
  exact ⟨(hkept.streams _ hheld).1, hkept.slots slot hheld hfree⟩

theorem LeadOpen.transfer {s s' : Sys J} {id : Nat} {args : AppendArgs J}
    (h : LeadOpen env s id args) (hkept : Kept env s s' id) : LeadOpen env s' id args := by
  intro lead hlead
  obtain ⟨hheld, hopen⟩ := h lead hlead
  refine ⟨(hkept.streams _ hheld).1, ?_⟩
  rw [hkept.closedIn hheld]
  exact hopen

theorem PhaseAdmitted.transfer {s s' : Sys J} {id : Nat} {args : AppendArgs J} {phase : Phase J}
    (h : PhaseAdmitted env s id args phase) (hkept : Kept env s s' id) :
    PhaseAdmitted env s' id args phase := by
  cases phase with
  | checkLeadClosed lead => exact ⟨h.1, (hkept.streams _ h.2).1⟩
  | checkFacet lead name =>
    obtain ⟨hsupport, hfacet, hheld, hopen⟩ := h
    refine ⟨hsupport, hfacet, (hkept.streams _ hheld).1, ?_⟩
    rw [hkept.closedIn hheld]
    exact hopen
  | checkTarget name => exact ⟨h.1, (hkept.streams _ h.2).1⟩
  | selectMax => exact ⟨h.1.transfer hkept, h.2.transfer hkept⟩
  | insert sequence => exact ⟨h.1.transfer hkept, h.2.transfer hkept⟩
  | commitNew row => exact ⟨h.1.transfer hkept, h.2.1.transfer hkept, h.2.2⟩
  | lockTrace => trivial
  | selectExisting => trivial
  | checkOpen => trivial
  | commitExisting row => trivial
  | lockLead lead => exact h
  | lockTarget name => exact h

theorem OpenKnown.of_eq {s s' : Sys J} {args : AppendArgs J} {phase : Phase J}
    (h : OpenKnown s args phase)
    (heq : streamClosed s'.table args.traceId = streamClosed s.table args.traceId) :
    OpenKnown s' args phase := by
  cases phase <;> first | trivial | (intro hopen; rw [heq]; exact h hopen)

theorem Tx.Admitted.transfer {s s' : Sys J} {id : Nat} {tx : Tx J} (h : tx.Admitted env s id)
    (hok : tx.Ok env s id) (hkept : Kept env s s' id) : tx.Admitted env s' id := by
  cases tx with
  | cleanup maxAgeDays now phase deleted => exact h
  | append args now phase =>
    refine ⟨h.1.transfer hkept, ?_⟩
    have hknown := h.2
    cases phase with
    | lockTrace => trivial
    | _ =>
      apply hknown.of_eq
      rw [streamClosed_rowsOf, streamClosed_rowsOf, (hkept.streams _ hok.2).2]

/-! ## The invariant -/

/-- The row starts a support root of the stream that the other row closes. -/
def LateSupport (closed started : Row J) : Prop :=
  closed.eventType = "root.closed" ∧ started.eventType = "root.started" ∧
    started.attributes.role = some "neri-support-root" ∧
    started.attributes.leadRoot = some closed.traceId

/-- The invariant of allocation, next to that of the streams. -/
structure Allocated (env : Env J) (s : Sys J) : Prop where
  plain : s.plain = []
  retained : ∀ row ∈ s.log, lifecycle row.eventType = true → row ∈ s.table
  slots : ∀ slot : Slot, (openRoots slot s.table).length ≤ 1
  supports : s.log.Pairwise fun closed started => ¬ LateSupport closed started
  txs : ∀ id tx, s.txs id = some tx → tx.Admitted env s id

theorem Allocated.initial : Allocated env (Sys.initial : Sys J) :=
  ⟨rfl, by simp [Sys.initial], by simp [Sys.initial, openRoots], List.Pairwise.nil,
    fun _ _ h => (nomatch h)⟩

theorem kept_of_table {s s' : Sys J} {id : Nat} (htable : s'.table = s.table)
    (hlocks : ∀ key, s.locks key = some id → s'.locks key = some id) : Kept env s s' id :=
  ⟨fun _ hheld => ⟨hlocks _ hheld, by rw [htable]⟩, fun _ _ hfree => by rw [htable, hfree]⟩

/-- A step of one transaction keeps what the others know. -/
theorem Allocated.txs_of_kept {s s' : Sys J} (h : Allocated env s) (hinv : Inv env s) (id : Nat)
    (hothers : ∀ other, other ≠ id → s'.txs other = s.txs other ∧ Kept env s s' other)
    (hself : ∀ tx, s'.txs id = some tx → tx.Admitted env s' id) :
    ∀ other tx, s'.txs other = some tx → tx.Admitted env s' other := by
  intro other tx htx
  by_cases hid : other = id
  · subst hid
    exact hself tx htx
  · obtain ⟨hsame, hkept⟩ := hothers other hid
    rw [hsame] at htx
    exact (h.txs other tx htx).transfer (hinv.txs other tx htx) hkept

theorem Allocated.setTx {s : Sys J} (h : Allocated env s) (hinv : Inv env s) {id : Nat} {tx : Tx J}
    (htx : tx.Admitted env s id) : Allocated env (s.setTx id tx) where
  plain := h.plain
  retained := h.retained
  slots := h.slots
  supports := h.supports
  txs := by
    apply h.txs_of_kept hinv id
    · intro other hne
      exact ⟨by simp [Sys.setTx, hne], kept_of_table rfl fun _ hkey => hkey⟩
    · intro tx' htx'
      obtain rfl : tx = tx' := by simpa [Sys.setTx] using htx'
      cases tx with
      | append args now phase => exact htx
      | cleanup maxAgeDays now phase deleted => exact htx

theorem Allocated.endTx {s : Sys J} (h : Allocated env s) (hinv : Inv env s) (id : Nat) :
    Allocated env (s.endTx id) where
  plain := h.plain
  retained := h.retained
  slots := h.slots
  supports := h.supports
  txs := by
    apply h.txs_of_kept hinv id
    · intro other hne
      exact ⟨by simp [Sys.endTx, hne],
        kept_of_table rfl fun _ hkey => LockTable.releaseAll_of_held hne hkey⟩
    · intro tx htx
      simp [Sys.endTx] at htx

theorem Allocated.take {s : Sys J} (h : Allocated env s) (hinv : Inv env s) {id : Nat} {key : Int}
    (havail : s.locks.available id key) :
    Allocated env { s with locks := s.locks.take id key } where
  plain := h.plain
  retained := h.retained
  slots := h.slots
  supports := h.supports
  txs := fun other tx htx => (h.txs other tx htx).transfer (hinv.txs other tx htx)
    (kept_of_table rfl fun _ hkey => LockTable.take_of_held havail hkey)

/-- Waiting for a lock, or going on with it. -/
theorem Allocated.lockThen {s : Sys J} (h : Allocated env s) (hinv : Inv env s) {id : Nat}
    {key : Int} {tx : Tx J}
    (htx : ∀ s', Kept env s s' id → s'.locks key = some id → tx.Admitted env s' id) :
    Allocated env (s.lockThen id key tx).1 := by
  unfold Sys.lockThen
  split
  · next havail =>
    apply (h.take hinv havail).setTx (hinv.take havail)
    exact htx _ (kept_of_table rfl fun _ hkey => LockTable.take_of_held havail hkey)
      (LockTable.take_self _ _)
  · exact h

/-! ## One statement -/

/-- The only slot a support root fits is its facet of its lead. -/
theorem fits_support {args : AppendArgs J} {lead name : String} (hsupport : args.Support lead)
    (hfacet : args.attributes.facet = some name) {slot : Slot}
    (hfits : ∀ now, slot.fits (args.event now) = true) : slot = .facet lead name := by
  have h := hfits 0
  cases slot with
  | target projectId target => simp [Slot.fits, AppendArgs.event, hsupport.2.1] at h
  | facet lead' name' =>
    simp only [Slot.fits, AppendArgs.event, hsupport.1, hsupport.2.1, hsupport.2.2, hfacet,
      Bool.and_eq_true, beq_iff_eq, Option.some.injEq] at h
    rw [h.2.1.2, h.2.2]

theorem fits_target {args : AppendArgs J} {name : String} (htarget : args.Target name)
    {slot : Slot} (hfits : ∀ now, slot.fits (args.event now) = true) :
    slot = .target args.projectId name := by
  have h := hfits 0
  cases slot with
  | facet lead' name' => simp [Slot.fits, AppendArgs.event, htarget.2.1] at h
  | target projectId target =>
    simp only [Slot.fits, AppendArgs.event, htarget.1, htarget.2.1, htarget.2.2,
      Bool.and_eq_true, beq_iff_eq, Option.some.injEq] at h
    rw [h.2.1.2, h.2.2]

/-- The next phase of an append that passed its check for an open root. -/
theorem admission_admitted {s : Sys J} {id : Nat} {args : AppendArgs J} {phase : Phase J}
    (h : admission args = .ok phase) : PhaseAdmitted env s id args phase := by
  unfold admission at h
  split at h
  · next hsupport =>
    split at h
    · cases h
    · next lead hlead =>
      cases h
      exact ⟨hsupport.1, hsupport.2, hlead⟩
  · next hsupport =>
    split at h
    · next htarget =>
      split at h
      · cases h
      · cases h
      · next target hscope =>
        cases h
        exact ⟨htarget.1, htarget.2, by simp [Attributes.scopeTarget, hscope]⟩
    · next htarget =>
      cases h
      refine ⟨?_, ?_⟩
      · intro slot hfits
        have hslot := hfits 0
        -- every slot is for one of the two roles
        cases slot with
        | target projectId name =>
          simp only [Slot.fits, AppendArgs.event, Bool.and_eq_true, beq_iff_eq] at hslot
          exact absurd ⟨hslot.1, hslot.2.1.1⟩ htarget
        | facet lead name =>
          simp only [Slot.fits, AppendArgs.event, Bool.and_eq_true, beq_iff_eq] at hslot
          exact absurd ⟨hslot.1, hslot.2.1.1⟩ hsupport
      · intro lead hlead
        exact absurd ⟨hlead.1, hlead.2.1⟩ hsupport

theorem admission_openKnown {s : Sys J} {args : AppendArgs J} {phase : Phase J}
    (hopen : args.requireOpen = true → streamClosed s.table args.traceId = false)
    (h : admission args = .ok phase) : OpenKnown s args phase := by
  unfold admission at h
  split at h
  · split at h <;> cases h
    exact hopen
  · split at h
    · split at h <;> cases h
      exact hopen
    · cases h
      exact hopen

/-- A statement turns what the transaction knows into what it knows before the next. -/
theorem statement_admitted {s : Sys J} (h : Allocated env s) {id : Nat} {args : AppendArgs J}
    {now : Int} {phase phase' : Phase J} (hadmitted : PhaseAdmitted env s id args phase)
    (hknown : OpenKnown s args phase) (hok : statement env s args now phase = .ok phase') :
    PhaseAdmitted env s id args phase' ∧ OpenKnown s args phase' := by
  cases phase with
  | selectExisting =>
    simp only [statement] at hok
    split at hok
    · split at hok <;> cases hok
      exact ⟨trivial, trivial⟩
    · split at hok
      · cases hok
        exact ⟨trivial, trivial⟩
      · next hopen =>
        exact ⟨admission_admitted hok, admission_openKnown (fun ht => absurd ht hopen) hok⟩
  | checkOpen =>
    simp only [statement] at hok
    split at hok
    · cases hok
    · next hopen =>
      refine ⟨admission_admitted hok, admission_openKnown (fun _ => ?_) hok⟩
      simpa using hopen
  | checkLeadClosed lead =>
    simp only [statement] at hok
    split at hok
    · cases hok
    · next hclosed =>
      split at hok
      · cases hok
      · next name hfacet =>
        cases hok
        refine ⟨⟨hadmitted.1, hfacet, hadmitted.2, ?_⟩, hknown⟩
        rw [← rootClosed_events h.plain]
        simpa using hclosed
  | checkFacet lead name =>
    obtain ⟨hsupport, hfacet, hheld, hopen⟩ := hadmitted
    simp only [statement] at hok
    split at hok
    · cases hok
    · next hfree =>
      cases hok
      refine ⟨⟨?_, ?_⟩, hknown⟩
      · intro slot hfits
        rw [fits_support hsupport hfacet hfits]
        exact ⟨hheld, openRoots_facet h.plain (by simpa using hfree)⟩
      · intro lead' hlead'
        obtain rfl : lead = lead' := Option.some.inj (hsupport.2.2.symm.trans hlead'.2.2)
        exact ⟨hheld, hopen⟩
  | checkTarget name =>
    obtain ⟨htarget, hheld⟩ := hadmitted
    simp only [statement] at hok
    split at hok
    · cases hok
    · next hfree =>
      cases hok
      refine ⟨⟨?_, ?_⟩, hknown⟩
      · intro slot hfits
        rw [fits_target htarget hfits]
        exact ⟨hheld, openRoots_target h.plain (by simpa using hfree)⟩
      · intro lead hlead
        have hrole := htarget.2.1.symm.trans hlead.2.1
        exact absurd hrole (by decide)
  | selectMax =>
    cases hok
    exact ⟨hadmitted, hknown⟩
  | insert sequence =>
    simp only [statement] at hok
    split at hok <;> cases hok
    exact ⟨⟨hadmitted.1, hadmitted.2, now, sequence, rfl⟩, hknown⟩
  | lockTrace => cases hok; exact ⟨hadmitted, hknown⟩
  | lockLead lead => cases hok; exact ⟨hadmitted, hknown⟩
  | lockTarget target => cases hok; exact ⟨hadmitted, hknown⟩
  | commitExisting row => cases hok; exact ⟨hadmitted, hknown⟩
  | commitNew row => cases hok; exact ⟨hadmitted, hknown⟩

/-! ## The commits -/

theorem closedIn_of_mem {table : List (Row J)} {row : Row J} (hrow : row ∈ table)
    (hclosed : row.eventType = "root.closed") : closedIn table row.traceId = true :=
  List.any_eq_true.mpr ⟨row, hrow, by simp [hclosed]⟩

/-- Committing a row that passed its checks. -/
theorem Allocated.commitNew {s : Sys J} (h : Allocated env s) (hinv : Inv env s) {id : Nat}
    {args : AppendArgs J} {now sequence : Int} {row : Row J}
    (hrow : row = newRow env args now sequence) (hheld : s.Holds env id args.traceId)
    (hcleared : Cleared env s id args) (hlead : LeadOpen env s id args) :
    Allocated env ({ s with table := s.table ++ [row], log := s.log ++ [row] }.endTx id) := by
  have hslot : ∀ slot : Slot, slot.fits row.toEvent = true →
      s.Holds env id slot.lockName ∧ openRoots slot s.table = [] := by
    intro slot hfits
    apply hcleared slot
    intro now'
    rw [← hfits, hrow]
    rfl
  have htrace : row.traceId = args.traceId := by
    rw [hrow]
    rfl
  refine ⟨h.plain, ?_, ?_, ?_, ?_⟩
  · intro r hr hlife
    rcases List.mem_append.mp hr with hr | hr
    · exact List.mem_append_left _ (h.retained r hr hlife)
    · exact List.mem_append_right _ hr
  · intro slot
    have hlength := (openRoots_commit slot s.table row).length_le
    have hone := h.slots slot
    rw [List.length_append] at hlength
    by_cases hfits : slot.fits row.toEvent = true
    · rw [(hslot slot hfits).2, if_pos hfits] at hlength
      exact hlength
    · rw [if_neg hfits] at hlength
      exact hlength.trans hone
  · apply List.pairwise_append.mpr
    refine ⟨h.supports, List.pairwise_singleton _ _, ?_⟩
    intro closed hclosed started hstarted hlate
    obtain rfl := List.mem_singleton.mp hstarted
    have hsupport : args.Support closed.traceId := by
      rw [hrow] at hlate
      exact hlate.2
    have htable : closed ∈ s.table := by
      apply h.retained closed hclosed
      rw [hlate.1]
      exact lifecycle_root_closed
    have hopen := (hlead _ hsupport).2
    rw [closedIn_of_mem htable hlate.1] at hopen
    cases hopen
  · apply h.txs_of_kept hinv id
    · intro other hne
      refine ⟨by simp [Sys.endTx, hne], ?_, ?_⟩
      · apply Undisturbed.trans (undisturbed_table hne fun traceId hnot => ?_)
          (undisturbed_endTx _ hne)
        have hother : row.traceId ≠ traceId := fun heq => hnot (heq ▸ htrace ▸ hheld)
        simp [rowsOf, hother]
      · intro slot hother hfree
        have hsub := openRoots_commit slot s.table row
        rw [hfree] at hsub
        by_cases hfits : slot.fits row.toEvent = true
        · -- whoever commits to the slot has its lock
          exact absurd (Option.some.inj (hother.symm.trans (hslot slot hfits).1)) hne
        · rw [if_neg hfits] at hsub
          exact List.sublist_nil.mp hsub
    · intro tx htx
      simp [Sys.endTx] at htx

/-- Committing deletions. -/
theorem Allocated.commitDeleted {s : Sys J} (h : Allocated env s) (hinv : Inv env s) {id : Nat}
    {p : Row J → Bool} (hkeep : ∀ row ∈ s.table, lifecycle row.eventType = true → p row = true)
    (hheld : ∀ row ∈ s.table, p row = false → s.Holds env id row.traceId) :
    Allocated env ({ s with table := s.table.filter p }.endTx id) := by
  refine ⟨h.plain, ?_, ?_, h.supports, ?_⟩
  · intro row hrow hlife
    have htable := h.retained row hrow hlife
    exact List.mem_filter.mpr ⟨htable, hkeep row htable hlife⟩
  · intro slot
    exact (openRoots_delete slot hkeep).length_le.trans (h.slots slot)
  · apply h.txs_of_kept hinv id
    · intro other hne
      refine ⟨by simp [Sys.endTx, hne], ?_, ?_⟩
      · apply Undisturbed.trans (undisturbed_table hne fun traceId hnot => ?_)
          (undisturbed_endTx _ hne)
        exact rowsOf_filter_of_held hheld hnot
      · intro slot _ hfree
        have hsub := openRoots_delete slot hkeep
        rw [hfree] at hsub
        exact List.sublist_nil.mp hsub
    · intro tx htx
      simp [Sys.endTx] at htx

/-! ## Every step -/

theorem Allocated.advanceAppend {s : Sys J} (h : Allocated env s) (hinv : Inv env s) {id : Nat}
    {args : AppendArgs J} {now : Int} {phase : Phase J}
    (hok : (Tx.append args now phase).Ok env s id)
    (hadmitted : (Tx.append args now phase).Admitted env s id) :
    Allocated env (Fleet.advanceAppend env s id args now phase).1 := by
  cases phase with
  | lockTrace => exact h.lockThen hinv fun s' _ _ => ⟨trivial, trivial⟩
  | lockLead lead =>
    apply h.lockThen hinv
    intro s' hkept hkey
    have htransfer := hadmitted.transfer hok hkept
    exact ⟨⟨htransfer.1, hkey⟩, htransfer.2⟩
  | lockTarget target =>
    apply h.lockThen hinv
    intro s' hkept hkey
    have htransfer := hadmitted.transfer hok hkept
    exact ⟨⟨htransfer.1, hkey⟩, htransfer.2⟩
  | commitExisting row => exact h.endTx hinv id
  | commitNew row =>
    obtain ⟨⟨hcleared, hlead, now', sequence, hrow⟩, -⟩ := hadmitted
    exact h.commitNew hinv hrow hok.2 hcleared hlead
  | _ =>
    unfold Fleet.advanceAppend
    dsimp only
    split
    · exact h.endTx hinv id
    · next hnext => exact h.setTx hinv (statement_admitted h hadmitted.1 hadmitted.2 hnext)

theorem lifecycle_expired {table : List (Row J)} {root : String} {now : Int} {maxAgeDays : Nat}
    {row : Row J} (h : row ∈ expired table root now maxAgeDays) :
    lifecycle row.eventType = false := by
  have hp := (List.mem_filter.mp h).2
  simp only [Bool.and_eq_true, Bool.not_eq_true'] at hp
  exact hp.1.1

section

variable [DecidableEq J]

theorem Allocated.advanceCleanup {s : Sys J} (h : Allocated env s) (hinv : Inv env s) {id : Nat}
    {maxAgeDays : Nat} {now : Int} {phase : CleanupPhase} {deleted : List (Row J)}
    (hok : (Tx.cleanup maxAgeDays now phase deleted).Ok env s id)
    (hadmitted : (Tx.cleanup maxAgeDays now phase deleted).Admitted env s id) :
    Allocated env (Fleet.advanceCleanup env s id maxAgeDays now deleted phase).1 := by
  have hdeleted : ∀ row ∈ deleted, lifecycle row.eventType = false := hadmitted
  cases phase with
  | selectRoots => exact h.setTx hinv hdeleted
  | deleteFrom root roots =>
    apply h.setTx hinv
    intro row hrow
    rcases List.mem_append.mp hrow with hrow | hrow
    · exact hdeleted row hrow
    · exact lifecycle_expired hrow
  | lockRoot roots =>
    cases roots with
    | nil =>
      apply h.commitDeleted hinv
      · intro row _ hlife
        simp only [decide_eq_true_eq]
        intro hmem
        rw [hdeleted row hmem] at hlife
        cases hlife
      · intro row _ hp
        exact (hok.1 row (by simpa using hp)).1
    | cons root roots => exact h.lockThen hinv fun s' _ _ => hdeleted

/-- Every step but a change of the plain events keeps the allocation exclusive. -/
theorem Allocated.next {s : Sys J} (h : Allocated env s) (hinv : Inv env s) {a : Action J}
    (ha : ∀ events, a ≠ .setPlain events) : Allocated env (next env s a) := by
  unfold Fleet.next
  cases a with
  | beginAppend id args now =>
    simp only [step]
    split
    · exact h
    · exact h.setTx hinv ⟨trivial, trivial⟩
    · exact h
  | beginCleanup id maxAgeDays now =>
    simp only [step]
    split
    · exact h
    · split
      · exact h.setTx hinv (by simp [Tx.Admitted])
      · exact h
  | advance id =>
    simp only [step]
    split
    · exact h
    · next tx htx =>
      have hok := hinv.txs id tx htx
      have hadmitted := h.txs id tx htx
      cases tx with
      | append args now phase => exact h.advanceAppend hinv hok hadmitted
      | cleanup maxAgeDays now phase deleted => exact h.advanceCleanup hinv hok hadmitted
  | abort id => exact h.endTx hinv id
  | openReader id projectId traceId cursor =>
    exact ⟨h.plain, h.retained, h.slots, h.supports, fun other tx htx =>
      (h.txs other tx htx).transfer (hinv.txs other tx htx) (kept_of_table rfl fun _ hkey => hkey)⟩
  | read id limit =>
    simp only [step]
    split
    · exact h
    · split
      · exact h
      · exact ⟨h.plain, h.retained, h.slots, h.supports, fun other tx htx =>
          (h.txs other tx htx).transfer (hinv.txs other tx htx)
            (kept_of_table rfl fun _ hkey => hkey)⟩
  | setPlain events => exact absurd rfl (ha events)

/-- The allocation is exclusive after every run of appends, cleanups and readers. -/
theorem Allocated.run (env : Env J) {actions : List (Action J)}
    (hactions : ∀ a ∈ actions, ∀ events, a ≠ .setPlain events) :
    Inv env (SummitFlow.run (Fleet.next env) Sys.initial actions) ∧
      Allocated env (SummitFlow.run (Fleet.next env) Sys.initial actions) := by
  apply run_invariant (P := fun s => Inv env s ∧ Allocated env s)
  · intro s a ha h
    exact ⟨h.1.next a, h.2.next h.1 (hactions a ha)⟩
  · exact ⟨Inv.initial, Allocated.initial⟩

/-! ## Appends to open roots only -/

omit [DecidableEq J] in
theorem log_lockThen (s : Sys J) (id : Nat) (key : Int) (tx : Tx J) :
    (s.lockThen id key tx).1.log = s.log := by
  unfold Sys.lockThen
  split <;> rfl

omit [DecidableEq J] in
theorem log_advanceAppend (s : Sys J) (id : Nat) (args : AppendArgs J) (now : Int)
    (phase : Phase J) : s.log <+: (advanceAppend env s id args now phase).1.log := by
  cases phase with
  | lockTrace | lockLead lead | lockTarget target =>
    simp only [advanceAppend, log_lockThen]
    exact List.prefix_refl _
  | commitExisting row => exact List.prefix_refl _
  | commitNew row => exact List.prefix_append _ _
  | _ =>
    unfold advanceAppend
    dsimp only
    split
    · exact List.prefix_refl _
    · exact List.prefix_refl _

/-- The log only grows. -/
theorem log_next (env : Env J) (s : Sys J) (a : Action J) : s.log <+: (next env s a).log := by
  unfold Fleet.next
  cases a with
  | advance id =>
    simp only [step]
    split
    · exact List.prefix_refl _
    · next tx _ =>
      cases tx with
      | append args now phase => exact log_advanceAppend s id args now phase
      | cleanup maxAgeDays now phase deleted =>
        cases phase with
        | lockRoot roots =>
          cases roots with
          | nil => exact List.prefix_refl _
          | cons root roots =>
            simp only [advance, advanceCleanup, log_lockThen]
            exact List.prefix_refl _
        | selectRoots => exact List.prefix_refl _
        | deleteFrom root roots => exact List.prefix_refl _
  | beginAppend id args now =>
    simp only [step]
    split <;> exact List.prefix_refl _
  | beginCleanup id maxAgeDays now =>
    simp only [step]
    split
    · exact List.prefix_refl _
    · split <;> exact List.prefix_refl _
  | read id limit =>
    simp only [step]
    split
    · exact List.prefix_refl _
    · split <;> exact List.prefix_refl _
  | abort id => exact List.prefix_refl _
  | openReader id projectId traceId cursor => exact List.prefix_refl _
  | setPlain events => exact List.prefix_refl _

theorem log_run (env : Env J) (s : Sys J) (actions : List (Action J)) :
    s.log <+: (run (next env) s actions).log :=
  run_invariant (P := fun t => s.log <+: t.log) (fun t a _ h => h.trans (log_next env t a))
    (List.prefix_refl _)

/-- The row a step commits for an append with `require_open`. -/
def openAppend (s : Sys J) : Action J → Option (Row J)
  | .advance id => match s.txs id with
    | some (.append args _ (.commitNew row)) => if args.requireOpen then some row else none
    | _ => none
  | _ => none

omit [DecidableEq J] in
theorem openAppend_cases {s : Sys J} {a : Action J} {row : Row J}
    (h : openAppend s a = some row) : ∃ id args now, a = .advance id ∧
      s.txs id = some (.append args now (.commitNew row)) ∧ args.requireOpen = true := by
  unfold openAppend at h
  split at h
  · next id =>
    split at h
    · next args now row' htx =>
      split at h
      · next hopen =>
        cases h
        exact ⟨id, args, now, rfl, htx, hopen⟩
      · cases h
    · cases h
  · cases h

/-- The row closes its root, or may have. -/
def Row.Closes (row : Row J) : Prop :=
  row.eventType = "root.closed" ∨ row.eventType = "root.close-uncertain"

omit [DecidableEq J] in
theorem Row.Closes.lifecycle {row : Row J} (h : row.Closes) : lifecycle row.eventType = true := by
  rcases h with h | h
  · rw [h]
    exact lifecycle_root_closed
  · rw [h]
    decide

/-- An append with `require_open` commits to a stream no row has closed, at the end of
    the log. -/
theorem openAppend_open {s : Sys J} (h : Allocated env s) (hinv : Inv env s) {a : Action J}
    {row : Row J} (ha : openAppend s a = some row) :
    (next env s a).log = s.log ++ [row] ∧
      ∀ closed ∈ s.log, closed.Closes → closed.traceId ≠ row.traceId := by
  obtain ⟨id, args, now, rfl, htx, hopen⟩ := openAppend_cases ha
  constructor
  · simp only [Fleet.next, step, htx]
    rfl
  · intro closed hclosed hcloses htrace
    have hknown : streamClosed s.table args.traceId = false := (h.txs id _ htx).2 hopen
    have hrow : row.traceId = args.traceId := (hinv.txs id _ htx).1.1
    have hfound : streamClosed s.table args.traceId = true := by
      apply List.any_eq_true.mpr
      refine ⟨closed, h.retained closed hclosed hcloses.lifecycle, ?_⟩
      rw [htrace, hrow]
      simpa [Row.Closes] using hcloses
    rw [hknown] at hfound
    cases hfound

/-- In every run of appends, cleanups and readers, each target of a project and each
    facet of a lead has at most one open root, no support root was committed after its
    lead was closed, and what was appended with `require_open` precedes the close of its
    root. -/
theorem fleet_allocation_exclusive (env : Env J) (actions : List (Action J))
    (hactions : ∀ a ∈ actions, ∀ events, a ≠ .setPlain events) :
    let s := run (next env) Sys.initial actions
    (∀ slot : Slot, (openRoots slot s.table).length ≤ 1) ∧
    (s.log.Pairwise fun closed started => ¬ LateSupport closed started) ∧
    ∀ pre a post row, actions = pre ++ a :: post →
      openAppend (run (next env) Sys.initial pre) a = some row →
      ∀ closed ∈ s.log, closed.Closes → closed.traceId = row.traceId →
        row.sequence ≤ closed.sequence := by
  intro s
  obtain ⟨hinv, h⟩ := Allocated.run env hactions
  refine ⟨h.slots, h.supports, ?_⟩
  intro pre a post row hsplit happend closed hclosed hcloses htrace
  have hpre : ∀ b ∈ pre, ∀ events, b ≠ .setPlain events := fun b hb =>
    hactions b (hsplit ▸ List.mem_append_left _ hb)
  obtain ⟨hinv', h'⟩ := Allocated.run env hpre
  obtain ⟨hlog, hopen⟩ := openAppend_open h' hinv' happend
  -- the log is what it was before, the row, and what came later
  obtain ⟨later, hlater⟩ : (run (next env) Sys.initial pre).log ++ [row] <+: s.log := by
    have hgrows := log_run env (next env (run (next env) Sys.initial pre) a) post
    rw [hlog] at hgrows
    simpa [s, hsplit] using hgrows
  have hincreasing : s.log.Pairwise Later := hinv.stored.increasing
  rw [← hlater] at hclosed hincreasing
  rcases List.mem_append.mp hclosed with hbefore | hafter
  · rcases List.mem_append.mp hbefore with hbefore | hself
    · exact absurd htrace (hopen closed hbefore hcloses)
    · rw [List.mem_singleton.mp hself]
  · have hpair := (List.pairwise_append.mp hincreasing).2.2 row (by simp) closed hafter
    exact (hpair htrace.symm).le

end

/-- A target root is started, and gets an instruction that needs it open. -/
def instructedRoot : List (Action Unit) :=
  let attributes : Attributes Unit := ⟨some "neri-target-root", none, none, some ⟨some "t"⟩, ()⟩
  let started : AppendArgs Unit := ⟨"p", "root", "started", "root.started", attributes, none,
    false, false⟩
  let instruction : AppendArgs Unit := ⟨"p", "root", "instruction", "instruction.retained",
    ⟨none, none, none, none, ()⟩, none, true, false⟩
  .beginAppend 0 started 0 :: .beginAppend 1 instruction 0 :: List.replicate 7 (.advance 0) ++
    List.replicate 6 (.advance 1)

theorem fleet_allocation_exclusive_instructed :
    let env : Env Unit := ⟨fun name => name.length, fun kind _ => kind, fun _ => 0⟩
    let s := run (next env) Sys.initial instructedRoot
    s.log.map (fun row => (row.eventType, row.sequence)) =
      [("root.started", 1), ("instruction.retained", 2)] ∧
    (openRoots (.target "p" "t") s.table).length = 1 ∧
    (∀ slot : Slot, (openRoots slot s.table).length ≤ 1) := by
  intro env s
  refine ⟨by decide +kernel, by decide +kernel, ?_⟩
  refine (fleet_allocation_exclusive env instructedRoot ?_).1
  intro a ha events
  simp only [instructedRoot, List.replicate, List.cons_append, List.nil_append, List.mem_cons,
    List.not_mem_nil, or_false] at ha
  rintro rfl
  simp at ha

end SummitFlow.Fleet
