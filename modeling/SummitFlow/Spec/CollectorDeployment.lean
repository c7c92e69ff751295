import Mathlib
import SummitFlow.Spec.CollectorUnit

/-!
# Recoverable collector deployments

Sequences of installs, rollbacks and finalizations with failures and kills.  A transaction is
live from the marker to the settled receipt.  While rollbacks are only asked for live
transactions, there is one at most, nothing that the deployment is about changes without one,
and the directories it may go back to are there.
-/

namespace SummitFlow.HostMonitorDeploy

/-! ## The invariant -/

/-- A transaction with a marker whose receipt is not settled. -/
def Host.Live (h : Host) (transaction : String) : Prop :=
  transaction ∈ h.markers ∧
    ∃ receipt, Dict.get? transaction h.receipts = some receipt ∧ receipt.status.settled = false

/-- The directories that the unit in place runs from. -/
def Host.dirs (h : Host) : List String := execDirs (h.unit.getD "")

/-- The directories that a transaction may have the unit run from. -/
def Record.dirs (record : Record) : List String :=
  record.release :: execDirs (record.previousUnit.getD "")

/-- The unit does not run, unless a rollback was misled about it. -/
def Host.Stopped (h : Host) : Prop := h.active = false ∨ h.history.misread = true

/-- A record is about the release of its transaction; where there was no unit, it says that
    none was enabled and, unless a rollback was misled, that none ran. -/
structure Record.Faithful (record : Record) (transaction : String) (misread : Bool) : Prop where
  release : record.release = releasePath transaction
  absent : misread = false → record.previousUnit = none →
    record.systemEnabled = false ∧ record.systemActive = false

/-- What holds between any two steps. -/
structure Sound (h : Host) : Prop where
  records : ∀ transaction receipt, Dict.get? transaction h.receipts = some receipt →
    receipt.record.Faithful transaction h.history.misread
  marked : ∀ transaction ∈ h.markers, (Dict.get? transaction h.receipts).isSome = true
  activated : ∀ transaction receipt, Dict.get? transaction h.receipts = some receipt →
    receipt.status = .activated → transaction ∈ h.markers
  unique : ∀ transaction other, h.Live transaction → h.Live other → transaction = other
  changed : h.observed ≠ h.history.settled → ∃ transaction, h.Live transaction
  placed : ∀ transaction receipt, Dict.get? transaction h.receipts = some receipt →
    h.Live transaction → ∀ dir ∈ h.dirs, dir ∈ receipt.record.dirs
  guarded : ∀ transaction receipt, Dict.get? transaction h.receipts = some receipt →
    h.Live transaction → ∀ dir ∈ receipt.record.dirs, dir ∉ h.history.removed
  present : ∀ dir ∈ h.dirs, dir ∉ h.history.removed
  gone : ∀ name ∈ h.releases, releasePath name ∉ h.history.removed
  stopped : h.unit = none → h.Stopped

/-- Records stay as they are. -/
def Kept (h h' : Host) : Prop :=
  ∀ transaction status record, Dict.get? transaction h.receipts = some ⟨status, record⟩ →
    ∃ status', Dict.get? transaction h'.receipts = some ⟨status', record⟩

theorem Kept.of_eq {h h' : Host} (hreceipts : h'.receipts = h.receipts) : Kept h h' := by
  intro transaction status record hget
  exact ⟨status, by rw [hreceipts, hget]⟩

theorem Kept.refl (h : Host) : Kept h h := .of_eq rfl

theorem Kept.trans {h h' h'' : Host} (first : Kept h h') (second : Kept h' h'') : Kept h h'' := by
  intro transaction status record hget
  obtain ⟨status', hget'⟩ := first transaction status record hget
  exact second transaction status' record hget'

/-- The transaction that the steps belong to is live. -/
structure InTransaction (transaction : String) (record : Record) (h : Host) : Prop where
  sound : Sound h
  marker : transaction ∈ h.markers
  receipt : ∃ status, Dict.get? transaction h.receipts = some ⟨status, record⟩ ∧
    status.settled = false

section

variable {transaction : String} {record : Record} {h : Host}

theorem InTransaction.live (hin : InTransaction transaction record h) : h.Live transaction := by
  obtain ⟨status, hget, hsettled⟩ := hin.receipt
  exact ⟨hin.marker, _, hget, hsettled⟩

theorem InTransaction.dirs (hin : InTransaction transaction record h) :
    ∀ dir ∈ h.dirs, dir ∈ record.dirs := by
  obtain ⟨status, hget, -⟩ := hin.receipt
  exact hin.sound.placed transaction _ hget hin.live

theorem InTransaction.faithful (hin : InTransaction transaction record h) :
    record.Faithful transaction h.history.misread := by
  obtain ⟨status, hget, -⟩ := hin.receipt
  exact hin.sound.records transaction _ hget

theorem InTransaction.guarded (hin : InTransaction transaction record h) :
    ∀ dir ∈ record.dirs, dir ∉ h.history.removed := by
  obtain ⟨status, hget, -⟩ := hin.receipt
  exact hin.sound.guarded transaction _ hget hin.live

/-- What a step of a transaction may change: the unit to one of the two it is about, and how
    it runs. -/
theorem InTransaction.change (hin : InTransaction transaction record h) {h' : Host}
    (hreceipts : h'.receipts = h.receipts) (hmarkers : h'.markers = h.markers)
    (hreleases : h'.releases = h.releases)
    (hremoved : h'.history.removed = h.history.removed)
    (hmisread : h'.history.misread = false → h.history.misread = false)
    (hdirs : ∀ dir ∈ h'.dirs, dir ∈ record.dirs) (hstopped : h'.unit = none → h'.Stopped) :
    InTransaction transaction record h' ∧ Kept h h' := by
  obtain ⟨status, hget, hstatus⟩ := hin.receipt
  have hlive : ∀ other, h'.Live other ↔ h.Live other := by
    intro other
    unfold Host.Live
    rw [hmarkers, hreceipts]
  have hown : h'.Live transaction := (hlive transaction).mpr hin.live
  have hget' : Dict.get? transaction h'.receipts = some ⟨status, record⟩ := by rw [hreceipts, hget]
  refine ⟨⟨?_, by rw [hmarkers]; exact hin.marker, status, hget', hstatus⟩, .of_eq hreceipts⟩
  constructor
  case records =>
    intro other receipt hreceipt
    rw [hreceipts] at hreceipt
    obtain ⟨hrelease, habsent⟩ := hin.sound.records other receipt hreceipt
    exact ⟨hrelease, fun hfalse => habsent (hmisread hfalse)⟩
  case marked => rw [hmarkers, hreceipts]; exact hin.sound.marked
  case activated => rw [hmarkers, hreceipts]; exact hin.sound.activated
  case unique =>
    intro other other' hother hother'
    exact hin.sound.unique other other' ((hlive other).mp hother) ((hlive other').mp hother')
  case changed => exact fun _ => ⟨transaction, hown⟩
  case placed =>
    -- the live transaction is this one
    intro other receipt hreceipt hother dir hdir
    obtain rfl := hin.sound.unique other transaction ((hlive other).mp hother) hin.live
    rw [hget'] at hreceipt
    obtain rfl := Option.some.inj hreceipt
    exact hdirs dir hdir
  case guarded =>
    intro other receipt hreceipt hother
    rw [hremoved]
    rw [hreceipts] at hreceipt
    exact hin.sound.guarded other receipt hreceipt ((hlive other).mp hother)
  case present =>
    intro dir hdir
    rw [hremoved]
    exact hin.guarded dir (hdirs dir hdir)
  case gone => rw [hreleases, hremoved]; exact hin.sound.gone
  case stopped => exact hstopped

end

/-! ## Steps on receipts, markers and releases -/

theorem Sound.of_files {h : Host} (hs : Sound h) (temporaries : List String) (stateExists : Bool) :
    Sound { h with temporaries := temporaries, stateExists := stateExists } :=
  ⟨hs.records, hs.marked, hs.activated, hs.unique, hs.changed, hs.placed, hs.guarded, hs.present,
    hs.gone, hs.stopped⟩

theorem releasePath_injective {name other : String} (h : releasePath name = releasePath other) :
    name = other := by
  unfold releasePath at h
  rw [← String.toList_inj, String.toList_append, String.toList_append] at h
  exact String.toList_inj.mp (List.append_cancel_left h)

/-- What holds of all entries, also after one more. -/
theorem forall_set {α : Type} {P : String → α → Prop} {d : List (String × α)}
    (h : ∀ k v, Dict.get? k d = some v → P k v) {k₀ : String} {v₀ : α} (h₀ : P k₀ v₀) :
    ∀ k v, Dict.get? k (Dict.set k₀ v₀ d) = some v → P k v := by
  intro k v hget
  by_cases hk : k = k₀
  · subst hk
    rw [Dict.get?_set_self] at hget
    obtain rfl := Option.some.inj hget
    exact h₀
  · rw [Dict.get?_set_of_ne hk] at hget
    exact h k v hget

theorem isSome_set {α : Type} {d : List (String × α)} {k : String}
    (h : (Dict.get? k d).isSome = true) (k₀ : String) (v₀ : α) :
    (Dict.get? k (Dict.set k₀ v₀ d)).isSome = true := by
  by_cases hk : k = k₀
  · subst hk
    rw [Dict.get?_set_self]
    rfl
  · rw [Dict.get?_set_of_ne hk]
    exact h

theorem Kept.of_set {h h' : Host} {transaction : String} {status : Status} {record : Record}
    (hreceipts : h'.receipts = Dict.set transaction ⟨status, record⟩ h.receipts)
    (hold : ∀ status' record', Dict.get? transaction h.receipts = some ⟨status', record'⟩ →
      record' = record) : Kept h h' := by
  intro other status' record' hget
  rw [hreceipts]
  by_cases hother : other = transaction
  · subst hother
    rw [Dict.get?_set_self, hold status' record' hget]
    exact ⟨status, rfl⟩
  · rw [Dict.get?_set_of_ne hother]
    exact ⟨status', hget⟩

section

variable {transaction : String} {record : Record} {h : Host}

/-- The transaction settles as it is; none is live after it. -/
theorem InTransaction.settle (hin : InTransaction transaction record h) {status : Status}
    (hsettled : status.settled = true) :
    Sound { h.settle status with
      receipts := Dict.set transaction ⟨status, record⟩ h.receipts } ∧
    ∀ other, ¬ Host.Live { h.settle status with
      receipts := Dict.set transaction ⟨status, record⟩ h.receipts } other := by
  have heq : h.settle status = { h with history := { h.history with settled := h.observed } } := by
    unfold Host.settle
    rw [if_pos hsettled]
  have hdead : ∀ other, ¬ Host.Live { h.settle status with
      receipts := Dict.set transaction ⟨status, record⟩ h.receipts } other := by
    rw [heq]
    rintro other ⟨hmarker, receipt, hreceipt, hunsettled⟩
    dsimp only at hreceipt hmarker
    by_cases hother : other = transaction
    · subst hother
      rw [Dict.get?_set_self] at hreceipt
      obtain rfl := Option.some.inj hreceipt
      rw [hsettled] at hunsettled
      cases hunsettled
    · rw [Dict.get?_set_of_ne hother] at hreceipt
      exact hother (hin.sound.unique other transaction ⟨hmarker, receipt, hreceipt, hunsettled⟩
        hin.live)
  refine ⟨?_, hdead⟩
  rw [heq] at hdead ⊢
  constructor
  case records => exact forall_set hin.sound.records hin.faithful
  case marked => exact fun other hother => isSome_set (hin.sound.marked other hother) _ _
  case activated => exact forall_set hin.sound.activated fun _ => hin.marker
  case unique => exact fun other other' hother => absurd hother (hdead other)
  case changed => exact fun hne => absurd rfl hne
  case placed => exact fun other receipt _ hother => absurd hother (hdead other)
  case guarded => exact fun other receipt _ hother => absurd hother (hdead other)
  case present => exact hin.sound.present
  case gone => exact hin.sound.gone
  case stopped => exact hin.sound.stopped

/-- The transaction goes on with another status. -/
theorem InTransaction.advance (hin : InTransaction transaction record h) {status : Status}
    (hunsettled : status.settled = false) :
    InTransaction transaction record { h.settle status with
      receipts := Dict.set transaction ⟨status, record⟩ h.receipts } := by
  have heq : h.settle status = h := by
    unfold Host.settle
    rw [hunsettled]
    rfl
  rw [heq]
  have hlive : ∀ other, Host.Live { h with
      receipts := Dict.set transaction ⟨status, record⟩ h.receipts } other → h.Live other := by
    rintro other ⟨hmarker, receipt, hreceipt, hlive⟩
    by_cases hother : other = transaction
    · rw [hother]
      exact hin.live
    · dsimp only at hreceipt
      rw [Dict.get?_set_of_ne hother] at hreceipt
      exact ⟨hmarker, receipt, hreceipt, hlive⟩
  have hown : Host.Live { h with
      receipts := Dict.set transaction ⟨status, record⟩ h.receipts } transaction :=
    ⟨hin.marker, _, Dict.get?_set_self .., hunsettled⟩
  refine ⟨?_, hin.marker, status, Dict.get?_set_self .., hunsettled⟩
  constructor
  case records => exact forall_set hin.sound.records hin.faithful
  case marked => exact fun other hother => isSome_set (hin.sound.marked other hother) _ _
  case activated => exact forall_set hin.sound.activated fun _ => hin.marker
  case unique =>
    intro other other' hother hother'
    exact hin.sound.unique other other' (hlive other hother) (hlive other' hother')
  case changed => exact fun _ => ⟨transaction, hown⟩
  case placed =>
    apply forall_set
    · exact fun other receipt hreceipt hother =>
        hin.sound.placed other receipt hreceipt (hlive other hother)
    · exact fun _ => hin.dirs
  case guarded =>
    apply forall_set
    · exact fun other receipt hreceipt hother =>
        hin.sound.guarded other receipt hreceipt (hlive other hother)
    · exact fun _ => hin.guarded
  case present => exact hin.sound.present
  case gone => exact hin.sound.gone
  case stopped => exact hin.sound.stopped

theorem InTransaction.kept (hin : InTransaction transaction record h) {h' : Host} {status : Status}
    (hreceipts : h'.receipts = Dict.set transaction ⟨status, record⟩ h.receipts) : Kept h h' := by
  obtain ⟨status₀, hget, -⟩ := hin.receipt
  apply Kept.of_set hreceipts
  intro status' record' hget'
  rw [hget] at hget'
  exact (Receipt.mk.inj (Option.some.inj hget')).2.symm

/-- No transaction is pending, and this one is new. -/
structure Ready (transaction : String) (h : Host) : Prop where
  sound : Sound h
  unmarked : h.markers = []
  new : Dict.get? transaction h.receipts = none

theorem Ready.dead (hready : Ready transaction h) (other : String) : ¬ h.Live other := by
  rintro ⟨hmarker, -⟩
  rw [hready.unmarked] at hmarker
  cases hmarker

/-- A new receipt, still without a marker. -/
theorem Ready.addReceipt (hready : Ready transaction h) {receipt : Receipt}
    (hstatus : receipt.status = .pending)
    (hfaithful : receipt.record.Faithful transaction h.history.misread) :
    Sound { h with receipts := Dict.set transaction receipt h.receipts } := by
  have hdead : ∀ other, ¬ Host.Live { h with
      receipts := Dict.set transaction receipt h.receipts } other := by
    rintro other ⟨hmarker, -⟩
    dsimp only at hmarker
    rw [hready.unmarked] at hmarker
    cases hmarker
  constructor
  case records => exact forall_set hready.sound.records hfaithful
  case marked => exact fun other hother => isSome_set (hready.sound.marked other hother) _ _
  case activated =>
    apply forall_set hready.sound.activated
    intro hactivated
    rw [hstatus] at hactivated
    cases hactivated
  case unique => exact fun other other' hother => absurd hother (hdead other)
  case changed =>
    intro hne
    obtain ⟨other, hother⟩ := hready.sound.changed hne
    exact absurd hother (hready.dead other)
  case placed => exact fun other receipt _ hother => absurd hother (hdead other)
  case guarded => exact fun other receipt _ hother => absurd hother (hdead other)
  case present => exact hready.sound.present
  case gone => exact hready.sound.gone
  case stopped => exact hready.sound.stopped

/-- The transaction is recorded, and its release is there. -/
structure Recorded (transaction : String) (record : Record) (h : Host) : Prop where
  sound : Sound h
  unmarked : h.markers = []
  receipt : Dict.get? transaction h.receipts = some ⟨.pending, record⟩
  unit : h.unit = record.previousUnit
  release : transaction ∈ h.releases

/-- The marker makes it live. -/
theorem Recorded.mark (hrecorded : Recorded transaction record h) :
    InTransaction transaction record
      { h with markers := transaction :: h.markers.filter (· ≠ transaction) } := by
  have hmarkers : transaction :: h.markers.filter (· ≠ transaction) = [transaction] := by
    rw [hrecorded.unmarked]
    rfl
  rw [hmarkers]
  have hlive : ∀ other, Host.Live { h with markers := [transaction] } other →
      other = transaction := fun other hother => List.mem_singleton.mp hother.1
  have hown : Host.Live { h with markers := [transaction] } transaction :=
    ⟨List.mem_cons_self, _, hrecorded.receipt, rfl⟩
  have hdirs : ∀ receipt, Dict.get? transaction h.receipts = some receipt →
      receipt.record = record := by
    intro receipt hreceipt
    rw [hrecorded.receipt] at hreceipt
    rw [← Option.some.inj hreceipt]
  have hrelease : record.release = releasePath transaction :=
    (hrecorded.sound.records transaction _ hrecorded.receipt).release
  refine ⟨?_, List.mem_cons_self, .pending, hrecorded.receipt, rfl⟩
  constructor
  case records => exact hrecorded.sound.records
  case marked =>
    intro other hother
    rw [List.mem_singleton.mp hother]
    dsimp only
    rw [hrecorded.receipt]
    rfl
  case activated =>
    intro other receipt hreceipt hactivated
    have hmarker := hrecorded.sound.activated other receipt hreceipt hactivated
    rw [hrecorded.unmarked] at hmarker
    cases hmarker
  case unique =>
    intro other other' hother hother'
    rw [hlive other hother, hlive other' hother']
  case changed => exact fun _ => ⟨transaction, hown⟩
  case placed =>
    -- the unit in place is the previous one
    intro other receipt hreceipt hother dir hdir
    obtain rfl := hlive other hother
    rw [hdirs receipt hreceipt]
    refine List.mem_cons_of_mem _ ?_
    rw [← hrecorded.unit]
    exact hdir
  case guarded =>
    intro other receipt hreceipt hother dir hdir
    obtain rfl := hlive other hother
    rw [hdirs receipt hreceipt] at hdir
    rcases List.mem_cons.mp hdir with rfl | hdir
    · rw [hrelease]
      exact hrecorded.sound.gone other hrecorded.release
    · rw [← hrecorded.unit] at hdir
      exact hrecorded.sound.present dir hdir
  case present => exact hrecorded.sound.present
  case gone => exact hrecorded.sound.gone
  case stopped => exact hrecorded.sound.stopped

/-- A settled marker goes. -/
theorem Sound.unlink (hs : Sound h) {receipt : Receipt}
    (hreceipt : Dict.get? transaction h.receipts = some receipt)
    (hsettled : receipt.status.settled = true) :
    Sound { h with markers := h.markers.filter (· ≠ transaction) } := by
  have hlive : ∀ other, Host.Live { h with markers := h.markers.filter (· ≠ transaction) } other ↔
      h.Live other := by
    intro other
    constructor
    · exact fun hother => ⟨(List.mem_filter.mp hother.1).1, hother.2⟩
    · intro hother
      refine ⟨List.mem_filter.mpr ⟨hother.1, ?_⟩, hother.2⟩
      rw [decide_eq_true_eq]
      rintro rfl
      obtain ⟨-, receipt', hreceipt', hunsettled⟩ := hother
      rw [hreceipt] at hreceipt'
      obtain rfl := Option.some.inj hreceipt'
      rw [hsettled] at hunsettled
      cases hunsettled
  constructor
  case records => exact hs.records
  case marked => exact fun other hother => hs.marked other (List.mem_filter.mp hother).1
  case activated =>
    intro other receipt' hreceipt' hactivated
    have hmarker := hs.activated other receipt' hreceipt' hactivated
    refine List.mem_filter.mpr ⟨hmarker, ?_⟩
    rw [decide_eq_true_eq]
    rintro rfl
    rw [hreceipt] at hreceipt'
    obtain rfl := Option.some.inj hreceipt'
    rw [hactivated] at hsettled
    cases hsettled
  case unique =>
    intro other other' hother hother'
    exact hs.unique other other' ((hlive other).mp hother) ((hlive other').mp hother')
  case changed =>
    intro hne
    obtain ⟨other, hother⟩ := hs.changed hne
    exact ⟨other, (hlive other).mpr hother⟩
  case placed =>
    exact fun other receipt hreceipt hother => hs.placed other receipt hreceipt ((hlive other).mp hother)
  case guarded =>
    exact fun other receipt hreceipt hother => hs.guarded other receipt hreceipt ((hlive other).mp hother)
  case present => exact hs.present
  case gone => exact hs.gone
  case stopped => exact hs.stopped

/-- A new release directory. -/
theorem Sound.make (hs : Sound h) (name : String) :
    Sound { h with
      releases := name :: h.releases
      history := { h.history with removed := h.history.removed.filter (· ≠ releasePath name) } } := by
  have hfewer : ∀ dir, dir ∉ h.history.removed →
      dir ∉ h.history.removed.filter (· ≠ releasePath name) :=
    fun dir hdir hmem => hdir (List.mem_filter.mp hmem).1
  constructor
  case records => exact hs.records
  case marked => exact hs.marked
  case activated => exact hs.activated
  case unique => exact hs.unique
  case changed => exact hs.changed
  case placed => exact hs.placed
  case guarded =>
    exact fun other receipt hreceipt hother dir hdir =>
      hfewer dir (hs.guarded other receipt hreceipt hother dir hdir)
  case present => exact fun dir hdir => hfewer dir (hs.present dir hdir)
  case gone =>
    intro other hother
    rcases List.mem_cons.mp hother with rfl | hother
    · intro hmem
      simpa using (List.mem_filter.mp hmem).2
    · exact hfewer _ (hs.gone other hother)
  case stopped => exact hs.stopped

/-- A release directory that nothing may go back to is removed. -/
theorem Sound.remove (hs : Sound h) {name : String} (hdead : ∀ other, ¬ h.Live other)
    (hdirs : releasePath name ∉ h.dirs) :
    Sound { h with
      releases := h.releases.filter (· ≠ name)
      history := { h.history with removed := releasePath name :: h.history.removed } } := by
  constructor
  case records => exact hs.records
  case marked => exact hs.marked
  case activated => exact hs.activated
  case unique => exact hs.unique
  case changed => exact hs.changed
  case placed => exact hs.placed
  case guarded => exact fun other receipt _ hother => absurd hother (hdead other)
  case present =>
    intro dir hdir hmem
    rcases List.mem_cons.mp hmem with rfl | hmem
    · exact hdirs hdir
    · exact hs.present dir hdir hmem
  case gone =>
    intro other hother hmem
    obtain ⟨hother, hne⟩ := List.mem_filter.mp hother
    rcases List.mem_cons.mp hmem with heq | hmem
    · simp [releasePath_injective heq] at hne
    · exact hs.gone other hother hmem
  case stopped => exact hs.stopped

end

/-! ## Scripts -/

/-- From where `P` holds, every step of a script keeps the invariant; it ends with `Q`, or in
    `E` with a failure. -/
def Runs {α : Type} (P : Host → Prop) (c : Deploy α) (Q : α → Host → Prop) (E : Host → Prop) : Prop :=
  ∀ h, P h → c.Safe (· = ·) (fun s _ t => Sound t ∧ Kept s t) Q (fun _ => E) h

section

variable {α β : Type} {P : Host → Prop} {Q : α → Host → Prop} {E : Host → Prop}

theorem runs_pure {a : α} (h : ∀ t, P t → Q a t) : Runs P (pure a) Q E := by
  intro s hs t hst
  rw [← show s = t from hst]
  exact h s hs

theorem runs_throw {failure : Failure} (h : ∀ t, P t → E t) : Runs P (throw failure) Q E := by
  intro s hs t hst
  rw [← show s = t from hst]
  exact h s hs

theorem Runs.bind {c : Deploy α} {k : α → Deploy β} {Q' : β → Host → Prop} (h : Runs P c Q E)
    (hk : ∀ a, Runs (Q a) (k a) Q' E) : Runs P (c >>= k) Q' E :=
  fun s hs => Script.Safe.bind (fun _ => rfl) (h s hs) fun a t ha => hk a t ha

theorem Runs.mono {P' : Host → Prop} {Q' : α → Host → Prop} {E' : Host → Prop} {c : Deploy α}
    (h : Runs P c Q E) (hP : ∀ t, P' t → P t) (hQ : ∀ a t, Q a t → Q' a t) (hE : ∀ t, E t → E' t) :
    Runs P' c Q' E' :=
  fun s hs => Script.Safe.mono hQ (fun _ => hE) (h s (hP s hs))

theorem runs_tryCatch {c : Deploy α} {handler : Failure → Deploy α} {F : Host → Prop}
    (h : Runs P c Q F) (hhandler : ∀ failure, Runs F (handler failure) Q E) :
    Runs P (Script.tryCatch c handler) Q E :=
  fun s hs => Script.Safe.tryCatch (fun _ => rfl) (h s hs) fun failure t ht => hhandler failure t ht

theorem runs_action {f : Host → Reply → Host × Unit × Except Failure α}
    (h : ∀ t, P t → ∀ reply, Sound (f t reply).1 ∧ Kept t (f t reply).1 ∧
      (∀ a, (f t reply).2.2 = .ok a → Q a (f t reply).1) ∧
      ∀ failure, (f t reply).2.2 = .error failure → E (f t reply).1) :
    Runs P (.action f) Q E := by
  intro s hs
  apply Script.safe_action
  rintro t rfl reply
  obtain ⟨hsound, hkept, hok, herror⟩ := h s hs reply
  refine ⟨⟨hsound, hkept⟩, ?_⟩
  rintro u rfl
  exact ⟨hok, herror⟩

/-- A step that only looks. -/
theorem runs_look {answer : Host → α} (hsound : ∀ t, P t → Sound t) (h : ∀ t, P t → Q (answer t) t) :
    Runs P (look answer) Q E := by
  apply runs_action
  intro t ht reply
  refine ⟨hsound t ht, .refl t, fun a ha => ?_, fun failure hf => by cases hf⟩
  obtain rfl := Except.ok.inj ha
  exact h t ht

theorem runs_ensure {message : String} {Q : Unit → Host → Prop} (hsound : ∀ t, P t → Sound t)
    (h : ∀ t, P t → Q () t) (hE : ∀ t, P t → E t) : Runs P (ensure message) Q E := by
  apply runs_action
  intro t ht reply
  exact ⟨hsound t ht, .refl t, fun _ _ => h t ht, fun _ _ => hE t ht⟩

theorem runs_ask {answer : Host → Bool} {Q : Bool → Host → Prop} (hsound : ∀ t, P t → Sound t)
    (h : ∀ t, P t → ∀ b, (b = true → answer t = true) → Q b t) (hE : ∀ t, P t → E t) :
    Runs P (ask answer) Q E := by
  apply runs_action
  intro t ht reply
  refine ⟨hsound t ht, .refl t, fun b hb => ?_, fun _ _ => hE t ht⟩
  apply h t ht
  rintro rfl
  cases reply with
  | done => exact Except.ok.inj hb
  | failed applied => cases Except.ok.inj hb
  | raised applied => cases hb

/-- A command, whether or not its effect takes place. -/
theorem runs_command {check : Bool} {effect : Host → Host} {Q : Unit → Host → Prop}
    (hsound : ∀ t, P t → Sound t)
    (heffect : ∀ t, P t → Sound (effect t) ∧ Kept t (effect t))
    (hdone : ∀ t, P t → Q () (effect t)) (hfailed : check = false → ∀ t, P t → Q () t)
    (hE : ∀ t, P t → E t ∧ E (effect t)) : Runs P (command check effect) Q E := by
  apply runs_action
  intro t ht reply
  have happly : ∀ R : Host → Prop, R t → R (effect t) → R (reply.apply effect t) := by
    intro R hbefore hafter
    unfold Reply.apply
    cases reply with
    | done => exact hafter
    | failed applied =>
      cases applied with
      | true => exact hafter
      | false => exact hbefore
    | raised applied =>
      cases applied with
      | true => exact hafter
      | false => exact hbefore
  refine ⟨happly Sound (hsound t ht) (heffect t ht).1, happly (Kept t) (.refl t) (heffect t ht).2,
    fun _ hok => ?_, fun _ _ => happly E (hE t ht).1 (hE t ht).2⟩
  cases reply with
  | done => exact hdone t ht
  | raised applied => cases hok
  | failed applied =>
    cases check with
    | true => cases hok
    | false => exact happly (Q ()) (hfailed rfl t ht) (hdone t ht)

/-- What a host is like apart from the files of interrupted writes. -/
def Stable (P : Host → Prop) : Prop :=
  ∀ t, P t → ∀ temporaries, P { t with temporaries := temporaries }

theorem runs_write {path : String} {effect : Host → Host} {Q : Unit → Host → Prop}
    (hsound : ∀ t, P t → Sound t) (hstable : Stable P)
    (heffect : ∀ t, P t → Sound (effect t) ∧ Kept t (effect t)) (hdone : ∀ t, P t → Q () (effect t))
    (hE : ∀ t, P t → E t ∧ E (effect t)) : Runs P (write path effect) Q E := by
  have hcreate : Runs P (createNext path) (fun _ => P) E := by
    apply runs_action
    intro t ht reply
    split
    · exact ⟨hsound t ht, .refl t, fun _ hok => (by cases hok), fun _ _ => (hE t ht).1⟩
    · have happly : P (reply.apply (fun h => { h with temporaries := path :: h.temporaries }) t) ∧
          Kept t (reply.apply (fun h => { h with temporaries := path :: h.temporaries }) t) := by
        have hafter := hstable t ht (path :: t.temporaries)
        have hkept : Kept t { t with temporaries := path :: t.temporaries } := .of_eq rfl
        unfold Reply.apply
        split
        · exact ⟨hafter, hkept⟩
        · split
          · exact ⟨hafter, hkept⟩
          · exact ⟨ht, .refl t⟩
        · split
          · exact ⟨hafter, hkept⟩
          · exact ⟨ht, .refl t⟩
      exact ⟨hsound _ happly.1, happly.2, fun _ _ => happly.1, fun _ _ => (hE _ happly.1).1⟩
  apply hcreate.bind
  intro _
  have hfill : Runs P (attempt id) (fun _ => P) E :=
    runs_command hsound (fun t ht => ⟨hsound t ht, .refl t⟩) (fun _ ht => ht) (fun h => by cases h)
      fun t ht => ⟨(hE t ht).1, (hE t ht).1⟩
  apply hfill.bind
  intro _
  apply runs_command hsound
  · exact fun t ht => heffect _ (hstable t ht _)
  · exact fun t ht => hdone _ (hstable t ht _)
  · exact fun h => by cases h
  · exact fun t ht => ⟨(hE t ht).1, (hE _ (hstable t ht _)).2⟩

end

/-! ## Steps of a transaction -/

/-- The steps of a live transaction. -/
def Within {α : Type} (transaction : String) (record : Record) (P : Host → Prop) (c : Deploy α)
    (Q : α → Host → Prop) : Prop :=
  Runs (fun h => InTransaction transaction record h ∧ P h) c
    (fun a h => InTransaction transaction record h ∧ Q a h) (InTransaction transaction record)

section

variable {transaction : String} {record : Record} {α β : Type} {P : Host → Prop}
  {Q : α → Host → Prop}

theorem Within.bind {c : Deploy α} {k : α → Deploy β} {Q' : β → Host → Prop}
    (h : Within transaction record P c Q) (hk : ∀ a, Within transaction record (Q a) (k a) Q') :
    Within transaction record P (c >>= k) Q' :=
  Runs.bind h hk

theorem Within.sound {c : Deploy α} (h : Within transaction record P c Q) :
    Runs (fun h => InTransaction transaction record h ∧ P h) c
      (fun a h => InTransaction transaction record h ∧ Q a h) Sound :=
  Runs.mono h (fun _ ht => ht) (fun _ _ ht => ht) fun _ ht => ht.sound

theorem within_pure {a : α} (h : ∀ t, P t → Q a t) : Within transaction record P (pure a) Q :=
  runs_pure fun t ht => ⟨ht.1, h t ht.2⟩

theorem within_throw {failure : Failure} : Within transaction record P (throw failure) Q :=
  runs_throw fun _ ht => ht.1

theorem within_look {answer : Host → α} (h : ∀ t, P t → Q (answer t) t) :
    Within transaction record P (look answer) Q :=
  runs_look (fun _ ht => ht.1.sound) fun t ht => ⟨ht.1, h t ht.2⟩

theorem within_ensure {message : String} :
    Within transaction record P (ensure message) (fun _ => P) :=
  runs_ensure (fun _ ht => ht.1.sound) (fun _ ht => ht) fun _ ht => ht.1

theorem within_ask {answer : Host → Bool} :
    Within transaction record P (ask answer) (fun _ => P) :=
  runs_ask (fun _ ht => ht.1.sound) (fun _ ht _ _ => ht) fun _ ht => ht.1

theorem within_command {check : Bool} {effect : Host → Host} {Q : Unit → Host → Prop}
    (heffect : ∀ t, InTransaction transaction record t → P t →
      InTransaction transaction record (effect t) ∧ Kept t (effect t))
    (hdone : ∀ t, P t → Q () (effect t)) (hfailed : check = false → ∀ t, P t → Q () t) :
    Within transaction record P (command check effect) Q := by
  apply runs_command
  · exact fun t ht => ht.1.sound
  · exact fun t ht => ⟨(heffect t ht.1 ht.2).1.sound, (heffect t ht.1 ht.2).2⟩
  · exact fun t ht => ⟨(heffect t ht.1 ht.2).1, hdone t ht.2⟩
  · exact fun hcheck t ht => ⟨ht.1, hfailed hcheck t ht.2⟩
  · exact fun t ht => ⟨ht.1, (heffect t ht.1 ht.2).1⟩

theorem within_attempt {effect : Host → Host} {Q : Unit → Host → Prop}
    (heffect : ∀ t, InTransaction transaction record t → P t →
      InTransaction transaction record (effect t) ∧ Kept t (effect t))
    (hdone : ∀ t, P t → Q () (effect t)) : Within transaction record P (attempt effect) Q :=
  within_command heffect hdone fun h => by cases h

/-- A step outside the model. -/
theorem within_id : Within transaction record P (attempt id) (fun _ => P) :=
  within_attempt (fun t ht _ => ⟨ht, .refl t⟩) fun _ ht => ht

theorem InTransaction.of_temporaries {h : Host} (hin : InTransaction transaction record h)
    (temporaries : List String) :
    InTransaction transaction record { h with temporaries := temporaries } :=
  ⟨hin.sound.of_files temporaries h.stateExists, hin.marker, hin.receipt⟩

/-- What a step of a transaction may do while the unit stays. -/
theorem InTransaction.rerun {h : Host} (hin : InTransaction transaction record h) {h' : Host}
    (hunit : h'.unit = h.unit) (hreceipts : h'.receipts = h.receipts)
    (hmarkers : h'.markers = h.markers) (hreleases : h'.releases = h.releases)
    (hremoved : h'.history.removed = h.history.removed)
    (hmisread : h'.history.misread = false → h.history.misread = false)
    (hstopped : h.unit = none → h'.Stopped) :
    InTransaction transaction record h' ∧ Kept h h' := by
  apply hin.change hreceipts hmarkers hreleases hremoved hmisread
  · intro dir hdir
    have hsame : h'.dirs = h.dirs := by
      unfold Host.dirs
      rw [hunit]
    rw [hsame] at hdir
    exact hin.dirs dir hdir
  · intro hnone
    exact hstopped (hunit ▸ hnone)

theorem within_writeUnit (hstable : Stable P) {text : String}
    (hdirs : ∀ dir ∈ execDirs text, dir ∈ record.dirs)
    {Q : Unit → Host → Prop} (hdone : ∀ t, P t → Q () { t with unit := some text }) :
    Within transaction record P (writeUnit text) Q := by
  have heffect : ∀ t, InTransaction transaction record t → P t →
      InTransaction transaction record { t with unit := some text } ∧
        Kept t { t with unit := some text } := by
    intro t ht _
    exact ht.change rfl rfl rfl rfl id hdirs fun h => by cases h
  apply runs_write
  · exact fun t ht => ht.1.sound
  · exact fun t ht temporaries => ⟨ht.1.of_temporaries temporaries, hstable t ht.2 temporaries⟩
  · exact fun t ht => ⟨(heffect t ht.1 ht.2).1.sound, (heffect t ht.1 ht.2).2⟩
  · exact fun t ht => ⟨(heffect t ht.1 ht.2).1, hdone t ht.2⟩
  · exact fun t ht => ⟨ht.1, (heffect t ht.1 ht.2).1⟩

theorem within_setLegacy {uid : Nat} {change : Legacy → Legacy}
    (hP : ∀ t, P t → P (setLegacy uid change t)) :
    Within transaction record P (attempt (setLegacy uid change)) (fun _ => P) :=
  within_attempt (fun _ ht _ => ht.rerun rfl rfl rfl rfl rfl id ht.sound.stopped) hP

/-- The next status of a transaction that goes on. -/
theorem within_advance {status : Status} (hunsettled : status.settled = false) :
    Within transaction record (fun _ => True) (writeReceipt transaction ⟨status, record⟩)
      (fun _ _ => True) := by
  have heffect : ∀ t, InTransaction transaction record t →
      InTransaction transaction record { t.settle status with
        receipts := Dict.set transaction ⟨status, record⟩ t.receipts } :=
    fun t ht => ht.advance hunsettled
  have hkept : ∀ t, InTransaction transaction record t → Kept t { t.settle status with
      receipts := Dict.set transaction ⟨status, record⟩ t.receipts } := fun t ht => ht.kept rfl
  apply runs_write
  · exact fun t ht => ht.1.sound
  · exact fun t ht temporaries => ⟨ht.1.of_temporaries temporaries, trivial⟩
  · exact fun t ht => ⟨(heffect t ht.1).sound, hkept t ht.1⟩
  · exact fun t ht => ⟨heffect t ht.1, trivial⟩
  · exact fun t ht => ⟨ht.1, heffect t ht.1⟩

/-! ## Rollback -/

/-- The unit is as it was recorded. -/
def Restored (record : Record) (h : Host) : Prop :=
  h.unit = record.previousUnit ∧ (h.history.misread = false →
    h.enabled = record.systemEnabled ∧ h.active = record.systemActive)

theorem within_stopUnit {check : Bool} :
    Within transaction record (fun _ => True) (stopUnit check) (fun _ _ => True) :=
  within_command (fun _ ht _ => ht.rerun rfl rfl rfl rfl rfl id fun _ => .inl rfl)
    (fun _ _ => trivial) fun _ _ _ => trivial

theorem within_refuseActive :
    Within transaction record (fun _ => True) refuseActive (fun _ => Host.Stopped) := by
  have hasked : Within transaction record (fun _ => True) stillActive
      (fun b h => b = false → h.Stopped) := by
    apply runs_action
    intro t ht reply
    cases reply with
    | done =>
      refine ⟨ht.1.sound, .refl t, fun b hb => ⟨ht.1, fun hfalse => ?_⟩, fun _ h => by cases h⟩
      obtain rfl := Except.ok.inj hb
      exact .inl hfalse
    | failed applied =>
      -- the answer misleads when the unit runs
      have hnext : InTransaction transaction record
          { t with history := { t.history with misread := t.history.misread || t.active } } ∧
          Kept t { t with history := { t.history with misread := t.history.misread || t.active } } := by
        refine ht.1.rerun rfl rfl rfl rfl rfl ?_ ?_
        · intro hfalse
          exact (Bool.or_eq_false_iff.mp hfalse).1
        · intro hnone
          rcases ht.1.sound.stopped hnone with hinactive | hmisread
          · exact .inl hinactive
          · exact .inr (by simp [hmisread])
      refine ⟨hnext.1.sound, hnext.2, fun b _ => ⟨hnext.1, fun _ => ?_⟩, fun _ h => by cases h⟩
      show t.active = false ∨ (t.history.misread || t.active) = true
      cases t.active with
      | true => exact .inr (Bool.or_true _)
      | false => exact .inl rfl
    | raised applied =>
      exact ⟨ht.1.sound, .refl t, fun _ h => (by cases h), fun _ _ => ht.1⟩
  apply hasked.bind
  intro b
  cases b with
  | true => exact within_throw
  | false => exact within_pure fun t ht => ht rfl

/-- The unit goes back to the text it had. -/
theorem within_restorePrevious {previous : String} (hprevious : record.previousUnit = some previous) :
    Within transaction record Host.Stopped (do
      writeUnit previous
      daemonReload
      restoreEnabled record
      restoreActive record) (fun _ => Restored record) := by
  have hdirs : ∀ dir ∈ execDirs previous, dir ∈ record.dirs := by
    intro dir hdir
    unfold Record.dirs
    rw [hprevious]
    exact List.mem_cons_of_mem _ hdir
  have hunit : ∀ t : Host, t.unit = some previous → t.unit ≠ none := by
    intro t ht hnone
    rw [ht] at hnone
    cases hnone
  have hwrite : Within transaction record Host.Stopped (writeUnit previous)
      (fun _ h => h.unit = some previous ∧ h.Stopped) :=
    within_writeUnit (fun _ ht _ => ht) hdirs fun _ ht => ⟨rfl, ht⟩
  have henable : Within transaction record (fun h => h.unit = some previous ∧ h.Stopped)
      (restoreEnabled record)
      (fun _ h => h.unit = some previous ∧ h.Stopped ∧ h.linked = record.systemEnabled) := by
    unfold restoreEnabled
    cases record.systemEnabled with
    | true =>
      rw [if_pos rfl]
      exact within_attempt (fun _ ht _ => ht.rerun rfl rfl rfl rfl rfl id ht.sound.stopped)
        fun _ ht => ⟨ht.1, ht.2, rfl⟩
    | false =>
      rw [if_neg (by decide)]
      exact within_command (fun _ ht _ => ht.rerun rfl rfl rfl rfl rfl id ht.sound.stopped)
        (fun _ ht => ⟨ht.1, ht.2, rfl⟩) fun h => by cases h
  have hactive : Within transaction record
      (fun h => h.unit = some previous ∧ h.Stopped ∧ h.linked = record.systemEnabled)
      (restoreActive record) (fun _ => Restored record) := by
    have henabled : ∀ t : Host, t.unit = some previous → t.linked = record.systemEnabled →
        t.enabled = record.systemEnabled := by
      intro t hunit hlinked
      unfold Host.enabled
      rw [hunit, hlinked, Option.isSome_some, Bool.and_true]
    unfold restoreActive
    cases hstart : record.systemActive with
    | true =>
      rw [if_pos rfl]
      apply within_attempt
      · exact fun t ht hP => ht.rerun rfl rfl rfl rfl rfl id fun hnone => absurd hnone (hunit t hP.1)
      · rintro t ⟨hunit, -, hlinked⟩
        refine ⟨hunit.trans hprevious.symm, fun _ => ⟨henabled t hunit hlinked, ?_⟩⟩
        rw [hstart]
    | false =>
      rw [if_neg (by decide)]
      apply within_pure
      rintro t ⟨hunit, hstopped, hlinked⟩
      refine ⟨hunit.trans hprevious.symm, fun hfalse => ⟨henabled t hunit hlinked, ?_⟩⟩
      rw [hstart]
      rcases hstopped with hinactive | hmisread
      · exact hinactive
      · rw [hfalse] at hmisread
        cases hmisread
  exact hwrite.bind fun _ => within_id.bind fun _ => henable.bind fun _ => hactive

/-- There was no unit. -/
theorem within_restoreAbsent (hprevious : record.previousUnit = none) :
    Within transaction record Host.Stopped (do
      disableUnit false
      unlinkUnit
      daemonReload
      retainState record
      resumeEnabled record
      resumeActive record) (fun _ => Restored record) := by
  have hdisable : Within transaction record Host.Stopped (disableUnit false)
      (fun _ => Host.Stopped) :=
    within_command (fun _ ht _ => ht.rerun rfl rfl rfl rfl rfl id ht.sound.stopped)
      (fun _ ht => ht) fun _ _ ht => ht
  have hunlink : Within transaction record Host.Stopped unlinkUnit
      (fun _ h => h.unit = none ∧ h.Stopped) := by
    apply within_attempt
    · intro t ht hstopped
      refine ht.change rfl rfl rfl rfl id (fun dir hdir => ?_) fun _ => hstopped
      have hnothing : dir ∈ execDirs "" := hdir
      rw [show execDirs "" = [] by decide] at hnothing
      cases hnothing
    · exact fun _ ht => ⟨rfl, ht⟩
  have hretain : Within transaction record (fun h => h.unit = none ∧ h.Stopped) (retainState record)
      (fun _ h => h.unit = none ∧ h.Stopped) := by
    have hlook : Within transaction record (fun h => h.unit = none ∧ h.Stopped)
        (look (·.stateExists)) (fun _ h => h.unit = none ∧ h.Stopped) := within_look fun _ ht => ht
    apply hlook.bind
    intro present
    split
    · exact within_attempt (fun _ ht _ => ht.rerun rfl rfl rfl rfl rfl id ht.sound.stopped)
        fun _ ht => ht
    · exact within_pure fun _ ht => ht
  have henable : Within transaction record (fun h => h.unit = none ∧ h.Stopped)
      (resumeEnabled record) (fun _ h => h.unit = none ∧ h.Stopped) := by
    unfold resumeEnabled
    split
    · exact within_setLegacy fun _ ht => ht
    · exact within_pure fun _ ht => ht
  have hstart : Within transaction record (fun h => h.unit = none ∧ h.Stopped)
      (resumeActive record) (fun _ h => h.unit = none ∧ h.Stopped) := by
    unfold resumeActive
    split
    · exact within_setLegacy fun _ ht => ht
    · exact within_pure fun _ ht => ht
  have hall := hdisable.bind fun _ => hunlink.bind fun _ => within_id.bind fun _ =>
    hretain.bind fun _ => henable.bind fun _ => hstart
  refine hall.mono (fun _ ht => ht) ?_ fun _ ht => ht
  rintro - t ⟨hin, hunit, hstopped⟩
  refine ⟨hin, hunit.trans hprevious.symm, fun hfalse => ?_⟩
  obtain ⟨henabled, hactive⟩ := hin.faithful.absent hfalse hprevious
  rw [henabled, hactive]
  constructor
  · unfold Host.enabled
    rw [hunit, Option.isSome_none, Bool.and_false]
  · rcases hstopped with hinactive | hmisread
    · exact hinactive
    · rw [hfalse] at hmisread
      cases hmisread

theorem within_restoreUnit :
    Within transaction record Host.Stopped (restoreUnit record) (fun _ => Restored record) := by
  unfold restoreUnit
  split
  next previous hprevious => exact within_restorePrevious hprevious
  next hprevious => exact within_restoreAbsent hprevious

/-- The receipt says that the transaction is over. -/
theorem runs_settle {P : Host → Prop} (hstable : Stable P) {status : Status}
    (hsettled : status.settled = true) {Q : Host → Prop}
    (hQ : ∀ t, InTransaction transaction record t → P t → Q { t.settle status with
      receipts := Dict.set transaction ⟨status, record⟩ t.receipts }) :
    Runs (fun h => InTransaction transaction record h ∧ P h)
      (writeReceipt transaction ⟨status, record⟩)
      (fun _ h => (Sound h ∧ ∀ other, ¬ h.Live other) ∧
        Dict.get? transaction h.receipts = some ⟨status, record⟩ ∧ Q h) Sound := by
  have heffect : ∀ t, InTransaction transaction record t →
      Sound { t.settle status with
        receipts := Dict.set transaction ⟨status, record⟩ t.receipts } ∧
      Kept t { t.settle status with
        receipts := Dict.set transaction ⟨status, record⟩ t.receipts } :=
    fun t ht => ⟨(ht.settle hsettled).1, ht.kept rfl⟩
  apply runs_write
  · exact fun t ht => ht.1.sound
  · exact fun t ht temporaries => ⟨ht.1.of_temporaries temporaries, hstable t ht.2 temporaries⟩
  · exact fun t ht => heffect t ht.1
  · exact fun t ht => ⟨ht.1.settle hsettled, Dict.get?_set_self .., hQ t ht.1 ht.2⟩
  · exact fun t ht => ⟨ht.1.sound, (heffect t ht.1).1⟩

/-- The marker of a settled transaction goes. -/
theorem runs_unlinkMarker {P : Host → Prop}
    (hP : ∀ t, P t → P { t with markers := t.markers.filter (· ≠ transaction) }) :
    Runs (fun h => Sound h ∧ (∃ receipt, Dict.get? transaction h.receipts = some receipt ∧
        receipt.status.settled = true) ∧ P h)
      (unlinkMarker transaction) (fun _ h => Sound h ∧ P h) Sound := by
  have heffect : ∀ t, Sound t → (∃ receipt, Dict.get? transaction t.receipts = some receipt ∧
      receipt.status.settled = true) →
      Sound { t with markers := t.markers.filter (· ≠ transaction) } := by
    rintro t hs ⟨receipt, hreceipt, hsettled⟩
    exact hs.unlink hreceipt hsettled
  apply runs_command
  · exact fun t ht => ht.1
  · exact fun t ht => ⟨heffect t ht.1 ht.2.1, .of_eq rfl⟩
  · exact fun t ht => ⟨heffect t ht.1 ht.2.1, hP t ht.2.2⟩
  · exact fun h => by cases h
  · exact fun t ht => ⟨ht.1, heffect t ht.1 ht.2.1⟩

/-- A rollback of a live transaction that ends restores the unit. -/
theorem runs_restore {status : Status} :
    Runs (InTransaction transaction record) (restore transaction ⟨status, record⟩)
      (fun _ h => Sound h ∧ Restored record h) Sound := by
  have hstable : Stable (Restored record) := fun t ht temporaries => ht
  have hsettle := @runs_settle transaction record (Restored record) hstable .rolledBack rfl
    (Restored record) fun t ht hrestored => hrestored
  have hunlink := @runs_unlinkMarker transaction (Restored record) fun t ht => ht
  have hlast : Runs (fun h => InTransaction transaction record h ∧ Restored record h) (do
      writeReceipt transaction ⟨.rolledBack, record⟩
      unlinkMarker transaction) (fun _ h => Sound h ∧ Restored record h) Sound := by
    apply hsettle.bind
    intro _
    refine hunlink.mono ?_ (fun _ _ ht => ht) fun _ ht => ht
    rintro t ⟨⟨hs, -⟩, hget, hrestored⟩
    exact ⟨hs, ⟨_, hget, rfl⟩, hrestored⟩
  have hstop := (@within_stopUnit transaction record false).sound
  have hrefuse := (@within_refuseActive transaction record).sound
  have hunit := (@within_restoreUnit transaction record).sound
  have hall := hstop.bind fun _ => hrefuse.bind fun _ => hunit.bind fun _ => hlast
  exact hall.mono (fun _ ht => ⟨ht, trivial⟩) (fun _ _ ht => ht) fun _ ht => ht

/-- A rollback is asked for a transaction that is live, or over with its rollback. -/
def MayRollBack (transaction : String) (h : Host) : Prop :=
  ∀ receipt, Dict.get? transaction h.receipts = some receipt →
    receipt.status = .rolledBack ∨ h.Live transaction

theorem runs_readReceipt {P E : Host → Prop} (hsound : ∀ t, P t → Sound t) (hE : ∀ t, P t → E t) :
    Runs P (readReceipt transaction)
      (fun found h => P h ∧ Dict.get? transaction h.receipts = found) E := by
  apply runs_action
  intro t ht reply
  refine ⟨hsound t ht, .refl t, fun found hfound => ⟨ht, ?_⟩, fun _ _ => hE t ht⟩
  dsimp only at hfound
  split at hfound
  · exact Except.ok.inj hfound
  · cases hfound

/-- A rollback that ends restores the unit of a live transaction. -/
theorem runs_rollback :
    Runs (fun h => Sound h ∧ MayRollBack transaction h) (rollback transaction)
      (fun _ h => Sound h) Sound := by
  apply (runs_readReceipt (fun _ ht => ht.1) fun _ ht => ht.1).bind
  intro found
  cases found with
  | none => exact runs_pure fun _ ht => ht.1.1
  | some receipt =>
    dsimp only
    split
    next hrolled =>
      have hunlink := @runs_unlinkMarker transaction (fun _ => True) fun _ _ => trivial
      refine hunlink.mono ?_ (fun _ _ ht => ht.1) fun _ ht => ht
      rintro t ⟨⟨hs, -⟩, hget⟩
      exact ⟨hs, ⟨receipt, hget, by rw [hrolled]; rfl⟩, trivial⟩
    next hrolled =>
      obtain ⟨status, record⟩ := receipt
      refine runs_restore.mono ?_ (fun _ _ ht => ht.1) fun _ ht => ht
      rintro t ⟨⟨hs, hmay⟩, hget⟩
      obtain ⟨hmarker, other, hother, hunsettled⟩ := (hmay _ hget).resolve_left hrolled
      rw [hget] at hother
      obtain rfl := Option.some.inj hother
      exact ⟨hs, hmarker, status, hget, hunsettled⟩

theorem runs_rollback_live :
    Runs (InTransaction transaction record) (rollback transaction)
      (fun _ h => Sound h ∧ Restored record h) Sound := by
  apply (runs_readReceipt (fun _ ht => ht.sound) fun _ ht => ht.sound).bind
  intro found
  cases found with
  | none =>
    apply runs_pure
    rintro t ⟨hin, hnone⟩
    obtain ⟨status, hget, -⟩ := hin.receipt
    rw [hnone] at hget
    cases hget
  | some receipt =>
    obtain ⟨status, record'⟩ := receipt
    have hown : ∀ t, InTransaction transaction record t ∧
        Dict.get? transaction t.receipts = some ⟨status, record'⟩ →
        record' = record ∧ status.settled = false := by
      rintro t ⟨hin, hget⟩
      obtain ⟨status', hget', hunsettled⟩ := hin.receipt
      rw [hget] at hget'
      obtain ⟨rfl, rfl⟩ := Receipt.mk.inj (Option.some.inj hget')
      exact ⟨rfl, hunsettled⟩
    dsimp only
    split
    next hrolled =>
      intro t ht
      obtain ⟨-, hunsettled⟩ := hown t ht
      have hrolled : status = .rolledBack := hrolled
      rw [hrolled] at hunsettled
      cases hunsettled
    next =>
      intro t ht
      obtain ⟨rfl, -⟩ := hown t ht
      exact runs_restore t ht.1

/-! ## Install -/

theorem within_stopCollectors :
    Within transaction record (fun _ => True) (stopCollectors record) (fun _ _ => True) := by
  have hretire : Within transaction record (fun _ => True) (retireLegacy record.uid)
      (fun _ _ => True) := by
    apply (within_setLegacy fun _ _ => trivial).bind
    intro _
    apply (within_setLegacy fun _ _ => trivial).bind
    intro _
    apply within_ask.bind
    intro remains
    split
    · exact within_throw
    · exact within_pure fun _ _ => trivial
  apply within_ask.bind
  intro present
  split
  · exact hretire
  · exact within_pure fun _ _ => trivial

theorem within_stopPrevious :
    Within transaction record (fun _ => True) (stopPrevious record) (fun _ _ => True) := by
  unfold stopPrevious
  split
  · exact within_stopUnit
  · exact within_pure fun _ _ => trivial

theorem within_prepareState :
    Within transaction record (fun _ => True) (prepareState record) (fun _ _ => True) := by
  have hcreate : Within transaction record (fun _ => True)
      (attempt fun h => { h with stateExists := true }) (fun _ _ => True) :=
    within_attempt (fun _ ht _ => ht.rerun rfl rfl rfl rfl rfl id ht.sound.stopped)
      fun _ _ => trivial
  have hadopt : Within transaction record (fun _ => True) (adoptHistory record)
      (fun _ _ => True) := by
    unfold adoptHistory
    split
    · exact within_id.bind fun _ => within_ensure
    · exact within_pure fun _ _ => trivial
  exact hcreate.bind fun _ => within_ensure.bind fun _ => hadopt.bind fun _ => within_ensure

/-- The unit of the release is put in place and started. -/
theorem within_activate {request : Request} (hword : Word request.transaction)
    (hrelease : record.release = releasePath request.transaction) :
    Within transaction record (fun _ => True) (activate request) (fun _ _ => True) := by
  have hdirs : ∀ dir ∈ execDirs (unitText request.uid request.gid (releasePath request.transaction)),
      dir ∈ record.dirs := by
    intro dir hdir
    rw [execDirs_unitText _ _ hword, List.mem_singleton] at hdir
    rw [hdir, ← hrelease]
    exact List.mem_cons_self
  have hwrite : Within transaction record (fun _ => True)
      (writeUnit (unitText request.uid request.gid (releasePath request.transaction)))
      (fun _ h => h.unit.isSome = true) :=
    within_writeUnit (fun _ _ _ => trivial) hdirs fun _ _ => rfl
  have hreload : Within transaction record (fun h => h.unit.isSome = true) daemonReload
      (fun _ h => h.unit.isSome = true) := within_id
  have henable : Within transaction record (fun h => h.unit.isSome = true) enableUnit
      (fun _ h => h.unit.isSome = true) :=
    within_attempt (fun _ ht _ => ht.rerun rfl rfl rfl rfl rfl id ht.sound.stopped)
      fun _ ht => ht
  have hstart : Within transaction record (fun h => h.unit.isSome = true) startUnit
      (fun _ _ => True) := by
    apply within_attempt
    · intro t ht hunit
      refine ht.rerun rfl rfl rfl rfl rfl id fun hnone => ?_
      rw [hnone] at hunit
      cases hunit
    · exact fun _ _ => trivial
  apply hwrite.bind
  intro _
  apply hreload.bind
  intro _
  apply henable.bind
  intro _
  apply hstart.bind
  intro _
  apply within_ask.bind
  intro active
  split
  · exact within_pure fun _ _ => trivial
  · exact within_throw

/-- What runs once the marker is there keeps the transaction live. -/
theorem within_takeOver {request : Request} (hword : Word request.transaction)
    (hrelease : record.release = releasePath request.transaction) :
    Within request.transaction record (fun _ => True) (takeOver request record)
      (fun _ _ => True) :=
  within_stopCollectors.bind fun _ => within_stopPrevious.bind fun _ =>
    within_prepareState.bind fun _ => (within_activate hword hrelease).bind fun _ =>
      within_advance rfl

/-- A failed installation is rolled back. -/
theorem runs_undo {failure : Failure} {Q : Unit → Host → Prop} :
    Runs (InTransaction transaction record) (undo transaction failure) Q Sound :=
  Runs.bind runs_rollback_live fun _ => runs_throw fun _ ht => ht.1

theorem runs_clearMarker : Runs Sound (clearMarker transaction) (fun _ => Sound) Sound := by
  have hread : Runs Sound (readSettled transaction) (fun settled h => Sound h ∧ (settled = true →
      ∃ receipt, Dict.get? transaction h.receipts = some receipt ∧
        receipt.status.settled = true)) Sound := by
    apply runs_action
    intro t ht reply
    refine ⟨ht, .refl t, fun settled hsettled => ⟨ht, ?_⟩, fun _ h => by cases h⟩
    rintro rfl
    have hboth := Except.ok.inj hsettled
    rw [Bool.and_eq_true, Option.any_eq_true] at hboth
    exact hboth.2
  apply hread.bind
  intro settled
  cases settled with
  | true =>
    have hunlink := @runs_unlinkMarker transaction (fun _ => True) fun _ _ => trivial
    exact hunlink.mono (fun _ ht => ⟨ht.1, ht.2 rfl, trivial⟩) (fun _ _ ht => ht.1) fun _ ht => ht
  | false => exact runs_pure fun _ ht => ht.1

theorem runs_clearMarkers (transactions : List String) :
    Runs Sound (clearMarkers transactions) (fun _ => Sound) Sound := by
  induction transactions with
  | nil => exact runs_pure fun _ ht => ht
  | cons transaction transactions ih => exact runs_clearMarker.bind fun _ => ih

theorem runs_clearSettledMarkers : Runs Sound clearSettledMarkers (fun _ => Sound) Sound := by
  have hlook : Runs Sound (look (·.markers)) (fun _ => Sound) Sound :=
    runs_look (fun _ ht => ht) fun _ ht => ht
  exact hlook.bind fun markers => runs_clearMarkers markers

theorem runs_refusePending :
    Runs Sound (refusePending transaction) (fun _ => Ready transaction) Sound := by
  have hlook : Runs Sound
      (look fun h => (Dict.get? transaction h.receipts).isSome || !h.markers.isEmpty)
      (fun taken h => Sound h ∧ (taken = false → Ready transaction h)) Sound := by
    apply runs_look (fun _ ht => ht)
    intro t ht
    refine ⟨ht, fun hfree => ?_⟩
    obtain ⟨hnew, hunmarked⟩ := Bool.or_eq_false_iff.mp hfree
    refine ⟨ht, ?_, ?_⟩
    · simpa using hunmarked
    · simpa using hnew
  apply hlook.bind
  intro taken
  cases taken with
  | true => exact runs_throw fun _ ht => ht.1
  | false => exact runs_pure fun _ ht => ht.2 rfl

/-- The release directory is there. -/
structure Placed (transaction : String) (h : Host) : Prop extends Ready transaction h where
  release : transaction ∈ h.releases

theorem runs_makeRelease :
    Runs (Ready transaction) (makeRelease transaction) (fun _ => Placed transaction) Sound := by
  apply runs_action
  intro t ht reply
  split
  · exact ⟨ht.sound, .refl t, fun _ hok => (by cases hok), fun _ _ => ht.sound⟩
  · have hmade := ht.sound.make transaction
    cases reply with
    | done =>
      exact ⟨hmade, .of_eq rfl, fun _ _ => ⟨⟨hmade, ht.unmarked, ht.new⟩, List.mem_cons_self⟩,
        fun _ h => by cases h⟩
    | failed applied =>
      cases applied with
      | true => exact ⟨hmade, .of_eq rfl, fun _ h => (by cases h), fun _ _ => hmade⟩
      | false => exact ⟨ht.sound, .refl t, fun _ h => (by cases h), fun _ _ => ht.sound⟩
    | raised applied =>
      cases applied with
      | true => exact ⟨hmade, .of_eq rfl, fun _ h => (by cases h), fun _ _ => hmade⟩
      | false => exact ⟨ht.sound, .refl t, fun _ h => (by cases h), fun _ _ => ht.sound⟩

theorem runs_copyArtifacts {P : Host → Prop} (hsound : ∀ t, P t → Sound t) :
    Runs P copyArtifacts (fun _ => P) Sound := by
  have hcheck : Runs P (ensure "accepted monitor artifact is absent or a symlink") (fun _ => P)
      Sound := runs_ensure hsound (fun _ ht => ht) hsound
  have hcopy : Runs P (attempt id) (fun _ => P) Sound :=
    runs_command hsound (fun t ht => ⟨hsound t ht, .refl t⟩) (fun _ ht => ht) (fun h => by cases h)
      fun t ht => ⟨hsound t ht, hsound t ht⟩
  exact hcheck.bind fun _ => hcopy.bind fun _ => hcheck.bind fun _ => hcopy.bind fun _ =>
    hcheck.bind fun _ => hcopy.bind fun _ => hcheck.bind fun _ => hcopy

/-- The record is about the host as it is. -/
theorem runs_recordHost {request : Request} {home : String}
    (htransaction : request.transaction = transaction) :
    Runs (Placed transaction) (recordHost request home)
      (fun record h => Placed transaction h ∧ h.unit = record.previousUnit ∧
        record.Faithful transaction h.history.misread) Sound := by
  have hsound : ∀ t, Placed transaction t → Sound t := fun t ht => ht.sound
  have hunit : Runs (Placed transaction) (look (·.unit))
      (fun unit h => Placed transaction h ∧ h.unit = unit) Sound :=
    runs_look hsound fun _ ht => ⟨ht, rfl⟩
  apply hunit.bind
  intro unit
  have hstate : Runs (fun h => Placed transaction h ∧ h.unit = unit) (look (·.stateExists))
      (fun _ h => Placed transaction h ∧ h.unit = unit) Sound :=
    runs_look (fun t ht => hsound t ht.1) fun _ ht => ht
  apply hstate.bind
  intro stateThere
  have hrefuse : Runs (fun h => Placed transaction h ∧ h.unit = unit)
      (refuseUnmanaged unit stateThere) (fun _ h => Placed transaction h ∧ h.unit = unit) Sound := by
    unfold refuseUnmanaged
    split
    · exact runs_throw fun _ ht => ht.1.sound
    · exact runs_pure fun _ ht => ht
  apply hrefuse.bind
  intro _
  have henabled : Runs (fun h => Placed transaction h ∧ h.unit = unit) (ask Host.enabled)
      (fun enabled h => (Placed transaction h ∧ h.unit = unit) ∧
        (unit = none → enabled = false)) Sound := by
    apply runs_ask (fun t ht => hsound t ht.1)
    · intro t ht enabled htrue
      refine ⟨ht, fun hnone => ?_⟩
      cases enabled with
      | false => rfl
      | true =>
        have hthere := htrue rfl
        unfold Host.enabled at hthere
        rw [ht.2, hnone, Option.isSome_none, Bool.and_false] at hthere
        cases hthere
    · exact fun t ht => hsound t ht.1
  apply henabled.bind
  intro enabled
  have hactive : Runs (fun h => (Placed transaction h ∧ h.unit = unit) ∧
      (unit = none → enabled = false)) (ask (·.active))
      (fun active h => (Placed transaction h ∧ h.unit = unit) ∧ (h.history.misread = false →
        unit = none → enabled = false ∧ active = false)) Sound := by
    apply runs_ask (fun t ht => hsound t ht.1.1)
    · rintro t ⟨⟨hplaced, hunit⟩, henabled⟩ active htrue
      refine ⟨⟨hplaced, hunit⟩, fun hfalse hnone => ⟨henabled hnone, ?_⟩⟩
      cases active with
      | false => rfl
      | true =>
        -- without a unit nothing runs
        rcases hplaced.sound.stopped (hunit.trans hnone) with hinactive | hmisread
        · rw [htrue rfl] at hinactive
          cases hinactive
        · rw [hfalse] at hmisread
          cases hmisread
    · exact fun t ht => hsound t ht.1.1
  apply hactive.bind
  intro active
  have hlegacy : ∀ answer : Host → Bool, Runs (fun h => (Placed transaction h ∧ h.unit = unit) ∧
      (h.history.misread = false → unit = none → enabled = false ∧ active = false)) (ask answer)
      (fun _ h => (Placed transaction h ∧ h.unit = unit) ∧
        (h.history.misread = false → unit = none → enabled = false ∧ active = false)) Sound :=
    fun answer => runs_ask (fun t ht => hsound t ht.1.1) (fun _ ht _ _ => ht)
      fun t ht => hsound t ht.1.1
  apply (hlegacy _).bind
  intro legacyEnabled
  apply (hlegacy _).bind
  intro legacyActive
  apply runs_pure
  rintro t ⟨⟨hplaced, hunit⟩, habsent⟩
  exact ⟨hplaced, hunit, ⟨congrArg releasePath htransaction, habsent⟩⟩

theorem runs_addReceipt :
    Runs (fun h => Placed transaction h ∧ h.unit = record.previousUnit ∧
        record.Faithful transaction h.history.misread)
      (writeReceipt transaction ⟨.pending, record⟩)
      (fun _ => Recorded transaction record) Sound := by
  have heffect : ∀ t, Placed transaction t → record.Faithful transaction t.history.misread →
      Sound { t.settle .pending with
        receipts := Dict.set transaction ⟨.pending, record⟩ t.receipts } ∧
      Kept t { t.settle .pending with
        receipts := Dict.set transaction ⟨.pending, record⟩ t.receipts } := by
    intro t ht hfaithful
    refine ⟨ht.addReceipt rfl hfaithful, .of_set rfl fun status' record' hget => ?_⟩
    rw [ht.new] at hget
    cases hget
  apply runs_write
  · exact fun t ht => ht.1.sound
  · rintro t ⟨ht, hrest⟩ temporaries
    exact ⟨⟨⟨ht.sound.of_files temporaries t.stateExists, ht.unmarked, ht.new⟩, ht.release⟩, hrest⟩
  · exact fun t ht => heffect t ht.1 ht.2.2
  · rintro t ⟨ht, hunit, hfaithful⟩
    exact ⟨(heffect t ht hfaithful).1, ht.unmarked, Dict.get?_set_self .., hunit, ht.release⟩
  · exact fun t ht => ⟨ht.1.sound, (heffect t ht.1 ht.2.2).1⟩

theorem runs_touchMarker :
    Runs (Recorded transaction record) (touchMarker transaction)
      (fun _ => InTransaction transaction record) Sound := by
  apply runs_command
  · exact fun t ht => ht.sound
  · exact fun t ht => ⟨ht.mark.sound, .of_eq rfl⟩
  · exact fun t ht => ht.mark
  · exact fun h => by cases h
  · exact fun t ht => ⟨ht.sound, ht.mark.sound⟩

theorem runs_install (machine : Machine) {request : Request} (hword : Word request.transaction) :
    Runs Sound (install machine request) (fun _ => Sound) Sound := by
  have howner : Runs Sound (ownerHome machine request.uid request.gid) (fun _ => Sound) Sound := by
    unfold ownerHome
    split
    · exact runs_throw fun _ ht => ht
    · split
      · exact runs_throw fun _ ht => ht
      · exact runs_pure fun _ ht => ht
  have hdirectory : Runs Sound (ensure "refusing symlink directory") (fun _ => Sound) Sound :=
    runs_ensure (fun _ ht => ht) (fun _ ht => ht) fun _ ht => ht
  have hdirectories : Runs Sound prepareDirectories (fun _ => Sound) Sound :=
    hdirectory.bind fun _ => hdirectory.bind fun _ => hdirectory
  apply howner.bind
  intro home
  apply hdirectories.bind
  intro _
  apply runs_clearSettledMarkers.bind
  intro _
  apply runs_refusePending.bind
  intro _
  apply runs_makeRelease.bind
  intro _
  apply (runs_copyArtifacts fun _ ht => ht.sound).bind
  intro _
  apply (runs_recordHost rfl).bind
  intro record t ht
  -- the record is about the release of the transaction
  have hrelease : record.release = releasePath request.transaction := ht.2.2.release
  have htake : Runs (InTransaction request.transaction record)
      (Script.tryCatch (takeOver request record) (undo request.transaction)) (fun _ => Sound)
      Sound := by
    apply runs_tryCatch
    · exact (within_takeOver hword hrelease).mono (fun _ ht => ⟨ht, trivial⟩)
        (fun _ _ ht => ht.1.sound) fun _ ht => ht
    · exact fun failure => runs_undo
  have hrest := runs_addReceipt.bind fun _ => runs_touchMarker.bind fun _ => htake
  exact hrest t ht

/-! ## Finalize -/

theorem filterMap_of_mapM {α β : Type} {f : α → Option β} {xs : List α} {ys : List β}
    (h : xs.mapM f = some ys) : xs.filterMap f = ys := by
  induction xs generalizing ys with
  | nil =>
    obtain rfl := Option.some.inj h
    rfl
  | cons x xs ih =>
    rw [List.mapM_cons] at h
    obtain ⟨y, hy, h⟩ := Option.bind_eq_some_iff.mp h
    obtain ⟨ys', hys', h⟩ := Option.bind_eq_some_iff.mp h
    obtain rfl := Option.some.inj h
    rw [List.filterMap_cons, hy, ih hys']

theorem dirs_of_keepDirs {keep : List String} (h : keepDirs record = some keep) :
    record.dirs = keep := by
  unfold keepDirs at h
  obtain ⟨dirs, hdirs, rfl⟩ := Option.map_eq_some_iff.mp h
  unfold Record.dirs execDirs
  rw [filterMap_of_mapM hdirs]

/-- No transaction is live, and the unit runs from what stays. -/
structure Finished (dirs : List String) (h : Host) : Prop where
  sound : Sound h
  dead : ∀ other, ¬ h.Live other
  placed : ∀ dir ∈ h.dirs, dir ∈ dirs

theorem runs_removeOthers {keep : List String} (names : List String) :
    Runs (Finished keep) (removeOthers keep names) (fun _ => Finished keep) Sound := by
  induction names with
  | nil => exact runs_pure fun _ ht => ht
  | cons name names ih =>
    have hone : Runs (Finished keep) (removeUnlessKept keep name) (fun _ => Finished keep)
        Sound := by
      unfold removeUnlessKept
      split
      next => exact runs_pure fun _ ht => ht
      next hother =>
        have heffect : ∀ t, Finished keep t → Finished keep { t with
            releases := t.releases.filter (· ≠ name)
            history := { t.history with removed := releasePath name :: t.history.removed } } := by
          intro t ht
          have hdirs : releasePath name ∉ t.dirs := fun hmem => hother (ht.placed _ hmem)
          exact ⟨ht.sound.remove ht.dead hdirs, ht.dead, ht.placed⟩
        apply runs_command
        · exact fun t ht => ht.sound
        · exact fun t ht => ⟨(heffect t ht).sound, .of_eq rfl⟩
        · exact heffect
        · exact fun h => by cases h
        · exact fun t ht => ⟨ht.sound, (heffect t ht).sound⟩
    exact hone.bind fun _ => ih

theorem runs_collectReleases :
    Runs (Finished record.dirs) (collectReleases record) (fun _ => Sound) Sound := by
  unfold collectReleases
  split
  next => exact runs_throw fun _ ht => ht.sound
  next keep hkeep =>
    rw [dirs_of_keepDirs hkeep]
    have hlook : Runs (Finished keep) (look (·.releases)) (fun _ => Finished keep) Sound :=
      runs_look (fun _ ht => ht.sound) fun _ ht => ht
    apply hlook.bind
    intro names
    exact (runs_removeOthers names).mono (fun _ ht => ht) (fun _ _ ht => ht.sound) fun _ ht => ht

theorem runs_complete :
    Runs (InTransaction transaction record) (complete transaction record) (fun _ => Sound)
      Sound := by
  have hsettle := @runs_settle transaction record (fun _ => True) (fun _ _ _ => trivial) .complete rfl
    (fun h => ∀ dir ∈ h.dirs, dir ∈ record.dirs) fun t ht _ => ht.dirs
  have hunlink := @runs_unlinkMarker transaction
    (fun h => (∀ other, ¬ h.Live other) ∧ ∀ dir ∈ h.dirs, dir ∈ record.dirs) (by
      rintro t ⟨hdead, hdirs⟩
      exact ⟨fun other hother => hdead other ⟨(List.mem_filter.mp hother.1).1, hother.2⟩, hdirs⟩)
  have hfirst := hsettle.mono (fun t ht => ⟨ht, trivial⟩) (fun _ _ ht => ht) fun _ ht => ht
  apply hfirst.bind
  intro _
  have hcollect : Runs (fun h => Sound h ∧ (∀ other, ¬ h.Live other) ∧
      ∀ dir ∈ h.dirs, dir ∈ record.dirs) (collectReleases record) (fun _ => Sound) Sound :=
    runs_collectReleases.mono (fun t ht => ⟨ht.1, ht.2.1, ht.2.2⟩) (fun _ _ ht => ht) fun _ ht => ht
  refine (hunlink.bind fun _ => hcollect).mono ?_ (fun _ _ ht => ht) fun _ ht => ht
  rintro t ⟨⟨hs, hdead⟩, hget, hdirs⟩
  exact ⟨hs, ⟨_, hget, rfl⟩, hdead, hdirs⟩

theorem runs_finalize : Runs Sound (finalize transaction) (fun _ => Sound) Sound := by
  apply (runs_readReceipt (fun _ ht => ht) fun _ ht => ht).bind
  intro found
  cases found with
  | none => exact runs_throw fun _ ht => ht.1
  | some receipt =>
    obtain ⟨status, record⟩ := receipt
    dsimp only
    split
    next => exact runs_throw fun _ ht => ht.1
    next hactivated =>
      have hactivated : status = .activated := not_not.mp hactivated
      subst hactivated
      refine runs_complete.mono ?_ (fun _ _ ht => ht) fun _ ht => ht
      rintro t ⟨hs, hget⟩
      exact ⟨hs, hs.activated _ _ hget rfl, _, hget, rfl⟩

/-! ## Calls -/

/-- A rollback is only asked for a transaction that may be rolled back. -/
def Careful (call : Call) (h : Host) : Prop :=
  call.action = .rollback → MayRollBack call.request.transaction h

theorem runs_ensured {P : Host → Prop} (hsound : ∀ t, P t → Sound t) {message : String} :
    Runs P (ensure message) (fun _ => P) Sound :=
  runs_ensure hsound (fun _ ht => ht) hsound

/-- The transaction of a call is a word. -/
theorem runs_checkTransaction {P : Host → Prop} (hsound : ∀ t, P t → Sound t) (machine : Machine) :
    Runs P (checkTransaction machine transaction) (fun _ t => P t ∧ Word transaction) Sound := by
  unfold checkTransaction
  split
  next hvalid => exact runs_pure fun _ ht => ⟨ht, validTransaction_word hvalid⟩
  next => exact runs_throw hsound

theorem runs_main (machine : Machine) (call : Call) :
    Runs (fun h => Sound h ∧ Careful call h) (main machine call) (fun _ => Sound) Sound := by
  have hsound : ∀ t, Sound t ∧ Careful call t → Sound t := fun t ht => ht.1
  apply (runs_ensured hsound).bind
  intro _
  apply (runs_checkTransaction hsound machine).bind
  intro _
  apply (runs_ensured fun t ht => ht.1.1).bind
  intro _ t ht
  obtain ⟨⟨hs, hcareful⟩, hword⟩ := ht
  unfold act
  cases haction : call.action with
  | install => exact runs_install machine hword t hs
  | rollback => exact runs_rollback t ⟨hs, hcareful haction⟩
  | finalize => exact runs_finalize t hs

end

/-! ## Refused installations -/

section

variable {transaction : String} {observed : Observed}

/-- What an installation that is refused leaves as it is. -/
def Pending (transaction : String) (observed : Observed) (h : Host) : Prop :=
  h.Live transaction ∧ h.observed = observed

theorem holds_ensure {P : Host → Prop} {h : Host} (hP : P h) (message : String) :
    Script.Holds (fun _ => P) (fun _ => P) (ensure message) h :=
  Script.holds_action (fun _ _ _ => hP) fun _ _ _ => hP

/-- A marker of a live transaction is not settled. -/
theorem holds_clearMarker (other : String) {h : Host} (hP : Pending transaction observed h) :
    Script.Holds (fun _ => Pending transaction observed) (fun _ => Pending transaction observed)
      (clearMarker other) h := by
  have hread : Script.Holds (fun settled h => Pending transaction observed h ∧ (settled = true →
      other ≠ transaction)) (fun _ => Pending transaction observed) (readSettled other) h := by
    apply Script.holds_action
    · intro reply settled hsettled
      refine ⟨hP, ?_⟩
      rintro rfl rfl
      have hboth := Except.ok.inj hsettled
      rw [Bool.and_eq_true] at hboth
      obtain ⟨-, receipt, hreceipt, hunsettled⟩ := hP.1
      rw [hreceipt, Option.any_some, hunsettled] at hboth
      exact absurd hboth.2 (by decide)
    · exact fun reply failure hfailure => by cases hfailure
  apply hread.bind
  rintro settled t ⟨ht, hother⟩
  cases settled with
  | false => exact Script.holds_pure ht
  | true =>
    have hunlinked : Pending transaction observed
        { t with markers := t.markers.filter (· ≠ other) } := by
      refine ⟨⟨List.mem_filter.mpr ⟨ht.1.1, ?_⟩, ht.1.2⟩, ht.2⟩
      simpa using Ne.symm (hother rfl)
    have happly : ∀ reply : Reply, Pending transaction observed (reply.apply
        (fun h => { h with markers := h.markers.filter (· ≠ other) }) t) := by
      intro reply
      unfold Reply.apply
      split
      · exact hunlinked
      · split
        · exact hunlinked
        · exact ht
      · split
        · exact hunlinked
        · exact ht
    exact Script.holds_action (fun reply _ _ => happly reply) fun reply _ _ => happly reply

theorem holds_clearMarkers (transactions : List String) {h : Host}
    (hP : Pending transaction observed h) :
    Script.Holds (fun _ => Pending transaction observed) (fun _ => Pending transaction observed)
      (clearMarkers transactions) h := by
  induction transactions generalizing h with
  | nil => exact Script.holds_pure hP
  | cons other transactions ih => exact (holds_clearMarker other hP).bind fun _ t ht => ih ht

/-- While a transaction is live, an installation ends in a failure and changes nothing that a
    deployment is about. -/
theorem holds_install (machine : Machine) (request : Request) {h : Host}
    (hP : Pending transaction observed h) :
    Script.Holds (fun _ _ => False) (fun _ => Pending transaction observed)
      (main machine ⟨.install, request⟩) h := by
  apply (holds_ensure hP _).bind
  intro _ t ht
  have hcheck : Script.Holds (fun _ => Pending transaction observed)
      (fun _ => Pending transaction observed)
      (checkTransaction machine request.transaction) t := by
    unfold checkTransaction
    split
    · exact Script.holds_pure ht
    · exact Script.holds_throw ht
  apply hcheck.bind
  intro _ t ht
  apply (holds_ensure ht _).bind
  intro _ t ht
  have howner : Script.Holds (fun _ => Pending transaction observed)
      (fun _ => Pending transaction observed) (ownerHome machine request.uid request.gid) t := by
    unfold ownerHome
    split
    · exact Script.holds_throw ht
    · split
      · exact Script.holds_throw ht
      · exact Script.holds_pure ht
  apply howner.bind
  intro home t ht
  have hdirectories : Script.Holds (fun _ => Pending transaction observed)
      (fun _ => Pending transaction observed) prepareDirectories t :=
    (holds_ensure ht _).bind fun _ t ht => (holds_ensure ht _).bind fun _ t ht => holds_ensure ht _
  apply hdirectories.bind
  intro _ t ht
  have hmarkers : Script.Holds (fun _ => Pending transaction observed)
      (fun _ => Pending transaction observed) (look (·.markers)) t :=
    Script.holds_action (fun _ _ _ => ht) fun _ _ _ => ht
  have hclear : Script.Holds (fun _ => Pending transaction observed)
      (fun _ => Pending transaction observed) clearSettledMarkers t :=
    hmarkers.bind fun markers t ht => holds_clearMarkers markers ht
  apply hclear.bind
  intro _ t ht
  -- the marker is still there
  have hlook : Script.Holds (fun taken h => taken = true ∧ Pending transaction observed h)
      (fun _ => Pending transaction observed)
      (look fun h => (Dict.get? request.transaction h.receipts).isSome || !h.markers.isEmpty) t := by
    apply Script.holds_action
    · intro reply taken htaken
      refine ⟨?_, ht⟩
      have hne : t.markers ≠ [] := List.ne_nil_of_mem ht.1.1
      rw [← Except.ok.inj htaken]
      simp [hne]
    · exact fun _ _ _ => ht
  have hrefuse : Script.Holds (fun _ _ => False) (fun _ => Pending transaction observed)
      (refusePending request.transaction) t := by
    apply hlook.bind
    rintro taken t ⟨rfl, ht⟩
    exact Script.holds_throw ht
  exact hrefuse.bind fun _ _ hfalse => hfalse.elim

end

/-! ## Sessions -/

/-- No deployment so far; a service without a unit does not run. -/
structure Fresh (h : Host) : Prop where
  receipts : h.receipts = []
  markers : h.markers = []
  history : h.history = ⟨h.observed, [], false⟩
  stopped : h.unit = none → h.active = false

theorem Fresh.sound {h : Host} (hfresh : Fresh h) : Sound h := by
  have hnone : ∀ transaction, Dict.get? transaction h.receipts = none := by
    intro transaction
    rw [hfresh.receipts]
    rfl
  have hdead : ∀ transaction, ¬ h.Live transaction := by
    rintro transaction ⟨hmarker, -⟩
    rw [hfresh.markers] at hmarker
    cases hmarker
  constructor
  case records =>
    intro transaction receipt hreceipt
    rw [hnone] at hreceipt
    cases hreceipt
  case marked =>
    intro transaction hmarker
    rw [hfresh.markers] at hmarker
    cases hmarker
  case activated =>
    intro transaction receipt hreceipt
    rw [hnone] at hreceipt
    cases hreceipt
  case unique => exact fun transaction other hlive => absurd hlive (hdead transaction)
  case changed =>
    intro hne
    rw [hfresh.history] at hne
    exact absurd rfl hne
  case placed => exact fun transaction receipt _ hlive => absurd hlive (hdead transaction)
  case guarded => exact fun transaction receipt _ hlive => absurd hlive (hdead transaction)
  case present =>
    intro dir _
    rw [hfresh.history]
    exact List.not_mem_nil
  case gone =>
    intro name _
    rw [hfresh.history]
    exact List.not_mem_nil
  case stopped => exact fun hunit => .inl (hfresh.stopped hunit)

/-- The host after some events. -/
abbrev after (machine : Machine) (h : Host) (events : List (SessionEvent Call Reply)) :
    Session Host Reply Unit Failure :=
  run (Session.step (main machine)) (Session.rest h) events

theorem keeps_after {machine : Machine} {h : Host} (hfresh : Fresh h)
    {events : List (SessionEvent Call Reply)}
    (hmeets : Session.Meets (main machine) Careful (Session.rest h) events) :
    Session.Keeps Sound Kept (after machine h events) := by
  have hstart : Session.Keeps Sound Kept (Session.rest h : Session Host Reply Unit Failure) :=
    ⟨hfresh.sound, fun c hc => by cases hc⟩
  have hstarts : ∀ call s, Sound s → Careful call s → (main machine call).Safe (· = ·)
      (fun s _ t => Sound t ∧ Kept s t) (fun _ _ => True) (fun _ _ => True) s :=
    fun call s hs hcareful => Script.Safe.mono (fun _ _ _ => trivial) (fun _ _ _ => trivial)
      (runs_main machine call s ⟨hs, hcareful⟩)
  exact (hstart.run Kept.refl (fun _ _ _ => Kept.trans) hstarts hmeets).1

/-- A rollback that is called for a live transaction. -/
theorem runs_main_rollback (machine : Machine) (request : Request) {record : Record} :
    Runs (InTransaction request.transaction record) (main machine ⟨.rollback, request⟩)
      (fun _ h => Sound h ∧ Restored record h) Sound := by
  have hsound : ∀ t, InTransaction request.transaction record t → Sound t := fun t ht => ht.sound
  apply (runs_ensured hsound).bind
  intro _
  apply (runs_checkTransaction hsound machine).bind
  intro _
  apply (runs_ensured fun t ht => ht.1.sound).bind
  intro _ t ht
  exact runs_rollback_live t ht.1

/-- In a session whose rollbacks are careful, at any point, also inside a call: where the
    collector is not as when a transaction settled last, a marker is there and installations
    fail; a rollback of a live transaction that ends restores what its record says; records
    stay; and the unit runs from no directory that was removed. -/
theorem deployment_recovers (machine : Machine) (h : Host) (hfresh : Fresh h)
    (events : List (SessionEvent Call Reply))
    (hmeets : Session.Meets (main machine) Careful (Session.rest h) events) :
    ((after machine h events).state.observed ≠ (after machine h events).state.history.settled →
      ∃ transaction ∈ (after machine h events).state.markers, ∀ request world,
        ((main machine ⟨.install, request⟩).exec (after machine h events).state world).2 ≠ .ok () ∧
        ((main machine ⟨.install, request⟩).exec (after machine h events).state world).1.observed =
          (after machine h events).state.observed) ∧
    (∀ request status record world,
      Dict.get? request.transaction (after machine h events).state.receipts =
        some ⟨status, record⟩ → status.settled = false →
      request.transaction ∈ (after machine h events).state.markers →
      ((main machine ⟨.rollback, request⟩).exec (after machine h events).state world).2 = .ok () →
      ((main machine ⟨.rollback, request⟩).exec (after machine h events).state
        world).1.history.misread = false →
      ((main machine ⟨.rollback, request⟩).exec (after machine h events).state world).1.unit =
          record.previousUnit ∧
        ((main machine ⟨.rollback, request⟩).exec (after machine h events).state world).1.enabled =
          record.systemEnabled ∧
        ((main machine ⟨.rollback, request⟩).exec (after machine h events).state world).1.active =
          record.systemActive) ∧
    (∀ earlier later, events = earlier ++ later → ∀ transaction status record,
      Dict.get? transaction (after machine h earlier).state.receipts = some ⟨status, record⟩ →
      ∃ status', Dict.get? transaction (after machine h events).state.receipts =
        some ⟨status', record⟩) ∧
    ∀ dir ∈ (after machine h events).state.dirs,
      dir ∉ (after machine h events).state.history.removed := by
  have hsound := (keeps_after hfresh hmeets).invariant
  refine ⟨?_, ?_, ?_, hsound.present⟩
  · intro hchanged
    obtain ⟨transaction, hlive⟩ := hsound.changed hchanged
    refine ⟨transaction, hlive.1, fun request world => ?_⟩
    obtain ⟨hok, herror⟩ := (holds_install machine request ⟨hlive, rfl⟩).exec world
    cases hresult : ((main machine ⟨.install, request⟩).exec (after machine h events).state world).2 with
    | ok a => exact (hok a hresult).elim
    | error failure => exact ⟨fun heq => (by cases heq), (herror failure hresult).2⟩
  · intro request status record world hget hunsettled hmarker hresult hmisread
    have hin : InTransaction request.transaction record (after machine h events).state :=
      ⟨hsound, hmarker, status, hget, hunsettled⟩
    have hholds := (runs_main_rollback machine request _ hin).holds
    obtain ⟨-, hunit, hstate⟩ := (hholds.exec world).1 () hresult
    exact ⟨hunit, hstate hmisread⟩
  · rintro earlier later rfl transaction status record hget
    obtain ⟨hearlier, hlater⟩ := Session.Meets.append hmeets
    have hkept : Kept (after machine h earlier).state (after machine h (earlier ++ later)).state := by
      have hstarts : ∀ call s, Sound s → Careful call s → (main machine call).Safe (· = ·)
          (fun s _ t => Sound t ∧ Kept s t) (fun _ _ => True) (fun _ _ => True) s :=
        fun call s hs hcareful => Script.Safe.mono (fun _ _ _ => trivial) (fun _ _ _ => trivial)
          (runs_main machine call s ⟨hs, hcareful⟩)
      have hrun := ((keeps_after hfresh hearlier).run Kept.refl (fun _ _ _ => Kept.trans) hstarts
        hlater).2
      unfold after
      rw [run_append]
      exact hrun
    exact hkept transaction status record hget

/-! ## A rollback of a completed transaction -/

/-- One account; letters and digits of ASCII. -/
def ownerMachine : Machine where
  account uid := if uid = 1000 then some (1000, "/home/owner") else none
  isAlnum c := c.isAlphanum
  plain := by
    intro c hc
    have hranges : (48 ≤ c.toNat ∧ c.toNat ≤ 57) ∨ (65 ≤ c.toNat ∧ c.toNat ≤ 90) ∨
        (97 ≤ c.toNat ∧ c.toNat ≤ 122) := by
      simp only [Char.isAlphanum, Char.isAlpha, Char.isUpper, Char.isLower, Char.isDigit,
        Bool.or_eq_true, Bool.and_eq_true, decide_eq_true_eq] at hc
      rcases hc with (⟨hlow, hhigh⟩ | ⟨hlow, hhigh⟩) | ⟨hlow, hhigh⟩
      · exact .inr (.inl ⟨hlow, hhigh⟩)
      · exact .inr (.inr ⟨hlow, hhigh⟩)
      · exact .inl ⟨hlow, hhigh⟩
    refine ⟨?_, ?_, ?_⟩
    · rintro rfl
      exact absurd hranges (by decide)
    · rintro rfl
      exact absurd hranges (by decide)
    · simp only [Str.isSpace, Bool.or_eq_false_iff, Bool.and_eq_false_iff, decide_eq_false_iff_not,
        beq_eq_false_iff_ne]
      omega

/-- A host without a collector. -/
def bareHost : Host where
  unit := none
  linked := false
  active := false
  legacy := fun _ => ⟨false, false, false⟩
  stateExists := false
  receipts := []
  markers := []
  temporaries := []
  releases := []
  history := ⟨⟨none, false, false, fun _ => ⟨false, false, false⟩⟩, [], false⟩

theorem fresh_bareHost : Fresh bareHost := ⟨rfl, rfl, rfl, fun _ => rfl⟩

def ownerRequest : Request :=
  ⟨"/home/owner/.summitflow/services/projects/summitflow/releases/t1/source", 1000, 1000, "t1"⟩

/-- A call whose steps are all done. -/
def doneCall (action : Action) (steps : Nat) : List (SessionEvent Call Reply) :=
  .call ⟨action, ownerRequest⟩ :: (List.replicate steps Reply.done).map .answer

/-- A completed transaction is asked to roll back, and the rollback is killed once it has
    stopped the unit: nothing says that the collector is down. -/
theorem not_every_change_marked :
    ¬ ∀ (machine : Machine) (h : Host), Fresh h → ∀ events : List (SessionEvent Call Reply),
      (after machine h events).state.observed ≠ (after machine h events).state.history.settled →
      ∃ transaction, transaction ∈ (after machine h events).state.markers := by
  intro hevery
  have hdown : (after ownerMachine bareHost (doneCall .install 42 ++ doneCall .finalize 10 ++
      doneCall .rollback 4 ++ [.kill])).state.active = false := by decide +kernel
  have hup : (after ownerMachine bareHost (doneCall .install 42 ++ doneCall .finalize 10 ++
      doneCall .rollback 4 ++ [.kill])).state.history.settled.active = true := by decide +kernel
  have hmarkers : (after ownerMachine bareHost (doneCall .install 42 ++ doneCall .finalize 10 ++
      doneCall .rollback 4 ++ [.kill])).state.markers = [] := by decide +kernel
  obtain ⟨transaction, hmarker⟩ := hevery ownerMachine bareHost fresh_bareHost
    (doneCall .install 42 ++ doneCall .finalize 10 ++ doneCall .rollback 4 ++ [.kill]) (by
      intro hsame
      have hactive := congrArg Observed.active hsame
      rw [hup] at hactive
      exact absurd (hactive.symm.trans hdown) (by decide))
  rw [hmarkers] at hmarker
  cases hmarker

/-- The first installation is rolled back: there is no unit again. -/
theorem deployment_recovers_first :
    ((main ownerMachine ⟨.rollback, ownerRequest⟩).exec
      (after ownerMachine bareHost (doneCall .install 42)).state fun _ => .done).1.unit = none := by
  have hmeets : Session.Meets (main ownerMachine) Careful (Session.rest bareHost)
      (doneCall .install 42) := by
    refine ⟨fun call hcall _ hrollback => ?_, Session.meets_answers _ _⟩
    obtain rfl := SessionEvent.call.inj hcall
    cases hrollback
  obtain ⟨-, hrollback, -⟩ := deployment_recovers ownerMachine bareHost fresh_bareHost
    (doneCall .install 42) hmeets
  have hreceipt : (Dict.get? "t1" (after ownerMachine bareHost
      (doneCall .install 42)).state.receipts).any (fun receipt =>
        decide (receipt.status = .activated) && decide (receipt.record.previousUnit = none)) =
      true := by decide +kernel
  obtain ⟨⟨status, record⟩, hget, hboth⟩ := (Option.any_eq_true _ _).mp hreceipt
  simp only [Bool.and_eq_true, decide_eq_true_eq] at hboth
  obtain ⟨rfl, hprevious⟩ := hboth
  rw [← hprevious]
  refine (hrollback ownerRequest .activated record (fun _ => .done) hget rfl ?_ ?_ ?_).1
  · decide +kernel
  · decide +kernel
  · decide +kernel

end SummitFlow.HostMonitorDeploy
