import Mathlib
import SummitFlow.Spec.RetentionHistory
import SummitFlow.Spec.SharedPoints

/-!
# A point outlives its views

Captures, fresh or sharing a recent point, prune runs, recoveries and releases by any number of
processes, in every order of their steps, with failures and crashes at each of them: a point is
removed only by the holder of the physical lock and of the scope that alone records it, with no
recovery copy left.

## Key results

- `runs_reapOrphans`: what is reaped is recorded by nobody
- `runs_captureSnapshot`: a rejected capture removes its own point
- `protocol`: every call is within its guarantee
- `shared_point_outlives_views`: points over runs
-/

namespace SummitFlow.Snapshots

open Script (Stable Runs Quiet)
open SummitFlow.System (Secure Protocol)

variable {host : Host} {uuid : Nat → String} {i : Nat} {α : Type}

/-! ## Orphans -/

/-- Every point that a manifest records is among these keys. -/
structure Reaping (host : Host) (i : Nat) (recorded : List Path) (s : Store) : Prop where
  tidy : Tidy host s
  physical : s.physical = some i
  recorded : ∀ project, ∀ entry ∈ s.manifest project, pointKey host entry.snapshotPath ∈ recorded

theorem stable_reaping (recorded : List Path) :
    Stable (Rely host uuid i) (Reaping host i recorded) := by
  intro s t hst hs
  refine ⟨hst.tidy hs.tidy, hst.physical.mpr hs.physical, fun project entry hentry => ?_⟩
  -- what a manifest records was recorded there before
  have hrecord := (hst.records hs.physical project entry.record).mp (List.mem_map_of_mem hentry)
  obtain ⟨entry', hentry', hsame⟩ := List.mem_map.mp hrecord
  have hpath : entry'.snapshotPath = entry.snapshotPath := (Prod.mk.inj hsame).2
  rw [← hpath]
  exact hs.recorded project entry' hentry'

theorem Reaping.removePoint {recorded : List Path} {s : Store} (h : Reaping host i recorded s)
    (key : Path) : Reaping host i recorded { s with points := s.points.filter (· ≠ key) } where
  tidy := ⟨h.tidy.fits, fun key' hkey' => h.tidy.keys key' (List.mem_filter.mp hkey').1⟩
  physical := h.physical
  recorded := h.recorded

/-- A key that is not recorded has no view. -/
theorem Reaping.lastView {recorded : List Path} {s : Store} (h : Reaping host i recorded s) {key : Path}
    (hkey : key ∉ recorded) : LastView host i s key := by
  refine ⟨h.physical, fun project entry hentry heq => ?_⟩
  exact absurd (heq ▸ h.recorded project entry hentry) hkey

theorem runs_reapEach (policy : AutosnapshotPolicy) (now : Int) {recorded leaves : List Path}
    (hleaves : ∀ leaf ∈ leaves, pointKey host leaf = leaf) (limit : Nat) :
    Runs (Rely host uuid i) (Guarantee host uuid i) (Reaping host i recorded)
      (reapEach host policy now recorded leaves limit) (fun _ => Reaping host i recorded)
      (Reaping host i recorded) := by
  have hstable : Stable (Rely host uuid i) (Reaping host i recorded) := stable_reaping recorded
  induction leaves generalizing limit with
  | nil =>
    unfold reapEach
    exact Script.runs_pure hstable fun _ => id
  | cons leaf leaves ih =>
    cases limit with
    | zero =>
      unfold reapEach
      exact Script.runs_pure hstable fun _ => id
    | succ limit =>
      unfold reapEach
      apply Script.Runs.bind (Q := fun _ => Reaping host i recorded) rely_refl
      · apply Script.runs_action hstable (fun _ => hstable) hstable
        intro s w hs
        dsimp only
        cases @reapLeaf_cases host policy now recorded leaf s w with
        | inl hkept =>
          obtain ⟨reaped, hsame⟩ := hkept
          rw [hsame]
          exact ⟨guarantee_refl _ s, fun _ _ => hs, fun _ _ => hs⟩
        | inr hgone =>
          obtain ⟨hnot, hremoved⟩ := hgone
          rw [hremoved, hleaves leaf List.mem_cons_self]
          exact ⟨guarantee_removePoint hs.physical (hs.lastView hnot), fun _ _ => hs.removePoint _,
            fun _ _ => hs.removePoint _⟩
      intro reaped
      exact ih (fun leaf' hleaf' => hleaves leaf' (List.mem_cons_of_mem _ hleaf')) _

theorem mem_of_storeLeaves {points : List Path} {leaf : Path} (h : leaf ∈ storeLeaves host points) :
    leaf ∈ points := by
  unfold storeLeaves at h
  exact (List.mem_filter.mp (mem_sortBy.mp h)).1

/-- What is reaped is recorded by nobody. -/
theorem runs_reapOrphans (policy : AutosnapshotPolicy) (now limit : Int) :
    Runs (Rely host uuid i) (Guarantee host uuid i) (Tidy host) (reapOrphans host i policy now limit)
      (fun _ => Tidy host) (Tidy host) := by
  unfold reapOrphans
  split
  · exact Script.runs_pure stable_tidy fun _ => id
  apply runs_physicalLock stable_tidy (fun _ => id) fun s o hs => ⟨hs.fits, hs.keys⟩
  have hheld : Stable (Rely host uuid i) fun s => Tidy host s ∧ s.physical = some i :=
    stable_tidy.and stable_physical
  apply (runs_allEntries hheld (fun s hs => hs.2) fun s hs => hs.1).bind rely_refl
  intro entries
  have hleaves : Runs (Rely host uuid i) (Guarantee host uuid i)
      (fun s => (Tidy host s ∧ s.physical = some i) ∧ Views i (fun _ => True) entries s)
      (look fun s _ => .ok (storeLeaves host s.points))
      (fun leaves s => Reaping host i (entries.map fun entry => pointKey host entry.snapshotPath) s ∧
        ∀ leaf ∈ leaves, pointKey host leaf = leaf)
      (fun s => Tidy host s ∧ s.physical = some i) := by
    apply runs_look (hheld.and (stable_views _ entries))
      (fun leaves => (stable_reaping _).and (Script.stable_const _)) fun s hs => hs.1
    intro s w leaves hs hok
    rw [← Except.ok.inj hok]
    refine ⟨⟨hs.1.1, hs.1.2, fun project entry hentry => ?_⟩, fun leaf hleaf => ?_⟩
    · obtain ⟨view, hview, _, hrecord⟩ := hs.2.complete project trivial _ (List.mem_map_of_mem hentry)
      have hpath : view.snapshotPath = entry.snapshotPath := (Prod.mk.inj hrecord).2
      exact List.mem_map.mpr ⟨view, hview, by rw [hpath]⟩
    · exact hs.1.1.keys leaf (mem_of_storeLeaves hleaf)
  apply hleaves.bind rely_refl
  intro leaves
  apply Script.runs_const
  intro hkeys
  exact (runs_reapEach policy now hkeys limit.toNat).mono (fun _ => id)
    (fun _ s hs => ⟨hs.tidy, hs.physical⟩) fun s hs => ⟨hs.tidy, hs.physical⟩

/-! ## A prune run -/

theorem runs_unlessBusy {P : Store → Prop} (hP : Stable (Rely host uuid i) P) (skipped : α) {c : Call α}
    (h : Runs (Rely host uuid i) (Guarantee host uuid i) P c (fun _ => P) P) :
    Runs (Rely host uuid i) (Guarantee host uuid i) P (unlessBusy skipped c) (fun _ => P) P := by
  apply Script.runs_tryCatch rely_refl h
  intro e
  cases e with
  | other message => exact Script.runs_throw hP fun _ => id
  | snapshotError message =>
    dsimp only
    split
    · exact Script.runs_pure hP fun _ => id
    · exact Script.runs_throw hP fun _ => id

theorem runs_pruneScopes (huuid : Function.Injective uuid) (now : Int) (allowed : List Path)
    (projects : List String) :
    Runs (Rely host uuid i) (Guarantee host uuid i) (Tidy host) (pruneScopes host i now allowed projects)
      (fun _ => Tidy host) (Tidy host) := by
  induction projects with
  | nil => exact Script.runs_pure stable_tidy fun _ => id
  | cons project projects ih =>
    unfold pruneScopes
    apply (runs_unlessBusy stable_tidy 0 (runs_pruneScope huuid project now allowed)).bind rely_refl
    intro deleted
    apply ih.bind rely_refl
    intro rest
    exact Script.runs_pure stable_tidy fun _ => id

theorem runs_pruneAll (huuid : Function.Injective uuid) (policy : AutosnapshotPolicy) (pressure : Bool)
    (maxDeletes : Option Int) (scopes released : List String) (now : Int) :
    Runs (Rely host uuid i) (Guarantee host uuid i) (Tidy host)
      (pruneAll host i policy pressure maxDeletes scopes released now) (fun _ => Tidy host)
      (Tidy host) := by
  unfold pruneAll
  apply (quiet_allEntries (Tidy host) stable_tidy).bind rely_refl
  intro entries
  apply (quiet_look _ (Tidy host) stable_tidy).bind rely_refl
  intro prunable
  apply (runs_pruneScopes huuid now _ scopes).bind rely_refl
  intro deleted
  exact runs_unlessBusy stable_tidy () (runs_reapOrphans policy now _)

/-! ## Captures -/

/-- What a capture shares is recorded. -/
def Known (i : Nat) (previous : QuickSnapshot) (s : Store) : Prop :=
  s.physical = some i ∧ ∃ project, previous.record ∈ (s.manifest project).map QuickSnapshot.record

theorem stable_known (previous : QuickSnapshot) : Stable (Rely host uuid i) (Known i previous) := by
  intro s t hst hs
  obtain ⟨hphysical, project, hrecord⟩ := hs
  exact ⟨hst.physical.mpr hphysical, project, (hst.records hphysical project _).mpr hrecord⟩

theorem Known.used {previous : QuickSnapshot} {s : Store} (h : Known i previous s) :
    Used previous.id s := by
  obtain ⟨_, project, hrecord⟩ := h
  obtain ⟨entry, hentry, hsame⟩ := List.mem_map.mp hrecord
  exact ⟨project, entry, hentry, (Prod.mk.inj hsame).1⟩

theorem Known.named {previous : QuickSnapshot} {s : Store} (h : Known i previous s) (htidy : Tidy host s) :
    previous.snapshotPath.getLast? = some previous.id := by
  obtain ⟨_, project, hrecord⟩ := h
  obtain ⟨entry, hentry, hsame⟩ := List.mem_map.mp hrecord
  obtain ⟨hid, hpath⟩ := Prod.mk.inj hsame
  rw [← hid, ← hpath]
  exact (htidy.fits project).named entry hentry

section

variable {P E : Store → Prop}

/-- A capture with a point to share looks for it under the physical lock. -/
theorem runs_previousPoint (hP : Stable (Rely host uuid i) P) (hphysical : ∀ s, P s → s.physical = some i)
    (htidy : ∀ s, P s → Tidy host s) (args : CaptureArgs) :
    Runs (Rely host uuid i) (Guarantee host uuid i) P (previousPoint host args)
      (fun previous s => P s ∧ ∀ entry, previous = some entry → Known i entry s) P := by
  have hknown : ∀ previous : Option QuickSnapshot, Stable (Rely host uuid i) fun s =>
      P s ∧ ∀ entry, previous = some entry → Known i entry s := by
    intro previous s t hst hs
    exact ⟨hP s t hst hs.1, fun entry hentry => stable_known entry s t hst (hs.2 entry hentry)⟩
  unfold previousPoint
  split
  · apply (runs_allEntries hP hphysical htidy).bind rely_refl
    intro entries
    apply runs_look (hP.and (stable_views _ entries)) hknown fun s hs => hs.1
    intro s w previous hs hok
    refine ⟨hs.1, fun entry hentry => ⟨hphysical s hs.1, entry.projectId, ?_⟩⟩
    have hmem : entry ∈ entries :=
      (List.mem_filter.mp (mem_of_latest ((raised_ok hok).symm.trans hentry))).1
    exact hs.2.sound entry hmem
  · apply Script.runs_pure hP
    exact fun s hs => ⟨hs, fun entry hentry => by cases hentry⟩

/-- The entry names the point it was asked to describe. -/
theorem runs_describe (hP : Stable (Rely host uuid i) P) (hE : ∀ s, P s → E s) (args : CaptureArgs)
    (id : String) (path : Path) (capturedAt : Int) (digest : Option String) (shared : Bool) :
    Runs (Rely host uuid i) (Guarantee host uuid i) P (describe args id path capturedAt digest shared)
      (fun snapshot s => P s ∧ snapshot.record = (id, path) ∧ snapshot.projectId = args.projectId) E := by
  apply runs_look hP (fun _ => hP.and (Script.stable_const _)) hE
  intro s w snapshot hs hok
  split at hok
  · cases hok
  · split at hok
    · cases hok
    · obtain rfl := (Except.ok.inj hok).symm
      exact ⟨hs, rfl, rfl⟩

/-- An entry of this process, or of a point that is recorded, is saved in the place of the one
    with its id. -/
theorem runs_saveEntry (huuid : Function.Injective uuid) (hP : Stable (Rely host uuid i) P)
    (hE : ∀ s, P s → E s) {project id : String} {entries : List QuickSnapshot} {entry : QuickSnapshot}
    (hid : entry.id = id) (howned : entry.projectId = project)
    (hinside : ∀ s, P s → Inside host i project s ∧ Listed i project entries s)
    (hknown : ∀ s, P s → entry.snapshotPath.getLast? = some entry.id ∧
      (entry.id = uuid i ∨ Used entry.id s)) :
    Runs (Rely host uuid i) (Guarantee host uuid i) P
      (saveManifest project ((entries.filter fun e => e.id ≠ id) ++ [entry]))
      (fun _ => Inside host i project) E := by
  apply runs_saveManifest hP (stable_inside project) hE
  intro s hs
  obtain ⟨hin, hlisted⟩ := hinside s hs
  have hold : Fits project (entries.filter fun e => e.id ≠ id) :=
    (hlisted.fits hin.tidy).sublist List.filter_sublist
  have hnew : ∀ e ∈ entries.filter fun e => e.id ≠ id, e.id ≠ entry.id := by
    intro e he
    rw [hid]
    simpa using (List.mem_filter.mp he).2
  have hfits := hold.concat howned (hknown s hs).1 hnew
  refine ⟨guarantee_setManifest hin.lock hfits (fun e he => ?_) huuid (.inr hin.physical),
    hin.setManifest hfits⟩
  cases List.mem_append.mp he with
  | inl hkept => exact .inr ⟨project, e, hlisted.2.mem_iff.mp (List.mem_filter.mp hkept).1, rfl⟩
  | inr hlast =>
    rw [List.mem_singleton.mp hlast]
    exact (hknown s hs).2

/-- The end of a capture. -/
theorem runs_recordCapture (huuid : Function.Injective uuid) (hP : Stable (Rely host uuid i) P)
    {args : CaptureArgs} {snapshot : QuickSnapshot} (howned : snapshot.projectId = args.projectId)
    (hinside : ∀ s, P s → Inside host i args.projectId s)
    (hknown : ∀ s, P s → snapshot.snapshotPath.getLast? = some snapshot.id ∧
      (snapshot.id = uuid i ∨ Used snapshot.id s)) (reuse : Bool) :
    Runs (Rely host uuid i) (Guarantee host uuid i) P (recordCapture args snapshot reuse)
      (fun _ => Inside host i args.projectId) P := by
  unfold recordCapture
  apply (runs_loadManifest hP fun s hs => (hinside s hs).lock).bind rely_refl
  intro existing
  have hloaded := hP.and (@stable_listed host uuid i args.projectId existing)
  split
  · exact Script.runs_throw hloaded fun s hs => hs.1
  dsimp only
  split
  · exact Script.runs_throw hloaded fun s hs => hs.1
  exact runs_saveEntry huuid hloaded (fun s hs => hs.1) rfl howned (fun s hs => ⟨hinside s hs.1, hs.2⟩)
    fun s hs => hknown s hs.1

end

/-- A capture that shares a recent point. -/
theorem runs_captureShared (huuid : Function.Injective uuid) (args : CaptureArgs)
    (previous : QuickSnapshot) :
    Runs (Rely host uuid i) (Guarantee host uuid i)
      (fun s => Inside host i args.projectId s ∧ Known i previous s) (captureShared args previous)
      (fun _ => Inside host i args.projectId) (Inside host i args.projectId) := by
  have hinside : Stable (Rely host uuid i) (Inside host i args.projectId) := stable_inside args.projectId
  have hstable := hinside.and (@stable_known host uuid i previous)
  unfold captureShared
  apply Script.Runs.bind (Q := fun _ s => Inside host i args.projectId s ∧ Known i previous s) rely_refl
  · exact runs_look hstable (fun _ => hstable) (fun s hs => hs.1) fun _ _ _ hs _ => hs
  intro digest
  apply (runs_describe hstable (fun s hs => hs.1) args previous.id previous.snapshotPath
    previous.createdAt digest true).bind rely_refl
  intro snapshot
  apply Script.runs_const
  intro hsnapshot
  obtain ⟨hrecord, howned⟩ := hsnapshot
  obtain ⟨hid, hpath⟩ := Prod.mk.inj hrecord
  have hrecorded : Runs (Rely host uuid i) (Guarantee host uuid i)
      (fun s => Inside host i args.projectId s ∧ Known i previous s) (recordCapture args snapshot true)
      (fun _ => Inside host i args.projectId)
      (fun s => Inside host i args.projectId s ∧ Known i previous s) := by
    apply runs_recordCapture huuid hstable howned fun s hs => hs.1
    intro s hs
    rw [show snapshot.id = previous.id from hid, show snapshot.snapshotPath = _ from hpath]
    exact ⟨hs.2.named hs.1.tidy, .inr hs.2.used⟩
  apply (hrecorded.mono (fun _ => id) (fun _ _ => id) fun s hs => hs.1).bind rely_refl
  intro _
  exact Script.runs_pure hinside fun _ => id

/-- The point of a reserved capture has no other view. -/
theorem lastView_own {project : String} {path : Path} {s : Store} (hs : Inside host i project s)
    (hmine : Mine uuid i project s) (hpath : path.getLast? = some (uuid i)) :
    LastView host i s (pointKey host path) := by
  -- an entry of this point has the id of the process
  have hown : ∀ project', ∀ entry ∈ s.manifest project',
      pointKey host entry.snapshotPath = pointKey host path → entry.id = uuid i := by
    intro project' entry hentry hkey
    have hlast : entry.snapshotPath.getLast? = some (uuid i) := by
      rw [← getLast?_pointKey host entry.snapshotPath, hkey, getLast?_pointKey, hpath]
    rw [(hs.tidy.fits project').named entry hentry] at hlast
    exact Option.some.inj hlast
  refine ⟨hs.physical, fun project' entry hentry hkey => ?_⟩
  have hid := hown project' entry hentry hkey
  obtain ⟨rfl, hcopy⟩ := hmine project' entry hentry hid
  refine ⟨hs.lock, hcopy, fun project'' entry' hentry' hkey' => ?_⟩
  have hid' := hown project'' entry' hentry' hkey'
  obtain ⟨rfl, _⟩ := hmine project'' entry' hentry' hid'
  exact ⟨rfl, (hs.tidy.fits project'').eq hentry' hentry (hid'.trans hid.symm)⟩

/-- A capture that failed after its reservation removes its own point, or keeps it on record. -/
theorem runs_rejectCapture (huuid : Function.Injective uuid) {args : CaptureArgs} {path : Path}
    (hargs : args.snapshotId = uuid i) (hpath : path.getLast? = some (uuid i))
    {snapshot : Option QuickSnapshot}
    (hsnapshot : ∀ entry, snapshot = some entry → entry.record = (uuid i, path) ∧
      entry.projectId = args.projectId) (captureError : Failure) :
    Runs (Rely host uuid i) (Guarantee host uuid i)
      (fun s => Inside host i args.projectId s ∧ Mine uuid i args.projectId s)
      (rejectCapture host args path snapshot captureError) (fun _ => Inside host i args.projectId)
      (Inside host i args.projectId) := by
  have hinside : Stable (Rely host uuid i) (Inside host i args.projectId) := stable_inside args.projectId
  have hstable : Stable (Rely host uuid i) fun s =>
      Inside host i args.projectId s ∧ Mine uuid i args.projectId s := stable_mine args.projectId
  unfold rejectCapture
  dsimp only
  have hdelete : Runs (Rely host uuid i) (Guarantee host uuid i)
      (fun s => Inside host i args.projectId s ∧ Mine uuid i args.projectId s)
      (deleteRejectedPoint host path [incomplete args path (some "Capture metadata pending")])
      (fun _ => Inside host i args.projectId) (Inside host i args.projectId) := by
    unfold deleteRejectedPoint
    apply Script.runs_action hstable (fun _ => hinside) hinside
    intro s w hs
    dsimp only
    split
    · exact ⟨guarantee_refl _ s, fun _ _ => hs.1, fun _ _ => hs.1⟩
    · cases w.failure with
      | some failure => exact ⟨guarantee_refl _ s, fun _ _ => hs.1, fun _ _ => hs.1⟩
      | none =>
        have hafter := hs.1.removePoint (pointKey host path)
        exact ⟨guarantee_removePoint hs.1.physical (lastView_own hs.1 hs.2 hpath), fun _ _ => hafter,
          fun _ _ => hafter⟩
  have htried : Runs (Rely host uuid i) (Guarantee host uuid i)
      (fun s => Inside host i args.projectId s ∧ Mine uuid i args.projectId s)
      (attempt (deleteRejectedPoint host path [incomplete args path (some "Capture metadata pending")]))
      (fun _ => Inside host i args.projectId) (Inside host i args.projectId) :=
    runs_attempt_keeps hinside hdelete
  apply htried.bind rely_refl
  intro result
  have hload : Runs (Rely host uuid i) (Guarantee host uuid i) (Inside host i args.projectId)
      (loadManifest args.projectId)
      (fun entries s => Inside host i args.projectId s ∧ Listed i args.projectId entries s)
      (Inside host i args.projectId) := runs_loadManifest hinside fun s hs => hs.lock
  cases result with
  | ok _ =>
    dsimp only
    apply hload.bind rely_refl
    intro entries
    have hsave : Runs (Rely host uuid i) (Guarantee host uuid i)
        (fun s => Inside host i args.projectId s ∧ Listed i args.projectId entries s)
        (saveManifest args.projectId (entries.filter fun entry => entry.id ≠ args.snapshotId))
        (fun _ => Inside host i args.projectId) (Inside host i args.projectId) := by
      apply runs_saveManifest (hinside.and (stable_listed args.projectId entries)) hinside fun s hs => hs.1
      intro s hs
      have hfits : Fits args.projectId (entries.filter fun entry => entry.id ≠ args.snapshotId) :=
        (hs.2.fits hs.1.tidy).sublist List.filter_sublist
      exact ⟨guarantee_saveInside hs.1 hs.2 hfits (fun e he => ⟨e, (List.mem_filter.mp he).1, rfl⟩) huuid,
        hs.1.setManifest hfits⟩
    apply hsave.bind rely_refl
    intro _
    exact Script.runs_throw hinside fun _ => id
  | error deletionError =>
    dsimp only
    apply hload.bind rely_refl
    intro entries
    have hrecord : (snapshot.getD (incomplete args path none)).record = (uuid i, path) ∧
        (snapshot.getD (incomplete args path none)).projectId = args.projectId := by
      cases snapshot with
      | none => exact ⟨by rw [← hargs]; rfl, rfl⟩
      | some entry => exact hsnapshot entry rfl
    obtain ⟨hid, hkept⟩ := Prod.mk.inj hrecord.1
    apply Script.Runs.bind (Q := fun _ => Inside host i args.projectId) rely_refl
    · apply runs_saveEntry huuid (hinside.and (stable_listed args.projectId entries)) (fun s hs => hs.1)
      · rfl
      · exact hrecord.2
      · exact fun s hs => hs
      · intro s _
        dsimp only
        rw [hid, hkept]
        exact ⟨hpath, .inl rfl⟩
    intro _
    exact Script.runs_throw hinside fun _ => id

/-- The end of the path of a capture is its id. -/
theorem getLast?_snapshotDestination (spelling : Path) (projectId snapshotId : String) :
    (snapshotDestination spelling projectId snapshotId).getLast? = some snapshotId := by
  unfold snapshotDestination
  rw [List.getLast?_append]
  rfl

/-- The reservation of a capture is the first entry of its id. -/
theorem runs_reserve (huuid : Function.Injective uuid) {args : CaptureArgs} (hargs : args.snapshotId = uuid i)
    {path : Path} (hpath : path.getLast? = some (uuid i)) (pending : List QuickSnapshot) :
    Runs (Rely host uuid i) (Guarantee host uuid i)
      (fun s => (Inside host i args.projectId s ∧ ¬Used (uuid i) s) ∧ Listed i args.projectId pending s)
      (saveManifest args.projectId (pending ++ [incomplete args path (some "Capture metadata pending")]))
      (fun _ s => Inside host i args.projectId s ∧ Mine uuid i args.projectId s)
      (Inside host i args.projectId) := by
  have hstart : Stable (Rely host uuid i) fun s => Inside host i args.projectId s ∧ ¬Used (uuid i) s :=
    (stable_inside args.projectId).and stable_unused
  have hmine : Stable (Rely host uuid i) fun s =>
      Inside host i args.projectId s ∧ Mine uuid i args.projectId s := stable_mine args.projectId
  apply runs_saveManifest (hstart.and (stable_listed args.projectId pending)) hmine fun s hs => hs.1.1
  intro s hs
  obtain ⟨⟨hin, hunused⟩, hlisted⟩ := hs
  have hthere : ∀ e ∈ pending, e ∈ s.manifest args.projectId := fun e => hlisted.2.mem_iff.mp
  have hnew : ∀ e ∈ pending, e.id ≠ args.snapshotId := fun e he hid =>
    hunused ⟨args.projectId, e, hthere e he, hid.trans hargs⟩
  have hfits : Fits args.projectId
      (pending ++ [incomplete args path (some "Capture metadata pending")]) := by
    apply (hlisted.fits hin.tidy).concat rfl _ hnew
    rw [show (incomplete args path (some "Capture metadata pending")).id = uuid i from hargs]
    exact hpath
  refine ⟨guarantee_setManifest hin.lock hfits (fun e he => ?_) huuid (.inr hin.physical),
    hin.setManifest hfits, fun project' e he hid => ?_⟩
  · cases List.mem_append.mp he with
    | inl hold => exact .inr ⟨args.projectId, e, hthere e hold, rfl⟩
    | inr hlast =>
      rw [List.mem_singleton.mp hlast]
      exact .inl hargs
  · cases mem_manifest_setManifest he with
    | inl hold => exact absurd ⟨project', e, hold, hid⟩ hunused
    | inr hsaved =>
      refine ⟨hsaved.1, ?_⟩
      cases List.mem_append.mp hsaved.2 with
      | inl hold => exact absurd ⟨args.projectId, e, hthere e hold, hid⟩ hunused
      | inr hlast =>
        rw [List.mem_singleton.mp hlast]
        rfl

/-- The point of a capture is made and described. -/
theorem runs_capturePoint {args : CaptureArgs} (hargs : args.snapshotId = uuid i) (path : Path) :
    Runs (Rely host uuid i) (Guarantee host uuid i)
      (fun s => Inside host i args.projectId s ∧ Mine uuid i args.projectId s)
      (attempt do
        snapshotSubvolume host path
        describe args args.snapshotId path args.now none false)
      (fun captured s => (Inside host i args.projectId s ∧ Mine uuid i args.projectId s) ∧
        ∀ snapshot, captured = .ok snapshot →
          snapshot.record = (uuid i, path) ∧ snapshot.projectId = args.projectId)
      (Inside host i args.projectId) := by
  have hmine : Stable (Rely host uuid i) fun s =>
      Inside host i args.projectId s ∧ Mine uuid i args.projectId s := stable_mine args.projectId
  have hpoint : Runs (Rely host uuid i) (Guarantee host uuid i)
      (fun s => Inside host i args.projectId s ∧ Mine uuid i args.projectId s) (snapshotSubvolume host path)
      (fun _ s => Inside host i args.projectId s ∧ Mine uuid i args.projectId s)
      (fun s => Inside host i args.projectId s ∧ Mine uuid i args.projectId s) := by
    unfold snapshotSubvolume
    apply Script.runs_action hmine (fun _ => hmine) hmine
    intro s w hs
    cases w.failure with
    | some failure => exact ⟨guarantee_refl _ s, fun _ _ => hs, fun _ _ => hs⟩
    | none =>
      have hafter := hs.1.addPoint path
      exact ⟨guarantee_addPoint hs.1.physical path, fun _ _ => ⟨hafter, hs.2⟩, fun _ _ => ⟨hafter, hs.2⟩⟩
  have hbody := hpoint.bind rely_refl fun _ =>
    runs_describe (E := fun s => Inside host i args.projectId s ∧ Mine uuid i args.projectId s) hmine
      (fun _ => id) args args.snapshotId path args.now none false
  apply (runs_attempt (fun _ => hmine.and (Script.stable_const _)) hmine hbody).mono (fun _ => id) _
    fun _ => id
  intro captured s hs
  cases captured with
  | ok snapshot =>
    obtain ⟨hs, hrecord, howned⟩ := hs.1 snapshot rfl
    refine ⟨hs, fun snapshot' hsame => ?_⟩
    rw [← Except.ok.inj hsame, hrecord, hargs]
    exact ⟨rfl, howned⟩
  | error e => exact ⟨hs.2 e rfl, fun snapshot hsame => by cases hsame⟩

/-- A capture that makes its own point. -/
theorem runs_captureFresh (huuid : Function.Injective uuid) {args : CaptureArgs}
    (hargs : args.snapshotId = uuid i) :
    Runs (Rely host uuid i) (Guarantee host uuid i)
      (fun s => Inside host i args.projectId s ∧ ¬Used (uuid i) s) (captureFresh host args)
      (fun _ => Inside host i args.projectId) (Inside host i args.projectId) := by
  have hinside : Stable (Rely host uuid i) (Inside host i args.projectId) := stable_inside args.projectId
  have hstart : Stable (Rely host uuid i) fun s => Inside host i args.projectId s ∧ ¬Used (uuid i) s :=
    hinside.and stable_unused
  have hmine : Stable (Rely host uuid i) fun s =>
      Inside host i args.projectId s ∧ Mine uuid i args.projectId s := stable_mine args.projectId
  unfold captureFresh
  dsimp only
  generalize hdestination : snapshotDestination args.spelling args.projectId args.snapshotId = path
  have hpath : path.getLast? = some (uuid i) := by
    rw [← hdestination, getLast?_snapshotDestination, hargs]
  apply Script.Runs.bind
    (Q := fun _ s => Inside host i args.projectId s ∧ ¬Used (uuid i) s) rely_refl
  · exact runs_look hstart (fun _ => hstart) (fun s hs => hs.1) fun _ _ _ hs _ => hs
  intro _
  have hload : Runs (Rely host uuid i) (Guarantee host uuid i)
      (fun s => Inside host i args.projectId s ∧ ¬Used (uuid i) s) (loadManifest args.projectId)
      (fun pending s => (Inside host i args.projectId s ∧ ¬Used (uuid i) s) ∧
        Listed i args.projectId pending s)
      (Inside host i args.projectId) :=
    (runs_loadManifest hstart fun s hs => hs.1.lock).mono (fun _ => id) (fun _ _ => id) fun s hs => hs.1
  apply hload.bind rely_refl
  intro pending
  apply (runs_reserve huuid hargs hpath pending).bind rely_refl
  intro _
  apply (runs_capturePoint hargs path).bind rely_refl
  intro captured
  apply Script.runs_const
  intro hsnapshot
  cases captured with
  | error e =>
    exact runs_rejectCapture huuid hargs hpath (fun entry hentry => by cases hentry) e
  | ok snapshot =>
    obtain ⟨hrecord, howned⟩ := hsnapshot snapshot rfl
    obtain ⟨hid, hsame⟩ := Prod.mk.inj hrecord
    have hrecorded : Runs (Rely host uuid i) (Guarantee host uuid i)
        (fun s => Inside host i args.projectId s ∧ Mine uuid i args.projectId s)
        (recordCapture args snapshot false) (fun _ => Inside host i args.projectId)
        (fun s => Inside host i args.projectId s ∧ Mine uuid i args.projectId s) := by
      apply runs_recordCapture huuid hmine howned fun s hs => hs.1
      intro s _
      rw [show snapshot.id = uuid i from hid, show snapshot.snapshotPath = path from hsame]
      exact ⟨hpath, .inl rfl⟩
    apply Script.runs_tryCatch rely_refl
      (F := fun s => Inside host i args.projectId s ∧ Mine uuid i args.projectId s)
    · apply hrecorded.bind rely_refl
      intro _
      exact Script.runs_pure hinside fun _ => id
    · intro e
      apply runs_rejectCapture huuid hargs hpath
      intro entry hentry
      rw [← Option.some.inj hentry]
      exact ⟨hrecord, howned⟩

/-- A capture, whichever point it records. -/
theorem runs_captureSnapshot (huuid : Function.Injective uuid) {args : CaptureArgs}
    (hargs : args.snapshotId = uuid i) :
    Runs (Rely host uuid i) (Guarantee host uuid i) (fun s => Tidy host s ∧ ¬Used (uuid i) s)
      (captureSnapshot host i args) (fun _ => Tidy host) (Tidy host) := by
  unfold captureSnapshot
  have hready : Stable (Rely host uuid i) fun s => Tidy host s ∧ ¬Used (uuid i) s :=
    stable_tidy.and stable_unused
  apply runs_physicalLock hready (fun s hs => hs.1) fun s o hs => ⟨⟨hs.1.fits, hs.1.keys⟩, hs.2⟩
  apply runs_scopeLock (hready.and stable_physical) (stable_tidy.and stable_physical)
    (fun s o hs => ⟨⟨⟨hs.1.1.fits, hs.1.1.keys⟩, hs.1.2⟩, hs.2⟩)
    (fun s o hs => ⟨⟨hs.1.fits, hs.1.keys⟩, hs.2⟩) fun s hs => ⟨hs.1.1, hs.2⟩
  -- inside both locks
  have hinside : Stable (Rely host uuid i) (Inside host i args.projectId) := stable_inside args.projectId
  have hstart : Stable (Rely host uuid i) fun s => Inside host i args.projectId s ∧ ¬Used (uuid i) s :=
    hinside.and stable_unused
  have hend : ∀ s, Inside host i args.projectId s →
      (Tidy host s ∧ s.physical = some i) ∧ s.locks args.projectId = some i :=
    fun s hs => ⟨⟨hs.tidy, hs.physical⟩, hs.lock⟩
  suffices hbody : Runs (Rely host uuid i) (Guarantee host uuid i)
      (fun s => Inside host i args.projectId s ∧ ¬Used (uuid i) s) _
      (fun _ => Inside host i args.projectId) (Inside host i args.projectId) from
    hbody.mono (fun s hs => ⟨⟨⟨hs.1.1.1, hs.2⟩, hs.1.2⟩, hs.1.1.2⟩) (fun _ => hend) hend
  apply Script.Runs.bind
    (Q := fun _ s => Inside host i args.projectId s ∧ ¬Used (uuid i) s) rely_refl
  · exact runs_look hstart (fun _ => hstart) (fun s hs => hs.1) fun _ _ _ hs _ => hs
  intro _
  have hprevious := runs_previousPoint hstart (fun s hs => hs.1.physical) (fun s hs => hs.1.tidy) args
  apply (hprevious.mono (fun _ => id) (fun _ _ => id) fun s hs => hs.1).bind rely_refl
  intro previous
  cases hshared : previous.filter (recent args.now) with
  | none => exact (runs_captureFresh huuid hargs).mono (fun s hs => hs.1) (fun _ _ => id) fun _ => id
  | some entry =>
    apply (runs_captureShared huuid args entry).mono _ (fun _ _ => id) fun _ => id
    exact fun s hs => ⟨hs.1.1, hs.2 entry (Option.filter_eq_some_iff.mp hshared).1⟩

/-! ## Recoveries -/

theorem record_updateEntry {id : String} {f : QuickSnapshot → QuickSnapshot} {entries : List QuickSnapshot}
    (hf : ∀ entry, (f entry).record = entry.record) :
    (updateEntry id f entries).map QuickSnapshot.record = entries.map QuickSnapshot.record := by
  unfold updateEntry
  rw [List.map_map]
  apply List.map_congr_left
  intro entry _
  dsimp only [Function.comp]
  split
  · exact hf entry
  · rfl

theorem Fits.updateEntry {project id : String} {f : QuickSnapshot → QuickSnapshot}
    {entries : List QuickSnapshot} (h : Fits project entries)
    (hf : ∀ entry, (f entry).record = entry.record ∧ (f entry).projectId = entry.projectId) :
    Fits project (updateEntry id f entries) := by
  apply h.map
  intro entry _
  split
  · exact hf entry
  · exact ⟨rfl, rfl⟩

theorem stable_recorded (project : String) (entries : List QuickSnapshot) :
    Stable (Rely host uuid i) fun s => Scoped host i project s ∧ Recording i project entries s :=
  (stable_scoped project).and (stable_recording project entries)

/-- An entry changes where it is; the manifest records what it recorded. -/
theorem runs_saveUpdate (huuid : Function.Injective uuid) {project id : String}
    {f : QuickSnapshot → QuickSnapshot} {entries : List QuickSnapshot} (hfits : Fits project entries)
    (hf : ∀ entry, (f entry).record = entry.record ∧ (f entry).projectId = entry.projectId) :
    Runs (Rely host uuid i) (Guarantee host uuid i)
      (fun s => Scoped host i project s ∧ Recording i project entries s)
      (saveManifest project (updateEntry id f entries))
      (fun _ s => Scoped host i project s ∧ Recording i project entries s)
      (Scoped host i project) := by
  apply runs_saveManifest (stable_recorded project entries) (stable_recorded project entries) fun s hs => hs.1
  intro s hs
  obtain ⟨hs, hlock, hrecords⟩ := hs
  have hsame : (updateEntry id f entries).map QuickSnapshot.record = entries.map QuickSnapshot.record :=
    record_updateEntry fun entry => (hf entry).1
  have hafter : Fits project (updateEntry id f entries) := hfits.updateEntry hf
  refine ⟨guarantee_setManifest hs.lock hafter (fun e he => ?_) huuid (.inl ?_),
    ⟨hs.tidy.setManifest hafter, hs.lock⟩, hlock, fun r => ?_⟩
  · -- the entry was there under the same id
    have hrecord : e.record ∈ entries.map QuickSnapshot.record := hsame ▸ List.mem_map_of_mem he
    obtain ⟨e', he', hid⟩ := List.mem_map.mp ((hrecords _).mp hrecord)
    exact .inr ⟨project, e', he', (Prod.mk.inj hid).1⟩
  · apply sameRecords_setManifest
    rw [hsame]
    exact hrecords
  · rw [manifest_setManifest_self, ((perm_newestFirst _).map QuickSnapshot.record).mem_iff, hsame]

/-- The lock of a scope around a change of entries that records what was recorded. -/
theorem runs_updating {project : String} {body : List QuickSnapshot → Call Unit}
    (hbody : ∀ entries, Fits project entries →
      Runs (Rely host uuid i) (Guarantee host uuid i)
        (fun s => Scoped host i project s ∧ Recording i project entries s) (body entries)
        (fun _ => Scoped host i project) (Scoped host i project)) :
    Runs (Rely host uuid i) (Guarantee host uuid i) (Tidy host)
      (scopeLock i project (loadManifest project >>= body)) (fun _ => Tidy host) (Tidy host) := by
  apply runs_scopeLock stable_tidy stable_tidy (fun s o hs => ⟨hs.fits, hs.keys⟩)
    (fun s o hs => ⟨hs.fits, hs.keys⟩) fun _ => id
  have hscoped : Stable (Rely host uuid i) (Scoped host i project) := stable_scoped project
  suffices hinner : Runs (Rely host uuid i) (Guarantee host uuid i) (Scoped host i project)
      (loadManifest project >>= body) (fun _ => Scoped host i project) (Scoped host i project) from
    hinner.mono (fun s hs => ⟨hs.1, hs.2⟩) (fun _ s hs => ⟨hs.tidy, hs.lock⟩)
      fun s hs => ⟨hs.tidy, hs.lock⟩
  apply (runs_loadManifest hscoped fun s hs => hs.lock).bind rely_refl
  intro entries
  -- the entries are in order, as those of the manifest are
  have hread : ∀ s, Scoped host i project s ∧ Listed i project entries s →
      (Scoped host i project s ∧ Recording i project entries s) ∧ Fits project entries := by
    intro s hs
    refine ⟨⟨hs.1, hs.2.1, fun r => (hs.2.2.map QuickSnapshot.record).mem_iff⟩, hs.2.fits hs.1.tidy⟩
  apply Script.Runs.mono (P := fun s => (Scoped host i project s ∧ Recording i project entries s) ∧
    Fits project entries) _ hread (fun _ _ => id) fun _ => id
  apply Script.runs_const
  exact fun hfits => hbody entries hfits

theorem runs_copyPoint (huuid : Function.Injective uuid) {project : String} {entries : List QuickSnapshot}
    (hfits : Fits project entries) (snapshot : QuickSnapshot) (spelling : Path) (name : Option String)
    (now : Int) :
    Runs (Rely host uuid i) (Guarantee host uuid i)
      (fun s => Scoped host i project s ∧ Recording i project entries s)
      (copyPoint host entries snapshot project spelling name now) (fun _ => Scoped host i project)
      (Scoped host i project) := by
  have hstable : Stable (Rely host uuid i) fun s =>
      Scoped host i project s ∧ Recording i project entries s := stable_recorded project entries
  have hlook : ∀ {β : Type} (f : Store → Outside → Except Failure β),
      Runs (Rely host uuid i) (Guarantee host uuid i)
        (fun s => Scoped host i project s ∧ Recording i project entries s) (look f)
        (fun _ s => Scoped host i project s ∧ Recording i project entries s)
        (fun s => Scoped host i project s ∧ Recording i project entries s) :=
    fun f => quiet_look f _ hstable
  unfold copyPoint
  dsimp only
  apply ((hlook _).mono (fun _ => id) (fun _ _ => id) fun s hs => hs.1).bind rely_refl
  intro _
  apply Script.Runs.bind (Q := fun _ s => Scoped host i project s ∧ Recording i project entries s) rely_refl
  · apply runs_saveUpdate huuid hfits
    exact fun entry => ⟨rfl, rfl⟩
  intro _
  have htried : Runs (Rely host uuid i) (Guarantee host uuid i)
      (fun s => Scoped host i project s ∧ Recording i project entries s)
      (attempt (look fun _ w => raised w ()))
      (fun _ s => Scoped host i project s ∧ Recording i project entries s) (Scoped host i project) :=
    runs_attempt_keeps hstable (hlook _)
  apply htried.bind rely_refl
  intro result
  cases result with
  | ok _ =>
    apply (runs_saveUpdate huuid hfits _).mono (fun _ => id) (fun _ s hs => hs.1) fun _ => id
    exact fun entry => ⟨rfl, rfl⟩
  | error e =>
    dsimp only
    apply Script.Runs.bind (Q := fun _ s => Scoped host i project s ∧ Recording i project entries s)
      rely_refl
    · apply runs_saveUpdate huuid hfits
      exact fun entry => ⟨rfl, rfl⟩
    intro _
    exact Script.runs_throw hstable fun s hs => hs.1

theorem runs_recoverSnapshot (huuid : Function.Injective uuid) (target project : String)
    (scopePath spelling : Path) (name : Option String) (now : Int) :
    Runs (Rely host uuid i) (Guarantee host uuid i) (Tidy host)
      (recoverSnapshot host i target project scopePath spelling name now) (fun _ => Tidy host)
      (Tidy host) := by
  apply runs_updating
  intro entries hfits
  have hstable : Stable (Rely host uuid i) fun s =>
      Scoped host i project s ∧ Recording i project entries s := stable_recorded project entries
  apply ((quiet_look _ _ hstable).mono (fun _ => id) (fun _ _ => id) fun s hs => hs.1).bind rely_refl
  intro snapshot
  split
  · exact Script.runs_throw hstable fun s hs => hs.1
  · split
    · exact Script.runs_throw hstable fun s hs => hs.1
    · exact runs_copyPoint huuid hfits snapshot spelling name now

theorem runs_releaseRecovery (huuid : Function.Injective uuid) (target project : String) (now : Int) :
    Runs (Rely host uuid i) (Guarantee host uuid i) (Tidy host) (releaseRecovery i target project now)
      (fun _ => Tidy host) (Tidy host) := by
  apply runs_updating
  intro entries hfits
  have hstable : Stable (Rely host uuid i) fun s =>
      Scoped host i project s ∧ Recording i project entries s := stable_recorded project entries
  apply ((quiet_look _ _ hstable).mono (fun _ => id) (fun _ _ => id) fun s hs => hs.1).bind rely_refl
  intro snapshot
  dsimp only
  apply (runs_saveUpdate huuid hfits _).mono (fun _ => id) (fun _ s hs => hs.1) fun _ => id
  exact fun entry => ⟨rfl, rfl⟩

/-! ## Runs -/

/-- A call of a process; a capture gets its own id. -/
inductive Request where
  | capture (args : CaptureArgs)
  | recover (target project : String) (scopePath spelling : Path) (name : Option String) (now : Int)
  | release (target project : String) (now : Int)
  | prune (policy : AutosnapshotPolicy) (pressure : Bool) (maxDeletes : Option Int)
      (scopes released : List String) (now : Int)

def Request.program (host : Host) (uuid : Nat → String) : Request → Nat → Call Unit
  | .capture args, pid => do
    let _ ← captureSnapshot host pid { args with snapshotId := uuid pid }
    pure ()
  | .recover target project scopePath spelling name now, pid =>
    recoverSnapshot host pid target project scopePath spelling name now
  | .release target project now, pid => releaseRecovery pid target project now
  | .prune policy pressure maxDeletes scopes released now, pid =>
    pruneAll host pid policy pressure maxDeletes scopes released now

theorem runs_program (huuid : Function.Injective uuid) (request : Request) :
    Runs (Rely host uuid i) (Guarantee host uuid i) (fun s => Tidy host s ∧ ¬Used (uuid i) s)
      (request.program host uuid i) (fun _ => Tidy host) (Tidy host) := by
  cases request with
  | capture args =>
    unfold Request.program
    have hcapture : Runs (Rely host uuid i) (Guarantee host uuid i)
        (fun s => Tidy host s ∧ ¬Used (uuid i) s)
        (captureSnapshot host i { args with snapshotId := uuid i }) (fun _ => Tidy host) (Tidy host) :=
      runs_captureSnapshot huuid rfl
    apply hcapture.bind rely_refl
    intro _
    exact Script.runs_pure stable_tidy fun _ => id
  | recover target project scopePath spelling name now =>
    exact (runs_recoverSnapshot huuid target project scopePath spelling name now).mono
      (fun s hs => hs.1) (fun _ _ => id) fun _ => id
  | release target project now =>
    exact (runs_releaseRecovery huuid target project now).mono (fun s hs => hs.1) (fun _ _ => id)
      fun _ => id
  | prune policy pressure maxDeletes scopes released now =>
    exact (runs_pruneAll huuid policy pressure maxDeletes scopes released now).mono (fun s hs => hs.1)
      (fun _ _ => id) fun _ => id

theorem rely_exit {j : Nat} (hne : i ≠ j) (s : Store) : Rely host uuid j s (releaseLocks i s) where
  physical := by
    unfold releaseLocks
    dsimp only
    split
    · next hheld => simp [hheld, hne]
    · rfl
  locks := by
    intro project
    unfold releaseLocks
    dsimp only
    split
    · next hheld => simp [hheld, hne]
    · rfl
  manifests := fun _ _ => Eq.refl _
  records := fun _ => SameRecords.rfl
  points := fun _ => Eq.refl _
  tidy := fun htidy => ⟨htidy.fits, htidy.keys⟩
  unused := fun hunused => hunused

/-- Every call is within its guarantee. -/
theorem protocol (host : Host) (huuid : Function.Injective uuid) :
    Protocol (Request.program host uuid) releaseLocks (Rely host uuid) (Guarantee host uuid)
      (fun i s => Tidy host s ∧ ¬Used (uuid i) s) where
  refl := fun _ _ => .rfl
  trans := fun _ _ _ _ => Rely.trans
  others := fun _ _ _ _ _ hne h => h.relies hne
  exits := fun _ _ s hne => rely_exit hne s
  stays := fun _ s t hst hs => (stable_tidy.and stable_unused) s t hst hs
  starts := fun request _ s hs =>
    ((runs_program huuid request).safe s hs).mono (fun _ _ _ => trivial) fun _ _ _ => trivial

section

variable {sys : System Store Outside (Option Removal) Failure}

/-- A point goes with a step of the process that may remove it. -/
theorem step_removed (huuid : Function.Injective uuid)
    (h : Secure (Rely host uuid) (Guarantee host uuid) (fun i s => Tidy host s ∧ ¬Used (uuid i) s) sys)
    (event : SystemEvent Request Outside) {key : Path} (hkey : key ∈ sys.state.points)
    (hgone : key ∉ (System.step (Request.program host uuid) releaseLocks sys event).state.points) :
    ∃ pid w, event = .step pid w ∧ LastView host pid sys.state key := by
  have htidy : Tidy host sys.state := (h.ready sys.next (Nat.le_refl _)).2.1
  cases event with
  | start request => exact absurd hkey hgone
  | step pid w =>
    refine ⟨pid, w, rfl, ?_⟩
    cases hl : sys.effect pid w with
    | none =>
      rw [System.step_of_effect_none hl] at hgone
      exact absurd hkey hgone
    | some l => exact (h.guarantees (protocol host huuid) hl).removed htidy key hkey hgone
  | crash pid =>
    exfalso
    apply hgone
    unfold System.step
    dsimp only
    split
    · exact hkey
    · exact hkey

/-- While the holder of a scope does nothing, its entries stay, and the points they record. -/
theorem scope_run (huuid : Function.Injective uuid) {pid : Nat} {project : String}
    (h : Secure (Rely host uuid) (Guarantee host uuid) (fun i s => Tidy host s ∧ ¬Used (uuid i) s) sys)
    (hlock : sys.state.locks project = some pid) {events : List (SystemEvent Request Outside)}
    (hidle : ∀ event ∈ events, (∀ w, event ≠ .step pid w) ∧ event ≠ .crash pid) :
    let after := run (System.step (Request.program host uuid) releaseLocks) sys events
    after.state.manifest project = sys.state.manifest project ∧
      ∀ entry ∈ sys.state.manifest project, pointKey host entry.snapshotPath ∈ sys.state.points →
        pointKey host entry.snapshotPath ∈ after.state.points := by
  induction events generalizing sys with
  | nil => exact ⟨rfl, fun _ _ hpoint => hpoint⟩
  | cons event events ih =>
    obtain ⟨hstep, hcrash⟩ := hidle event List.mem_cons_self
    have hrely := System.step_relies (protocol host huuid) h event pid hstep hcrash
    have hrest := ih (h.step (protocol host huuid) event) ((hrely.locks project).mpr hlock)
      fun event' hmem => hidle event' (List.mem_cons_of_mem _ hmem)
    have hsame := hrely.manifests project hlock
    dsimp only at hrest ⊢
    rw [run_cons]
    refine ⟨hrest.1.trans hsame, fun entry hentry hpoint => ?_⟩
    apply hrest.2 entry (hsame ▸ hentry)
    -- only the holder of the scope could remove the point of an entry
    by_contra hgone
    obtain ⟨pid', w, rfl, hlast⟩ := step_removed huuid h event hpoint hgone
    have hholder := (hlast.2 project entry hentry rfl).1
    obtain rfl : pid' = pid := Option.some.inj (hholder.symm.trans hlock)
    exact hstep w rfl

end

/-- In every run of captures, recoveries, releases and prunes, with failures and crashes at any
    step: a point goes only with a step of the process that holds the physical lock, and then
    every entry that records the point, in whatever manifest and under whatever spelling, is one
    and the same entry, has no undeleted recovery copy, and its scope is locked by that process.
    And from there on, while the process that holds a scope does nothing, the entries of the
    scope stay as they are, and so do the points they record. -/
theorem shared_point_outlives_views (host : Host) {uuid : Nat → String}
    (huuid : Function.Injective uuid) {s : Store} (hs : Tidy host s) (hnew : ∀ i, ¬Used (uuid i) s)
    (events : List (SystemEvent Request Outside)) :
    let step := System.step (Request.program host uuid) releaseLocks
    let sys := run step (System.idle s) events
    (∀ event, ∀ key ∈ sys.state.points, key ∉ (step sys event).state.points →
      ∃ pid w, event = .step pid w ∧ LastView host pid sys.state key) ∧
      ∀ project pid, sys.state.locks project = some pid →
        ∀ more, (∀ event ∈ more, (∀ w, event ≠ .step pid w) ∧ event ≠ .crash pid) →
          (run step sys more).state.manifest project = sys.state.manifest project ∧
            ∀ entry ∈ sys.state.manifest project,
              pointKey host entry.snapshotPath ∈ sys.state.points →
                pointKey host entry.snapshotPath ∈ (run step sys more).state.points := by
  have hsecure : Secure (Rely host uuid) (Guarantee host uuid)
      (fun i s => Tidy host s ∧ ¬Used (uuid i) s)
      (run (System.step (Request.program host uuid) releaseLocks) (System.idle s) events) :=
    (System.secure_idle fun i => ⟨hs, hnew i⟩).run (protocol host huuid) events
  constructor
  · exact fun event key hkey hgone => step_removed huuid hsecure event hkey hgone
  · exact fun project pid hlock more hidle => scope_run huuid hsecure hlock hidle

/-! ## A shared point -/

/-- The ids of the captures of processes 0, 1, 2, ... -/
def captureId (i : Nat) : String := String.ofList (List.replicate (i + 1) 'a')

theorem injective_captureId : Function.Injective captureId := by
  intro i j h
  have hlength := congrArg (fun text => text.toList.length) h
  simpa [captureId] using hlength

theorem manifest_empty (project : String) : Store.empty.manifest project = [] := rfl

theorem tidy_empty : Tidy plainHost Store.empty where
  fits := by
    intro project
    rw [manifest_empty]
    exact ⟨fun _ hmem => (by cases hmem), fun _ hmem => (by cases hmem), List.nodup_nil⟩
  keys := fun _ hmem => by cases hmem

/-- A periodic capture. -/
def periodic (project : String) (now : Int) : Request :=
  .capture {
    name := none
    projectId := project
    repoRoot := ["srv", "workspaces", "projects", project]
    scopePath := ["srv", "workspaces", "projects", project]
    boundary := ["srv", "workspaces"]
    relative := ["projects", project]
    spelling := ["srv", "workspaces"]
    snapshotId := ""
    source := "auto-periodic"
    now := now }

/-- Two projects record one point, and one of them a later point; the other one starts to
    recover. -/
def twoViews : List (SystemEvent Request Outside) :=
  .start (periodic "app" 0) :: (List.replicate 20 (.step 0 (quiet "f1")) ++
  .start (periodic "lib" 300000000) :: (List.replicate 20 (.step 1 (quiet "f1")) ++
  .start (periodic "app" 1200000000) :: (List.replicate 20 (.step 2 (quiet "f2")) ++
  [.start (.recover "-0" "lib" ["srv", "workspaces", "projects", "lib"] ["srv", "workspaces"] none
    1300000000), .step 3 (quiet "f2")])))

/-- A prune run a month later. -/
def appPruned : List (SystemEvent Request Outside) :=
  .start (.prune defaultPolicy false none ["app", "lib"] [] (30 * day)) ::
    List.replicate 40 (.step 4 (quiet "f2"))

/-- The run drops the view of one project; the point stays for the other one. -/
theorem shared_point_outlives_view :
    let step := System.step (Request.program plainHost captureId) releaseLocks
    let sys := run step (System.idle Store.empty) twoViews
    (sys.state.manifest "app").length = 2 ∧ ((run step sys appPruned).state.manifest "app").length = 1 ∧
      (sys.state.manifest "lib").length = 1 ∧
      ∀ entry ∈ sys.state.manifest "lib", pointKey plainHost entry.snapshotPath ∈ sys.state.points →
        pointKey plainHost entry.snapshotPath ∈ (run step sys appPruned).state.points := by
  have hlock : (run (System.step (Request.program plainHost captureId) releaseLocks)
      (System.idle Store.empty) twoViews).state.locks "lib" = some 3 := by decide +kernel
  have hidle : ∀ event ∈ appPruned, (∀ w, event ≠ .step 3 w) ∧ event ≠ .crash 3 := by
    intro event hmem
    cases List.mem_cons.mp hmem with
    | inl hstart =>
      rw [hstart]
      exact ⟨fun w hw => (by cases hw), fun hw => by cases hw⟩
    | inr hsteps =>
      rw [List.eq_of_mem_replicate hsteps]
      refine ⟨fun w hw => ?_, fun hw => by cases hw⟩
      have hpid : 4 = 3 := (SystemEvent.step.inj hw).1
      omega
  have hunused : ∀ i, ¬Used (captureId i) Store.empty := by
    intro i hused
    obtain ⟨project, entry, hentry, _⟩ := hused
    rw [manifest_empty] at hentry
    cases hentry
  have hviews := shared_point_outlives_views plainHost injective_captureId tidy_empty hunused twoViews
  exact ⟨by decide +kernel, by decide +kernel, by decide +kernel,
    (hviews.2 "lib" 3 hlock appPruned hidle).2⟩

end SummitFlow.Snapshots
