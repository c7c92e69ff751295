import Mathlib
import SummitFlow.Spec.PointOwners
import SummitFlow.Spec.SnapshotRetention

/-!
# Pruning a scope

The locks of captures and prunes, what a process may read under them, and a prune of one scope:
the last view of a point takes the point with it.  Orphans, captures, recoveries and the runs
follow in `PointViews`.

## Key results

- `runs_physicalLock`, `runs_scopeLock`: what a body keeps within its locks
- `runs_allEntries`: under the physical lock all manifests are read as they stand
- `runs_pruneScope`: what a prune removes has its last view in the batch
-/

namespace SummitFlow.Snapshots

open Script (Stable Runs Quiet)

variable {host : Host} {uuid : Nat → String} {i : Nat} {α β : Type}

theorem rely_refl (s : Store) : Rely host uuid i s s := .rfl

/-! ## What a call knows -/

theorem stable_tidy : Stable (Rely host uuid i) (Tidy host) := fun _ _ hst hs => hst.tidy hs

theorem stable_unused : Stable (Rely host uuid i) fun s => ¬Used (uuid i) s :=
  fun _ _ hst hs => hst.unused hs

theorem stable_physical : Stable (Rely host uuid i) fun s => s.physical = some i :=
  fun _ _ hst hs => hst.physical.mpr hs

/-- The process has the lock of the scope, and the manifest is in order. -/
structure Scoped (host : Host) (i : Nat) (project : String) (s : Store) : Prop where
  tidy : Tidy host s
  lock : s.locks project = some i

theorem stable_scoped (project : String) : Stable (Rely host uuid i) (Scoped host i project) :=
  fun _ _ hst hs => ⟨hst.tidy hs.tidy, (hst.locks project).mpr hs.lock⟩

/-- It has the physical lock too. -/
structure Inside (host : Host) (i : Nat) (project : String) (s : Store) : Prop
    extends Scoped host i project s where
  physical : s.physical = some i

theorem stable_inside (project : String) : Stable (Rely host uuid i) (Inside host i project) :=
  fun s t hst hs => ⟨stable_scoped project s t hst hs.toScoped, hst.physical.mpr hs.physical⟩

/-- These are the entries of the manifest. -/
def Listed (i : Nat) (project : String) (entries : List QuickSnapshot) (s : Store) : Prop :=
  s.locks project = some i ∧ entries.Perm (s.manifest project)

theorem stable_listed (project : String) (entries : List QuickSnapshot) :
    Stable (Rely host uuid i) (Listed i project entries) := by
  intro s t hst hs
  refine ⟨(hst.locks project).mpr hs.1, ?_⟩
  rw [hst.manifests project hs.1]
  exact hs.2

theorem Listed.fits {project : String} {entries : List QuickSnapshot} {s : Store}
    (h : Listed i project entries s) (htidy : Tidy host s) : Fits project entries :=
  (htidy.fits project).perm h.2

/-- The manifest records the points of these entries. -/
def Recording (i : Nat) (project : String) (entries : List QuickSnapshot) (s : Store) : Prop :=
  s.locks project = some i ∧
    ∀ r, r ∈ entries.map QuickSnapshot.record ↔ r ∈ (s.manifest project).map QuickSnapshot.record

theorem stable_recording (project : String) (entries : List QuickSnapshot) :
    Stable (Rely host uuid i) (Recording i project entries) := by
  intro s t hst hs
  refine ⟨(hst.locks project).mpr hs.1, ?_⟩
  rw [hst.manifests project hs.1]
  exact hs.2

/-- The entries that were read are those of these projects, as far as points are recorded. -/
structure Views (i : Nat) (covers : String → Prop) (views : List QuickSnapshot) (s : Store) : Prop where
  physical : s.physical = some i
  complete : ∀ project, covers project → ∀ r ∈ (s.manifest project).map QuickSnapshot.record,
    ∃ view ∈ views, view.projectId = project ∧ view.record = r
  sound : ∀ view ∈ views, view.record ∈ (s.manifest view.projectId).map QuickSnapshot.record

theorem stable_views (covers : String → Prop) (views : List QuickSnapshot) :
    Stable (Rely host uuid i) (Views i covers views) := by
  intro s t hst hs
  have hsame := hst.records hs.physical
  refine ⟨hst.physical.mpr hs.physical, ?_, ?_⟩
  · intro project hcovers r hr
    exact hs.complete project hcovers r ((hsame project r).mp hr)
  · intro view hview
    exact (hsame _ _).mpr (hs.sound view hview)

/-- The entries of the process's own capture are in the manifest of its project, without copies. -/
def Mine (uuid : Nat → String) (i : Nat) (project : String) (s : Store) : Prop :=
  ∀ project', ∀ entry ∈ s.manifest project', entry.id = uuid i →
    project' = project ∧ hasCopy entry = false

theorem stable_mine (project : String) :
    Stable (Rely host uuid i) fun s => Inside host i project s ∧ Mine uuid i project s := by
  intro s t hst hs
  obtain ⟨hinside, hmine⟩ := hs
  refine ⟨stable_inside project s t hst hinside, ?_⟩
  intro project' entry hentry hid
  by_cases heq : project' = project
  · subst heq
    rw [hst.manifests project' hinside.lock] at hentry
    exact hmine project' entry hentry hid
  · -- what another manifest records was recorded there before
    have hrecord := (hst.records hinside.physical project' entry.record).mp
      (List.mem_map_of_mem hentry)
    obtain ⟨entry', hentry', hsame⟩ := List.mem_map.mp hrecord
    have hid' : entry'.id = uuid i := (Prod.mk.inj hsame).1.trans hid
    exact absurd (hmine project' entry' hentry' hid').1 heq

/-! ## Steps -/

section

variable {P : Store → Prop} {Q : α → Store → Prop}

theorem quiet_look (f : Store → Outside → Except Failure α) :
    Quiet (Rely host uuid i) (Guarantee host uuid i) (look f) :=
  Script.quiet_action fun s _ => ⟨.rfl, guarantee_refl _ s⟩

/-- What a look finds is so. -/
theorem runs_look {E : Store → Prop} (hP : Stable (Rely host uuid i) P)
    (hQ : ∀ a, Stable (Rely host uuid i) (Q a)) (hE : ∀ s, P s → E s)
    {f : Store → Outside → Except Failure α} (h : ∀ s w a, P s → f s w = .ok a → Q a s) :
    Runs (Rely host uuid i) (Guarantee host uuid i) P (look f) Q E := by
  apply (Script.runs_action hP hQ hP _).mono (fun _ => id) (fun _ _ => id) hE
  intro s w hs
  exact ⟨guarantee_refl _ s, fun a ha => h s w a hs ha, fun _ _ => hs⟩

theorem runs_loadManifest (hP : Stable (Rely host uuid i) P) {project : String}
    (hlock : ∀ s, P s → s.locks project = some i) :
    Runs (Rely host uuid i) (Guarantee host uuid i) P (loadManifest project)
      (fun entries s => P s ∧ Listed i project entries s) P := by
  apply runs_look hP (fun entries => hP.and (stable_listed project entries)) fun _ => id
  intro s w entries hs hok
  rw [raised_ok hok]
  exact ⟨hs, hlock s hs, perm_newestFirst _⟩

/-- A manifest is replaced, or stays as it is. -/
theorem runs_saveManifest {Q E : Store → Prop} (hP : Stable (Rely host uuid i) P)
    (hQ : Stable (Rely host uuid i) Q) (hE : ∀ s, P s → E s) {project : String}
    {entries : List QuickSnapshot}
    (h : ∀ s, P s → Guarantee host uuid i s none (s.setManifest project entries) ∧
      Q (s.setManifest project entries)) :
    Runs (Rely host uuid i) (Guarantee host uuid i) P (saveManifest project entries) (fun _ => Q) E := by
  apply (Script.runs_action hP (fun _ => hQ) hP _).mono (fun _ => id) (fun _ _ => id) hE
  intro s w hs
  cases hw : w.failure with
  | some failure =>
    exact ⟨guarantee_refl _ s, fun a ha => (by cases ha), fun _ _ => hs⟩
  | none =>
    exact ⟨(h s hs).1, fun _ _ => (h s hs).2, fun e he => (by cases he)⟩

theorem runs_attempt {E : Store → Prop} (hQ : ∀ a, Stable (Rely host uuid i) (Q a))
    (hE : Stable (Rely host uuid i) E) {c : Call α}
    (h : Runs (Rely host uuid i) (Guarantee host uuid i) P c Q E) {F : Store → Prop} :
    Runs (Rely host uuid i) (Guarantee host uuid i) P (attempt c)
      (fun result s => (∀ a, result = .ok a → Q a s) ∧ ∀ e, result = .error e → E s) F := by
  apply Script.runs_tryCatch rely_refl (F := E)
  · apply h.bind rely_refl
    intro a
    apply Script.runs_pure (hQ a)
    intro s hs
    refine ⟨fun b hb => ?_, fun e he => by cases he⟩
    rw [← Except.ok.inj hb]
    exact hs
  · intro e
    apply Script.runs_pure hE
    intro s hs
    exact ⟨fun a ha => (by cases ha), fun _ _ => hs⟩

/-- What holds either way. -/
theorem runs_attempt_keeps {Q F : Store → Prop} (hQ : Stable (Rely host uuid i) Q) {c : Call α}
    (h : Runs (Rely host uuid i) (Guarantee host uuid i) P c (fun _ => Q) Q) :
    Runs (Rely host uuid i) (Guarantee host uuid i) P (attempt c) (fun _ => Q) F := by
  apply (runs_attempt (fun _ => hQ) hQ h).mono (fun _ => id) _ fun _ => id
  intro result s hs
  cases result with
  | ok a => exact hs.1 a rfl
  | error e => exact hs.2 e rfl

end

/-! ## Locks -/

/-- The physical lock, around a body that leaves manifests in order. -/
theorem runs_physicalLock {P : Store → Prop} (hP : Stable (Rely host uuid i) P)
    (htidy : ∀ s, P s → Tidy host s) (hfree : ∀ s o, P s → P { s with physical := o }) {body : Call α}
    (hbody : Runs (Rely host uuid i) (Guarantee host uuid i) (fun s => P s ∧ s.physical = some i) body
      (fun _ s => Tidy host s ∧ s.physical = some i) (fun s => Tidy host s ∧ s.physical = some i)) :
    Runs (Rely host uuid i) (Guarantee host uuid i) P (physicalLock i body) (fun _ => Tidy host)
      (Tidy host) := by
  have hheld : Stable (Rely host uuid i) fun s => Tidy host s ∧ s.physical = some i :=
    stable_tidy.and stable_physical
  have hrelease : Runs (Rely host uuid i) (Guarantee host uuid i)
      (fun s => Tidy host s ∧ s.physical = some i)
      (.action fun s _ => ({ s with physical := none }, none, .ok ()) : Call Unit)
      (fun _ => Tidy host) (Tidy host) := by
    apply Script.runs_action hheld (fun _ => stable_tidy) stable_tidy
    intro s _ hs
    have hafter : Tidy host { s with physical := none } := ⟨hs.1.fits, hs.1.keys⟩
    have hstep : Guarantee host uuid i s none { s with physical := none } := by
      apply guarantee_physical
      intro j hne
      simp [hs.2, hne.symm]
    exact ⟨hstep, fun _ _ => hafter, fun _ _ => hafter⟩
  unfold physicalLock
  apply Script.Runs.bind (Q := fun _ s => P s ∧ s.physical = some i) rely_refl
  · apply Script.runs_action hP (fun _ => hP.and stable_physical) stable_tidy
    intro s _ hs
    cases hlock : s.physical with
    | some holder =>
      exact ⟨guarantee_refl _ s, fun a ha => (by cases ha), fun _ _ => htidy s hs⟩
    | none =>
      have hstep : Guarantee host uuid i s none { s with physical := some i } := by
        apply guarantee_physical
        intro j hne
        simp [hlock, hne.symm]
      exact ⟨hstep, fun _ _ => ⟨hfree s _ hs, rfl⟩, fun e he => by cases he⟩
  · intro _
    exact Script.runs_andFinally rely_refl (fun _ => stable_tidy) stable_tidy hbody (fun _ => hrelease)
      hrelease

/-- The lock of a scope; what is known of the physical lock stays. -/
theorem runs_scopeLock {P F : Store → Prop} (hP : Stable (Rely host uuid i) P)
    (hF : Stable (Rely host uuid i) F) {project : String}
    (htake : ∀ s o, P s → P { s with locks := o }) (hrelease : ∀ s o, F s → F { s with locks := o })
    (hPF : ∀ s, P s → F s) {body : Call α}
    (hbody : Runs (Rely host uuid i) (Guarantee host uuid i) (fun s => P s ∧ s.locks project = some i) body
      (fun _ s => F s ∧ s.locks project = some i) (fun s => F s ∧ s.locks project = some i)) :
    Runs (Rely host uuid i) (Guarantee host uuid i) P (scopeLock i project body) (fun _ => F) F := by
  have hlocked : Stable (Rely host uuid i) fun s : Store => s.locks project = some i :=
    fun _ _ hst hs => (hst.locks project).mpr hs
  have hfree : Runs (Rely host uuid i) (Guarantee host uuid i)
      (fun s => F s ∧ s.locks project = some i)
      (.action fun s _ => ({ s with locks := Function.update s.locks project none }, none, .ok ()) :
        Call Unit) (fun _ => F) F := by
    apply Script.runs_action (hF.and hlocked) (fun _ => hF) hF
    intro s _ hs
    have hafter := hrelease s (Function.update s.locks project none) hs.1
    have hstep : Guarantee host uuid i s none
        { s with locks := Function.update s.locks project none } := by
      apply guarantee_locks
      intro j hne project'
      by_cases heq : project' = project
      · subst heq
        simp [hs.2, hne.symm]
      · simp [heq]
    exact ⟨hstep, fun _ _ => hafter, fun _ _ => hafter⟩
  unfold scopeLock
  apply Script.Runs.bind (Q := fun _ s => P s ∧ s.locks project = some i) rely_refl
  · apply Script.runs_action hP (fun _ => hP.and hlocked) hF
    intro s _ hs
    cases hlock : s.locks project with
    | some holder =>
      exact ⟨guarantee_refl _ s, fun a ha => (by cases ha), fun _ _ => hPF s hs⟩
    | none =>
      have hstep : Guarantee host uuid i s none
          { s with locks := Function.update s.locks project (some i) } := by
        apply guarantee_locks
        intro j hne project'
        by_cases heq : project' = project
        · subst heq
          simp [hlock, hne.symm]
        · simp [heq]
      exact ⟨hstep, fun _ _ => ⟨htake s _ hs, Function.update_self ..⟩, fun e he => by cases he⟩
  · intro _
    exact Script.runs_andFinally rely_refl (fun _ => hF) hF hbody (fun _ => hfree) hfree

/-! ## Reading all manifests -/

theorem quiet_readManifests (projects : List String) :
    Quiet (Rely host uuid i) (Guarantee host uuid i) (readManifests projects) := by
  induction projects with
  | nil => exact Script.quiet_pure []
  | cons project projects ih =>
    apply Script.Quiet.bind rely_refl (quiet_look _)
    intro entries
    apply Script.Quiet.bind rely_refl ih
    intro rest
    exact Script.quiet_pure _

theorem quiet_allEntries : Quiet (Rely host uuid i) (Guarantee host uuid i) allEntries := by
  apply Script.Quiet.bind rely_refl (quiet_look _)
  intro projects
  exact quiet_readManifests projects

theorem Views.append {projects : List String} {project : String} {entries views : List QuickSnapshot}
    {s : Store} (h : Views i (· = project) entries s) (h' : Views i (· ∈ projects) views s) :
    Views i (· ∈ project :: projects) (entries ++ views) s where
  physical := h.physical
  complete := by
    intro project' hproject' r hr
    cases List.mem_cons.mp hproject' with
    | inl heq =>
      obtain ⟨view, hview, hsame⟩ := h.complete project' heq r hr
      exact ⟨view, List.mem_append_left _ hview, hsame⟩
    | inr hrest =>
      obtain ⟨view, hview, hsame⟩ := h'.complete project' hrest r hr
      exact ⟨view, List.mem_append_right _ hview, hsame⟩
  sound := by
    intro view hview
    cases List.mem_append.mp hview with
    | inl hfirst => exact h.sound view hfirst
    | inr hrest => exact h'.sound view hrest

section

variable {P : Store → Prop}

theorem runs_readManifests (projects : List String) (hP : Stable (Rely host uuid i) P)
    (hphysical : ∀ s, P s → s.physical = some i) (htidy : ∀ s, P s → Tidy host s) :
    Runs (Rely host uuid i) (Guarantee host uuid i) P (readManifests projects)
      (fun views s => P s ∧ Views i (· ∈ projects) views s) P := by
  induction projects generalizing P with
  | nil =>
    apply Script.runs_pure hP
    intro s hs
    exact ⟨hs, hphysical s hs, fun _ hmem => (by cases hmem), fun _ hmem => by cases hmem⟩
  | cons project projects ih =>
    have hfirst : Runs (Rely host uuid i) (Guarantee host uuid i) P
        (look fun s w => raised w (s.manifest project))
        (fun entries s => P s ∧ Views i (· = project) entries s) P := by
      apply runs_look hP (fun entries => hP.and (stable_views (· = project) entries)) fun _ => id
      intro s w entries hs hok
      rw [raised_ok hok]
      have howned := ((htidy s hs).fits project).owned
      refine ⟨hs, hphysical s hs, ?_, ?_⟩
      · intro project' hproject' r hr
        subst hproject'
        obtain ⟨entry, hentry, hsame⟩ := List.mem_map.mp hr
        exact ⟨entry, hentry, howned entry hentry, hsame⟩
      · intro view hview
        rw [howned view hview]
        exact List.mem_map_of_mem hview
    apply hfirst.bind rely_refl
    intro entries
    have hrest := ih (hP.and (stable_views (· = project) entries)) (fun s hs => hphysical s hs.1)
      fun s hs => htidy s hs.1
    apply (hrest.mono (fun _ => id) (fun _ _ => id) fun _ hs => hs.1).bind rely_refl
    intro views
    apply Script.runs_pure ((hP.and (stable_views _ entries)).and (stable_views _ views))
    exact fun s hs => ⟨hs.1.1, hs.1.2.append hs.2⟩

/-- Under the physical lock all manifests are read as they stand. -/
theorem runs_allEntries (hP : Stable (Rely host uuid i) P) (hphysical : ∀ s, P s → s.physical = some i)
    (htidy : ∀ s, P s → Tidy host s) :
    Runs (Rely host uuid i) (Guarantee host uuid i) P allEntries
      (fun views s => P s ∧ Views i (fun _ => True) views s) P := by
  -- the projects that record something, from the first look on
  have hnames : ∀ projects : List String, Stable (Rely host uuid i) fun s : Store =>
      s.physical = some i ∧ ∀ project, ∀ r ∈ (s.manifest project).map QuickSnapshot.record,
        project ∈ projects := by
    intro projects s t hst hs
    refine ⟨hst.physical.mpr hs.1, fun project r hr => ?_⟩
    exact hs.2 project r ((hst.records hs.1 project r).mp hr)
  have hlook : Runs (Rely host uuid i) (Guarantee host uuid i) P
      (look fun s w => raised w (s.manifests.map Prod.fst))
      (fun projects s => P s ∧ s.physical = some i ∧
        ∀ project, ∀ r ∈ (s.manifest project).map QuickSnapshot.record, project ∈ projects) P := by
    apply runs_look hP (fun projects => hP.and (hnames projects)) fun _ => id
    intro s w projects hs hok
    rw [raised_ok hok]
    refine ⟨hs, hphysical s hs, fun project r hr => ?_⟩
    obtain ⟨entry, hentry, _⟩ := List.mem_map.mp hr
    exact mem_projects hentry
  apply hlook.bind rely_refl
  intro projects
  have hread := runs_readManifests projects (hP.and (hnames projects)) (fun s hs => hs.2.1)
    fun s hs => htidy s hs.1
  apply hread.mono (fun _ => id) _ fun _ hs => hs.1
  intro views s hs
  obtain ⟨⟨hPs, _, hall⟩, hread⟩ := hs
  exact ⟨hPs, hread.physical, fun project _ r hr => hread.complete project (hall project r hr) r hr,
    hread.sound⟩

end

/-! ## Pruning a scope -/

section

variable {project : String} {entries views batch : List QuickSnapshot} {s : Store}

/-- What a prune knows when it comes to its batch. -/
structure Pruning (host : Host) (i : Nat) (project : String) (entries views : List QuickSnapshot)
    (s : Store) : Prop extends Inside host i project s where
  listed : Listed i project entries s
  views : Views i (fun _ => True) views s

theorem stable_pruning : Stable (Rely host uuid i) (Pruning host i project entries views) :=
  fun s t hst hs => ⟨stable_inside project s t hst hs.toInside, stable_listed project entries s t hst hs.listed,
    stable_views _ views s t hst hs.views⟩

/-- Only the entry itself records its point when every view of the point is in the batch. -/
theorem Pruning.recorder (h : Pruning host i project entries views s) (hbatch : ∀ b ∈ batch, b ∈ entries)
    {entry : QuickSnapshot} (hentry : entry ∈ batch)
    (hviews : ∀ view ∈ views, pointKey host view.snapshotPath = pointKey host entry.snapshotPath →
      view.view ∈ batch.map QuickSnapshot.view)
    {project' : String} {e : QuickSnapshot} (he : e ∈ s.manifest project')
    (hkey : pointKey host e.snapshotPath = pointKey host entry.snapshotPath) :
    project' = project ∧ e = entry := by
  have hfits : Fits project entries := h.listed.fits h.tidy
  obtain ⟨view, hview, howner, hrecord⟩ := h.views.complete project' trivial _ (List.mem_map_of_mem he)
  obtain ⟨hid, hpath⟩ := Prod.mk.inj hrecord
  obtain ⟨b, hb, hsame⟩ := List.mem_map.mp (hviews view hview (by rw [hpath, hkey]))
  -- the batch is of one project
  have hproject : project' = project := by
    rw [← howner, ← (Prod.mk.inj hsame).1, hfits.owned b (hbatch b hb)]
  subst hproject
  have hmem : e ∈ entries := h.listed.2.mem_iff.mpr he
  have hlast : e.snapshotPath.getLast? = entry.snapshotPath.getLast? := by
    rw [← getLast?_pointKey host e.snapshotPath, hkey, getLast?_pointKey]
  rw [hfits.named e hmem, hfits.named entry (hbatch entry hentry)] at hlast
  exact ⟨rfl, hfits.eq hmem (hbatch entry hentry) (Option.some.inj hlast)⟩

theorem Pruning.lastView (h : Pruning host i project entries views s) (hbatch : ∀ b ∈ batch, b ∈ entries)
    {entry : QuickSnapshot} (hentry : entry ∈ batch) (hcopy : hasCopy entry = false)
    (hviews : ∀ view ∈ views, pointKey host view.snapshotPath = pointKey host entry.snapshotPath →
      view.view ∈ batch.map QuickSnapshot.view) :
    LastView host i s (pointKey host entry.snapshotPath) := by
  refine ⟨h.physical, fun project' e he hkey => ?_⟩
  obtain ⟨rfl, rfl⟩ := h.recorder hbatch hentry hviews he hkey
  exact ⟨h.lock, hcopy, fun project'' e' he' hkey' => h.recorder hbatch hentry hviews he' hkey'⟩

theorem Pruning.removePoint (h : Pruning host i project entries views s) (key : Path) :
    Pruning host i project entries views { s with points := s.points.filter (· ≠ key) } where
  tidy := ⟨h.tidy.fits, fun key' hkey' => h.tidy.keys key' (List.mem_filter.mp hkey').1⟩
  lock := h.lock
  physical := h.physical
  listed := h.listed
  views := ⟨h.views.physical, h.views.complete, h.views.sound⟩

/-- What a prune removes has its last view in the batch. -/
theorem runs_deleteEach (hbatch : ∀ b ∈ batch, b ∈ entries) {rest : List QuickSnapshot}
    (hrest : ∀ entry ∈ rest, entry ∈ batch) :
    Runs (Rely host uuid i) (Guarantee host uuid i) (Pruning host i project entries views)
      (deleteEach host views batch rest) (fun _ => Pruning host i project entries views)
      (Pruning host i project entries views) := by
  have hstable : Stable (Rely host uuid i) (Pruning host i project entries views) := stable_pruning
  induction rest with
  | nil => exact Script.runs_pure hstable fun _ => id
  | cons entry rest ih =>
    unfold deleteEach
    apply Script.Runs.bind (Q := fun _ => Pruning host i project entries views) rely_refl
    · apply Script.runs_action hstable (fun _ => hstable) hstable
      intro s w hs
      dsimp only
      cases @deleteEntry_cases host views batch entry s w with
      | inl hkept =>
        obtain ⟨outcome, hsame⟩ := hkept
        rw [hsame]
        exact ⟨guarantee_refl _ s, fun _ _ => hs, fun _ _ => hs⟩
      | inr hgone =>
        obtain ⟨hcopy, hviews, hremoved⟩ := hgone
        rw [hremoved]
        have hlast := hs.lastView hbatch (hrest entry List.mem_cons_self) hcopy hviews
        exact ⟨guarantee_removePoint hs.physical hlast, fun _ _ => hs.removePoint _,
          fun _ _ => hs.removePoint _⟩
    intro outcome
    apply (ih fun e he => hrest e (List.mem_cons_of_mem _ he)).bind rely_refl
    intro outcomes
    exact Script.runs_pure hstable fun _ => id

end

/-- Changes of entries that keep what is recorded of them, and some that go. -/
theorem guarantee_saveInside {project : String} {entries entries' : List QuickSnapshot} {s : Store}
    (hs : Inside host i project s) (hlisted : Listed i project entries s)
    (hfits : Fits project entries') (hsub : ∀ e ∈ entries', ∃ e' ∈ entries, e'.id = e.id)
    (huuid : Function.Injective uuid) :
    Guarantee host uuid i s none (s.setManifest project entries') := by
  apply guarantee_setManifest hs.lock hfits _ huuid (.inr hs.physical)
  intro e he
  obtain ⟨e', he', hid⟩ := hsub e he
  exact .inr ⟨project, e', hlisted.2.mem_iff.mp he', hid⟩

theorem Inside.setManifest {project : String} {entries : List QuickSnapshot} {s : Store}
    (hs : Inside host i project s) (hfits : Fits project entries) :
    Inside host i project (s.setManifest project entries) :=
  ⟨⟨hs.tidy.setManifest hfits, hs.lock⟩, hs.physical⟩

theorem Inside.addPoint {project : String} {s : Store} (hs : Inside host i project s) (path : Path) :
    Inside host i project { s with points := pointKey host path :: s.points } := by
  refine ⟨⟨⟨hs.tidy.fits, fun key hkey => ?_⟩, hs.lock⟩, hs.physical⟩
  cases List.mem_cons.mp hkey with
  | inl heq => rw [heq, pointKey_pointKey]
  | inr hold => exact hs.tidy.keys key hold

theorem Inside.removePoint {project : String} {s : Store} (hs : Inside host i project s) (key : Path) :
    Inside host i project { s with points := s.points.filter (· ≠ key) } :=
  ⟨⟨⟨hs.tidy.fits, fun key' hkey' => hs.tidy.keys key' (List.mem_filter.mp hkey').1⟩, hs.lock⟩,
    hs.physical⟩

theorem listed_setManifest {project : String} {entries : List QuickSnapshot} {s : Store}
    (hlock : s.locks project = some i) : Listed i project entries (s.setManifest project entries) := by
  refine ⟨hlock, ?_⟩
  rw [manifest_setManifest_self]
  exact (perm_newestFirst entries).symm

theorem record_cleanup (now : Int) (copyError : Path → Option String) (entry : QuickSnapshot) :
    (cleanupRecoveryCopies now copyError entry).record = entry.record := rfl

theorem record_noteFailure (outcomes : List (String × Except String Bool)) (entry : QuickSnapshot) :
    (noteFailure outcomes entry).record = entry.record ∧
      (noteFailure outcomes entry).projectId = entry.projectId := by
  obtain ⟨error, heq⟩ := noteFailure_eq entry outcomes
  rw [heq]
  exact ⟨rfl, rfl⟩

theorem mem_retentionCandidates_entries {now : Int} {points : List Path} {isDir : Path → Bool}
    {allowed : List Path} {entries : List QuickSnapshot} {entry : QuickSnapshot}
    (h : entry ∈ retentionCandidates host now points isDir allowed entries) : entry ∈ entries := by
  unfold retentionCandidates at h
  cases List.mem_append.mp h with
  | inl hchosen => exact (List.mem_filter.mp hchosen).1
  | inr hdiscarded => exact (List.mem_filter.mp hdiscarded).1

/-- A prune of one scope. -/
theorem runs_pruneScope (huuid : Function.Injective uuid) (project : String) (now : Int)
    (allowed : List Path) :
    Runs (Rely host uuid i) (Guarantee host uuid i) (Tidy host) (pruneScope host i project now allowed)
      (fun _ => Tidy host) (Tidy host) := by
  unfold pruneScope
  apply runs_physicalLock stable_tidy (fun _ => id) fun s o hs => ⟨hs.fits, hs.keys⟩
  have hheld : Stable (Rely host uuid i) fun s => Tidy host s ∧ s.physical = some i :=
    stable_tidy.and stable_physical
  apply runs_scopeLock hheld hheld (fun s o hs => ⟨⟨hs.1.fits, hs.1.keys⟩, hs.2⟩)
    (fun s o hs => ⟨⟨hs.1.fits, hs.1.keys⟩, hs.2⟩) fun _ => id
  -- inside both locks
  have hinside : Stable (Rely host uuid i) (Inside host i project) := stable_inside project
  have hend : ∀ s, Inside host i project s →
      (Tidy host s ∧ s.physical = some i) ∧ s.locks project = some i :=
    fun s hs => ⟨⟨hs.tidy, hs.physical⟩, hs.lock⟩
  suffices hbody : Runs (Rely host uuid i) (Guarantee host uuid i) (Inside host i project) _
      (fun _ => Inside host i project) (Inside host i project) from
    hbody.mono (fun s hs => ⟨⟨hs.1.1, hs.2⟩, hs.1.2⟩) (fun _ => hend) hend
  apply (runs_loadManifest hinside fun s hs => hs.lock).bind rely_refl
  intro loaded
  have hloaded := hinside.and (stable_listed project loaded)
  have hclean : Runs (Rely host uuid i) (Guarantee host uuid i)
      (fun s => Inside host i project s ∧ Listed i project loaded s)
      (look fun _ w => .ok (loaded.map (cleanupRecoveryCopies now w.copyError)))
      (fun entries s => (Inside host i project s ∧ Listed i project loaded s) ∧
        ∃ copyError, entries = loaded.map (cleanupRecoveryCopies now copyError))
      (Inside host i project) := by
    apply runs_look hloaded (fun entries => hloaded.and (Script.stable_const _)) fun s hs => hs.1
    intro s w entries hs hok
    exact ⟨hs, w.copyError, (Except.ok.inj hok).symm⟩
  apply hclean.bind rely_refl
  intro entries
  apply Script.runs_const
  intro hentries
  obtain ⟨copyError, rfl⟩ := hentries
  generalize hcleaned : loaded.map (cleanupRecoveryCopies now copyError) = entries
  have hlisted := hinside.and (stable_listed project entries)
  have hsave : Runs (Rely host uuid i) (Guarantee host uuid i)
      (fun s => Inside host i project s ∧ Listed i project loaded s) (saveManifest project entries)
      (fun _ s => Inside host i project s ∧ Listed i project entries s) (Inside host i project) := by
    apply runs_saveManifest hloaded hlisted fun s hs => hs.1
    intro s hs
    have hfits : Fits project entries := by
      rw [← hcleaned]
      exact (hs.2.fits hs.1.tidy).map fun entry _ => ⟨record_cleanup now copyError entry, rfl⟩
    have hstep := guarantee_saveInside hs.1 hs.2 hfits (by
      intro e he
      rw [← hcleaned] at he
      obtain ⟨e', he', rfl⟩ := List.mem_map.mp he
      exact ⟨e', he', rfl⟩) huuid
    exact ⟨hstep, hs.1.setManifest hfits, listed_setManifest hs.1.lock⟩
  apply hsave.bind rely_refl
  intro _
  have hchoose : Runs (Rely host uuid i) (Guarantee host uuid i)
      (fun s => Inside host i project s ∧ Listed i project entries s)
      (look fun s w => .ok (retentionCandidates host now s.points w.isDir allowed entries))
      (fun batch s => (Inside host i project s ∧ Listed i project entries s) ∧ ∀ b ∈ batch, b ∈ entries)
      (Inside host i project) := by
    apply runs_look hlisted (fun batch => hlisted.and (Script.stable_const _)) fun s hs => hs.1
    intro s w batch hs hok
    rw [← Except.ok.inj hok]
    exact ⟨hs, fun b => mem_retentionCandidates_entries⟩
  apply hchoose.bind rely_refl
  intro batch
  apply Script.runs_const
  intro hbatch
  split
  · apply Script.runs_pure hlisted
    exact fun s hs => hs.1
  -- all views of the points that go
  have hread : Runs (Rely host uuid i) (Guarantee host uuid i)
      (fun s => Inside host i project s ∧ Listed i project entries s) allEntries
      (fun views => Pruning host i project entries views) (Inside host i project) := by
    apply (runs_allEntries hlisted (fun s hs => hs.1.physical) fun s hs => hs.1.tidy).mono (fun _ => id)
      (fun views s hs => ?_) fun s hs => hs.1
    exact ⟨hs.1.1, hs.1.2, hs.2⟩
  apply hread.bind rely_refl
  intro views
  have hdelete : Runs (Rely host uuid i) (Guarantee host uuid i) (Pruning host i project entries views)
      (deleteEach host views batch batch) (fun _ => Pruning host i project entries views)
      (Inside host i project) :=
    (runs_deleteEach hbatch fun _ => id).mono (fun _ => id) (fun _ _ => id) fun s hs => hs.toInside
  apply hdelete.bind rely_refl
  intro outcomes
  have hfinal : Runs (Rely host uuid i) (Guarantee host uuid i) (Pruning host i project entries views)
      (saveManifest project
        ((entries.map (noteFailure outcomes)).filter fun entry => !viewGone outcomes entry))
      (fun _ => Inside host i project) (Inside host i project) := by
    apply runs_saveManifest stable_pruning hinside fun s hs => hs.toInside
    intro s hs
    have hfits : Fits project
        ((entries.map (noteFailure outcomes)).filter fun entry => !viewGone outcomes entry) := by
      apply Fits.sublist _ List.filter_sublist
      exact (hs.listed.fits hs.tidy).map fun entry _ => record_noteFailure outcomes entry
    have hstep := guarantee_saveInside hs.toInside hs.listed hfits (by
      intro e he
      obtain ⟨e', he', rfl⟩ := List.mem_map.mp (List.mem_filter.mp he).1
      exact ⟨e', he', (noteFailure_id e' outcomes).symm⟩) huuid
    exact ⟨hstep, hs.toInside.setManifest hfits⟩
  apply hfinal.bind rely_refl
  intro _
  exact Script.runs_pure hinside fun _ => id

end SummitFlow.Snapshots
