import SummitFlow.Spec.RetentionPlan
import SummitFlow.Spec.SnapshotStore

/-!
# Retention over whole histories

Captures and runs of `prune_all`, one after the other.  A run keeps every point it did not
select, and it never selects a point that retention promises to keep at that time.  What is
promised at a time was promised at every earlier run, so right after a run the store has
every point that is promised then.
-/

namespace SummitFlow.Snapshots

open Script

variable {host : Host}

/-! ## Actions -/

section

variable {α : Type} {Q : α → Store → Prop} {E : Failure → Store → Prop} {s : Store}

theorem holds_look {f : Store → Outside → Except Failure α}
    (hok : ∀ w a, f s w = .ok a → Q a s) (herror : ∀ w e, f s w = .error e → E e s) :
    Holds Q E (look f) s :=
  holds_action hok herror

theorem raised_ok {a b : α} {w : Outside} (h : raised w a = .ok b) : b = a := by
  unfold raised at h
  split at h
  · cases h
  · exact (Except.ok.inj h).symm

/-- What one of the locks does not change. -/
def SameFiles (s t : Store) : Prop := t.manifests = s.manifests ∧ t.points = s.points

theorem SameFiles.manifest {s t : Store} (h : SameFiles s t) (project : String) :
    t.manifest project = s.manifest project := by
  rw [Store.manifest, Store.manifest, h.1]

theorem holds_physicalLock (hQ : ∀ a s t, SameFiles s t → Q a s → Q a t)
    (hE : ∀ e s t, SameFiles s t → E e s → E e t) (hbusy : ∀ e, E e s) {pid : Nat} {body : Call α}
    (hbody : ∀ t, SameFiles s t → Holds Q E body t) : Holds Q E (physicalLock pid body) s := by
  unfold physicalLock
  apply Holds.bind (Q := fun _ t => SameFiles s t)
  · apply holds_action
    · intro w a _
      split
      · exact ⟨rfl, rfl⟩
      · exact ⟨rfl, rfl⟩
    · intro w e _
      split
      · exact hbusy e
      · exact hE e s _ ⟨rfl, rfl⟩ (hbusy e)
  · intro _ t ht
    apply Holds.andFinally (hbody t ht)
    · exact fun a u hu => holds_action (fun _ _ _ => hQ a u _ ⟨rfl, rfl⟩ hu) nofun
    · exact fun e u hu => holds_action (fun _ _ _ => hE e u _ ⟨rfl, rfl⟩ hu) nofun

theorem holds_scopeLock (hQ : ∀ a s t, SameFiles s t → Q a s → Q a t)
    (hE : ∀ e s t, SameFiles s t → E e s → E e t) (hbusy : ∀ e, E e s) {pid : Nat} {project : String}
    {body : Call α} (hbody : ∀ t, SameFiles s t → Holds Q E body t) :
    Holds Q E (scopeLock pid project body) s := by
  unfold scopeLock
  apply Holds.bind (Q := fun _ t => SameFiles s t)
  · apply holds_action
    · intro w a _
      split
      · exact ⟨rfl, rfl⟩
      · exact ⟨rfl, rfl⟩
    · intro w e _
      split
      · exact hbusy e
      · exact hE e s _ ⟨rfl, rfl⟩ (hbusy e)
  · intro _ t ht
    apply Holds.andFinally (hbody t ht)
    · exact fun a u hu => holds_action (fun _ _ _ => hQ a u _ ⟨rfl, rfl⟩ hu) nofun
    · exact fun e u hu => holds_action (fun _ _ _ => hE e u _ ⟨rfl, rfl⟩ hu) nofun

end

section

variable {E : Failure → Store → Prop} {s : Store}

theorem holds_loadManifest {Q : List QuickSnapshot → Store → Prop} {project : String}
    (hok : Q (newestFirst (s.manifest project)) s) (herror : ∀ e, E e s) :
    Holds Q E (loadManifest project) s :=
  holds_look (fun _ _ h => raised_ok h ▸ hok) fun _ e _ => herror e

theorem holds_saveManifest {Q : Unit → Store → Prop} {project : String}
    {entries : List QuickSnapshot} (hok : Q () (s.setManifest project entries))
    (herror : ∀ e, E e s) : Holds Q E (saveManifest project entries) s := by
  apply holds_action
  · intro w a h
    cases hw : w.failure with
    | none => simpa only [hw] using hok
    | some failure =>
      rw [hw] at h
      cases h
  · intro w e h
    cases hw : w.failure with
    | none =>
      rw [hw] at h
      cases h
    | some failure => simpa only [hw] using herror e

/-- Reading manifests finds what is in them. -/
theorem holds_readManifests (herror : ∀ e, E e s) (projects : List String) :
    Holds (fun entries t => t = s ∧
        ∀ e, e ∈ entries ↔ ∃ project ∈ projects, e ∈ s.manifest project) E
      (readManifests projects) s := by
  induction projects with
  | nil => exact holds_pure ⟨rfl, fun _ => by simp⟩
  | cons project projects ih =>
    unfold readManifests
    apply Holds.bind (Q := fun entries t => t = s ∧ entries = s.manifest project)
    · exact holds_look (fun _ _ h => ⟨rfl, raised_ok h⟩) fun _ e _ => herror e
    rintro entries t ⟨rfl, rfl⟩
    apply Holds.bind ih
    rintro rest u ⟨rfl, hrest⟩
    apply holds_pure
    refine ⟨rfl, fun e => ?_⟩
    rw [List.mem_append, hrest, List.exists_mem_cons_iff]

theorem holds_allEntries {Q : List QuickSnapshot → Store → Prop} (herror : ∀ e, E e s)
    (hok : ∀ entries, (∀ e, e ∈ entries ↔ ∃ project, e ∈ s.manifest project) → Q entries s) :
    Holds Q E allEntries s := by
  unfold allEntries
  apply Holds.bind (Q := fun projects t => t = s ∧ projects = s.manifests.map Prod.fst)
  · exact holds_look (fun _ _ h => ⟨rfl, raised_ok h⟩) fun _ e _ => herror e
  rintro projects t ⟨rfl, rfl⟩
  refine (holds_readManifests herror _).mono ?_ fun _ _ he => he
  rintro entries u ⟨rfl, hentries⟩
  apply hok
  intro e
  rw [hentries]
  constructor
  · rintro ⟨project, -, he⟩
    exact ⟨project, he⟩
  · rintro ⟨project, he⟩
    exact ⟨project, mem_projects he, he⟩

end

/-! ## What a run keeps -/

/-- The point is there, and is recorded by entries that no deletion was tried for. -/
structure Stored (host : Host) (s : Store) (key : Path) : Prop where
  point : key ∈ s.points
  recorded : ∃ project, ∃ e ∈ s.manifest project, pointKey host e.snapshotPath = key
  sound : ∀ project, ∀ e ∈ s.manifest project, pointKey host e.snapshotPath = key →
    e.deletionError = none

/-- The two entries name the same point. -/
def SameEntry (e e₀ : QuickSnapshot) : Prop :=
  e.id = e₀.id ∧ e.snapshotPath = e₀.snapshotPath ∧ e.createdAt = e₀.createdAt

/-- What a run leaves of the store it found: the points in `W`, and otherwise entries and
    points that were there. -/
structure Kept (host : Host) (W : Path → Prop) (s₀ s : Store) : Prop where
  stored : ∀ key, W key → Stored host s key
  distinct : DistinctIds s
  canonical : ∀ key ∈ s.points, pointKey host key = key
  entries : ∀ project, ∀ e ∈ s.manifest project, ∃ e₀ ∈ s₀.manifest project, SameEntry e e₀

section

variable {W : Path → Prop} {s₀ s t : Store}

theorem Kept.of_manifests (h : Kept host W s₀ s) (hmanifests : t.manifests = s.manifests)
    (hpoint : ∀ key, W key → key ∈ t.points) (hpoints : t.points ⊆ s.points) :
    Kept host W s₀ t := by
  have hsame : ∀ project, t.manifest project = s.manifest project := by
    intro project
    rw [Store.manifest, Store.manifest, hmanifests]
  refine ⟨?_, fun project => hsame project ▸ h.distinct project,
    fun k hk => h.canonical k (hpoints hk), fun project e he => h.entries project e (hsame project ▸ he)⟩
  intro key hkey
  obtain ⟨-, ⟨project, e, he, hkey'⟩, hsound⟩ := h.stored key hkey
  exact ⟨hpoint key hkey, ⟨project, e, hsame project ▸ he, hkey'⟩,
    fun project e he => hsound project e (hsame project ▸ he)⟩

theorem Kept.sameFiles (h : Kept host W s₀ s) (hsame : SameFiles s t) : Kept host W s₀ t :=
  h.of_manifests hsame.1 (fun key hkey => hsame.2 ▸ (h.stored key hkey).point)
    (hsame.2 ▸ List.Subset.refl _)

/-- A manifest is rewritten entry by entry, and keeps the entries of the points. -/
theorem Kept.setManifest (h : Kept host W s₀ s) {project : String} {entries : List QuickSnapshot}
    (hids : (entries.map (·.id)).Nodup)
    (hold : ∀ e ∈ s.manifest project, W (pointKey host e.snapshotPath) →
      ∃ e' ∈ entries, e'.snapshotPath = e.snapshotPath)
    (hnew : ∀ e ∈ entries, W (pointKey host e.snapshotPath) → e.deletionError = none)
    (hentries : ∀ e ∈ entries, ∃ e₀ ∈ s₀.manifest project, SameEntry e e₀) :
    Kept host W s₀ (s.setManifest project entries) := by
  have hmem : ∀ project' e, e ∈ (s.setManifest project entries).manifest project' ↔
      (project' = project ∧ e ∈ entries) ∨ (project' ≠ project ∧ e ∈ s.manifest project') := by
    intro project' e
    by_cases hproject : project' = project
    · subst hproject
      simp [manifest_setManifest_self]
    · simp [manifest_setManifest_of_ne s hproject, hproject]
  refine ⟨?_, h.distinct.setManifest hids, h.canonical, ?_⟩
  · intro key hkey
    obtain ⟨hpoint, ⟨project', e, he, hrecorded⟩, hsound⟩ := h.stored key hkey
    refine ⟨hpoint, ?_, ?_⟩
    · by_cases hproject : project' = project
      · subst hproject
        obtain ⟨e', he', hpath⟩ := hold e he (hrecorded ▸ hkey)
        exact ⟨project', e', (hmem _ _).mpr (.inl ⟨rfl, he'⟩), hpath ▸ hrecorded⟩
      · exact ⟨project', e, (hmem _ _).mpr (.inr ⟨hproject, he⟩), hrecorded⟩
    · intro project' e he hrecorded
      rcases (hmem _ _).mp he with ⟨-, hwritten⟩ | ⟨-, hother⟩
      · exact hnew e hwritten (hrecorded ▸ hkey)
      · exact hsound project' e hother hrecorded
  · intro project' e he
    rcases (hmem _ _).mp he with ⟨rfl, hwritten⟩ | ⟨-, hother⟩
    · exact hentries e hwritten
    · exact h.entries project' e hother

end

/-- An entry of a kept point is no candidate. -/
theorem notMem_retentionCandidates {W : Path → Prop} {points allowed : List Path} {now : Int}
    {isDir : Path → Bool} {entries : List QuickSnapshot} (hpoint : ∀ key, W key → key ∈ points)
    (hallowed : ∀ key, W key → key ∉ allowed)
    (hsound : ∀ e ∈ entries, W (pointKey host e.snapshotPath) → e.deletionError = none)
    {e : QuickSnapshot} (he : e ∈ retentionCandidates host now points isDir allowed entries) :
    e ∈ entries ∧ ¬ W (pointKey host e.snapshotPath) := by
  rcases List.mem_append.mp he with hselected | hdiscarded
  · obtain ⟨hmem, hselected⟩ := List.mem_filter.mp hselected
    rw [Bool.and_eq_true, decide_eq_true_eq] at hselected
    exact ⟨hmem, fun hW => hallowed _ hW hselected.2⟩
  · obtain ⟨hmem, hdiscarded⟩ := List.mem_filter.mp hdiscarded
    refine ⟨hmem, fun hW => ?_⟩
    rw [Bool.and_eq_true, discardable, hsound e hmem hW] at hdiscarded
    simp only [hpoint _ hW, not_true_eq_false, decide_false, Bool.and_false, Bool.or_false]
      at hdiscarded
    exact absurd hdiscarded.1 (by decide)

/-- Deleting entries of other points. -/
theorem holds_deleteEach {W : Path → Prop} {views batch entries : List QuickSnapshot}
    (hentries : ∀ e ∈ entries, ¬ W (pointKey host e.snapshotPath)) {s : Store}
    (h : ∀ key, W key → key ∈ s.points) :
    Holds (fun outcomes t => t.manifests = s.manifests ∧ (∀ key, W key → key ∈ t.points) ∧
        t.points ⊆ s.points ∧ outcomes.map Prod.fst = entries.map (·.id)) (fun _ _ => False)
      (deleteEach host views batch entries) s := by
  induction entries generalizing s with
  | nil => exact holds_pure ⟨rfl, h, List.Subset.refl _, rfl⟩
  | cons entry entries ih =>
    unfold deleteEach
    apply Holds.bind (Q := fun _ t => t.manifests = s.manifests ∧
      (∀ key, W key → key ∈ t.points) ∧ t.points ⊆ s.points)
    · apply holds_action
      case herror =>
        intro w e he
        cases he
      intro w outcome _
      dsimp only
      rcases deleteEntry_cases views batch entry s w with ⟨outcome, hstays⟩ | ⟨-, -, hgone⟩
      · rw [hstays]
        exact ⟨rfl, h, List.Subset.refl _⟩
      · rw [hgone]
        refine ⟨rfl, fun key hkey => List.mem_filter.mpr ⟨h key hkey, ?_⟩,
          List.filter_subset_self _⟩
        rw [decide_eq_true_eq]
        rintro rfl
        exact hentries entry List.mem_cons_self hkey
    · rintro outcome t ⟨hmanifests, hpoint, hsub⟩
      apply Holds.bind (ih (fun e he => hentries e (List.mem_cons_of_mem _ he)) hpoint)
      rintro rest u ⟨hmanifests', hpoint', hsub', hids⟩
      apply holds_pure
      exact ⟨hmanifests'.trans hmanifests, hpoint', List.Subset.trans hsub' hsub,
        by rw [List.map_cons, List.map_cons, hids]⟩

section

variable {W : Path → Prop} {s₀ : Store}

/-- Dropping the views of other points. -/
theorem holds_pruneScope {allowed : List Path} (hallowed : ∀ key, W key → key ∉ allowed) (pid : Nat)
    (project : String) (now : Int) {s : Store} (h : Kept host W s₀ s) :
    Holds (fun _ => Kept host W s₀) (fun _ => Kept host W s₀)
      (pruneScope host pid project now allowed) s := by
  have hstays : ∀ {α : Type} (_ : α) (s t : Store), SameFiles s t → Kept host W s₀ s →
      Kept host W s₀ t := fun _ _ _ hsame hkept => hkept.sameFiles hsame
  unfold pruneScope
  apply holds_physicalLock hstays hstays fun _ => h
  intro s₁ hs₁
  replace h := h.sameFiles hs₁
  apply holds_scopeLock hstays hstays fun _ => h
  intro s₂ hs₂
  replace h := h.sameFiles hs₂
  apply Holds.bind (Q := fun loaded t => t = s₂ ∧ loaded = newestFirst (s₂.manifest project))
  · exact holds_loadManifest ⟨rfl, rfl⟩ fun _ => h
  rintro loaded t ⟨rfl, rfl⟩
  apply Holds.bind (Q := fun entries u => u = t ∧ ∃ copyError,
    entries = (newestFirst (t.manifest project)).map (cleanupRecoveryCopies now copyError))
  · exact holds_look (fun w _ hok => ⟨rfl, w.copyError, (Except.ok.inj hok).symm⟩) nofun
  rintro entries u ⟨rfl, copyError, hentries⟩
  -- cleaning leaves ids, points and deletion errors
  have hids : (entries.map (·.id)).Nodup := by
    rw [hentries, List.map_map]
    exact ((perm_newestFirst _).map _).nodup_iff.mpr (h.distinct project)
  have hcleaned : ∀ e ∈ entries, ∃ e' ∈ u.manifest project, SameEntry e e' ∧
      e.deletionError = e'.deletionError := by
    intro e he
    rw [hentries] at he
    obtain ⟨e', he', rfl⟩ := List.mem_map.mp he
    exact ⟨e', mem_newestFirst.mp he', ⟨rfl, rfl, rfl⟩, rfl⟩
  have hsound : ∀ e ∈ entries, W (pointKey host e.snapshotPath) → e.deletionError = none := by
    intro e he hW
    obtain ⟨e', he', hsame, herror⟩ := hcleaned e he
    rw [herror]
    exact (h.stored _ hW).sound project e' he' (congrArg _ hsame.2.1.symm)
  have hfrom : ∀ e ∈ entries, ∃ e₀ ∈ s₀.manifest project, SameEntry e e₀ := by
    intro e he
    obtain ⟨e', he', hsame, -⟩ := hcleaned e he
    obtain ⟨e₀, he₀, hsame'⟩ := h.entries project e' he'
    exact ⟨e₀, he₀, hsame.1.trans hsame'.1, hsame.2.1.trans hsame'.2.1, hsame.2.2.trans hsame'.2.2⟩
  apply Holds.bind (Q := fun _ v => Kept host W s₀ v ∧ v.manifest project = newestFirst entries)
  · refine holds_saveManifest ⟨?_, manifest_setManifest_self _ _ _⟩ fun _ => h
    apply h.setManifest hids _ hsound hfrom
    intro e he _
    rw [hentries]
    exact ⟨_, List.mem_map.mpr ⟨e, mem_newestFirst.mpr he, rfl⟩, rfl⟩
  rintro _ v ⟨hv, hmanifest⟩
  apply Holds.bind (Q := fun toPrune x => x = v ∧
    ∀ e ∈ toPrune, e ∈ entries ∧ ¬ W (pointKey host e.snapshotPath))
  · refine holds_look ?_ nofun
    intro w toPrune hok
    obtain rfl := Except.ok.inj hok
    exact ⟨rfl, fun e he => notMem_retentionCandidates (fun key hW => (hv.stored key hW).point)
      hallowed hsound he⟩
  rintro toPrune x ⟨rfl, hprune⟩
  split
  · exact holds_pure hv
  apply Holds.bind (Q := fun _ y => y = x)
  · exact holds_allEntries (fun _ => hv) fun _ _ => rfl
  rintro views y rfl
  apply Holds.bind
  · exact Holds.mono (fun _ _ hq => hq) (fun _ _ => False.elim)
      (holds_deleteEach (fun e he => (hprune e he).2) fun key hW => (hv.stored key hW).point)
  rintro outcomes z ⟨hmanifests, hpoint, hsub, houtcomes⟩
  have hz : Kept host W s₀ z := hv.of_manifests hmanifests hpoint hsub
  -- the entries of the points were not tried
  have huntried : ∀ e ∈ entries, W (pointKey host e.snapshotPath) →
      noteFailure outcomes e = e ∧ viewGone outcomes e = false := by
    intro e he hW
    apply noteFailure_of_notMem
    intro hmem
    rw [houtcomes] at hmem
    obtain ⟨e', he', hid⟩ := List.mem_map.mp hmem
    obtain ⟨hentry, hother⟩ := hprune e' he'
    exact hother (List.inj_on_of_nodup_map hids hentry he hid ▸ hW)
  apply Holds.bind (Q := fun _ => Kept host W s₀)
  · refine holds_saveManifest ?_ fun _ => hz
    apply hz.setManifest
    · have hsub : (((entries.map (noteFailure outcomes)).filter fun entry =>
          !viewGone outcomes entry).map (·.id)).Sublist
          ((entries.map (noteFailure outcomes)).map (·.id)) := List.filter_sublist.map _
      rw [List.map_map] at hsub
      have hsame : entries.map ((·.id) ∘ noteFailure outcomes) = entries.map (·.id) :=
        List.map_congr_left fun e _ => noteFailure_id e outcomes
      exact (hsame ▸ hsub).nodup hids
    · intro e he hW
      have hsame : z.manifest project = y.manifest project := by
        rw [Store.manifest, Store.manifest, hmanifests]
      rw [hsame, hmanifest, mem_newestFirst] at he
      obtain ⟨hnote, hgone⟩ := huntried e he hW
      exact ⟨e, List.mem_filter.mpr ⟨List.mem_map.mpr ⟨e, he, hnote⟩, by rw [hgone]; rfl⟩, rfl⟩
    · intro e he hW
      obtain ⟨e', he', rfl⟩ := List.mem_map.mp (List.mem_filter.mp he).1
      rw [noteFailure_snapshotPath] at hW
      rw [(huntried e' he' hW).1]
      exact hsound e' he' hW
    · intro e he
      obtain ⟨e', he', rfl⟩ := List.mem_map.mp (List.mem_filter.mp he).1
      obtain ⟨e₀, he₀, hsame⟩ := hfrom e' he'
      refine ⟨e₀, he₀, ?_⟩
      rw [SameEntry, noteFailure_id, noteFailure_snapshotPath, noteFailure_createdAt]
      exact hsame
  · exact fun _ _ hkept => holds_pure hkept

end

/-- A step that is skipped when it is busy. -/
theorem holds_unlessBusy {α : Type} {P : Store → Prop} {skipped : α} {c : Call α} {s : Store}
    (h : Holds (fun _ => P) (fun _ => P) c s) :
    Holds (fun _ => P) (fun _ => P) (unlessBusy skipped c) s := by
  unfold unlessBusy
  apply Holds.tryCatch h
  intro e t ht
  split
  · split
    · exact holds_pure ht
    · exact holds_throw ht
  · exact holds_throw ht

section

variable {W : Path → Prop} {s₀ s : Store}

theorem holds_pruneScopes {allowed : List Path} (hallowed : ∀ key, W key → key ∉ allowed)
    (pid : Nat) (now : Int) (projects : List String) (h : Kept host W s₀ s) :
    Holds (fun _ => Kept host W s₀) (fun _ => Kept host W s₀)
      (pruneScopes host pid now allowed projects) s := by
  induction projects generalizing s with
  | nil => exact holds_pure h
  | cons project projects ih =>
    unfold pruneScopes
    apply Holds.bind (holds_unlessBusy (holds_pruneScope hallowed pid project now h))
    intro _ t ht
    apply Holds.bind (ih ht)
    exact fun _ _ hu => holds_pure hu

/-- Orphans are recorded by nobody. -/
theorem holds_reapEach {policy : AutosnapshotPolicy} {now : Int} {recorded leaves : List Path}
    (hrecorded : ∀ key, W key → key ∈ recorded)
    (hleaves : ∀ leaf ∈ leaves, pointKey host leaf = leaf) {limit : Nat} (h : Kept host W s₀ s) :
    Holds (fun _ => Kept host W s₀) (fun _ => Kept host W s₀)
      (reapEach host policy now recorded leaves limit) s := by
  induction leaves generalizing s limit with
  | nil =>
    unfold reapEach
    exact holds_pure h
  | cons leaf leaves ih =>
    cases limit with
    | zero =>
      unfold reapEach
      exact holds_pure h
    | succ limit =>
      unfold reapEach
      apply Holds.bind (Q := fun _ => Kept host W s₀)
      · apply holds_action
        case herror =>
          intro w e he
          cases he
        intro w a _
        dsimp only
        rcases reapLeaf_cases policy now recorded leaf s w with ⟨reaped, hstays⟩ | ⟨hother, hgone⟩
        · rw [hstays]
          exact h
        · rw [hgone]
          refine h.of_manifests rfl (fun key hW => ?_) (List.filter_subset_self _)
          apply List.mem_filter.mpr
          refine ⟨(h.stored key hW).point, ?_⟩
          rw [hleaves leaf List.mem_cons_self, decide_eq_true_eq]
          rintro rfl
          exact hother (hrecorded key hW)
      · intro _ t ht
        exact ih (fun l hl => hleaves l (List.mem_cons_of_mem _ hl)) ht

theorem holds_reapOrphans (pid : Nat) (policy : AutosnapshotPolicy) (now limit : Int)
    (h : Kept host W s₀ s) :
    Holds (fun _ => Kept host W s₀) (fun _ => Kept host W s₀)
      (reapOrphans host pid policy now limit) s := by
  have hstays : ∀ {α : Type} (_ : α) (s t : Store), SameFiles s t → Kept host W s₀ s →
      Kept host W s₀ t := fun _ _ _ hsame hkept => hkept.sameFiles hsame
  unfold reapOrphans
  split
  · exact holds_pure h
  apply holds_physicalLock hstays hstays fun _ => h
  intro t ht
  replace h := h.sameFiles ht
  apply Holds.bind (Q := fun entries u => u = t ∧
    ∀ key, W key → key ∈ entries.map fun entry => pointKey host entry.snapshotPath)
  · refine holds_allEntries (fun _ => h) fun entries hentries => ⟨rfl, fun key hW => ?_⟩
    obtain ⟨project, e, he, hkey⟩ := (h.stored key hW).recorded
    exact List.mem_map.mpr ⟨e, (hentries e).mpr ⟨project, he⟩, hkey⟩
  rintro entries u ⟨rfl, hrecorded⟩
  apply Holds.bind (Q := fun leaves v => v = u ∧ ∀ leaf ∈ leaves, pointKey host leaf = leaf)
  · refine holds_look ?_ nofun
    intro w leaves hok
    obtain rfl := Except.ok.inj hok
    refine ⟨rfl, fun leaf hleaf => h.canonical leaf ?_⟩
    exact (List.mem_filter.mp (mem_sortBy.mp hleaf)).1
  rintro leaves v ⟨rfl, hleaves⟩
  exact holds_reapEach hrecorded hleaves h

theorem upTo_subset {α : Type} (n : Int) (xs : List α) : upTo n xs ⊆ xs := by
  unfold upTo
  split
  · exact List.take_subset _ _
  · exact List.take_subset _ _

/-- A run keeps what its plan does not select. -/
theorem holds_pruneAll (pid : Nat) {policy : AutosnapshotPolicy} {pressure : Bool}
    {released : List String} {now : Int} (h : Kept host W s₀ s)
    (hplan : ∀ isDir entries, (∀ e, e ∈ entries ↔ ∃ project, e ∈ s.manifest project) →
      ∀ key, W key → key ∉ planRetention host policy pressure now released s.points isDir entries)
    (maxDeletes : Option Int) (scopes : List String) :
    Holds (fun _ => Kept host W s₀) (fun _ => Kept host W s₀)
      (pruneAll host pid policy pressure maxDeletes scopes released now) s := by
  unfold pruneAll
  dsimp only
  apply Holds.bind (Q := fun entries t => t = s ∧
    ∀ e, e ∈ entries ↔ ∃ project, e ∈ s.manifest project)
  · exact holds_allEntries (fun _ => h) fun entries hentries => ⟨rfl, hentries⟩
  rintro entries t ⟨rfl, hentries⟩
  apply Holds.bind (Q := fun prunable u => u = t ∧ ∀ key, W key → key ∉ prunable)
  · refine holds_look ?_ nofun
    intro w prunable hok
    obtain rfl := Except.ok.inj hok
    exact ⟨rfl, hplan w.isDir entries hentries⟩
  rintro prunable u ⟨rfl, hselected⟩
  apply Holds.bind
  · exact holds_pruneScopes (fun key hW hmem => hselected key hW (upTo_subset _ _ hmem)) pid now
      scopes h
  · exact fun _ v hv => holds_unlessBusy (holds_reapOrphans pid policy now _ hv)

end

/-! ## What a capture adds -/

/-- A capture added one entry, of a point of its own or of one that is recorded already. -/
structure Added (host : Host) (args : CaptureArgs) (s : Store) (snapshot : QuickSnapshot)
    (t : Store) : Prop where
  entries : ∀ project e, e ∈ t.manifest project ↔
    e ∈ s.manifest project ∨ (project = args.projectId ∧ e = snapshot)
  distinct : DistinctIds t
  points : ∀ key, key ∈ t.points ↔ key ∈ s.points ∨ key = pointKey host snapshot.snapshotPath
  sound : snapshot.deletionError = none
  origin : (snapshot.id = args.snapshotId ∧ snapshot.snapshotPath.getLast? = some args.snapshotId) ∨
    ∃ project, ∃ e ∈ s.manifest project, SameEntry snapshot e

theorem Added.sameFiles {args : CaptureArgs} {s t u : Store} {snapshot : QuickSnapshot}
    (h : Added host args s snapshot t) (hsame : SameFiles t u) : Added host args s snapshot u where
  entries := fun project e => hsame.manifest project ▸ h.entries project e
  distinct := fun project => hsame.manifest project ▸ h.distinct project
  points := fun key => hsame.2 ▸ h.points key
  sound := h.sound
  origin := h.origin

theorem Added.of_sameFiles {args : CaptureArgs} {s s' t : Store} {snapshot : QuickSnapshot}
    (h : Added host args s' snapshot t) (hsame : SameFiles s s') : Added host args s snapshot t where
  entries := fun project e => hsame.manifest project ▸ h.entries project e
  distinct := h.distinct
  points := fun key => hsame.2 ▸ h.points key
  sound := h.sound
  origin := h.origin.imp_right fun ⟨project, e, he, hentry⟩ =>
    ⟨project, e, hsame.manifest project ▸ he, hentry⟩

theorem holds_describe {args : CaptureArgs} {id : String} {path : Path} {capturedAt : Int}
    {digest : Option String} {shared : Bool} {s : Store} :
    Holds (fun snapshot t => t = s ∧ snapshot.id = id ∧ snapshot.snapshotPath = path ∧
        snapshot.createdAt = capturedAt ∧ snapshot.deletionError = none) (fun _ _ => True)
      (describe args id path capturedAt digest shared) s := by
  refine holds_look ?_ fun _ _ _ => trivial
  intro w snapshot hok
  split at hok
  · cases hok
  · split at hok
    · cases hok
    · obtain rfl := Except.ok.inj hok
      exact ⟨rfl, rfl, rfl, rfl, rfl⟩

theorem holds_recordCapture {args : CaptureArgs} {snapshot : QuickSnapshot} {reuse : Bool}
    {s : Store} :
    Holds (fun _ t => t = s.setManifest args.projectId
          ((newestFirst (s.manifest args.projectId)).filter (·.id ≠ snapshot.id) ++ [snapshot]) ∧
        (reuse = true → ∀ e ∈ s.manifest args.projectId, e.id ≠ snapshot.id)) (fun _ _ => True)
      (recordCapture args snapshot reuse) s := by
  unfold recordCapture
  apply Holds.bind (Q := fun existing t => t = s ∧ existing = newestFirst (s.manifest args.projectId))
  · exact holds_loadManifest ⟨rfl, rfl⟩ fun _ => trivial
  rintro existing t ⟨rfl, rfl⟩
  split
  · exact holds_throw trivial
  · next hnew =>
    dsimp only
    split
    · exact holds_throw trivial
    · refine holds_saveManifest ⟨rfl, ?_⟩ fun _ => trivial
      rintro rfl e he hid
      apply hnew
      rw [Bool.true_and, List.any_eq_true]
      exact ⟨e, mem_newestFirst.mpr he, by simpa using hid⟩

/-- The entry of a capture replaces its reservation, if there is one. -/
theorem setManifest_entries {s s' : Store} {project : String} {snapshot : QuickSnapshot}
    (hothers : ∀ project', project' ≠ project → s'.manifest project' = s.manifest project')
    (hown : ∀ e, e ∈ s'.manifest project ∧ e.id ≠ snapshot.id ↔ e ∈ s.manifest project) :
    ∀ project' e, e ∈ (s'.setManifest project
        ((newestFirst (s'.manifest project)).filter (·.id ≠ snapshot.id) ++ [snapshot])).manifest
          project' ↔
      e ∈ s.manifest project' ∨ (project' = project ∧ e = snapshot) := by
  intro project' e
  by_cases hproject : project' = project
  · subst hproject
    rw [manifest_setManifest_self, mem_newestFirst, List.mem_append, List.mem_filter,
      mem_newestFirst, List.mem_singleton, decide_eq_true_eq, hown]
    simp
  · rw [manifest_setManifest_of_ne _ hproject, hothers project' hproject]
    simp [hproject]

theorem DistinctIds.replace {s : Store} (h : DistinctIds s) (project : String)
    (snapshot : QuickSnapshot) :
    DistinctIds (s.setManifest project
      ((newestFirst (s.manifest project)).filter (·.id ≠ snapshot.id) ++ [snapshot])) := by
  apply h.setManifest
  rw [List.map_append, List.nodup_append]
  refine ⟨?_, List.nodup_singleton _, ?_⟩
  · exact (List.filter_sublist.map _).nodup
      (((perm_newestFirst _).map _).nodup_iff.mpr (h project))
  · intro id hid id' hid'
    obtain ⟨e, he, rfl⟩ := List.mem_map.mp hid
    rw [List.map_singleton, List.mem_singleton] at hid'
    rw [hid']
    simpa using (List.mem_filter.mp he).2

theorem holds_captureShared {args : CaptureArgs} {previous : QuickSnapshot} {s : Store}
    (hdistinct : DistinctIds s)
    (hprevious : ∃ project, previous ∈ s.manifest project)
    (hpoint : pointKey host previous.snapshotPath ∈ s.points) :
    Holds (Added host args s) (fun _ _ => True) (captureShared args previous) s := by
  unfold captureShared
  apply Holds.bind (Q := fun _ t => t = s)
  · exact holds_look (fun _ _ _ => rfl) fun _ _ _ => trivial
  rintro digest t rfl
  apply Holds.bind holds_describe
  rintro snapshot u ⟨rfl, hid, hpath, hcreated, hsound⟩
  apply Holds.bind holds_recordCapture
  rintro _ v ⟨rfl, hnew⟩
  apply holds_pure
  obtain ⟨project, hmem⟩ := hprevious
  refine ⟨?_, hdistinct.replace _ _, ?_, hsound, .inr ⟨project, previous, hmem, hid, hpath, hcreated⟩⟩
  · apply setManifest_entries (fun _ _ => rfl)
    exact fun e => ⟨fun he => he.1, fun he => ⟨he, hnew rfl e he⟩⟩
  · intro key
    rw [hpath]
    exact ⟨.inl, fun hkey => hkey.elim id fun heq => heq ▸ hpoint⟩

theorem holds_attempt {α : Type} {Q : Except Failure α → Store → Prop} {E : Failure → Store → Prop}
    {c : Call α} {s : Store} (h : Holds (fun a => Q (.ok a)) (fun e => Q (.error e)) c s) :
    Holds Q E (attempt c) s := by
  unfold attempt
  apply Holds.tryCatch (F := fun e => Q (.error e))
  · apply Holds.bind h
    exact fun a t ht => holds_pure ht
  · exact fun e t ht => holds_pure ht

/-- A rejected capture always ends in an exception. -/
theorem holds_rejectCapture {args : CaptureArgs} {path : Path} {snapshot : Option QuickSnapshot}
    {captureError : Failure} {s : Store} :
    Holds (fun _ _ => False) (fun _ _ => True) (rejectCapture host args path snapshot captureError) s := by
  unfold rejectCapture
  dsimp only
  apply Holds.bind (Q := fun _ _ => True)
  · apply holds_attempt
    exact holds_action (fun _ _ _ => trivial) fun _ _ _ => trivial
  intro result t _
  cases result with
  | error deletionError =>
    apply Holds.bind (Q := fun _ _ => True)
    · exact holds_loadManifest trivial fun _ => trivial
    intro entries u _
    apply Holds.bind (Q := fun _ _ => True)
    · exact holds_saveManifest trivial fun _ => trivial
    exact fun _ _ _ => holds_throw trivial
  | ok _ =>
    apply Holds.bind (Q := fun _ _ => True)
    · exact holds_loadManifest trivial fun _ => trivial
    intro entries u _
    apply Holds.bind (Q := fun _ _ => True)
    · exact holds_saveManifest trivial fun _ => trivial
    exact fun _ _ _ => holds_throw trivial

theorem holds_snapshotSubvolume {path : Path} {s : Store} :
    Holds (fun _ t => t = { s with points := pointKey host path :: s.points }) (fun _ _ => True)
      (snapshotSubvolume host path) s := by
  refine holds_action ?_ fun _ _ _ => trivial
  intro w a hok
  split at hok
  · cases hok
  · rfl

/-- A reservation in the manifest. -/
theorem mem_reserved {s : Store} {project project' : String} {reservation e : QuickSnapshot} :
    e ∈ (s.setManifest project (newestFirst (s.manifest project) ++ [reservation])).manifest
        project' ↔
      e ∈ s.manifest project' ∨ (project' = project ∧ e = reservation) := by
  by_cases hproject : project' = project
  · subst hproject
    rw [manifest_setManifest_self]
    simp
  · rw [manifest_setManifest_of_ne _ hproject]
    simp [hproject]

theorem DistinctIds.reserve {s : Store} (h : DistinctIds s) {project : String}
    {reservation : QuickSnapshot} (hnew : ∀ e ∈ s.manifest project, e.id ≠ reservation.id) :
    DistinctIds (s.setManifest project (newestFirst (s.manifest project) ++ [reservation])) := by
  apply h.setManifest
  rw [List.map_append, List.nodup_append]
  refine ⟨((perm_newestFirst _).map _).nodup_iff.mpr (h project), List.nodup_singleton _, ?_⟩
  intro id hid id' hid'
  obtain ⟨e, he, rfl⟩ := List.mem_map.mp hid
  rw [List.map_singleton, List.mem_singleton] at hid'
  rw [hid']
  exact hnew e (mem_newestFirst.mp he)

theorem holds_captureFresh {args : CaptureArgs} {s : Store} (hdistinct : DistinctIds s)
    (hnew : ∀ e ∈ s.manifest args.projectId, e.id ≠ args.snapshotId) :
    Holds (Added host args s) (fun _ _ => True) (captureFresh host args) s := by
  unfold captureFresh
  dsimp only
  generalize hpath : snapshotDestination args.spelling args.projectId args.snapshotId = path
  have hlast : path.getLast? = some args.snapshotId := by
    rw [← hpath, snapshotDestination]
    simp
  apply Holds.bind (Q := fun _ t => t = s)
  · exact holds_look (fun _ _ _ => rfl) fun _ _ _ => trivial
  rintro _ t rfl
  apply Holds.bind (Q := fun pending u => u = t ∧ pending = newestFirst (t.manifest args.projectId))
  · exact holds_loadManifest ⟨rfl, rfl⟩ fun _ => trivial
  rintro pending u ⟨rfl, rfl⟩
  apply Holds.bind (Q := fun _ v => v = u.setManifest args.projectId
    (newestFirst (u.manifest args.projectId) ++
      [incomplete args path (some "Capture metadata pending")]))
  · exact holds_saveManifest rfl fun _ => trivial
  rintro _ v rfl
  generalize hreserved : u.setManifest args.projectId (newestFirst (u.manifest args.projectId) ++
    [incomplete args path (some "Capture metadata pending")]) = v
  apply Holds.bind (Q := fun captured x => ∀ snapshot, captured = .ok snapshot →
    x = { v with points := pointKey host path :: v.points } ∧ snapshot.id = args.snapshotId ∧
      snapshot.snapshotPath = path ∧ snapshot.deletionError = none)
  · apply holds_attempt
    apply Holds.bind (Q := fun _ x => x = { v with points := pointKey host path :: v.points })
    · refine holds_snapshotSubvolume.mono (fun _ _ hq => hq) ?_
      intro _ _ _ _ heq
      cases heq
    rintro _ x rfl
    refine holds_describe.mono ?_ ?_
    case refine_2 =>
      intro _ _ _ _ heq
      cases heq
    rintro snapshot y ⟨rfl, hid, hsame, -, hsound⟩ snapshot' heq
    obtain rfl := Except.ok.inj heq
    exact ⟨rfl, hid, hsame, hsound⟩
  intro captured x hcaptured
  cases captured with
  | error e => exact holds_rejectCapture.mono (fun _ _ => False.elim) fun _ _ _ => trivial
  | ok snapshot =>
    obtain ⟨rfl, hid, hsame, hsound⟩ := hcaptured snapshot rfl
    apply Holds.tryCatch (F := fun _ _ => True)
    · apply Holds.bind holds_recordCapture
      rintro _ y ⟨rfl, -⟩
      apply holds_pure
      have hdistinct' : DistinctIds { v with points := pointKey host path :: v.points } :=
        hreserved ▸ hdistinct.reserve hnew
      refine ⟨?_, hdistinct'.replace _ _, ?_, hsound, .inl ⟨hid, hsame ▸ hlast⟩⟩
      · -- the reservation is the only entry with the id
        have hmem : ∀ project e, e ∈ v.manifest project ↔ e ∈ u.manifest project ∨
            (project = args.projectId ∧ e = incomplete args path (some "Capture metadata pending")) :=
          fun project e => hreserved ▸ mem_reserved
        apply setManifest_entries
        · intro project hproject
          show v.manifest project = _
          rw [← hreserved, manifest_setManifest_of_ne _ hproject]
        · intro e
          show e ∈ v.manifest args.projectId ∧ _ ↔ _
          rw [hmem, hid]
          constructor
          · rintro ⟨hold | ⟨-, rfl⟩, hne⟩
            · exact hold
            · exact absurd rfl hne
          · exact fun he => ⟨.inl he, hnew e he⟩
      · intro key
        show key ∈ pointKey host path :: v.points ↔ _
        rw [hsame, ← hreserved, List.mem_cons, or_comm]
        rfl
    · intro e y _
      exact holds_rejectCapture.mono (fun _ _ => False.elim) fun _ _ _ => trivial

theorem mem_of_latest {entries : List QuickSnapshot} {e : QuickSnapshot}
    (h : latest entries = some e) : e ∈ entries := by
  have hbest : ∀ e, latest entries = some e → e ∈ entries := by
    unfold latest
    apply List.foldlRecOn (motive := fun best => ∀ e, best = some e → e ∈ entries)
    · intro e hnone
      cases hnone
    · intro best ih x hx e hfirst
      cases best with
      | none => exact Option.some.inj hfirst ▸ hx
      | some b =>
        dsimp only at hfirst
        split at hfirst
        · exact Option.some.inj hfirst ▸ hx
        · exact ih e hfirst
  exact hbest e h

/-- The point a capture may share is recorded and there. -/
theorem holds_latestPhysicalPoint {boundary : Path} {s : Store} :
    Holds (fun previous t => t = s ∧ ∀ e, previous = some e →
        (∃ project, e ∈ s.manifest project) ∧ pointKey host e.snapshotPath ∈ s.points)
      (fun _ _ => True) (latestPhysicalPoint host boundary) s := by
  unfold latestPhysicalPoint
  apply Holds.bind (Q := fun entries t => t = s ∧
    ∀ e, e ∈ entries ↔ ∃ project, e ∈ s.manifest project)
  · exact holds_allEntries (fun _ => trivial) fun entries hentries => ⟨rfl, hentries⟩
  rintro entries t ⟨rfl, hentries⟩
  refine holds_look ?_ fun _ _ _ => trivial
  intro w previous hok
  refine ⟨rfl, ?_⟩
  rintro e rfl
  obtain ⟨hmem, hfits⟩ := List.mem_filter.mp (mem_of_latest (raised_ok hok).symm)
  rw [Bool.and_eq_true, decide_eq_true_eq, decide_eq_true_eq] at hfits
  exact ⟨(hentries e).mp hmem, hfits.2⟩

theorem holds_previousPoint {args : CaptureArgs} {s : Store} :
    Holds (fun previous t => t = s ∧ ∀ e, previous = some e →
        (∃ project, e ∈ s.manifest project) ∧ pointKey host e.snapshotPath ∈ s.points)
      (fun _ _ => True) (previousPoint host args) s := by
  unfold previousPoint
  split
  · exact holds_latestPhysicalPoint
  · refine holds_pure ⟨rfl, ?_⟩
    intro e heq
    cases heq

/-- A capture that returns added its entry and nothing else. -/
theorem holds_captureSnapshot (pid : Nat) {args : CaptureArgs} {s : Store}
    (hdistinct : DistinctIds s)
    (hnew : ∀ e ∈ s.manifest args.projectId, e.id ≠ args.snapshotId) :
    Holds (Added host args s) (fun _ _ => True) (captureSnapshot host pid args) s := by
  have hstays : ∀ (snapshot : QuickSnapshot) (t u : Store), SameFiles t u →
      Added host args s snapshot t → Added host args s snapshot u :=
    fun _ _ _ hsame hadded => hadded.sameFiles hsame
  unfold captureSnapshot
  apply holds_physicalLock hstays (fun _ _ _ _ _ => trivial) fun _ => trivial
  intro s₁ hs₁
  apply holds_scopeLock hstays (fun _ _ _ _ _ => trivial) fun _ => trivial
  intro s₂ hs₂
  have hsame : SameFiles s s₂ := ⟨hs₂.1.trans hs₁.1, hs₂.2.trans hs₁.2⟩
  replace hdistinct : DistinctIds s₂ := fun project => hsame.manifest project ▸ hdistinct project
  replace hnew : ∀ e ∈ s₂.manifest args.projectId, e.id ≠ args.snapshotId :=
    hsame.manifest args.projectId ▸ hnew
  apply Holds.mono (Q := Added host args s₂) (fun _ _ hadded => hadded.of_sameFiles hsame)
    fun _ _ he => he
  apply Holds.bind (Q := fun _ t => t = s₂)
  · exact holds_look (fun _ _ _ => rfl) fun _ _ _ => trivial
  rintro _ t rfl
  apply Holds.bind holds_previousPoint
  rintro previous u ⟨rfl, hprevious⟩
  cases hshared : previous.filter (recent args.now) with
  | none => exact holds_captureFresh hdistinct hnew
  | some e =>
    obtain ⟨hrecorded, hpoint⟩ := hprevious e (Option.filter_eq_some_iff.mp hshared).1
    exact holds_captureShared hdistinct hrecorded hpoint

end SummitFlow.Snapshots
