import SummitFlow.Cli.Autosnapshot

/-!
# Points and entries

What the scripts of captures and prunes rest on: a point has one key under every spelling
of the workspace root, removing the point of an entry removes the point of that key, and
nothing that is done to an entry changes which point it records.
-/

namespace SummitFlow.Snapshots

/-! ## Keys -/

section

variable {host : Host}

theorem storeBelow_some {up : List String} {below target : Path}
    (h : storeBelow host up below = some target) :
    ∃ between, target = managedStore host ++ (between ++ below) := by
  induction up generalizing below with
  | nil => cases h
  | cons name up ih =>
    unfold storeBelow at h
    split at h
    · exact ⟨[], (Option.some.inj h).symm⟩
    · obtain ⟨between, rfl⟩ := ih h
      exact ⟨between ++ [name], by simp⟩

/-- A point keeps its name. -/
theorem getLast?_pointKey (host : Host) (path : Path) :
    (pointKey host path).getLast? = path.getLast? := by
  unfold pointKey storePath
  cases hpath : path.reverse with
  | nil => rfl
  | cons name up =>
    dsimp only
    cases hstore : storeBelow host up [name] with
    | none => rfl
    | some target =>
      obtain ⟨between, rfl⟩ := storeBelow_some hstore
      have hlast : path.getLast? = some name := by
        rw [← List.head?_reverse, hpath]
        rfl
      rw [hlast]
      simp

/-- The walk up from below a spelling of the store ends there, unless it meets another
    one. -/
theorem storeBelow_append {up : List String} (hup : host.resolve up.reverse = host.root)
    {between : Path} (hinner : ∀ x y, between = x ++ ".snapshots" :: y →
      host.resolve (up.reverse ++ ".snapshots" :: x) ≠ host.root) (below : Path) :
    storeBelow host (between.reverse ++ ".snapshots" :: up) below =
      some (managedStore host ++ (between ++ below)) := by
  induction between using List.reverseRecOn generalizing below with
  | nil => exact if_pos ⟨rfl, hup⟩
  | append_singleton between name ih =>
    rw [List.reverse_append, List.reverse_singleton, List.singleton_append, List.cons_append,
      storeBelow, if_neg]
    · rw [ih, List.append_assoc, List.singleton_append]
      intro x y hxy
      exact hinner x (y ++ [name]) (by rw [hxy]; simp)
    · rintro ⟨rfl, hresolve⟩
      apply hinner between [] rfl
      rw [← hresolve]
      simp

/-- Every spelling of the workspace root gives a point the same key. -/
theorem pointKey_spelling {spelling rest : Path} (hspelling : host.resolve spelling = host.root)
    (hrest : rest ≠ []) (hplain : ".snapshots" ∉ rest) :
    pointKey host (spelling ++ ".snapshots" :: rest) = managedStore host ++ rest := by
  obtain ⟨between, name, rfl⟩ := (List.eq_nil_or_concat' rest).resolve_left hrest
  have hreverse : (spelling ++ ".snapshots" :: (between ++ [name])).reverse =
      name :: (between.reverse ++ ".snapshots" :: spelling.reverse) := by
    simp
  unfold pointKey storePath
  rw [hreverse]
  dsimp only
  rw [storeBelow_append (by rw [List.reverse_reverse]; exact hspelling)]
  · rfl
  · intro x y hxy
    exact absurd (by simp [hxy]) hplain

/-- What the walk passed before it met the store is no spelling of it. -/
theorem storeBelow_inner {up : List String} {below target : Path}
    (h : storeBelow host up below = some target)
    (hinner : ∀ x y, below = x ++ ".snapshots" :: y → y ≠ [] →
      host.resolve (up.reverse ++ x) ≠ host.root) :
    ∃ spelling rest, host.resolve spelling = host.root ∧ target = managedStore host ++ rest ∧
      below.length ≤ rest.length ∧ ∀ x y, rest = x ++ ".snapshots" :: y → y ≠ [] →
        host.resolve (spelling ++ ".snapshots" :: x) ≠ host.root := by
  induction up generalizing below with
  | nil => cases h
  | cons name up ih =>
    unfold storeBelow at h
    split at h
    · next hfound =>
      obtain ⟨rfl, hresolve⟩ := hfound
      refine ⟨up.reverse, below, hresolve, (Option.some.inj h).symm, Nat.le_refl _, ?_⟩
      intro x y hxy hy
      have hne := hinner x y hxy hy
      simpa using hne
    · next hother =>
      obtain ⟨spelling, rest, hspelling, htarget, hlength, hrest⟩ := ih h (by
        intro x y hxy hy hresolve
        cases x with
        | nil =>
          obtain ⟨rfl, rfl⟩ := List.cons.inj hxy
          exact hother ⟨rfl, by simpa using hresolve⟩
        | cons name' x =>
          obtain ⟨rfl, hbelow⟩ := List.cons.inj hxy
          exact hinner x y hbelow hy (by simpa using hresolve))
      exact ⟨spelling, rest, hspelling, htarget, Nat.le_of_succ_le hlength, hrest⟩

/-- A key is its own key. -/
theorem pointKey_pointKey (host : Host) (path : Path) :
    pointKey host (pointKey host path) = pointKey host path := by
  cases hstore : storePath host path with
  | none =>
    have hkey : pointKey host path = path := by rw [pointKey, hstore, Option.getD_none]
    rw [hkey, hkey]
  | some target =>
    have hkey : pointKey host path = target := by rw [pointKey, hstore, Option.getD_some]
    unfold storePath at hstore
    split at hstore
    · cases hstore
    · next name up hpath =>
      obtain ⟨spelling, rest, hspelling, rfl, hlength, hrest⟩ := storeBelow_inner hstore (by
        intro x y hxy hy
        cases x with
        | nil => exact absurd (List.cons.inj hxy).2.symm hy
        | cons _ x => exact absurd (List.cons.inj hxy).2 (by simp))
      have hne : rest ≠ [] := by
        rintro rfl
        cases hlength
      rw [hkey]
      obtain ⟨between, last, rfl⟩ := (List.eq_nil_or_concat' rest).resolve_left hne
      have hreverse : (managedStore host ++ (between ++ [last])).reverse =
          last :: (between.reverse ++ ".snapshots" :: host.root.reverse) := by
        simp [managedStore]
      unfold pointKey storePath
      rw [hreverse]
      dsimp only
      rw [storeBelow_append (by rw [List.reverse_reverse]; exact host.resolve_root)]
      · rfl
      · -- the real store is resolved like the spelling
        intro x y hxy hresolve
        apply hrest x (y ++ [last]) (by rw [hxy]; simp) (by simp)
        rw [host.resolve_append, hspelling]
        simpa using hresolve

theorem managedLeaf_ok {path leaf : Path} {project : Option String}
    (h : managedLeaf host path project = .ok leaf) : storePath host path = some leaf := by
  unfold managedLeaf at h
  split at h
  · cases h
  · next target htarget =>
    dsimp only at h
    generalize (_ && List.all _ plainName) = valid at h
    cases valid with
    | true =>
      rw [← Except.ok.inj h]
      exact htarget
    | false => cases h

/-- What a removal takes is the point of the path. -/
theorem prunedLeaf_ok {path leaf : Path} (h : prunedLeaf host path = .ok leaf) :
    leaf = pointKey host path := by
  have htarget := managedLeaf_ok h
  rw [← pointKey_pointKey host path, pointKey, htarget, Option.getD_some]

/-- A removal takes the point of its path, or nothing. -/
theorem physicalDelete_cases (path : Path) (batch : List QuickSnapshot) (s : Store) (w : Outside) :
    (∃ message, physicalDelete host path batch s w = (s, none, .error message)) ∨
      physicalDelete host path batch s w =
        ({ s with points := s.points.filter (· ≠ pointKey host path) },
          some ⟨pointKey host path, batch⟩, .ok ()) := by
  unfold physicalDelete
  split
  · exact .inl ⟨_, rfl⟩
  · exact .inl ⟨_, rfl⟩
  · next leaf hleaf _ =>
    rw [prunedLeaf_ok hleaf]
    exact .inr rfl

/-- An entry that is deleted takes its point with it when it has no undeleted copy and no
    view outside the batch records the point. -/
theorem deleteEntry_cases (views batch : List QuickSnapshot) (entry : QuickSnapshot) (s : Store)
    (w : Outside) :
    (∃ outcome, deleteEntry host views batch entry s w = (s, none, outcome)) ∨
      (hasCopy entry = false ∧
        (∀ other ∈ views, pointKey host other.snapshotPath = pointKey host entry.snapshotPath →
          other.view ∈ batch.map QuickSnapshot.view) ∧
        deleteEntry host views batch entry s w =
          ({ s with points := s.points.filter (· ≠ pointKey host entry.snapshotPath) },
            some ⟨pointKey host entry.snapshotPath, batch⟩, .ok true)) := by
  unfold deleteEntry
  dsimp only
  cases hcopy : hasCopy entry with
  | true => exact .inl ⟨_, rfl⟩
  | false =>
    cases hroot : prunableRoot host entry entry.snapshotPath with
    | false => exact .inl ⟨_, rfl⟩
    | true =>
      rw [if_neg (by decide), if_neg (by decide)]
      split
      · exact .inl ⟨_, rfl⟩
      · next hlast =>
        rw [not_or, List.any_eq_true, not_exists] at hlast
        rcases physicalDelete_cases entry.snapshotPath batch s w with ⟨message, herror⟩ | hgone
        · rw [herror]
          exact .inl ⟨_, rfl⟩
        · rw [hgone]
          refine .inr ⟨rfl, ?_, rfl⟩
          intro other hother hkey
          by_contra hnot
          exact hlast.1 other ⟨hother, by simp [hkey, hnot]⟩

/-- A leaf that is reaped is recorded by nobody. -/
theorem reapLeaf_cases (policy : AutosnapshotPolicy) (now : Int) (recorded : List Path)
    (leaf : Path) (s : Store) (w : Outside) :
    (∃ reaped, reapLeaf host policy now recorded leaf s w = (s, none, reaped)) ∨
      (leaf ∉ recorded ∧ reapLeaf host policy now recorded leaf s w =
        ({ s with points := s.points.filter (· ≠ pointKey host leaf) },
          some ⟨pointKey host leaf, []⟩, true)) := by
  unfold reapLeaf
  dsimp only
  split
  · exact .inl ⟨_, rfl⟩
  · next hskip =>
    rw [not_or] at hskip
    rcases physicalDelete_cases leaf [] s w with ⟨message, herror⟩ | hgone
    · rw [herror]
      exact .inl ⟨_, rfl⟩
    · rw [hgone]
      exact .inr ⟨hskip.1, rfl⟩

end

/-! ## Manifests -/

@[simp] theorem mem_newestFirst {entry : QuickSnapshot} {entries : List QuickSnapshot} :
    entry ∈ newestFirst entries ↔ entry ∈ entries :=
  mem_sortBy

theorem perm_newestFirst (entries : List QuickSnapshot) : (newestFirst entries).Perm entries :=
  perm_sortBy _ _

theorem manifest_setManifest_self (s : Store) (project : String) (entries : List QuickSnapshot) :
    (s.setManifest project entries).manifest project = newestFirst entries := by
  rw [Store.manifest, Store.setManifest, Dict.lookup_set_self, Option.getD_some]

theorem manifest_setManifest_of_ne (s : Store) {project project' : String} (h : project' ≠ project)
    (entries : List QuickSnapshot) :
    (s.setManifest project entries).manifest project' = s.manifest project' := by
  rw [Store.manifest, Store.setManifest, Dict.lookup_set_of_ne h]
  rfl

theorem mem_projects {s : Store} {project : String} {entry : QuickSnapshot}
    (h : entry ∈ s.manifest project) : project ∈ s.manifests.map Prod.fst := by
  by_contra hnone
  rw [Store.manifest, Dict.lookup_eq_none_of_notMem hnone] at h
  cases h

/-- The entries of one manifest have different ids. -/
def DistinctIds (s : Store) : Prop := ∀ project, ((s.manifest project).map (·.id)).Nodup

theorem DistinctIds.eq {s : Store} (h : DistinctIds s) {project : String} {e e' : QuickSnapshot}
    (he : e ∈ s.manifest project) (he' : e' ∈ s.manifest project) (hid : e.id = e'.id) : e = e' :=
  List.inj_on_of_nodup_map (h project) he he' hid

theorem DistinctIds.setManifest {s : Store} (h : DistinctIds s) {project : String}
    {entries : List QuickSnapshot} (hentries : (entries.map (·.id)).Nodup) :
    DistinctIds (s.setManifest project entries) := by
  intro project'
  by_cases hproject : project' = project
  · subst hproject
    rw [manifest_setManifest_self]
    exact ((perm_newestFirst entries).map _).nodup_iff.mpr hentries
  · rw [manifest_setManifest_of_ne s hproject]
    exact h project'

/-! ## Entries -/

section

variable (entry : QuickSnapshot)

@[simp] theorem cleanup_id (now : Int) (err : Path → Option String) :
    (cleanupRecoveryCopies now err entry).id = entry.id := rfl

@[simp] theorem cleanup_snapshotPath (now : Int) (err : Path → Option String) :
    (cleanupRecoveryCopies now err entry).snapshotPath = entry.snapshotPath := rfl

@[simp] theorem cleanup_createdAt (now : Int) (err : Path → Option String) :
    (cleanupRecoveryCopies now err entry).createdAt = entry.createdAt := rfl

@[simp] theorem cleanup_deletionError (now : Int) (err : Path → Option String) :
    (cleanupRecoveryCopies now err entry).deletionError = entry.deletionError := rfl

@[simp] theorem cleanup_view (now : Int) (err : Path → Option String) :
    (cleanupRecoveryCopies now err entry).view = entry.view := rfl

variable (outcomes : List (String × Except String Bool))

/-- A failure changes the deletion error of an entry at most. -/
theorem noteFailure_eq :
    ∃ error, noteFailure outcomes entry = { entry with deletionError := error } := by
  unfold noteFailure
  split
  · exact ⟨_, rfl⟩
  · exact ⟨entry.deletionError, rfl⟩

@[simp] theorem noteFailure_id : (noteFailure outcomes entry).id = entry.id := by
  obtain ⟨error, heq⟩ := noteFailure_eq entry outcomes
  rw [heq]

@[simp] theorem noteFailure_snapshotPath :
    (noteFailure outcomes entry).snapshotPath = entry.snapshotPath := by
  obtain ⟨error, heq⟩ := noteFailure_eq entry outcomes
  rw [heq]

@[simp] theorem noteFailure_createdAt :
    (noteFailure outcomes entry).createdAt = entry.createdAt := by
  obtain ⟨error, heq⟩ := noteFailure_eq entry outcomes
  rw [heq]

@[simp] theorem noteFailure_view : (noteFailure outcomes entry).view = entry.view := by
  obtain ⟨error, heq⟩ := noteFailure_eq entry outcomes
  rw [heq]
  rfl

end

/-- The outcome of an entry that was not tried. -/
theorem noteFailure_of_notMem {outcomes : List (String × Except String Bool)}
    {entry : QuickSnapshot} (h : entry.id ∉ outcomes.map Prod.fst) :
    noteFailure outcomes entry = entry ∧ viewGone outcomes entry = false := by
  constructor
  · rw [noteFailure, Dict.lookup_eq_none_of_notMem h]
  · rw [viewGone, List.any_eq_false]
    intro outcome hmem hgone
    rw [Bool.and_eq_true, decide_eq_true_eq] at hgone
    exact h (List.mem_map.mpr ⟨outcome, hmem, hgone.1⟩)

end SummitFlow.Snapshots
