import Mathlib
import SummitFlow.ForStd.RelyGuarantee
import SummitFlow.Spec.SnapshotStore

/-!
# Who may touch a point

Captures, prunes, recoveries and releases run together.  The manifest of a project changes only
under the lock of its scope, and points and what manifests record of them only under the physical
lock.  This file has what a step of a call may do and what a call relies on; the steps follow in
`SharedPoints` and `PointViews`.

## Key results

- `Guarantee.relies`: what one call guarantees is what the others rely on
- `guarantee_of_files`: a step that changes no manifest and no point
- `guarantee_setManifest`: a manifest that is saved
-/

namespace SummitFlow.Snapshots

open Script (Stable Runs Quiet)

variable (host : Host) (uuid : Nat → String)

/-! ## Manifests in order -/

/-- What a manifest records of an entry. -/
def QuickSnapshot.record (entry : QuickSnapshot) : String × Path := (entry.id, entry.snapshotPath)

/-- The entries of a manifest are those of its project, each named after its point, and no two
    have one id. -/
structure Fits (project : String) (entries : List QuickSnapshot) : Prop where
  owned : ∀ entry ∈ entries, entry.projectId = project
  named : ∀ entry ∈ entries, entry.snapshotPath.getLast? = some entry.id
  distinct : (entries.map (·.id)).Nodup

/-- Every manifest is in order, and points stand under their keys. -/
structure Tidy (s : Store) : Prop where
  fits : ∀ project, Fits project (s.manifest project)
  keys : ∀ key ∈ s.points, pointKey host key = key

/-- Some manifest has an entry of this id. -/
def Used (id : String) (s : Store) : Prop := ∃ project, ∃ entry ∈ s.manifest project, entry.id = id

/-- A project records the same points as before. -/
def SameRecords (s t : Store) : Prop :=
  ∀ project r, r ∈ (t.manifest project).map QuickSnapshot.record ↔
    r ∈ (s.manifest project).map QuickSnapshot.record

/-! ## Rely and guarantee -/

/-- What process `i` relies on. -/
structure Rely (i : Nat) (s t : Store) : Prop where
  physical : t.physical = some i ↔ s.physical = some i
  locks : ∀ project, t.locks project = some i ↔ s.locks project = some i
  manifests : ∀ project, s.locks project = some i → t.manifest project = s.manifest project
  records : s.physical = some i → SameRecords s t
  points : s.physical = some i → t.points = s.points
  tidy : Tidy host s → Tidy host t
  unused : ¬Used (uuid i) s → ¬Used (uuid i) t

/-- A point goes only when the one manifest that records it is locked, and its entry there has no
    copy left. -/
def LastView (i : Nat) (s : Store) (key : Path) : Prop :=
  s.physical = some i ∧ ∀ project, ∀ entry ∈ s.manifest project, pointKey host entry.snapshotPath = key →
    s.locks project = some i ∧ hasCopy entry = false ∧
      ∀ project', ∀ entry' ∈ s.manifest project', pointKey host entry'.snapshotPath = key →
        project' = project ∧ entry' = entry

/-- What a step of process `i` does. -/
structure Guarantee (i : Nat) (s : Store) (_ : Option Removal) (t : Store) : Prop where
  physical : ∀ j, j ≠ i → (t.physical = some j ↔ s.physical = some j)
  locks : ∀ j, j ≠ i → ∀ project, t.locks project = some j ↔ s.locks project = some j
  manifests : ∀ project, t.manifest project = s.manifest project ∨ s.locks project = some i
  records : SameRecords s t ∨ s.physical = some i
  points : t.points = s.points ∨ s.physical = some i
  tidy : Tidy host s → Tidy host t
  unused : ∀ j, j ≠ i → ¬Used (uuid j) s → ¬Used (uuid j) t
  removed : Tidy host s → ∀ key ∈ s.points, key ∉ t.points → LastView host i s key

section

variable {host} {uuid} {i : Nat} {s t : Store}

theorem SameRecords.rfl : SameRecords s s := fun _ _ => Iff.rfl

theorem SameRecords.trans {u : Store} (h : SameRecords s t) (h' : SameRecords t u) : SameRecords s u :=
  fun project r => (h' project r).trans (h project r)

theorem Rely.rfl : Rely host uuid i s s where
  physical := Iff.rfl
  locks := fun _ => Iff.rfl
  manifests := fun _ _ => Eq.refl _
  records := fun _ => SameRecords.rfl
  points := fun _ => Eq.refl _
  tidy := id
  unused := id

theorem Rely.trans {u : Store} (h : Rely host uuid i s t) (h' : Rely host uuid i t u) :
    Rely host uuid i s u where
  physical := h'.physical.trans h.physical
  locks := fun project => (h'.locks project).trans (h.locks project)
  manifests := fun project hlock =>
    (h'.manifests project ((h.locks project).mpr hlock)).trans (h.manifests project hlock)
  records := fun hlock => (h.records hlock).trans (h'.records (h.physical.mpr hlock))
  points := fun hlock => (h'.points (h.physical.mpr hlock)).trans (h.points hlock)
  tidy := h'.tidy ∘ h.tidy
  unused := h'.unused ∘ h.unused

/-- What one call guarantees is what the others rely on. -/
theorem Guarantee.relies {l : Option Removal} (h : Guarantee host uuid i s l t) {j : Nat} (hne : i ≠ j) :
    Rely host uuid j s t where
  physical := h.physical j hne.symm
  locks := h.locks j hne.symm
  manifests := by
    intro project hlock
    cases h.manifests project with
    | inl hsame => exact hsame
    | inr hother => exact absurd (Option.some.inj (hother.symm.trans hlock)) hne
  records := by
    intro hlock
    cases h.records with
    | inl hsame => exact hsame
    | inr hother => exact absurd (Option.some.inj (hother.symm.trans hlock)) hne
  points := by
    intro hlock
    cases h.points with
    | inl hsame => exact hsame
    | inr hother => exact absurd (Option.some.inj (hother.symm.trans hlock)) hne
  tidy := h.tidy
  unused := h.unused j hne.symm

/-- A step that changes no manifest and no point. -/
theorem guarantee_of_files {l : Option Removal} (hmanifests : ∀ project, t.manifest project = s.manifest project)
    (hpoints : t.points = s.points) (hphysical : ∀ j, j ≠ i → (t.physical = some j ↔ s.physical = some j))
    (hlocks : ∀ j, j ≠ i → ∀ project, t.locks project = some j ↔ s.locks project = some j) :
    Guarantee host uuid i s l t where
  physical := hphysical
  locks := hlocks
  manifests := fun project => .inl (hmanifests project)
  records := .inl fun project r => by rw [hmanifests]
  points := .inl hpoints
  tidy := by
    intro htidy
    refine ⟨fun project => ?_, fun key hkey => htidy.keys key (hpoints ▸ hkey)⟩
    rw [hmanifests]
    exact htidy.fits project
  unused := by
    intro j _ hunused hused
    obtain ⟨project, entry, hentry, hid⟩ := hused
    exact hunused ⟨project, entry, hmanifests project ▸ hentry, hid⟩
  removed := by
    intro _ key hkey hgone
    rw [hpoints] at hgone
    exact absurd hkey hgone

theorem guarantee_refl (l : Option Removal) (s : Store) : Guarantee host uuid i s l s :=
  guarantee_of_files (fun _ => rfl) rfl (fun _ _ => Iff.rfl) fun _ _ _ => Iff.rfl

theorem guarantee_physical {l : Option Removal} {o : Option Nat}
    (h : ∀ j, j ≠ i → (o = some j ↔ s.physical = some j)) :
    Guarantee host uuid i s l { s with physical := o } :=
  guarantee_of_files (fun _ => Eq.refl _) (Eq.refl _) h fun _ _ _ => Iff.rfl

theorem guarantee_locks {l : Option Removal} {o : String → Option Nat}
    (h : ∀ j, j ≠ i → ∀ project, o project = some j ↔ s.locks project = some j) :
    Guarantee host uuid i s l { s with locks := o } :=
  guarantee_of_files (fun _ => Eq.refl _) (Eq.refl _) (fun _ _ => Iff.rfl) h

/-! ## A manifest that is saved -/

theorem mem_manifest_setManifest {project project' : String} {entries : List QuickSnapshot}
    {entry : QuickSnapshot} (h : entry ∈ (s.setManifest project entries).manifest project') :
    entry ∈ s.manifest project' ∨ (project' = project ∧ entry ∈ entries) := by
  by_cases heq : project' = project
  · subst heq
    rw [manifest_setManifest_self, mem_newestFirst] at h
    exact .inr ⟨rfl, h⟩
  · rw [manifest_setManifest_of_ne s heq] at h
    exact .inl h

theorem Fits.perm {project : String} {entries entries' : List QuickSnapshot} (h : Fits project entries)
    (hperm : entries'.Perm entries) : Fits project entries' where
  owned := fun entry hentry => h.owned entry (hperm.mem_iff.mp hentry)
  named := fun entry hentry => h.named entry (hperm.mem_iff.mp hentry)
  distinct := (hperm.map _).nodup_iff.mpr h.distinct

theorem Fits.eq {project : String} {entries : List QuickSnapshot} (h : Fits project entries)
    {entry entry' : QuickSnapshot} (hentry : entry ∈ entries) (hentry' : entry' ∈ entries)
    (hid : entry.id = entry'.id) : entry = entry' :=
  List.inj_on_of_nodup_map h.distinct hentry hentry' hid

theorem Fits.sublist {project : String} {entries entries' : List QuickSnapshot} (h : Fits project entries)
    (hsub : entries'.Sublist entries) : Fits project entries' where
  owned := fun entry hentry => h.owned entry (hsub.subset hentry)
  named := fun entry hentry => h.named entry (hsub.subset hentry)
  distinct := h.distinct.sublist (hsub.map _)

/-- Changes of entries that keep what is recorded of them. -/
theorem Fits.map {project : String} {entries : List QuickSnapshot} (h : Fits project entries)
    {f : QuickSnapshot → QuickSnapshot}
    (hf : ∀ entry ∈ entries, (f entry).record = entry.record ∧ (f entry).projectId = entry.projectId) :
    Fits project (entries.map f) where
  owned := by
    intro entry hentry
    obtain ⟨entry', hentry', rfl⟩ := List.mem_map.mp hentry
    rw [(hf entry' hentry').2, h.owned entry' hentry']
  named := by
    intro entry hentry
    obtain ⟨entry', hentry', rfl⟩ := List.mem_map.mp hentry
    obtain ⟨hid, hpath⟩ := Prod.mk.inj (hf entry' hentry').1
    rw [hpath, h.named entry' hentry', hid]
  distinct := by
    have hids : (entries.map f).map (·.id) = entries.map (·.id) := by
      rw [List.map_map]
      apply List.map_congr_left
      intro entry hentry
      exact (Prod.mk.inj (hf entry hentry).1).1
    rw [hids]
    exact h.distinct

theorem Fits.concat {project : String} {entries : List QuickSnapshot} (h : Fits project entries)
    {entry : QuickSnapshot} (howned : entry.projectId = project)
    (hnamed : entry.snapshotPath.getLast? = some entry.id) (hnew : ∀ e ∈ entries, e.id ≠ entry.id) :
    Fits project (entries ++ [entry]) where
  owned := by
    intro e he
    cases List.mem_append.mp he with
    | inl hold => exact h.owned e hold
    | inr hlast => rw [List.mem_singleton.mp hlast, howned]
  named := by
    intro e he
    cases List.mem_append.mp he with
    | inl hold => exact h.named e hold
    | inr hlast => rw [List.mem_singleton.mp hlast, hnamed]
  distinct := by
    rw [List.map_append, List.nodup_append]
    refine ⟨h.distinct, by simp, ?_⟩
    intro id hid id' hid'
    obtain ⟨e, he, rfl⟩ := List.mem_map.mp hid
    rw [List.map_singleton, List.mem_singleton] at hid'
    rw [hid']
    exact hnew e he

theorem Tidy.setManifest (h : Tidy host s) {project : String} {entries : List QuickSnapshot}
    (hentries : Fits project entries) : Tidy host (s.setManifest project entries) where
  fits := by
    intro project'
    by_cases heq : project' = project
    · subst heq
      rw [manifest_setManifest_self]
      exact hentries.perm (perm_newestFirst entries)
    · rw [manifest_setManifest_of_ne s heq]
      exact h.fits project'
  keys := h.keys

/-- The manifest of a project is saved under the lock of its scope: with the points it records, or
    under the physical lock too. -/
theorem guarantee_setManifest {l : Option Removal} {project : String} {entries : List QuickSnapshot}
    (hlock : s.locks project = some i) (hentries : Fits project entries)
    (hids : ∀ entry ∈ entries, entry.id = uuid i ∨ Used entry.id s)
    (huuid : Function.Injective uuid)
    (hrecords : SameRecords s (s.setManifest project entries) ∨ s.physical = some i) :
    Guarantee host uuid i s l (s.setManifest project entries) where
  physical := fun _ _ => Iff.rfl
  locks := fun _ _ _ => Iff.rfl
  manifests := by
    intro project'
    by_cases heq : project' = project
    · exact .inr (heq ▸ hlock)
    · exact .inl (manifest_setManifest_of_ne s heq entries)
  records := hrecords
  points := .inl (Eq.refl _)
  tidy := fun htidy => htidy.setManifest hentries
  unused := by
    intro j hne hunused hused
    obtain ⟨project', entry, hentry, hid⟩ := hused
    cases mem_manifest_setManifest hentry with
    | inl hold => exact hunused ⟨project', entry, hold, hid⟩
    | inr hnew =>
      cases hids entry hnew.2 with
      | inl hown => exact hne (huuid (hid.symm.trans hown))
      | inr hthere => exact hunused (hid ▸ hthere)
  removed := fun _ key hkey hgone => absurd hkey hgone

/-- Entries that keep what is recorded of them are saved. -/
theorem sameRecords_setManifest {project : String} {entries : List QuickSnapshot}
    (h : ∀ r, r ∈ entries.map QuickSnapshot.record ↔ r ∈ (s.manifest project).map QuickSnapshot.record) :
    SameRecords s (s.setManifest project entries) := by
  intro project' r
  by_cases heq : project' = project
  · subst heq
    rw [manifest_setManifest_self, ← h r]
    exact ((perm_newestFirst entries).map _).mem_iff
  · rw [manifest_setManifest_of_ne s heq]

/-- Points are made under the physical lock, under their keys. -/
theorem guarantee_addPoint {l : Option Removal} (hlock : s.physical = some i) (path : Path) :
    Guarantee host uuid i s l { s with points := pointKey host path :: s.points } where
  physical := fun _ _ => Iff.rfl
  locks := fun _ _ _ => Iff.rfl
  manifests := fun _ => .inl (Eq.refl _)
  records := .inl SameRecords.rfl
  points := .inr hlock
  tidy := by
    intro htidy
    refine ⟨htidy.fits, fun key hkey => ?_⟩
    cases List.mem_cons.mp hkey with
    | inl heq => rw [heq, pointKey_pointKey]
    | inr hold => exact htidy.keys key hold
  unused := fun _ _ hunused => hunused
  removed := fun _ key hkey hgone => absurd (List.mem_cons_of_mem _ hkey) hgone

/-- A point is removed where its last view allows it. -/
theorem guarantee_removePoint {l : Option Removal} (hlock : s.physical = some i) {key : Path}
    (hlast : LastView host i s key) :
    Guarantee host uuid i s l { s with points := s.points.filter (· ≠ key) } where
  physical := fun _ _ => Iff.rfl
  locks := fun _ _ _ => Iff.rfl
  manifests := fun _ => .inl (Eq.refl _)
  records := .inl SameRecords.rfl
  points := .inr hlock
  tidy := fun htidy => ⟨htidy.fits, fun key' hkey' => htidy.keys key' (List.mem_filter.mp hkey').1⟩
  unused := fun _ _ hunused => hunused
  removed := by
    intro _ key' hkey' hgone
    have heq : key' = key := by
      by_contra hne
      exact hgone (List.mem_filter.mpr ⟨hkey', by simpa using hne⟩)
    exact heq ▸ hlast

end

end SummitFlow.Snapshots
