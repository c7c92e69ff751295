import SummitFlow.Spec.DeletionSpelling

/-!
# Directories above a protected root

Deleting a directory destroys what lies below it, so the directories above a protected root
should be protected too.  They are, up to two gaps: the directory of the guests' images lies
two levels deep with nothing protected in between, and a home directory may lie anywhere.
-/

namespace SummitFlow.Guard

open PosixPath

/-! ## Roots without the home directory -/

/-- Protected wherever the home directory is. -/
def fixedRoot (target : String) : Bool :=
  decide (target.toList.count '/' ≤ 1) || parents.contains (dirname target) ||
    target == "/srv/workspaces/projects" || dataRoots.any (under target)

/-- The directory of the guests' images. -/
def imageRoot : String := "/var/lib/vz"

theorem fixedRoot_iff {target : String} : fixedRoot target = true ↔
    target.toList.count '/' ≤ 1 ∨ dirname target ∈ parents ∨
      target = "/srv/workspaces/projects" ∨ ∃ root ∈ dataRoots, under target root = true := by
  unfold fixedRoot
  rw [Bool.or_eq_true, Bool.or_eq_true, Bool.or_eq_true, decide_eq_true_eq, List.contains_iff_mem,
    beq_iff_eq, List.any_eq_true, or_assoc, or_assoc]

section

variable {host : Host}

theorem protected_iff_fixed {target : String} : protectedDeletionRoot host target = true ↔
    fixedRoot target = true ∨ target = normpath (expanduser host.users "~") := by
  rw [protectedDeletionRoot_iff, fixedRoot_iff]
  constructor
  · rintro (hshort | hhome | hrest)
    · exact .inl (.inl hshort)
    · exact .inr hhome
    · exact .inl (.inr hrest)
  · rintro ((hshort | hrest) | hhome)
    · exact .inl hshort
    · exact .inr (.inr hrest)
    · exact .inr (.inl hhome)

end

/-- Roots end in something other than a slash. -/
theorem root_last {root : String} (h : root ∈ dataRoots) :
    Str.rstripSlash root = root ∧ ∃ front x, root.toList = front ++ [x] ∧ x ≠ '/' := by
  have hroots : dataRoots = ["/mnt", "/media", "/var/lib/vz", "/etc/pve"] := rfl
  rw [hroots] at h
  simp only [List.mem_cons, List.not_mem_nil, or_false] at h
  rcases h with rfl | rfl | rfl | rfl
  · exact ⟨by decide, "/mn".toList, 't', by decide, by decide⟩
  · exact ⟨by decide, "/medi".toList, 'a', by decide, by decide⟩
  · exact ⟨by decide, "/var/lib/v".toList, 'z', by decide, by decide⟩
  · exact ⟨by decide, "/etc/pv".toList, 'e', by decide, by decide⟩

/-- A path under a root is the root, or its directory is under the root. -/
theorem under_dirname {target root : String} (hroot : root ∈ dataRoots)
    (h : under target root = true) : target = root ∨ under (dirname target) root = true := by
  obtain ⟨hplain, front, x, hlast, hx⟩ := root_last hroot
  unfold under at h ⊢
  rw [Bool.or_eq_true, beq_iff_eq, hplain] at h ⊢
  rcases h with heq | hbelow
  · exact .inl heq
  · exact .inr (dirname_below hlast hx hbelow).1

theorem under_of_dirname {target root : String} (hroot : root ∈ dataRoots)
    (h : under (dirname target) root = true) : under target root = true := by
  obtain ⟨hplain, front, x, hlast, hx⟩ := root_last hroot
  unfold under at h ⊢
  rw [Bool.or_eq_true, beq_iff_eq, hplain] at h ⊢
  right
  rcases h with heq | hbelow
  · exact below_of_dirname hlast hx heq
  · rw [Str.startswith, List.isPrefixOf_iff_prefix] at hbelow ⊢
    exact hbelow.trans (isPrefix_dirname target)

theorem imageRoot_mem : imageRoot ∈ dataRoots := by
  unfold imageRoot dataRoots proxmoxDataRoots
  simp

/-- One directory up from a fixed root is a fixed root, except from the images. -/
theorem fixedRoot_dirname {target : String} (h : fixedRoot target = true)
    (himages : under target imageRoot = false) : fixedRoot (dirname target) = true := by
  rcases fixedRoot_iff.mp h with hshort | hparent | rfl | ⟨root, hroot, hunder⟩
  · have hle : (dirname target).toList.count '/' ≤ target.toList.count '/' :=
      (isPrefix_dirname target).sublist.count_le _
    exact fixedRoot_iff.mpr (.inl (hle.trans hshort))
  · have hcases : dirname target = "/home" ∨ dirname target = "/srv" ∨
        dirname target = "/srv/workspaces/projects" := by simpa [parents] using hparent
    rcases hcases with heq | heq | heq
    · rw [heq]
      exact fixedRoot_iff.mpr (.inl (by decide))
    · rw [heq]
      exact fixedRoot_iff.mpr (.inl (by decide))
    · rw [heq]
      exact fixedRoot_iff.mpr (.inr (.inr (.inl rfl)))
  · have hdir : dirname "/srv/workspaces/projects" = "/srv/workspaces" := by decide
    have hsrv : dirname "/srv/workspaces" ∈ parents := by decide
    rw [hdir]
    exact fixedRoot_iff.mpr (.inr (.inl hsrv))
  · rcases under_dirname hroot hunder with rfl | hdir
    · -- the root itself: every root but the images is one level below a short path
      have hne : target ≠ imageRoot := by
        rintro rfl
        exact absurd himages (by decide)
      have hroots : dataRoots = ["/mnt", "/media", imageRoot, "/etc/pve"] := rfl
      rw [hroots] at hroot
      simp only [List.mem_cons, List.not_mem_nil, or_false] at hroot
      rcases hroot with rfl | rfl | rfl | rfl
      · exact fixedRoot_iff.mpr (.inl (by decide))
      · exact fixedRoot_iff.mpr (.inl (by decide))
      · exact absurd rfl hne
      · exact fixedRoot_iff.mpr (.inl (by decide))
    · exact fixedRoot_iff.mpr (.inr (.inr (.inr ⟨root, hroot, hdir⟩)))

/-- All the way up, too. -/
theorem fixedRoot_iterate {target : String} (h : fixedRoot target = true)
    (himages : under target imageRoot = false) (n : Nat) :
    fixedRoot (dirname^[n] target) = true := by
  induction n generalizing target with
  | zero => exact h
  | succ n ih =>
    rw [Function.iterate_succ_apply]
    apply ih (fixedRoot_dirname h himages)
    rw [Bool.eq_false_iff]
    intro hup
    rw [under_of_dirname imageRoot_mem hup] at himages
    cases himages

/-- From the images on the way up, only the directory between them and `/var` is left out. -/
theorem fixedRoot_iterate_images {target : String} (h : under target imageRoot = true) (n : Nat) :
    fixedRoot (dirname^[n] target) = true ∨ dirname^[n] target = "/var/lib" := by
  induction n generalizing target with
  | zero => exact .inl (fixedRoot_iff.mpr (.inr (.inr (.inr ⟨imageRoot, imageRoot_mem, h⟩))))
  | succ n ih =>
    rw [Function.iterate_succ_apply]
    rcases under_dirname imageRoot_mem h with rfl | hdir
    · have hlib : dirname imageRoot = "/var/lib" := by decide
      have hvar : dirname "/var/lib" = "/var" := by decide
      rw [hlib]
      cases n with
      | zero => exact .inr rfl
      | succ n =>
        rw [Function.iterate_succ_apply, hvar]
        have hshort : fixedRoot "/var" = true := fixedRoot_iff.mpr (.inl (by decide))
        exact .inl (fixedRoot_iterate hshort (by decide) n)
    · exact ih hdir

/-- The images are below `/var/lib`, which no fixed rule protects. -/
theorem above_images {target : String} (h : under target imageRoot = true) :
    Above "/var/lib" target := by
  apply @above_of_below _ _ "/var/li".toList 'b' (by decide) (by decide)
  unfold under at h
  have hplain : Str.rstripSlash imageRoot = imageRoot := by decide
  rw [Bool.or_eq_true, beq_iff_eq, hplain] at h
  rcases h with rfl | hbelow
  · decide
  · rw [Str.startswith, List.isPrefixOf_iff_prefix] at hbelow ⊢
    exact List.IsPrefix.trans (by decide) hbelow

theorem not_fixedRoot_lib : fixedRoot "/var/lib" = false := by decide

/-! ## With the home directory -/

section

variable {host : Host}

/-- Every directory above a protected one is protected exactly when the path is not among the
    guests' images, unless the home directory is just above them, and the home directory,
    where the path is that and no root without it, is in a directory that is a root. -/
theorem protected_above_iff {target : String} (h : protectedDeletionRoot host target = true) :
    (∀ dir, Above dir target → protectedDeletionRoot host dir = true) ↔
      (under target imageRoot = true → normpath (expanduser host.users "~") = "/var/lib") ∧
      (fixedRoot target = true ∨ dirname target = target ∨ fixedRoot (dirname target) = true) := by
  constructor
  · intro habove
    constructor
    · intro himages
      rcases protected_iff_fixed.mp (habove _ (above_images himages)) with hfixed | hhome
      · rw [not_fixedRoot_lib] at hfixed
        cases hfixed
      · exact hhome.symm
    · by_cases hfixed : fixedRoot target = true
      · exact .inl hfixed
      · by_cases htop : dirname target = target
        · exact .inr (.inl htop)
        · have hhome := (protected_iff_fixed.mp h).resolve_left hfixed
          have hup := habove (dirname target) ⟨htop, 1, rfl⟩
          rcases protected_iff_fixed.mp hup with hdir | hsame
          · exact .inr (.inr hdir)
          · exact absurd (hsame.trans hhome.symm) htop
  · rintro ⟨himages, hplace⟩ dir ⟨hne, n, rfl⟩
    apply protected_iff_fixed.mpr
    by_cases hunder : under target imageRoot = true
    · rcases fixedRoot_iterate_images hunder n with hfixed | hlib
      · exact .inl hfixed
      · exact .inr (hlib.trans (himages hunder).symm)
    · rw [Bool.not_eq_true] at hunder
      left
      rcases hplace with hfixed | htop | hdir
      · exact fixedRoot_iterate hfixed hunder n
      · exact absurd (Function.iterate_fixed htop n) hne
      · -- the first step up is to a root
        cases n with
        | zero => exact absurd rfl hne
        | succ n =>
          rw [Function.iterate_succ_apply]
          apply fixedRoot_iterate hdir
          rw [Bool.eq_false_iff]
          intro hup
          rw [under_of_dirname imageRoot_mem hup] at hunder
          cases hunder

theorem protected_above_projects :
    protectedDeletionRoot userHost "/srv/workspaces/projects/app" = true ∧
      protectedDeletionRoot userHost "/srv/workspaces" = true := by
  have htarget : protectedDeletionRoot userHost "/srv/workspaces/projects/app" = true := by
    decide +kernel
  have habove : Above "/srv/workspaces" "/srv/workspaces/projects/app" :=
    ⟨by decide, 2, by decide +kernel⟩
  exact ⟨htarget, (protected_above_iff htarget).mpr
    ⟨by decide +kernel, .inl (by decide +kernel)⟩ _ habove⟩

/-- `rm -r /var/lib` goes through. -/
theorem not_protected_above :
    ¬ ∀ (host : Host) (target : String), normpath target = target → isAbsolute target = true →
      protectedDeletionRoot host target = true →
      ∀ dir, Above dir target → protectedDeletionRoot host dir = true := by
  intro hall
  have himages : Above "/var/lib" imageRoot := above_images (by decide)
  have hlib := hall userHost imageRoot (by decide +kernel) (by decide +kernel) (by decide +kernel)
    _ himages
  rw [show protectedDeletionRoot userHost "/var/lib" = false by decide +kernel] at hlib
  cases hlib

end

end SummitFlow.Guard
