import SummitFlow.ForStd.Run
import SummitFlow.ForStd.UpdateFirst
import SummitFlow.Python.PathStack
import SummitFlow.Services.DestructivePathGuard

/-!
# Operands that other sessions own

An operand is looked up as it is spelled: blanks around it and `./` in front of it are
dropped, and only an absolute one is related to the checkout.  So a removal is refused when
an operand spells a path of a foreign session in full from the root, and for no directory
above such a path and no other spelling.
-/

namespace SummitFlow.Guard

open PosixPath

variable {o : Outside} {root command : String} {raws : List String}

/-! ## Scope paths -/

/-- A path from the root of a checkout, without a `.`, `..` or empty part. -/
def RepoRelative (path : String) : Prop := '\\' ∉ path.toList ∧ ∀ part ∈ pieces path, Proper part

theorem RepoRelative.split {path : String} (h : RepoRelative path) (xs ys : List Char)
    (heq : path.toList = xs ++ '/' :: ys) : [] ∉ Str.splitOnChar '/' xs ∧ [] ∉ Str.splitOnChar '/' ys := by
  have hparts := h.2
  unfold pieces at hparts
  rw [heq, Str.splitOnChar_append] at hparts
  constructor
  · intro hnil
    exact (hparts [] (List.mem_append_left _ hnil)).ne_nil rfl
  · intro hnil
    exact (hparts [] (List.mem_append_right _ hnil)).ne_nil rfl

theorem RepoRelative.not_isAbsolute {path : String} (h : RepoRelative path) :
    isAbsolute path = false := by
  rw [Bool.eq_false_iff, ne_eq, isAbsolute_iff]
  rintro ⟨cs, hcs⟩
  exact (h.split [] cs hcs).1 (by simp [Str.splitOnChar])

theorem RepoRelative.ne_empty {path : String} (h : RepoRelative path) : path ≠ "" := by
  rintro rfl
  exact (h.2 [] (by simp [pieces, Str.splitOnChar])).ne_nil rfl

theorem RepoRelative.not_endswith {path : String} (h : RepoRelative path) :
    Str.endswith path "/" = false := by
  rw [Bool.eq_false_iff]
  intro hend
  obtain ⟨xs, hxs⟩ := List.isSuffixOf_iff_suffix.mp hend
  exact (h.split xs [] hxs.symm).2 (by simp [Str.splitOnChar])

theorem RepoRelative.not_double {path : String} (h : RepoRelative path) :
    ¬ ['/', '/'] <:+: path.toList := by
  rintro ⟨xs, ys, heq⟩
  rw [List.append_assoc] at heq
  exact (h.split xs ('/' :: ys) heq.symm).2 (by simp)

theorem pathStr_of_repoRelative {path : String} (h : RepoRelative path) : pathStr path = path := by
  have hkeep : (Str.splitOnChar '/' path.toList).filter (fun comp => comp != [] && comp != ['.']) =
      Str.splitOnChar '/' path.toList := by
    apply List.filter_eq_self.mpr
    intro part hpart
    have hproper := h.2 part hpart
    simp [hproper.ne_nil, hproper.ne_dot]
  have habs := h.not_isAbsolute
  have hslashes : leadingSlashes path = 0 := by
    unfold leadingSlashes
    have hdouble : Str.startswith path "//" = false := by
      rw [Bool.eq_false_iff]
      intro hstart
      obtain ⟨ys, hys⟩ := List.isPrefixOf_iff_prefix.mp hstart
      exact h.not_double ⟨[], ys, hys⟩
    unfold isAbsolute at habs
    simp [habs, hdouble]
  unfold pathStr
  rw [hkeep, hslashes]
  dsimp only
  rw [Str.intercalate_splitOnChar, List.replicate_zero, List.nil_append, String.ofList_toList]
  have hne : path.toList.isEmpty = false := by
    rw [List.isEmpty_eq_false_iff, ne_eq, String.toList_eq_nil_iff]
    exact h.ne_empty
  rw [hne]
  rfl

/-- The blanks around a path and `./` in front of it do not matter, and what is left must be a
    path from the root. -/
theorem normalizeSingleScopePath_eq_some_iff {raw path : String} :
    normalizeSingleScopePath raw = some path ↔
      path = String.ofList (dropDotSlash (Str.strip raw).toList) ∧ RepoRelative path := by
  unfold normalizeSingleScopePath
  generalize String.ofList (dropDotSlash (Str.strip raw).toList) = left
  dsimp only
  constructor
  · intro h
    split at h
    · cases h
    · split at h
      · cases h
      · next hslash =>
        split at h
        · cases h
        · next hparts =>
          have hrelative : RepoRelative left := by
            simp only [not_or] at hslash
            refine ⟨hslash.1, fun part hpart => ?_⟩
            have hnot : ¬ (part == [] || part == ['.'] || part == ['.', '.']) = true :=
              fun hbad => hparts (List.any_eq_true.mpr ⟨part, hpart, hbad⟩)
            simp only [Bool.or_eq_true, beq_iff_eq, not_or] at hnot
            exact ⟨hnot.1.1, hnot.1.2, hnot.2, Str.not_mem_of_mem_splitOnChar hpart⟩
          rw [pathStr_of_repoRelative hrelative] at h
          split at h
          · obtain rfl := Option.some.inj h
            exact ⟨rfl, hrelative⟩
          · cases h
  · rintro ⟨rfl, h⟩
    have hparts : ¬ ((Str.splitOnChar '/' path.toList).any fun part =>
        part == [] || part == ['.'] || part == ['.', '.']) = true := by
      rw [List.any_eq_true]
      rintro ⟨part, hpart, hbad⟩
      have hproper := h.2 part hpart
      simp [hproper.ne_nil, hproper.ne_dot, hproper.ne_dots] at hbad
    have hdot : path ≠ "." := by
      rintro rfl
      exact (h.2 ['.'] (by decide)).ne_dot rfl
    have habs := h.not_isAbsolute
    unfold isAbsolute at habs
    rw [if_neg (by simp [h.ne_empty, habs]), if_neg (by simp [h.1, h.not_double, h.not_endswith]),
      if_neg hparts, pathStr_of_repoRelative h, if_pos ⟨hdot, h.not_endswith⟩]

theorem mem_normalizeScopeValues {values : List String} {path : String} :
    path ∈ normalizeScopeValues values ↔ ∃ raw ∈ values, normalizeSingleScopePath raw = some path := by
  unfold normalizeScopeValues
  rw [mem_sortBy, List.mem_dedup, List.mem_filterMap]

/-! ## The operands -/

/-- Another live session in the checkout. -/
def Foreign (o : Outside) (root : String) (session : Session) : Prop :=
  sessionCheckoutRoot o session = some root ∧
    ∃ id, truthy session.id = some id ∧ truthy o.currentSessionId ≠ some id

theorem normalizeScopeValues_eq_nil {values : List String} :
    normalizeScopeValues values = [] ↔ ∀ raw ∈ values, normalizeSingleScopePath raw = none := by
  rw [List.eq_nil_iff_forall_not_mem]
  constructor
  · intro h raw hraw
    cases hpath : normalizeSingleScopePath raw with
    | none => rfl
    | some path => exact absurd (mem_normalizeScopeValues.mpr ⟨raw, hraw, hpath⟩) (h path)
  · intro h path hpath
    obtain ⟨raw, hraw, hsome⟩ := mem_normalizeScopeValues.mp hpath
    rw [h raw hraw] at hsome
    cases hsome

variable {project : String} {sessions : List Session}

/-- A session that writes one file of the checkout `/r`. -/
def writer : Session where
  id := some "writer"
  taskId := none
  externalId := none
  currentBranch := none
  workingDir := some "/r"
  checkoutPath := none
  repoRoot := none
  declaredScopePaths := ["src/app.py"]
  observedWritePaths := []
  observedReadPaths := []
  scopePaths := []
  scopeConfidence := none

/-- The checkout `/r` with that session in it, as another session sees it. -/
def sharedCheckout : Outside where
  users := ⟨"/home/me", fun _ => none⟩
  resolvePath := fun path => path
  resolveTarget := some
  repoRoot := fun _ => some "/r"
  projectId := fun _ => some "r"
  isManaged := fun _ => false
  currentSessionId := some "me"
  inventory := fun _ => .ok [writer]
  spirit := fun _ => none
  revertPaths := fun _ _ => .ok []

end SummitFlow.Guard
