import SummitFlow.Python.PathText
import SummitFlow.Services.CommandGuardHelpers

/-!
# Spellings of a deleted directory

Two operands of `rm -r` may name one directory in different ways.  What the code judges is
the text that `normpath` leaves of an operand: its components, but also a leading double
slash, and the globs at its end that were not stripped before.  The verdict is the one on
the directory itself unless one of these hides it.
-/

namespace SummitFlow.Guard

open PosixPath

/-! ## Normalized text -/

/-- The components `normpath` keeps of a path, last first. -/
def comps (path : String) : List (List Char) :=
  (pieces path).foldl (normStep (isAbsolute path)) []

/-- `*` or `.*`. -/
def glob (comp : List Char) : Bool := comp = ['*'] || comp = ['.', '*']

theorem leadingSlashes_bne (path : String) : (leadingSlashes path != 0) = isAbsolute path := by
  cases h : isAbsolute path with
  | true => simpa using leadingSlashes_pos h
  | false =>
    have hdouble : Str.startswith path "//" = false := by
      rw [Bool.eq_false_iff]
      intro hstarts
      have hprefix : Str.startswith path "/" = true := by
        rw [Str.startswith, List.isPrefixOf_iff_prefix] at hstarts ⊢
        exact List.IsPrefix.trans (by decide) hstarts
      rw [isAbsolute] at h
      rw [h] at hprefix
      cases hprefix
    rw [isAbsolute] at h
    simp [leadingSlashes, h, hdouble]

theorem normpath_eq_render (path : String) :
    normpath path = render (leadingSlashes path) (comps path) := by
  unfold normpath render comps pieces
  dsimp only
  rw [leadingSlashes_bne]

theorem normStep_named {rooted : Bool} {st : List (List Char)} (hst : ∀ c ∈ st, Named c)
    {comp : List Char} (hcomp : '/' ∉ comp) : ∀ c ∈ normStep rooted st comp, Named c := by
  unfold normStep
  split
  · exact hst
  · next hkeep =>
    have hnamed : Named comp := ⟨fun h => hkeep (.inl h), hcomp⟩
    have hpushed : ∀ c ∈ comp :: st, Named c := by
      intro c hc
      rcases List.mem_cons.mp hc with rfl | hc
      · exact hnamed
      · exact hst c hc
    split
    · exact hpushed
    · cases st with
      | nil =>
        dsimp only
        split
        · simp
        · simpa using hnamed
      | cons last rest =>
        dsimp only
        split
        · exact hpushed
        · exact fun c hc => hst c (List.mem_cons_of_mem _ hc)

theorem comps_named (path : String) : ∀ c ∈ comps path, Named c := by
  have hfold : ∀ (xs st : List (List Char)), (∀ c ∈ st, Named c) → (∀ c ∈ xs, '/' ∉ c) →
      ∀ c ∈ xs.foldl (normStep (isAbsolute path)) st, Named c := by
    intro xs
    induction xs with
    | nil => exact fun st hst _ => hst
    | cons x xs ih =>
      intro st hst hxs
      exact ih _ (normStep_named hst (hxs x List.mem_cons_self))
        fun c hc => hxs c (List.mem_cons_of_mem _ hc)
  exact hfold _ [] (by simp) fun _ => Str.not_mem_of_mem_splitOnChar

/-! ## Stripping globs -/

theorem normStep_glob {g : List Char} (h : glob g = true) (rooted : Bool) (st : List (List Char)) :
    normStep rooted st g = g :: st := by
  unfold glob at h
  rw [Bool.or_eq_true, decide_eq_true_eq, decide_eq_true_eq] at h
  rcases h with rfl | rfl
  · simp [normStep]
  · simp [normStep]

theorem not_slash_of_glob {g : List Char} (h : glob g = true) : '/' ∉ g := by
  unfold glob at h
  rw [Bool.or_eq_true, decide_eq_true_eq, decide_eq_true_eq] at h
  rcases h with rfl | rfl
  · decide
  · decide

theorem isAbsolute_eq_head (path : String) : isAbsolute path = (path.toList.head? == some '/') := by
  have hslash : "/".toList = ['/'] := rfl
  unfold isAbsolute Str.startswith
  rw [hslash]
  cases path.toList with
  | nil => rfl
  | cons c cs =>
    have hcomm : ('/' == c) = (c == '/') := BEq.comm
    show ('/' == c && true) = (c == '/')
    rw [Bool.and_true, hcomm]

/-- Joining a relative path goes on from what the directory leaves. -/
theorem comps_join_relative (cwd : String) :
    ∃ base, ∀ path, isAbsolute path = false → isAbsolute (join cwd path) = isAbsolute cwd ∧
      comps (join cwd path) = (pieces path).foldl (normStep (isAbsolute cwd)) base := by
  by_cases hcwd : cwd = ""
  · subst hcwd
    refine ⟨[], fun path h => ?_⟩
    have hjoin : join "" path = path := by simp [join, h]
    rw [hjoin, comps, h]
    exact ⟨rfl, rfl⟩
  · have hne : cwd.toList ≠ [] := by simpa using hcwd
    have hhead : ∀ rest path : List Char, path = cwd.toList ++ rest →
        path.head? = cwd.toList.head? := by
      rintro rest path rfl
      exact List.head?_append_of_ne_nil _ hne
    by_cases hends : Str.endswith cwd "/" = true
    · obtain ⟨init, hinit⟩ : ∃ init, cwd.toList = init ++ ['/'] := by
        have hsuffix : ['/'] <:+ cwd.toList := by
          simpa [Str.endswith, List.isSuffixOf_iff_suffix] using hends
        obtain ⟨init, hinit⟩ := hsuffix
        exact ⟨init, hinit.symm⟩
      refine ⟨(Str.splitOnChar '/' init).foldl (normStep (isAbsolute cwd)) [], fun path h => ?_⟩
      have hjoin : (join cwd path).toList = cwd.toList ++ path.toList := by simp [join, h, hends]
      have habs : isAbsolute (join cwd path) = isAbsolute cwd := by
        rw [isAbsolute_eq_head, isAbsolute_eq_head, hhead _ _ hjoin]
      refine ⟨habs, ?_⟩
      rw [comps, habs, pieces, hjoin, hinit, List.append_assoc, List.singleton_append,
        Str.splitOnChar_append, List.foldl_append]
      rfl
    · refine ⟨(pieces cwd).foldl (normStep (isAbsolute cwd)) [], fun path h => ?_⟩
      have hjoin : (join cwd path).toList = cwd.toList ++ '/' :: path.toList := by
        simp [join, h, hends, hcwd]
      have habs : isAbsolute (join cwd path) = isAbsolute cwd := by
        rw [isAbsolute_eq_head, isAbsolute_eq_head, hhead _ _ hjoin]
      refine ⟨habs, ?_⟩
      rw [comps, habs, pieces, hjoin, Str.splitOnChar_append, List.foldl_append]
      rfl

/-- A path that ends in a glob has it as its last component. -/
theorem comps_join_glob (cwd : String) {token : String} {h g : List Char} (hg : glob g = true)
    (htoken : token.toList = h ++ '/' :: g) :
    isAbsolute (join cwd token) = isAbsolute (join cwd (if h = [] then "/" else String.ofList h)) ∧
      comps (join cwd token) =
        g :: comps (join cwd (if h = [] then "/" else String.ofList h)) := by
  have hpiece : Str.splitOnChar '/' g = [g] := Str.splitOnChar_of_not_mem (not_slash_of_glob hg)
  by_cases hnil : h = []
  · subst hnil
    have habs : isAbsolute token = true := isAbsolute_iff.mpr ⟨g, by simpa using htoken⟩
    have hroot : isAbsolute "/" = true := by decide
    rw [if_pos rfl, join_of_isAbsolute habs, join_of_isAbsolute hroot, habs, hroot]
    refine ⟨rfl, ?_⟩
    rw [comps, habs, pieces, htoken, List.nil_append, Str.splitOnChar_cons_self, hpiece]
    show normStep true (normStep true [] []) g = g :: comps "/"
    rw [normStep_glob hg]
    rfl
  · rw [if_neg hnil]
    have habs : isAbsolute token = isAbsolute (String.ofList h) := by
      rw [isAbsolute_eq_head, isAbsolute_eq_head, htoken, String.toList_ofList,
        List.head?_append_of_ne_nil _ hnil]
    have hpieces : pieces token = pieces (String.ofList h) ++ [g] := by
      rw [pieces, htoken, Str.splitOnChar_append, hpiece, pieces, String.toList_ofList]
    cases hhead : isAbsolute (String.ofList h) with
    | true =>
      rw [hhead] at habs
      rw [join_of_isAbsolute habs, join_of_isAbsolute hhead, habs, hhead]
      refine ⟨rfl, ?_⟩
      rw [comps, habs, hpieces, List.foldl_append, List.foldl_cons, List.foldl_nil,
        normStep_glob hg, comps, hhead]
    | false =>
      rw [hhead] at habs
      obtain ⟨base, hbase⟩ := comps_join_relative cwd
      obtain ⟨htokenAbs, htokenComps⟩ := hbase token habs
      obtain ⟨hheadAbs, hheadComps⟩ := hbase _ hhead
      refine ⟨htokenAbs.trans hheadAbs.symm, ?_⟩
      rw [htokenComps, hpieces, List.foldl_append, List.foldl_cons, List.foldl_nil,
        normStep_glob hg, hheadComps]

/-- The globs at the end are all that stripping takes. -/
theorem comps_stripGlobs (cwd : String) (n : Nat) (token : String) :
    isAbsolute (join cwd (stripGlobs n token)) = isAbsolute (join cwd token) ∧
      (comps (join cwd (stripGlobs n token))).dropWhile glob =
        (comps (join cwd token)).dropWhile glob := by
  induction n generalizing token with
  | zero => exact ⟨rfl, rfl⟩
  | succ n ih =>
    unfold stripGlobs
    split
    · next hbare =>
      obtain ⟨base, hbase⟩ := comps_join_relative cwd
      have hdot := hbase "." (by decide)
      have hglob : ∀ token : String, token = "*" ∨ token = ".*" →
          isAbsolute (join cwd token) = isAbsolute cwd ∧
            (comps (join cwd token)).dropWhile glob = base.dropWhile glob := by
        rintro token (rfl | rfl)
        · obtain ⟨habs, hcomps⟩ := hbase "*" (by decide)
          exact ⟨habs, by rw [hcomps]; rfl⟩
        · obtain ⟨habs, hcomps⟩ := hbase ".*" (by decide)
          exact ⟨habs, by rw [hcomps]; rfl⟩
      obtain ⟨habs, hcomps⟩ := hglob token hbare
      rw [habs, hcomps, (ih ".").1, (ih ".").2, hdot.1, hdot.2]
      exact ⟨rfl, rfl⟩
    · split
      · next hends =>
        have hshape : ∃ h g, glob g = true ∧ token.toList = h ++ '/' :: g := by
          rcases hends with hstar | hdot
          · rw [Str.endswith, List.isSuffixOf_iff_suffix] at hstar
            obtain ⟨h, hh⟩ := hstar
            exact ⟨h, ['*'], by decide, hh.symm⟩
          · rw [Str.endswith, List.isSuffixOf_iff_suffix] at hdot
            obtain ⟨h, hh⟩ := hdot
            exact ⟨h, ['.', '*'], by decide, hh.symm⟩
        obtain ⟨h, g, hg, htoken⟩ := hshape
        have hhead : (token.toList.rdropWhile (· != '/')).dropLast = h := by
          rw [htoken, List.rdropWhile, List.reverse_append, List.reverse_cons, List.append_assoc,
            List.dropWhile_append_of_pos]
          · simp
          · intro c hc
            have hne : c ≠ '/' := by
              rintro rfl
              exact not_slash_of_glob hg (List.mem_reverse.mp hc)
            simpa using hne
        have hif : (if String.ofList h = "" then "/" else String.ofList h) =
            if h = [] then "/" else String.ofList h := by
          by_cases hnil : h = []
          · subst hnil
            rfl
          · rw [if_neg hnil, if_neg (by simpa using hnil)]
        obtain ⟨habs, hcomps⟩ := comps_join_glob cwd hg htoken
        dsimp only
        rw [hhead, hif, habs, hcomps, List.dropWhile_cons_of_pos hg]
        exact ih _
      · exact ⟨rfl, rfl⟩

/-- Being under a root is having its pieces first. -/
theorem under_iff {path root : String} (hroot : Str.rstripSlash root = root) :
    under path root = true ↔ pieces root <+: pieces path := by
  unfold under
  rw [Bool.or_eq_true, beq_iff_eq, hroot, Str.startswith, List.isPrefixOf_iff_prefix]
  have hslash : (root ++ "/").toList = root.toList ++ ['/'] := by simp
  rw [hslash]
  constructor
  · rintro (rfl | ⟨rest, hrest⟩)
    · exact List.prefix_refl _
    · refine ⟨Str.splitOnChar '/' rest, ?_⟩
      rw [pieces, pieces, ← hrest, List.append_assoc, List.singleton_append,
        Str.splitOnChar_append]
  · rintro ⟨rest, hrest⟩
    have htext : path.toList = ['/'].intercalate (pieces root ++ rest) := by
      rw [hrest, pieces, Str.intercalate_splitOnChar]
    have hpieces : ['/'].intercalate (pieces root) = root.toList := Str.intercalate_splitOnChar _ _
    by_cases hnil : rest = []
    · left
      rw [hnil, List.append_nil, hpieces] at htext
      exact String.toList_inj.mp htext
    · right
      have hne : pieces root ≠ [] := Str.splitOnChar_ne_nil _ _
      rw [Str.intercalate_append hne hnil, hpieces] at htext
      refine ⟨['/'].intercalate rest, ?_⟩
      rw [htext, List.append_assoc, List.singleton_append]

/-! ## Directories -/

/-- The directories whose children are protected. -/
def parents : List String := ["/home", "/srv", "/srv/workspaces/projects"]

/-- Mounted storage and guests. -/
def dataRoots : List String := mountedStorageRoots ++ proxmoxDataRoots

/-- The directory with these components, last first, as a path with one leading slash at
    most. -/
def directory (rooted : Bool) (kept : List (List Char)) : String := render rooted.toNat kept

/-- With `n` more components below it, the directory would still be protected as a whole. -/
def sheltered (rooted : Bool) (kept : List (List Char)) (n : Nat) : Bool :=
  decide (rooted.toNat + (n + kept.length - 1) ≤ 1) ||
    decide (n = 1) && parents.contains (directory rooted kept) ||
    dataRoots.any (under (directory rooted kept))

section

variable (host : Host)

/-- The home directory is named by a path that starts with a single slash, if any, and does
    not end in a glob. -/
def OrdinaryHome : Prop :=
  Str.startswith (normpath (expanduser host.users "~")) "//" = false ∧
    ∀ c, (pieces (normpath (expanduser host.users "~"))).getLast? = some c → glob c = false

variable {host}

/-- Roots are written plainly. -/
theorem root_pieces {root : String} (h : root ∈ dataRoots) :
    Str.rstripSlash root = root ∧ ∃ c rest, pieces root = [] :: c :: rest ∧ c ≠ [] ∧
      ∀ x ∈ c :: rest, glob x = false := by
  have hroots : dataRoots = ["/mnt", "/media", "/var/lib/vz", "/etc/pve"] := rfl
  rw [hroots] at h
  simp only [List.mem_cons, List.not_mem_nil, or_false] at h
  rcases h with rfl | rfl | rfl | rfl
  · exact ⟨by decide, "mnt".toList, [], by decide, by decide, by decide⟩
  · exact ⟨by decide, "media".toList, [], by decide, by decide, by decide⟩
  · exact ⟨by decide, "var".toList, ["lib".toList, "vz".toList], by decide, by decide, by decide⟩
  · exact ⟨by decide, "etc".toList, ["pve".toList], by decide, by decide, by decide⟩

/-- Parents are written plainly. -/
theorem parent_pieces {parent : String} (h : parent ∈ parents) :
    (∃ c rest, pieces parent = [] :: c :: rest ∧ c ≠ []) ∧
      ∀ c, (pieces parent).getLast? = some c → glob c = false := by
  unfold parents at h
  simp only [List.mem_cons, List.not_mem_nil, or_false] at h
  rcases h with rfl | rfl | rfl
  · exact ⟨⟨"home".toList, [], by decide, by decide⟩, by decide⟩
  · exact ⟨⟨"srv".toList, [], by decide, by decide⟩, by decide⟩
  · exact ⟨⟨"srv".toList, ["workspaces".toList, "projects".toList], by decide, by decide⟩,
      by decide⟩

theorem protectedDeletionRoot_iff {target : String} :
    protectedDeletionRoot host target = true ↔ target.toList.count '/' ≤ 1 ∨
      target = normpath (expanduser host.users "~") ∨ dirname target ∈ parents ∨
      target = "/srv/workspaces/projects" ∨ ∃ root ∈ dataRoots, under target root = true := by
  unfold protectedDeletionRoot
  rw [Bool.or_eq_true, Bool.or_eq_true, Bool.or_eq_true, Bool.or_eq_true, decide_eq_true_eq,
    beq_iff_eq, beq_iff_eq, List.contains_iff_mem, List.any_eq_true, or_assoc, or_assoc, or_assoc]
  rfl

/-- A path that starts with two slashes is never protected. -/
theorem not_protected_of_double {target : String} (hhome : OrdinaryHome host)
    {rest : List (List Char)} (hpieces : pieces target = [] :: [] :: rest)
    (hcount : 1 < target.toList.count '/') (hparent : ∃ rest', pieces (dirname target) = [] :: [] :: rest') :
    protectedDeletionRoot host target = false := by
  have htext : target.toList = '/' :: '/' :: ['/'].intercalate rest ∨
      target.toList = ['/'] := by
    have hjoin : ['/'].intercalate (pieces target) = target.toList := Str.intercalate_splitOnChar _ _
    rw [hpieces] at hjoin
    cases rest with
    | nil => exact .inr hjoin.symm
    | cons c rest =>
      left
      rw [← hjoin, List.intercalate_cons_cons, List.intercalate_cons_cons]
      rfl
  rw [Bool.eq_false_iff]
  intro hprotected
  rcases protectedDeletionRoot_iff.mp hprotected with hle | hhomeEq | hdir | hprojects | ⟨root, hroot, hunder⟩
  · omega
  · have hstarts : Str.startswith target "//" = true := by
      rcases htext with htext | htext
      · rw [Str.startswith, htext]
        rfl
      · rw [htext] at hcount
        exact absurd hcount (by decide)
    rw [hhomeEq, hhome.1] at hstarts
    cases hstarts
  · obtain ⟨⟨c, rest', hparts, hc⟩, -⟩ := parent_pieces hdir
    obtain ⟨rest'', hdouble⟩ := hparent
    rw [hdouble] at hparts
    exact hc (List.cons.inj (List.cons.inj hparts).2).1.symm
  · have hparts : pieces target = [] :: "srv".toList :: ["workspaces".toList, "projects".toList] := by
      rw [hprojects]
      decide
    rw [hpieces] at hparts
    exact absurd (List.cons.inj (List.cons.inj hparts).2).1 (by decide)
  · obtain ⟨hplain, c, rest', hparts, hc, -⟩ := root_pieces hroot
    rw [under_iff hplain, hparts, hpieces] at hunder
    obtain ⟨-, hprefix⟩ := List.cons_prefix_cons.mp hunder
    exact hc (List.cons_prefix_cons.mp hprefix).1

theorem not_protected_render_two (hhome : OrdinaryHome host) {kept : List (List Char)}
    (hnamed : ∀ c ∈ kept, Named c) : protectedDeletionRoot host (render 2 kept) = false := by
  have hcount := count_render 2 hnamed
  cases hkept : kept with
  | nil =>
    have hpieces : pieces (render 2 []) = [] :: [] :: [[]] := by decide
    exact not_protected_of_double hhome hpieces (by decide) ⟨[[]], by decide⟩
  | cons c rest =>
    rw [hkept] at hnamed hcount
    refine not_protected_of_double hhome (pieces_render 2 (List.cons_ne_nil _ _) hnamed) (by omega) ?_
    by_cases hrest : rest = []
    · subst hrest
      rw [dirname_render_singleton 2 (hnamed c List.mem_cons_self)]
      exact ⟨[[]], by decide⟩
    · rw [dirname_render 2 hrest hnamed,
        pieces_render 2 hrest fun x hx => hnamed x (List.mem_cons_of_mem _ hx)]
      exact ⟨_, rfl⟩

/-- Globs below a directory do not bring it under a root, nor out of it. -/
theorem under_globs {rooted : Bool} {kept globs : List (List Char)} {root : String}
    (hroot : root ∈ dataRoots) (hglobs : ∀ g ∈ globs, glob g = true) (hne : globs ≠ [])
    (hnamed : ∀ c ∈ globs ++ kept, Named c) :
    under (render rooted.toNat (globs ++ kept)) root = true ↔
      under (directory rooted kept) root = true := by
  obtain ⟨hplain, c, rest, hparts, hc, hnoglob⟩ := root_pieces hroot
  have hkept : ∀ x ∈ kept, Named x := fun x hx => hnamed x (List.mem_append_right _ hx)
  have hstops : ∀ front : List (List Char), [] :: c :: rest <+: front ++ globs.reverse ↔
      [] :: c :: rest <+: front := by
    intro front
    refine ⟨?_, fun h => h.trans (List.prefix_append _ _)⟩
    intro hprefix
    by_contra hnot
    -- the prefix reaches a glob, and no root has one
    obtain ⟨tail, htail⟩ := hprefix
    rcases List.append_eq_append_iff.mp htail with ⟨more, hfront, -⟩ | ⟨more, hroots, hglobs'⟩
    · exact hnot ⟨more, hfront.symm⟩
    · cases more with
      | nil =>
        rw [List.append_nil] at hroots
        exact hnot (hroots ▸ List.prefix_refl _)
      | cons g more =>
        have hg : glob g = true := by
          apply hglobs
          rw [← List.mem_reverse, hglobs']
          exact List.mem_cons_self
        have hmem : g ∈ [] :: c :: rest := hroots ▸ by simp
        rcases List.mem_cons.mp hmem with rfl | hmem
        · exact absurd hg (by decide)
        · rw [hnoglob g hmem] at hg
          cases hg
  have hne' : globs ++ kept ≠ [] := by simp [hne]
  rw [directory, under_iff hplain, under_iff hplain, hparts, pieces_render _ hne' hnamed,
    List.reverse_append, ← List.append_assoc, hstops]
  by_cases hnil : kept = []
  · subst hnil
    cases rooted with
    | true =>
      have hslash : pieces (render true.toNat []) = [[], []] := by decide
      rw [hslash]
      simp [hc]
    | false =>
      have hdot : pieces (render false.toNat []) = [['.']] := by decide
      rw [hdot]
      simp
  · rw [pieces_render _ hnil hkept]

/-- A path that ends in globs is protected only where its directory shelters it. -/
theorem protected_globs (hhome : OrdinaryHome host) {rooted : Bool} {kept globs : List (List Char)}
    (hglobs : ∀ g ∈ globs, glob g = true) (hne : globs ≠ [])
    (hnamed : ∀ c ∈ globs ++ kept, Named c) :
    protectedDeletionRoot host (render rooted.toNat (globs ++ kept)) =
      sheltered rooted kept globs.length := by
  obtain ⟨g, globs', rfl⟩ := List.exists_cons_of_ne_nil hne
  have hg : glob g = true := hglobs g List.mem_cons_self
  have hlast : ∀ {text : String}, (∀ c, (pieces text).getLast? = some c → glob c = false) →
      render rooted.toNat (g :: globs' ++ kept) ≠ text := by
    rintro text hplain rfl
    rw [hplain g (getLast?_pieces_render _ hnamed)] at hg
    cases hg
  have hparents : dirname (render rooted.toNat (g :: globs' ++ kept)) ∈ parents ↔
      globs' = [] ∧ directory rooted kept ∈ parents := by
    by_cases hone : globs' = []
    · subst hone
      rw [and_iff_right rfl]
      by_cases hnil : kept = []
      · subst hnil
        have hdir : dirname (render rooted.toNat ([g] ++ [])) =
            String.ofList (List.replicate rooted.toNat '/') :=
          dirname_render_singleton _ (hnamed g List.mem_cons_self)
        rw [hdir]
        cases rooted with
        | true => decide
        | false => decide
      · rw [List.singleton_append, dirname_render _ hnil hnamed, directory]
    · have hdir : dirname (render rooted.toNat (g :: globs' ++ kept)) =
          render rooted.toNat (globs' ++ kept) := dirname_render _ (by simp [hone]) hnamed
      rw [hdir]
      constructor
      · intro hmem
        obtain ⟨g', globs'', rfl⟩ := List.exists_cons_of_ne_nil hone
        have hg' : glob g' = true := hglobs g' (by simp)
        have hnamed' : ∀ c ∈ g' :: globs'' ++ kept, Named c :=
          fun c hc => hnamed c (List.mem_cons_of_mem _ hc)
        rw [(parent_pieces hmem).2 g' (getLast?_pieces_render _ hnamed')] at hg'
        cases hg'
      · exact fun h => absurd h.1 hone
  rw [Bool.eq_iff_iff, protectedDeletionRoot_iff, sheltered, Bool.or_eq_true, Bool.or_eq_true,
    Bool.and_eq_true, decide_eq_true_eq, decide_eq_true_eq, List.contains_iff_mem, List.any_eq_true,
    hparents, count_render _ hnamed]
  have hunder : (∃ root ∈ dataRoots, under (render rooted.toNat (g :: globs' ++ kept)) root = true) ↔
      ∃ root ∈ dataRoots, under (directory rooted kept) root = true := by
    constructor
    · rintro ⟨root, hroot, h⟩
      exact ⟨root, hroot, (under_globs hroot hglobs hne hnamed).mp h⟩
    · rintro ⟨root, hroot, h⟩
      exact ⟨root, hroot, (under_globs hroot hglobs hne hnamed).mpr h⟩
  have hone : globs' = [] ↔ (g :: globs').length = 1 := by simp
  rw [hunder, hone, List.length_append]
  constructor
  · rintro (hle | hhomeEq | hdir | hprojects | hroots)
    · exact .inl (.inl hle)
    · exact absurd hhomeEq (hlast hhome.2)
    · exact .inl (.inr hdir)
    · exact absurd hprojects (hlast (by decide))
    · exact .inr hroots
  · rintro ((hle | hdir) | hroots)
    · exact .inl hle
    · exact .inr (.inr (.inl hdir))
    · exact .inr (.inr (.inr (.inr hroots)))

/-- What shelters a path below it is protected itself. -/
theorem protected_of_sheltered {rooted : Bool} {kept : List (List Char)} {n : Nat}
    (hnamed : ∀ c ∈ kept, Named c) (h : sheltered rooted kept n = true) :
    protectedDeletionRoot host (directory rooted kept) = true := by
  rw [sheltered, Bool.or_eq_true, Bool.or_eq_true, Bool.and_eq_true, decide_eq_true_eq,
    decide_eq_true_eq, List.contains_iff_mem, List.any_eq_true] at h
  apply protectedDeletionRoot_iff.mpr
  rcases h with (hle | ⟨-, hparent⟩) | hroots
  · left
    rw [directory, count_render _ hnamed]
    omega
  · have hcases : directory rooted kept = "/home" ∨ directory rooted kept = "/srv" ∨
        directory rooted kept = "/srv/workspaces/projects" := by simpa [parents] using hparent
    rcases hcases with heq | heq | heq
    · rw [heq]
      exact .inl (by decide)
    · rw [heq]
      exact .inl (by decide)
    · exact .inr (.inr (.inr (.inl heq)))
  · exact .inr (.inr (.inr (.inr hroots)))

end

/-! ## Operands -/

section

variable (host : Host)

/-- `rm -r` of the operand is blocked. -/
def blocksRm (cwd p : String) : Bool :=
  (irreversibleRmDecision host ["rm", "-r", p] cwd).any (·.blocked)

/-- An operand without shell variables, as it is written and where `~` stands for a home. -/
structure Operand (p : String) : Prop where
  not_option : p = "-" ∨ Str.startswith p "-" = false
  no_variable : unresolved p = false
  no_variable_home : unresolved (expanduser host.users p) = false

/-- The directory that deleting the operand destroys: whether it is absolute, and its
    components, last first. -/
def resolution (cwd p : String) : Bool × List (List Char) :=
  let path := join cwd (expanduser host.users p)
  (isAbsolute path, (comps path).dropWhile glob)

/-- The path as it is written, but for the globs that are its last characters. -/
def writtenPath (cwd p : String) : String :=
  let token := expanduser host.users p
  join cwd (stripGlobs token.length token)

/-- How many globs the path still ends in once it is normalized. -/
def globsLeft (cwd p : String) : Nat := ((comps (writtenPath host cwd p)).takeWhile glob).length

/-- The spelling hides a protected directory: it starts with exactly two slashes, or it ends
    in globs below which the directory is not protected. -/
def Hidden (cwd p : String) : Prop :=
  leadingSlashes (writtenPath host cwd p) = 2 ∨
    globsLeft host cwd p ≠ 0 ∧
      sheltered (resolution host cwd p).1 (resolution host cwd p).2 (globsLeft host cwd p) = false

variable {host}

theorem render_ne_empty (slashes : Nat) (kept : List (List Char)) : render slashes kept ≠ "" := by
  unfold render
  dsimp only
  split
  · decide
  · next hne =>
    intro h
    apply hne
    have htext := congrArg String.toList h
    rw [String.toList_ofList] at htext
    rw [htext]
    rfl

/-- The variable is not in the operand. -/
theorem expandHomeVariable_eq {p : String} (h : unresolved p = false) :
    expandHomeVariable host p = p := by
  have hnone : ∀ var : String, var.toList.head? = some '$' → ¬ (p = var ∨ Str.startswith p (var ++ "/")) := by
    intro var hvar hcase
    have hmem : '$' ∈ p.toList := by
      obtain ⟨rest, hrest⟩ := List.head?_eq_some_iff.mp hvar
      rcases hcase with rfl | hstarts
      · rw [hrest]
        exact List.mem_cons_self
      · rw [Str.startswith, List.isPrefixOf_iff_prefix] at hstarts
        apply hstarts.subset
        rw [String.toList_append, hrest]
        exact List.mem_cons_self
    rw [unresolved, List.any_eq_false] at h
    exact h '$' hmem (by decide)
  unfold expandHomeVariable
  dsimp only
  rw [List.foldl_cons, if_neg (hnone _ (by decide)), List.foldl_cons, if_neg (hnone _ (by decide))]
  rfl

/-- The verdict on an operand is the one on its normalized text. -/
theorem blocksRm_eq {cwd p : String} (hp : Operand host p) :
    blocksRm host cwd p = protectedDeletionRoot host (normpath (writtenPath host cwd p)) := by
  have hrm : ¬ pathName "rm" ≠ "rm" := by decide
  have hoperands : rmOperands ["-r", p] = (true, [p]) := by
    have hp' : rmOperands [p] = (false, [p]) := by
      unfold rmOperands
      rcases hp.not_option with rfl | hplain
      · decide
      · have hdash : p ≠ "--" := by
          rintro rfl
          exact absurd hplain (by decide)
        have hdouble : Str.startswith p "--" = false := by
          rw [Bool.eq_false_iff]
          intro hstarts
          have hsingle : Str.startswith p "-" = true := by
            rw [Str.startswith, List.isPrefixOf_iff_prefix] at hstarts ⊢
            exact List.IsPrefix.trans (by decide) hstarts
          rw [hplain] at hsingle
          cases hsingle
        simp [hdash, hdouble, hplain, rmOperands]
    have hlong : Str.startswith "-r" "--" = false := by decide
    have hshort : Str.startswith "-r" "-" = true ∧ "-r" ≠ "-" := by decide
    have hrecursive : ("-r".toList.drop 1).any (fun c => c == 'r' || c == 'R') = true := by decide
    unfold rmOperands
    rw [if_neg (by decide), hp']
    dsimp only
    rw [hlong, if_neg (by decide), if_pos hshort, hrecursive, Bool.false_or]
  have htarget : deletionTarget host p cwd = some (normpath (writtenPath host cwd p)) := by
    unfold deletionTarget
    dsimp only
    rw [expandHomeVariable_eq hp.no_variable, hp.no_variable_home, if_neg (by decide), writtenPath]
  have hne : normpath (writtenPath host cwd p) ≠ "" := by
    rw [normpath_eq_render]
    exact render_ne_empty _ _
  unfold blocksRm irreversibleRmDecision
  dsimp only
  rw [if_neg hrm, hoperands]
  dsimp only
  rw [if_neg (by decide), List.findSome?_singleton, htarget, Option.bind_some]
  cases hprotected : protectedDeletionRoot host (normpath (writtenPath host cwd p)) with
  | true =>
    rw [if_pos ⟨hne, rfl⟩]
    rfl
  | false =>
    rw [if_neg (fun h => absurd h.2 (by decide))]
    rfl

theorem leadingSlashes_of_ne_two {path : String} (h : leadingSlashes path ≠ 2) :
    leadingSlashes path = (isAbsolute path).toNat := by
  unfold leadingSlashes at h ⊢
  split
  · next hdouble => exact absurd (if_pos hdouble) h
  · rw [isAbsolute]
    cases Str.startswith path "/" with
    | true => rfl
    | false => rfl

/-- The verdict is the one on the directory, unless the spelling hides it. -/
theorem blocksRm_iff (hhome : OrdinaryHome host) {cwd p : String} (hp : Operand host p) :
    blocksRm host cwd p = true ↔
      protectedDeletionRoot host
        (directory (resolution host cwd p).1 (resolution host cwd p).2) = true ∧
      ¬ Hidden host cwd p := by
  rw [blocksRm_eq hp, normpath_eq_render]
  have hnamed := comps_named (writtenPath host cwd p)
  by_cases hdouble : leadingSlashes (writtenPath host cwd p) = 2
  · rw [hdouble, not_protected_render_two hhome hnamed]
    refine ⟨fun h => absurd h (by decide), fun h => absurd (.inl hdouble) h.2⟩
  · obtain ⟨habs, hkept⟩ := comps_stripGlobs cwd (expanduser host.users p).length
      (expanduser host.users p)
    have hrooted : isAbsolute (writtenPath host cwd p) = (resolution host cwd p).1 := habs
    have hdirectory : (comps (writtenPath host cwd p)).dropWhile glob = (resolution host cwd p).2 :=
      hkept
    have hsplit : comps (writtenPath host cwd p) =
        (comps (writtenPath host cwd p)).takeWhile glob ++ (resolution host cwd p).2 := by
      rw [← hdirectory, List.takeWhile_append_dropWhile]
    rw [leadingSlashes_of_ne_two hdouble, hrooted, Hidden, or_iff_right hdouble]
    by_cases hplain : (comps (writtenPath host cwd p)).takeWhile glob = []
    · have hzero : globsLeft host cwd p = 0 := by rw [globsLeft, hplain, List.length_nil]
      rw [hsplit, hplain, List.nil_append, directory]
      exact (and_iff_left fun h => h.1 hzero).symm
    · have hleft : globsLeft host cwd p ≠ 0 := by
        rw [globsLeft]
        simpa using hplain
      have hglobs : ∀ g ∈ (comps (writtenPath host cwd p)).takeWhile glob, glob g = true :=
        fun g hg => List.mem_takeWhile_imp hg
      rw [hsplit] at hnamed
      rw [hsplit, protected_globs hhome hglobs hplain hnamed, and_iff_right hleft]
      change sheltered _ _ (globsLeft host cwd p) = true ↔ _
      have hkeptNamed : ∀ c ∈ (resolution host cwd p).2, Named c :=
        fun c hc => hnamed c (List.mem_append_right _ hc)
      rw [Bool.not_eq_false]
      exact ⟨fun h => ⟨protected_of_sheltered hkeptNamed h, h⟩, fun h => h.2⟩

/-- Two spellings of one directory get the same verdict exactly when the directory is not
    protected, or both of them hide it, or neither does. -/
theorem rm_verdict_of_spelling (hhome : OrdinaryHome host) {cwd p q : String}
    (hp : Operand host p) (hq : Operand host q)
    (hsame : resolution host cwd p = resolution host cwd q) :
    (blocksRm host cwd p = true ↔ blocksRm host cwd q = true) ↔
      protectedDeletionRoot host
        (directory (resolution host cwd p).1 (resolution host cwd p).2) = false ∨
      (Hidden host cwd p ↔ Hidden host cwd q) := by
  rw [blocksRm_iff hhome hp, blocksRm_iff hhome hq, ← hsame]
  cases protectedDeletionRoot host
      (directory (resolution host cwd p).1 (resolution host cwd p).2) with
  | false => simp only [Bool.false_eq_true, false_and, true_or]
  | true => simp only [true_and, Bool.true_eq_false, false_or, not_iff_not]

/-- A host with one user. -/
def userHost : Host where
  users := { home := "/home/u", homeOf := fun _ => none }
  getcwd := "/home/u"
  unicodeWord := fun _ => false

theorem ordinaryHome_userHost : OrdinaryHome userHost := by
  refine ⟨by decide, ?_⟩
  intro c hc
  have hlast : (pieces (normpath (expanduser userHost.users "~"))).getLast? = some ['u'] := by decide
  rw [hlast] at hc
  obtain rfl := Option.some.inj hc
  decide

theorem rm_verdict_of_spelling_projects :
    blocksRm userHost "/home/u" "/srv/workspaces/./projects/app/x/.." = true ↔
      blocksRm userHost "/home/u" "///srv/workspaces//projects/app/*" = true := by
  apply (rm_verdict_of_spelling ordinaryHome_userHost ⟨.inr (by decide), by decide, by decide⟩
    ⟨.inr (by decide), by decide, by decide⟩ (by decide)).mpr
  right
  constructor
  · rintro (hdouble | ⟨hglobs, -⟩)
    · exact absurd hdouble (by decide)
    · exact absurd hglobs (by decide)
  · rintro (hdouble | ⟨hglobs, -⟩)
    · exact absurd hdouble (by decide)
    · exact absurd hglobs (by decide)

/-- `rm -r //etc` goes through where `rm -r /etc` is blocked. -/
theorem rm_double_slash_not_blocked :
    ∃ (host : Host) (cwd p q : String), OrdinaryHome host ∧ Operand host p ∧ Operand host q ∧
      resolution host cwd p = resolution host cwd q ∧
      ¬ (blocksRm host cwd p = true ↔ blocksRm host cwd q = true) := by
  refine ⟨userHost, "/home/u", "//etc", "/etc", ordinaryHome_userHost,
    ⟨.inr (by decide), by decide, by decide⟩, ⟨.inr (by decide), by decide, by decide⟩, by decide, ?_⟩
  have hdouble : blocksRm userHost "/home/u" "//etc" = false := by decide +kernel
  have hsingle : blocksRm userHost "/home/u" "/etc" = true := by decide +kernel
  rw [hdouble, hsingle]
  decide

end

end SummitFlow.Guard
