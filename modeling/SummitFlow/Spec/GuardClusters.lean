import SummitFlow.Spec.GitParsers
import SummitFlow.Spec.GuardDiscards

/-!
# Clustered short options

`-a -b -c` and `-abc` are the same options to `getopt`.  Most rules of the guard read the
letters of every cluster, so they do not tell the two apart.  The rule for a forced push looks
for the token `-f`, and the one for `sgdisk` at the first letter of a token: there a cluster
can hide an option that the guard sees when it stands alone.
-/

namespace SummitFlow.Guard

open PosixPath (pathName)

/-- A short option by itself. -/
def shortOption (c : Char) : String := String.ofList ['-', c]

/-- Short options in one token. -/
def cluster (letters : List Char) : String := String.ofList ('-' :: letters)

/-! ## Short tokens -/

/-- A token with letters after one dash. -/
structure Short (t : String) (letters : List Char) : Prop where
  chars : t.toList = '-' :: letters
  nonempty : letters ≠ []
  plain : '-' ∉ letters ∧ '=' ∉ letters

theorem short_shortOption {c : Char} (hdash : c ≠ '-') (hequals : c ≠ '=') :
    Short (shortOption c) [c] where
  chars := String.toList_ofList
  nonempty := List.cons_ne_nil _ _
  plain := by simp [hdash.symm, hequals.symm]

theorem short_cluster {letters : List Char} (hne : letters ≠ []) (hdash : '-' ∉ letters)
    (hequals : '=' ∉ letters) : Short (cluster letters) letters :=
  ⟨String.toList_ofList, hne, hdash, hequals⟩

section

variable {t : String} {letters : List Char} (h : Short t letters)

include h

theorem Short.dashed : Dashed t := by
  unfold Dashed Str.startswith
  rw [h.chars]
  simp

theorem Short.not_long {flag : String} (hflag : Str.startswith flag "--" = true) :
    ¬ Str.startswith t flag = true := by
  intro hlong
  unfold Str.startswith at hflag hlong
  rw [List.isPrefixOf_iff_prefix] at hflag hlong
  have hdashes := hflag.trans hlong
  rw [h.chars] at hdashes
  obtain ⟨rest, hrest⟩ := hdashes
  exact h.plain.1 ((List.cons.inj hrest).2 ▸ List.mem_cons_self)

theorem Short.ne_dashes : t ≠ "--" := by
  rintro rfl
  have hlong : ¬ Str.startswith "--" "--" = true := h.not_long (by decide)
  exact hlong (by decide)

/-- It is neither a long flag nor one with a value. -/
theorem Short.not_flag {flags : List String} (hflags : ∀ flag ∈ flags, Str.startswith flag "--" = true) :
    (flags.contains t || flags.any fun flag => Str.startswith t (flag ++ "=")) = false := by
  rw [Bool.or_eq_false_iff, ← Bool.not_eq_true, ← Bool.not_eq_true]
  constructor
  · intro hmem
    have hself : Str.startswith t t = true := by
      unfold Str.startswith
      rw [List.isPrefixOf_iff_prefix]
    exact h.not_long (hflags t (List.contains_iff_mem.mp hmem)) hself
  · intro hvalue
    obtain ⟨flag, hflag, hstart⟩ := List.any_eq_true.mp hvalue
    refine h.not_long ?_ hstart
    have hlong := hflags flag hflag
    unfold Str.startswith at hlong ⊢
    rw [List.isPrefixOf_iff_prefix] at hlong ⊢
    rw [String.toList_append]
    exact hlong.trans (List.prefix_append _ _)

theorem Short.beforeEquals : Str.beforeEquals t = t := by
  unfold Str.beforeEquals
  rw [List.takeWhile_eq_self_iff.mpr]
  · exact String.ofList_toList
  · intro c hc
    rw [h.chars] at hc
    rcases List.mem_cons.mp hc with rfl | hc
    · decide
    · exact bne_iff_ne.mpr fun heq => h.plain.2 (heq ▸ hc)

end

/-! ## A run of short options -/

/-- Short options one after the other in an argument vector: the command, with the global
    options and the subcommand of `git`; the arguments before and after the run. -/
structure ShortRun where
  front : List String
  options : List String
  letters : List Char
  after : List String

namespace ShortRun

variable (run : ShortRun)

def separateArgs : List String := run.options ++ (run.letters.map shortOption ++ run.after)

def clusteredArgs : List String := run.options ++ cluster run.letters :: run.after

/-- The argument vector with the options one by one. -/
def separate : List String := run.front ++ run.separateArgs

/-- The argument vector with the options in one token. -/
def clustered : List String := run.front ++ run.clusteredArgs

/-- The options stand before `--`, and none of them takes a value. -/
structure Plain (valueOptions : List String) : Prop where
  nonempty : run.letters ≠ []
  letters : '-' ∉ run.letters ∧ '=' ∉ run.letters
  options : "--" ∉ run.options
  valueless : ∀ c ∈ run.letters, shortOption c ∉ valueOptions

variable {run} {valueOptions : List String} (h : run.Plain valueOptions)

include h

theorem Plain.short {c : Char} (hc : c ∈ run.letters) : Short (shortOption c) [c] :=
  short_shortOption (fun heq => h.letters.1 (heq ▸ hc)) fun heq => h.letters.2 (heq ▸ hc)

theorem Plain.cluster : Short (cluster run.letters) run.letters :=
  short_cluster h.nonempty h.letters.1 h.letters.2

/-- What no short option matters to is the same for both. -/
theorem Plain.any_eq {p : String → Bool} (hp : ∀ t letters, Short t letters → p t = false) :
    run.separateArgs.any p = (run.options ++ run.after).any p ∧
      run.clusteredArgs.any p = (run.options ++ run.after).any p := by
  have hletters : (run.letters.map shortOption).any p = false := by
    rw [List.any_eq_false]
    intro t ht
    obtain ⟨c, hc, rfl⟩ := List.mem_map.mp ht
    rw [hp _ _ (h.short hc)]
    exact Bool.false_ne_true
  unfold separateArgs clusteredArgs
  rw [List.any_append, List.any_append, List.any_append, List.any_append, hletters, List.any_cons,
    hp _ _ h.cluster, Bool.false_or]
  exact ⟨rfl, rfl⟩

theorem Plain.gitHasFlag_eq {flags : List String}
    (hflags : ∀ flag ∈ flags, Str.startswith flag "--" = true) :
    gitHasFlag run.clusteredArgs flags = gitHasFlag run.separateArgs flags := by
  obtain ⟨hseparate, hclustered⟩ := h.any_eq fun t _ ht => ht.not_flag hflags
  exact hclustered.trans hseparate.symm

theorem Plain.deviceOperands_eq :
    deviceOperands run.clusteredArgs = deviceOperands run.separateArgs := by
  have hdashed : ∀ t letters, Short t letters → (!Str.startswith t "-" && realDevice t) = false := by
    intro t letters ht
    rw [show Str.startswith t "-" = true from ht.dashed]
    rfl
  obtain ⟨hseparate, hclustered⟩ := h.any_eq hdashed
  exact hclustered.trans hseparate.symm

/-- The letters are read one by one. -/
theorem Plain.shortFlags_eq : shortFlags run.clusteredArgs = shortFlags run.separateArgs := by
  have hoptions : ∀ rest, (run.options ++ rest).takeWhile (· != "--") =
      run.options ++ rest.takeWhile (· != "--") := by
    intro rest
    apply List.takeWhile_append_of_pos
    intro t ht
    exact bne_iff_ne.mpr fun heq => h.options (heq ▸ ht)
  have hletters : (run.letters.map shortOption ++ run.after).takeWhile (· != "--") =
      run.letters.map shortOption ++ run.after.takeWhile (· != "--") := by
    apply List.takeWhile_append_of_pos
    intro t ht
    obtain ⟨c, hc, rfl⟩ := List.mem_map.mp ht
    exact bne_iff_ne.mpr (h.short hc).ne_dashes
  have hread : ∀ {t letters}, Short t letters →
      (if Str.startswith t "-" && !Str.startswith t "--" then t.toList.drop 1 else []) = letters := by
    intro t letters ht
    have hlong : Str.startswith t "--" = false := Bool.eq_false_iff.mpr (ht.not_long (by decide))
    rw [show Str.startswith t "-" = true from ht.dashed, hlong, if_pos (by decide), ht.chars,
      List.drop_one, List.tail_cons]
  have hsingle : (run.letters.map shortOption).flatMap (fun arg =>
      if Str.startswith arg "-" && !Str.startswith arg "--" then arg.toList.drop 1 else []) =
      run.letters := by
    rw [List.flatMap_map]
    calc run.letters.flatMap _ = run.letters.flatMap fun c => [c] :=
          List.flatMap_congr fun c hc => hread (h.short hc)
      _ = run.letters := by rw [List.flatMap_singleton']
  have hcluster : (run.options ++ Guard.cluster run.letters :: run.after).takeWhile (· != "--") =
      run.options ++ Guard.cluster run.letters :: run.after.takeWhile (· != "--") := by
    rw [hoptions, List.takeWhile_cons, if_pos (bne_iff_ne.mpr h.cluster.ne_dashes)]
  unfold shortFlags clusteredArgs separateArgs
  rw [hcluster, hoptions, hletters, List.flatMap_append, List.flatMap_append, List.flatMap_append, List.flatMap_cons, hsingle,
    hread h.cluster]

/-- A table of long options and single letters does not have the cluster. -/
theorem Plain.cluster_not_mem
    (htable : ∀ v ∈ valueOptions, v.toList.length = 2 ∨ Str.startswith v "--" = true) :
    Guard.cluster run.letters ∉ valueOptions := by
  intro hmem
  rcases htable _ hmem with htwo | hlong
  · rw [h.cluster.chars, List.length_cons] at htwo
    obtain ⟨c, hc⟩ := List.length_eq_one_iff.mp (show run.letters.length = 1 by omega)
    have hsingle : Guard.cluster run.letters = shortOption c := by
      rw [hc]
      rfl
    refine h.valueless c ?_ (hsingle ▸ hmem)
    rw [hc]
    exact List.mem_singleton_self c
  · exact h.cluster.not_long (by decide) hlong

omit h in
/-- An option without a value is passed over. -/
theorem positionals_of_dashed {t : String} (hdash : Dashed t) (hvalue : t ∉ valueOptions)
    (rest : List String) : positionals valueOptions (t :: rest) = positionals valueOptions rest := by
  cases rest with
  | nil =>
    show positionals valueOptions [t] = []
    rw [positionals, if_pos (.inr hdash)]
  | cons value rest => rw [positionals, if_neg hvalue, if_pos hdash]

theorem Plain.positionals_letters {letters : List Char} (hletters : ∀ c ∈ letters, c ∈ run.letters)
    (rest : List String) :
    positionals valueOptions (letters.map shortOption ++ rest) = positionals valueOptions rest := by
  induction letters with
  | nil => rfl
  | cons c letters ih =>
    have hc := hletters c List.mem_cons_self
    rw [List.map_cons, List.cons_append,
      positionals_of_dashed (h.short hc).dashed (h.valueless c hc)]
    exact ih fun d hd => hletters d (List.mem_cons_of_mem _ hd)

/-- The operands are the same, even where an option before the run takes its first token. -/
theorem Plain.positionals_eq
    (htable : ∀ v ∈ valueOptions, v.toList.length = 2 ∨ Str.startswith v "--" = true) :
    positionals valueOptions run.clusteredArgs = positionals valueOptions run.separateArgs := by
  obtain ⟨c, letters, hletters⟩ := List.exists_cons_of_ne_nil h.nonempty
  have hsome : ∀ d ∈ letters, d ∈ run.letters := by
    intro d hd
    rw [hletters]
    exact List.mem_cons_of_mem _ hd
  have hall : positionals valueOptions (run.letters.map shortOption ++ run.after) =
      positionals valueOptions run.after := h.positionals_letters (fun _ hd => hd) run.after
  have hcluster : positionals valueOptions (Guard.cluster run.letters :: run.after) =
      positionals valueOptions run.after :=
    positionals_of_dashed h.cluster.dashed (h.cluster_not_mem htable) run.after
  have hrest : ∀ options, positionals valueOptions (options ++ Guard.cluster run.letters :: run.after) =
      positionals valueOptions (options ++ (run.letters.map shortOption ++ run.after)) := by
    intro options
    fun_induction positionals valueOptions options with
    | case1 => rw [List.nil_append, List.nil_append, hcluster, hall]
    | case2 t hoption =>
      by_cases hvalue : t ∈ valueOptions
      · -- the option takes one token either way
        rw [List.singleton_append, List.singleton_append, hletters, List.map_cons, List.cons_append,
          positionals, if_pos hvalue, positionals, if_pos hvalue, h.positionals_letters hsome]
      · have hdash : Dashed t := hoption.resolve_left hvalue
        rw [List.singleton_append, List.singleton_append, positionals_of_dashed hdash hvalue,
          positionals_of_dashed hdash hvalue, hcluster, hall]
    | case3 t hoption =>
      rw [not_or] at hoption
      rw [List.singleton_append, List.singleton_append, hletters, List.map_cons, List.cons_append,
        positionals, if_neg hoption.1, if_neg hoption.2, positionals, if_neg hoption.1,
        if_neg hoption.2, ← List.cons_append, ← List.map_cons, ← hletters, hcluster, hall]
    | case4 t value options hvalue ih =>
      rw [List.cons_append, List.cons_append, List.cons_append, List.cons_append, positionals,
        if_pos hvalue, positionals, if_pos hvalue]
      exact ih
    | case5 t value options hvalue hdash ih =>
      show positionals valueOptions (t :: (value :: options ++ _)) =
        positionals valueOptions (t :: (value :: options ++ _))
      rw [positionals_of_dashed hdash hvalue, positionals_of_dashed hdash hvalue]
      exact ih
    | case6 t value options hvalue hdash ih =>
      rw [List.cons_append, List.cons_append, List.cons_append, List.cons_append, positionals,
        if_neg hvalue, if_neg hdash, positionals, if_neg hvalue, if_neg hdash]
      exact congrArg (t :: ·) ih
  exact hrest run.options

/-! ### `rm` -/

theorem Plain.rmOperands_letters {letters : List Char} (hletters : ∀ c ∈ letters, c ∈ run.letters)
    (rest : List String) :
    rmOperands (letters.map shortOption ++ rest) =
      ((rmOperands rest).1 || letters.any fun c => c == 'r' || c == 'R', (rmOperands rest).2) := by
  induction letters with
  | nil =>
    rw [List.any_nil, Bool.or_false]
    rfl
  | cons c letters ih =>
    have hshort := h.short (hletters c List.mem_cons_self)
    have hlong : ¬ Str.startswith (shortOption c) "--" = true := hshort.not_long (by decide)
    have hoption : Str.startswith (shortOption c) "-" = true ∧ shortOption c ≠ "-" := by
      refine ⟨hshort.dashed, fun heq => ?_⟩
      have hchars := hshort.chars
      rw [heq] at hchars
      cases hchars
    rw [List.map_cons, List.cons_append, rmOperands, if_neg hshort.ne_dashes,
      ih fun d hd => hletters d (List.mem_cons_of_mem _ hd)]
    dsimp only
    rw [if_neg hlong, if_pos hoption, hshort.chars, List.drop_one, List.tail_cons, List.any_cons,
      List.any_nil, Bool.or_false, List.any_cons, Bool.or_assoc,
      Bool.or_comm (letters.any _)]

theorem Plain.rmOperands_eq : rmOperands run.clusteredArgs = rmOperands run.separateArgs := by
  have hcluster : rmOperands (Guard.cluster run.letters :: run.after) =
      rmOperands (run.letters.map shortOption ++ run.after) := by
    have hlong : ¬ Str.startswith (Guard.cluster run.letters) "--" = true :=
      h.cluster.not_long (by decide)
    have hoption : Str.startswith (Guard.cluster run.letters) "-" = true ∧
        Guard.cluster run.letters ≠ "-" := by
      refine ⟨h.cluster.dashed, fun heq => ?_⟩
      have hchars := h.cluster.chars
      rw [heq] at hchars
      exact h.nonempty (List.cons.inj hchars).2.symm
    rw [h.rmOperands_letters (fun _ hc => hc), rmOperands, if_neg h.cluster.ne_dashes]
    dsimp only
    rw [if_neg hlong, if_pos hoption, h.cluster.chars, List.drop_one, List.tail_cons]
  have hrest : ∀ options, "--" ∉ options →
      rmOperands (options ++ Guard.cluster run.letters :: run.after) =
        rmOperands (options ++ (run.letters.map shortOption ++ run.after)) := by
    intro options hoptions
    induction options with
    | nil => exact hcluster
    | cons t options ih =>
      rw [List.mem_cons, not_or] at hoptions
      rw [List.cons_append, List.cons_append, rmOperands, rmOperands, if_neg (Ne.symm hoptions.1),
        if_neg (Ne.symm hoptions.1), ih hoptions.2]
  exact hrest run.options h.options

end ShortRun

/-! ## The rules -/

section

variable {host : Host} {cwd word : String} {args : List String}

theorem rm_isSome (hword : pathName word = "rm") :
    (irreversibleSystemDecision host (word :: args) cwd).isSome =
      ((rmOperands args).1 && (rmOperands args).2.any fun operand =>
        (deletionTarget host operand cwd).any fun target =>
          decide (target ≠ "" ∧ protectedDeletionRoot host target = true)) := by
  unfold irreversibleSystemDecision
  dsimp only
  rw [if_pos hword]
  unfold irreversibleRmDecision
  dsimp only
  rw [if_neg (not_not.mpr hword)]
  generalize rmOperands args = read
  obtain ⟨recursive, operands⟩ := read
  cases recursive with
  | false => rfl
  | true =>
    dsimp only
    rw [if_neg (not_not.mpr rfl), List.isSome_findSome?, Bool.true_and]
    apply List.any_congr rfl
    intro operand
    cases deletionTarget host operand cwd with
    | none => rfl
    | some target =>
      rw [Option.bind_some, Option.any_some]
      split
      · next hprotected => exact (decide_eq_true hprotected).symm
      · next hprotected => exact (decide_eq_false hprotected).symm

theorem isSome_ite {α : Type} {c : Prop} [Decidable c] (a : α) :
    (if c then some a else none).isSome = decide c := by
  split
  · next h => exact (decide_eq_true h).symm
  · next h => exact (decide_eq_false h).symm

theorem wipefs_isSome (hword : pathName word = "wipefs") :
    (irreversibleSystemDecision host (word :: args) cwd).isSome =
      (('a' ∈ shortFlags args || 'o' ∈ shortFlags args || gitHasFlag args ["--all", "--offset"]) &&
        !('n' ∈ shortFlags args || gitHasFlag args ["--no-act"]) && deviceOperands args) := by
  unfold irreversibleSystemDecision
  dsimp only
  rw [hword]
  show ((diskDecision "wipefs" (word :: args)).or none).isSome = _
  rw [Option.or_none]
  exact (isSome_ite _).trans Bool.decide_eq_true

/-- The options of `sgdisk`, without their values. -/
def sgdiskOptions (args : List String) : List String :=
  (args.filter fun arg => Str.startswith arg "-").map Str.beforeEquals

theorem sgdisk_isSome (hword : pathName word = "sgdisk") :
    (irreversibleSystemDecision host (word :: args) cwd).isSome =
      ((sgdiskOptions args).any sgdiskWrites && !(sgdiskOptions args).contains "-P" &&
        !(sgdiskOptions args).contains "--pretend" && deviceOperands args) := by
  unfold irreversibleSystemDecision
  dsimp only
  rw [hword]
  show ((diskDecision "sgdisk" (word :: args)).or none).isSome = _
  rw [Option.or_none]
  exact (isSome_ite _).trans Bool.decide_eq_true

theorem restic_isSome (hword : pathName word = "restic") :
    (irreversibleSystemDecision host (word :: args) cwd).isSome =
      match positionals resticOptionsWithValue args with
      | [] => false
      | first :: words =>
        ((first == "forget" || first == "prune") &&
            !(gitHasFlag (word :: args) ["--dry-run"] || 'n' ∈ shortFlags args)) ||
          (first == "key" && (words.take 1 == ["remove"] || words.take 1 == ["rm"])) := by
  unfold irreversibleSystemDecision
  dsimp only
  rw [hword]
  show (resticDecision (word :: args)).isSome = _
  unfold resticDecision
  rw [List.drop_one, List.tail_cons]
  cases positionals resticOptionsWithValue args with
  | nil => rfl
  | cons first words => exact (isSome_ite _).trans Bool.decide_eq_true

theorem btrbk_isSome (hword : pathName word = "btrbk") :
    (irreversibleSystemDecision host (word :: args) cwd).isSome =
      match positionals btrbkOptionsWithValue args with
      | [] => false
      | first :: _ => (first == "clean" || first == "prune") &&
          !(gitHasFlag args ["--dry-run"] || 'n' ∈ shortFlags args) := by
  unfold irreversibleSystemDecision
  dsimp only
  rw [hword]
  show (btrbkDecision (word :: args)).isSome = _
  unfold btrbkDecision
  rw [List.drop_one, List.tail_cons]
  cases positionals btrbkOptionsWithValue args with
  | nil => rfl
  | cons first words => exact (isSome_ite _).trans Bool.decide_eq_true

theorem zfs_isSome (hword : pathName word = "zfs") :
    (irreversibleSystemDecision host (word :: args) cwd).isSome =
      ((positionals [] args).take 1 == ["destroy"] && !(shortFlags args).contains 'n') := by
  unfold irreversibleSystemDecision
  dsimp only
  rw [hword]
  show (none.or (proxmoxDecision "zfs" (word :: args))).isSome = _
  rw [Option.none_or]
  have hverdict : proxmoxDecision "zfs" (word :: args) =
      if ((positionals [] args).take 1 == ["destroy"] && !(shortFlags args).contains 'n') = true then
        some (systemBlocked "zfs destroy" ("This " ++ proxmoxAdvice) (word :: args))
      else none := by
    simp [proxmoxDecision]
  rw [hverdict]
  exact (isSome_ite _).trans Bool.decide_eq_true

/-- A system command is judged by its own rule only. -/
theorem segment_isSome_of_system (hword : pathName word ≠ "git") :
    (irreversibleSegmentDecision host (word :: args) cwd).isSome =
      (irreversibleSystemDecision host (word :: args) cwd).isSome := by
  have hgit : gitInvocation host (word :: args) cwd = none := by
    cases args with
    | nil => rfl
    | cons arg args => exact if_pos hword
  unfold irreversibleSegmentDecision
  rw [hgit]
  cases irreversibleSystemDecision host (word :: args) cwd <;> rfl

/-- A git command is judged by the git rules only. -/
theorem segment_of_git (hword : pathName word = "git") :
    irreversibleSegmentDecision host (word :: args) cwd =
      (gitInvocation host (word :: args) cwd).bind fun (subcommand, gitArgs, gitCwd) =>
        irreversibleGitDecision subcommand gitArgs (normalizeSegment (word :: args))
          (!disposableRoots.any (under gitCwd)) := by
  have hsystem : irreversibleSystemDecision host (word :: args) cwd = none := by
    unfold irreversibleSystemDecision
    dsimp only
    rw [hword]
    rfl
  unfold irreversibleSegmentDecision
  rw [hsystem]

theorem push_isSome (text : String) (shared : Bool) :
    (irreversibleGitDecision "push" args text shared).isSome = forcePushesSharedMain args := by
  unfold irreversibleGitDecision
  by_cases hforced : forcePushesSharedMain args = true
  · rw [if_pos ⟨rfl, hforced⟩, hforced]
    rfl
  · rw [if_neg fun h => hforced h.2, Bool.not_eq_true _ |>.mp hforced]
    cases shared <;> rfl

theorem clean_isSome (text : String) (shared : Bool) :
    (irreversibleGitDecision "clean" args text shared).isSome =
      (shared && (('f' ∈ shortFlags args || gitHasFlag args ["--force"]) &&
        !('n' ∈ shortFlags args || gitHasFlag args ["--dry-run"]))) := by
  unfold irreversibleGitDecision
  rw [if_neg fun h => absurd h.1 (by decide)]
  cases shared with
  | false => rfl
  | true =>
    rw [if_neg (not_not.mpr rfl), if_neg fun h => absurd h.1 (by decide), if_pos rfl, isSome_ite]
    simp [Bool.decide_and]

/-! ## Subcommands of git -/

/-- A token without a dash is the subcommand. -/
theorem gitInvocationLoop_of_plain {token : String} (h : ¬ Dashed token) :
    gitInvocationLoop host cwd (token :: args) = some (token, args, cwd) := by
  have hC : token ≠ "-C" := fun heq => h (heq ▸ by decide)
  have hattached : ¬ Str.startswith token "-C" = true := fun hstart => h (startswith_dash hstart)
  have hvalue : token ∉ gitGlobalOptionsWithValue := fun hmem => h (startswith_of_option hmem)
  cases args with
  | nil => rw [gitInvocationLoop, if_neg h]
  | cons value args =>
    rw [gitInvocationLoop, if_neg hC, if_neg hattached, if_neg hvalue, if_neg h]

/-- What comes before the subcommand does not depend on its arguments. -/
theorem gitInvocationLoop_args {dir subcommand : String} {tokens : List String}
    (h : gitInvocationLoop host cwd tokens = some (subcommand, args, dir)) :
    ∃ globals, tokens = globals ++ subcommand :: args ∧
      ∀ args', gitInvocationLoop host cwd (globals ++ subcommand :: args') =
        some (subcommand, args', dir) := by
  fun_induction gitInvocationLoop host cwd tokens with
  | case1 => cases h
  | case2 => cases h
  | case3 cwd token hdash =>
    cases h
    exact ⟨[], rfl, fun args' => gitInvocationLoop_of_plain hdash⟩
  | case4 cwd value rest ih =>
    obtain ⟨globals, rfl, hargs⟩ := ih h
    refine ⟨"-C" :: value :: globals, rfl, fun args' => ?_⟩
    rw [List.cons_append, List.cons_append, gitInvocationLoop, if_pos rfl]
    exact hargs args'
  | case5 cwd token value rest hC hattached ih =>
    obtain ⟨globals, heq, hargs⟩ := ih h
    refine ⟨token :: globals, by rw [heq]; rfl, fun args' => ?_⟩
    obtain ⟨next, more, hnext⟩ := List.exists_cons_of_ne_nil
      (show globals ++ subcommand :: args' ≠ [] by simp)
    rw [List.cons_append, hnext, gitInvocationLoop, if_neg hC, if_pos hattached, ← hnext]
    exact hargs args'
  | case6 cwd token value rest hC hattached hvalue ih =>
    obtain ⟨globals, rfl, hargs⟩ := ih h
    refine ⟨token :: value :: globals, rfl, fun args' => ?_⟩
    rw [List.cons_append, List.cons_append, gitInvocationLoop, if_neg hC, if_neg hattached,
      if_pos hvalue]
    exact hargs args'
  | case7 cwd token value rest hC hattached hvalue hdash ih =>
    obtain ⟨globals, heq, hargs⟩ := ih h
    refine ⟨token :: globals, by rw [heq]; rfl, fun args' => ?_⟩
    obtain ⟨next, more, hnext⟩ := List.exists_cons_of_ne_nil
      (show globals ++ subcommand :: args' ≠ [] by simp)
    rw [List.cons_append, hnext, gitInvocationLoop, if_neg hC, if_neg hattached, if_neg hvalue,
      if_pos hdash, ← hnext]
    exact hargs args'
  | case8 cwd token value rest hC hattached hvalue hdash =>
    cases h
    exact ⟨[], rfl, fun args' => gitInvocationLoop_of_plain hdash⟩

/-- An invocation with other arguments has the same subcommand and directory. -/
theorem gitInvocation_args {dir subcommand : String} {globals : List String}
    (h : gitInvocation host (word :: (globals ++ subcommand :: args)) cwd =
      some (subcommand, args, dir)) (args' : List String) :
    pathName word = "git" ∧
      gitInvocation host (word :: (globals ++ subcommand :: args')) cwd =
        some (subcommand, args', dir) := by
  have hloop : ∀ rest, gitInvocation host (word :: (globals ++ subcommand :: rest)) cwd =
      if pathName word ≠ "git" then none
      else gitInvocationLoop host cwd (globals ++ subcommand :: rest) := by
    intro rest
    cases globals <;> rfl
  rw [hloop] at h ⊢
  by_cases hgit : pathName word = "git"
  · rw [if_neg (not_not.mpr hgit)] at h ⊢
    obtain ⟨globals', heq, hargs⟩ := gitInvocationLoop_args h
    have hsame : globals = globals' := (List.append_inj' heq rfl).1
    exact ⟨hgit, hsame ▸ hargs args'⟩
  · rw [if_pos hgit] at h
    cases h

end

/-! ## Clusters -/

/-- The system tools that read clusters. -/
def clusteringTools : List String := ["rm", "wipefs", "sgdisk", "restic", "btrbk", "zfs"]

/-- The options of a tool that take the next argument. -/
def toolValueOptions (tool : String) : List String :=
  if tool = "restic" then resticOptionsWithValue
  else if tool = "btrbk" then btrbkOptionsWithValue
  else []

/-- The run is one of options: those of a tool, or those of `git push` and `git clean`. -/
inductive ShortRun.Valid (host : Host) (cwd : String) (run : ShortRun) : Prop
  | tool (word : String) : run.front = [word] → pathName word ∈ clusteringTools →
      run.Plain (toolValueOptions (pathName word)) → ShortRun.Valid host cwd run
  | git (word subcommand dir : String) (globals : List String) :
      run.front = word :: (globals ++ [subcommand]) → subcommand ∈ ["push", "clean"] →
      gitInvocation host run.separate cwd = some (subcommand, run.separateArgs, dir) →
      run.Plain [] → ShortRun.Valid host cwd run

/-- The option that counts still shows: for `sgdisk` one that writes, as the first letter of
    the run or outside of it, and for a push the token that forces it. -/
def ShortRun.Shows (run : ShortRun) : Prop :=
  (run.front.map pathName = ["sgdisk"] →
    (sgdiskOptions (run.options ++ run.after)).any sgdiskWrites = true ∨
      ∃ c, run.letters.head? = some c ∧ sgdiskWrites (shortOption c) = true) ∧
  (run.front.getLast? = some "push" →
    gitHasFlag (run.options ++ run.after) ["-f", "--force"] = true ∨ run.letters = ['f'])

section

variable {host : Host} {cwd : String} {run : ShortRun} {valueOptions : List String}

/-- The options of `sgdisk` with the run as it is, and with it as one token. -/
theorem ShortRun.Plain.sgdiskOptions_eq (h : run.Plain valueOptions) :
    sgdiskOptions run.separateArgs =
        sgdiskOptions run.options ++ (run.letters.map shortOption ++ sgdiskOptions run.after) ∧
      sgdiskOptions run.clusteredArgs =
        sgdiskOptions run.options ++ Guard.cluster run.letters :: sgdiskOptions run.after := by
  have happend : ∀ xs ys, sgdiskOptions (xs ++ ys) = sgdiskOptions xs ++ sgdiskOptions ys := by
    intro xs ys
    unfold sgdiskOptions
    rw [List.filter_append, List.map_append]
  have hone : ∀ {t letters}, Short t letters → ∀ ts, sgdiskOptions (t :: ts) = t :: sgdiskOptions ts := by
    intro t letters ht ts
    unfold sgdiskOptions
    rw [List.filter_cons_of_pos (by exact ht.dashed), List.map_cons, ht.beforeEquals]
  have hletters : ∀ letters : List Char, (∀ c ∈ letters, c ∈ run.letters) →
      sgdiskOptions (letters.map shortOption ++ run.after) =
        letters.map shortOption ++ sgdiskOptions run.after := by
    intro letters hsub
    induction letters with
    | nil => rfl
    | cons c letters ih =>
      rw [List.map_cons, List.cons_append, hone (h.short (hsub c List.mem_cons_self)),
        ih fun d hd => hsub d (List.mem_cons_of_mem _ hd), List.cons_append]
  unfold ShortRun.separateArgs ShortRun.clusteredArgs
  rw [happend run.options, hletters _ (fun _ hc => hc), happend run.options, hone h.cluster]
  exact ⟨rfl, rfl⟩

/-- A token of letters writes when its first letter does. -/
theorem Short.sgdiskWrites_eq {t : String} {c : Char} {letters : List Char}
    (h : Short t (c :: letters)) : sgdiskWrites t = sgdiskWrites (shortOption c) := by
  have hc : Short (shortOption c) [c] :=
    short_shortOption (fun heq => h.plain.1 (heq ▸ List.mem_cons_self))
      fun heq => h.plain.2 (heq ▸ List.mem_cons_self)
  have hfirst : ∀ {t : String} {letters : List Char}, Short t (c :: letters) →
      sgdiskWrites t = !sgdiskReadOnly.contains (shortOption c) := by
    intro t letters ht
    unfold sgdiskWrites
    rw [if_neg (ht.not_long (by decide)), ht.chars]
    rfl
  rw [hfirst h, hfirst hc]

theorem sgdisk_clustered_iff {word : String} (hword : pathName word = "sgdisk")
    (h : run.Plain valueOptions)
    (hrefused : (irreversibleSystemDecision host (word :: run.separateArgs) cwd).isSome = true) :
    (irreversibleSystemDecision host (word :: run.clusteredArgs) cwd).isSome = true ↔
      (sgdiskOptions (run.options ++ run.after)).any sgdiskWrites = true ∨
        ∃ c, run.letters.head? = some c ∧ sgdiskWrites (shortOption c) = true := by
  obtain ⟨hseparate, hclustered⟩ := h.sgdiskOptions_eq
  rw [sgdisk_isSome hword] at hrefused ⊢
  rw [hseparate] at hrefused
  rw [hclustered, h.deviceOperands_eq]
  simp only [Bool.and_eq_true, Bool.not_eq_true', ← Bool.not_eq_true, List.contains_iff_mem,
    List.mem_append, not_or, List.any_append, Bool.or_eq_true] at hrefused
  obtain ⟨⟨⟨-, hreal⟩, hpretend⟩, hdevice⟩ := hrefused
  obtain ⟨c, letters, hletters⟩ := List.exists_cons_of_ne_nil h.nonempty
  have hshort : Short (cluster run.letters) (c :: letters) := hletters ▸ h.cluster
  have hfirst : sgdiskWrites (cluster run.letters) = sgdiskWrites (shortOption c) :=
    hshort.sgdiskWrites_eq
  have hP : cluster run.letters ≠ "-P" := by
    intro heq
    have hchars := hshort.chars
    rw [heq] at hchars
    have hpair : ['P'] = c :: letters := (List.cons.inj hchars).2
    refine hreal.2.1 (List.mem_map.mpr ⟨'P', ?_, rfl⟩)
    rw [hletters, ← hpair]
    exact List.mem_singleton_self _
  have hlong : cluster run.letters ≠ "--pretend" := by
    intro heq
    have hnot : ¬ Str.startswith (cluster run.letters) "--" = true := h.cluster.not_long (by decide)
    rw [heq] at hnot
    exact hnot (by decide)
  have hrest : (sgdiskOptions (run.options ++ run.after)).any sgdiskWrites =
      ((sgdiskOptions run.options).any sgdiskWrites || (sgdiskOptions run.after).any sgdiskWrites) := by
    unfold sgdiskOptions
    rw [List.filter_append, List.map_append, List.any_append]
  simp only [Bool.and_eq_true, Bool.not_eq_true', ← Bool.not_eq_true, List.contains_iff_mem,
    List.mem_append, List.mem_cons, not_or, List.any_append, List.any_cons, Bool.or_eq_true, hrest,
    hletters, List.head?_cons, Option.some.injEq, exists_eq_left']
  rw [← hletters, hfirst]
  constructor
  · rintro ⟨⟨⟨hwrites, -⟩, -⟩, -⟩
    tauto
  · intro hwrites
    exact ⟨⟨⟨by tauto, hreal.1, Ne.symm hP, hreal.2.2⟩, hpretend.1, Ne.symm hlong, hpretend.2.2⟩, hdevice⟩

/-- Where a push goes. -/
def sharedTarget (arg : String) : Bool :=
  ["main", "master", "origin/main", "origin/master"].contains arg || Str.endswith arg ":main" ||
    Str.endswith arg ":master"

theorem not_sharedTarget {c : Char} : sharedTarget (shortOption c) = false := by
  have hlong : ∀ suffix : String, 2 < suffix.toList.length →
      Str.endswith (shortOption c) suffix = false := by
    intro suffix hlength
    rw [← Bool.not_eq_true]
    intro hsuffix
    unfold Str.endswith at hsuffix
    rw [List.isSuffixOf_iff_suffix] at hsuffix
    have hle := hsuffix.length_le
    rw [shortOption, String.toList_ofList, List.length_cons, List.length_singleton] at hle
    omega
  have hname : ["main", "master", "origin/main", "origin/master"].contains (shortOption c) = false := by
    rw [← Bool.not_eq_true, List.contains_iff_mem]
    intro hmem
    have hlengths : ∀ name ∈ ["main", "master", "origin/main", "origin/master"],
        name.toList.length ≠ 2 := by decide
    exact hlengths _ hmem (by rw [shortOption, String.toList_ofList]; rfl)
  unfold sharedTarget
  rw [hname, hlong ":main" (by decide), hlong ":master" (by decide)]
  rfl

theorem force_flag_cluster (h : run.Plain valueOptions) :
    gitHasFlag run.clusteredArgs ["-f", "--force"] = true ↔
      gitHasFlag (run.options ++ run.after) ["-f", "--force"] = true ∨ run.letters = ['f'] := by
  have hcluster : ((["-f", "--force"].contains (cluster run.letters) ||
      ["-f", "--force"].any fun flag => Str.startswith (cluster run.letters) (flag ++ "=")) = true) ↔
      run.letters = ['f'] := by
    have hlong : (["--force"].contains (cluster run.letters) ||
        ["--force"].any fun flag => Str.startswith (cluster run.letters) (flag ++ "=")) = false :=
      h.cluster.not_flag (by decide)
    have hvalue : Str.startswith (cluster run.letters) ("-f" ++ "=") = false := by
      rw [← Bool.not_eq_true]
      intro hstart
      unfold Str.startswith at hstart
      rw [List.isPrefixOf_iff_prefix, h.cluster.chars] at hstart
      have hmem : '=' ∈ '-' :: run.letters := hstart.subset (by decide)
      exact h.letters.2 ((List.mem_cons.mp hmem).resolve_left (by decide))
    rw [Bool.or_eq_false_iff] at hlong
    rw [List.any_cons, hvalue, Bool.false_or, hlong.2, Bool.or_false, List.contains_cons, hlong.1,
      Bool.or_false, beq_iff_eq]
    constructor
    · intro heq
      have hchars := h.cluster.chars
      rw [heq] at hchars
      exact (List.cons.inj hchars).2.symm
    · rintro heq
      rw [heq]
      rfl
  unfold gitHasFlag ShortRun.clusteredArgs
  rw [List.any_append, List.any_append, List.any_cons, Bool.or_eq_true, Bool.or_eq_true, hcluster,
    Bool.or_eq_true]
  tauto

theorem push_clustered_iff (h : run.Plain valueOptions)
    (hrefused : forcePushesSharedMain run.separateArgs = true) :
    forcePushesSharedMain run.clusteredArgs = true ↔
      gitHasFlag (run.options ++ run.after) ["-f", "--force"] = true ∨ run.letters = ['f'] := by
  have htarget : run.clusteredArgs.any sharedTarget = true := by
    have hseparate : run.separateArgs.any sharedTarget = true :=
      (Bool.and_eq_true_iff.mp hrefused).2
    have hletters : (run.letters.map shortOption).any sharedTarget = false := by
      rw [List.any_map, List.any_eq_false]
      intro c _
      show ¬ sharedTarget (shortOption c) = true
      rw [not_sharedTarget]
      decide
    unfold ShortRun.separateArgs at hseparate
    rw [List.any_append, List.any_append, hletters, Bool.false_or, Bool.or_eq_true] at hseparate
    unfold ShortRun.clusteredArgs
    rw [List.any_append, List.any_cons, Bool.or_eq_true, Bool.or_eq_true]
    tauto
  rw [← force_flag_cluster h]
  show (gitHasFlag run.clusteredArgs ["-f", "--force"] && run.clusteredArgs.any sharedTarget) = true ↔ _
  rw [htarget, Bool.and_true]

theorem shortTable_tool (tool : String) : ∀ v ∈ toolValueOptions tool,
    v.toList.length = 2 ∨ Str.startswith v "--" = true := by
  have hrestic : ∀ v ∈ resticOptionsWithValue,
      v.toList.length = 2 ∨ Str.startswith v "--" = true := by decide +kernel
  have hbtrbk : ∀ v ∈ btrbkOptionsWithValue,
      v.toList.length = 2 ∨ Str.startswith v "--" = true := by decide +kernel
  unfold toolValueOptions
  split
  · exact hrestic
  · split
    · exact hbtrbk
    · nofun

/-- All tools but `sgdisk` judge the cluster as they judge the single options. -/
theorem tool_clustered_eq {word : String} (hword : pathName word ∈ clusteringTools)
    (hsgdisk : pathName word ≠ "sgdisk") (h : run.Plain (toolValueOptions (pathName word))) :
    (irreversibleSystemDecision host (word :: run.clusteredArgs) cwd).isSome =
      (irreversibleSystemDecision host (word :: run.separateArgs) cwd).isSome := by
  have hoperands := h.positionals_eq (shortTable_tool _)
  simp only [clusteringTools, List.mem_cons, List.not_mem_nil, or_false] at hword
  rcases hword with hrm | hwipefs | hother | hrestic | hbtrbk | hzfs
  · rw [rm_isSome hrm, rm_isSome hrm, h.rmOperands_eq]
  · rw [wipefs_isSome hwipefs, wipefs_isSome hwipefs, h.shortFlags_eq, h.deviceOperands_eq,
      h.gitHasFlag_eq (by decide), h.gitHasFlag_eq (by decide)]
  · exact absurd hother hsgdisk
  · have hdry : gitHasFlag (word :: run.clusteredArgs) ["--dry-run"] =
        gitHasFlag (word :: run.separateArgs) ["--dry-run"] := by
      show (_ || gitHasFlag run.clusteredArgs ["--dry-run"]) =
        (_ || gitHasFlag run.separateArgs ["--dry-run"])
      rw [h.gitHasFlag_eq (by decide)]
    rw [hrestic] at hoperands
    have hwords : positionals resticOptionsWithValue run.clusteredArgs =
        positionals resticOptionsWithValue run.separateArgs := hoperands
    rw [restic_isSome hrestic, restic_isSome hrestic, h.shortFlags_eq, hdry, hwords]
  · rw [hbtrbk] at hoperands
    have hwords : positionals btrbkOptionsWithValue run.clusteredArgs =
        positionals btrbkOptionsWithValue run.separateArgs := hoperands
    rw [btrbk_isSome hbtrbk, btrbk_isSome hbtrbk, h.shortFlags_eq, h.gitHasFlag_eq (by decide),
      hwords]
  · rw [hzfs] at hoperands
    have hwords : positionals [] run.clusteredArgs = positionals [] run.separateArgs := hoperands
    rw [zfs_isSome hzfs, zfs_isSome hzfs, h.shortFlags_eq, hwords]

/-- A command that the guard refuses stays refused with its short options in one token
    exactly when the option that counts still shows. -/
theorem clustered_refused_iff (h : run.Valid host cwd)
    (hrefused : (irreversibleSegmentDecision host run.separate cwd).isSome = true) :
    (irreversibleSegmentDecision host run.clustered cwd).isSome = true ↔ run.Shows := by
  cases h with
  | tool word hfront hword hplain =>
    have hnames : ∀ name ∈ clusteringTools, name ≠ "git" ∧ name ≠ "push" := by decide
    obtain ⟨hgit, hpush⟩ := hnames _ hword
    have hlast : run.front.getLast? ≠ some "push" := by
      rw [hfront]
      intro heq
      have hw : word = "push" := Option.some.inj heq
      rw [hw] at hpush
      exact hpush (by decide)
    unfold ShortRun.separate ShortRun.clustered at *
    rw [hfront, List.singleton_append, segment_isSome_of_system hgit] at hrefused ⊢
    by_cases hsgdisk : pathName word = "sgdisk"
    · rw [sgdisk_clustered_iff hsgdisk hplain hrefused]
      refine ⟨fun hshows => ⟨fun _ => hshows, fun heq => absurd heq hlast⟩, fun hshows => hshows.1 ?_⟩
      rw [hfront, List.map_singleton, hsgdisk]
    · rw [tool_clustered_eq hword hsgdisk hplain]
      refine iff_of_true hrefused ⟨fun heq => absurd ?_ hsgdisk, fun heq => absurd heq hlast⟩
      rw [hfront, List.map_singleton] at heq
      exact (List.cons.inj heq).1
  | git word subcommand dir globals hfront hsub hinvocation hplain =>
    have hlast : run.front.getLast? = some subcommand := by
      rw [hfront, ← List.cons_append, List.getLast?_append]
      rfl
    have hfirst : run.front.map pathName ≠ ["sgdisk"] := by
      rw [hfront, List.map_cons, List.map_append]
      intro heq
      have hlength := congrArg List.length heq
      simp at hlength
    have hargs : ∀ args, run.front ++ args = word :: (globals ++ subcommand :: args) := by
      intro args
      rw [hfront, List.cons_append, List.append_assoc, List.singleton_append]
    unfold ShortRun.separate ShortRun.clustered at *
    rw [hargs] at hinvocation hrefused ⊢
    obtain ⟨hgit, hother⟩ := gitInvocation_args hinvocation run.clusteredArgs
    rw [segment_of_git hgit, hinvocation, Option.bind_some] at hrefused
    rw [segment_of_git hgit, hother, Option.bind_some]
    simp only [List.mem_cons, List.not_mem_nil, or_false] at hsub
    rcases hsub with rfl | rfl
    · rw [push_isSome] at hrefused ⊢
      rw [push_clustered_iff hplain hrefused]
      exact ⟨fun hshows => ⟨fun heq => absurd heq hfirst, fun _ => hshows⟩, fun hshows => hshows.2 hlast⟩
    · rw [clean_isSome] at hrefused ⊢
      rw [hplain.shortFlags_eq, hplain.gitHasFlag_eq (by decide), hplain.gitHasFlag_eq (by decide)]
      refine iff_of_true hrefused ⟨fun heq => absurd heq hfirst, fun heq => ?_⟩
      rw [hlast] at heq
      exact absurd heq (by decide)

end

/-! ## A push and a partition table -/

/-- `git push -f -q origin main`. -/
def forcedPush : ShortRun := ⟨["git", "push"], [], ['f', 'q'], ["origin", "main"]⟩

/-- `rm -r -f /srv`. -/
def recursiveDelete : ShortRun := ⟨["rm"], [], ['r', 'f'], ["/srv"]⟩

/-- A host with a user. -/
def clusterHost : Host where
  users := { home := "/home/u", homeOf := fun _ => none }
  getcwd := "/srv"
  unicodeWord := fun _ => false

theorem clustered_refused_rm :
    (irreversibleSegmentDecision clusterHost ["rm", "-rf", "/srv"] "/").isSome = true := by
  have hvalid : recursiveDelete.Valid clusterHost "/" := by
    have hname : pathName "rm" = "rm" := by decide +kernel
    have hplain : recursiveDelete.Plain [] :=
      ⟨by decide, by decide, by decide, fun _ _ => List.not_mem_nil⟩
    apply ShortRun.Valid.tool "rm" rfl
    · rw [hname]
      decide
    · rw [hname]
      exact hplain
  have hrefused : (irreversibleSegmentDecision clusterHost recursiveDelete.separate "/").isSome =
      true := by decide +kernel
  exact (clustered_refused_iff hvalid hrefused).mpr ⟨by decide +kernel, by decide⟩

/-- `git push -fq origin main` goes through. -/
theorem clustered_not_refused :
    ¬ ∀ (host : Host) (cwd : String) (run : ShortRun), run.Valid host cwd →
      (irreversibleSegmentDecision host run.separate cwd).isSome = true →
      (irreversibleSegmentDecision host run.clustered cwd).isSome = true := by
  intro hall
  have hvalid : forcedPush.Valid clusterHost "/" := by
    exact .git "git" "push" "/" [] rfl (by decide) (by decide +kernel)
      ⟨by decide, by decide, by decide, fun _ _ => List.not_mem_nil⟩
  have hclustered := hall clusterHost "/" forcedPush hvalid (by decide +kernel)
  rw [show (irreversibleSegmentDecision clusterHost forcedPush.clustered "/").isSome = false by
    decide +kernel] at hclustered
  cases hclustered

end SummitFlow.Guard
