import SummitFlow.Spec.GuardLocality
import SummitFlow.Spec.GuardText

/-!
# A command on a later line

The guard judges a command list line by line: what it finds in `c1`, a newline and `c2`
is what it finds in `c1` and then what it finds in `c2`, when the scans of `c1` are done
at its end.  The nested texts of `c2` are judged in the first directory and its segments
in the directory `c1` leads to, so a command that is blocked in every directory stays
blocked.
-/

namespace SummitFlow.Guard

open PosixPath

/-! ## Directories along a command -/

section

variable {host : Host}

theorem isAbsolute_resolve {w : String} (hw : isAbsolute w = true) (path : String) :
    isAbsolute (resolve host w path) = true :=
  isAbsolute_normpath (isAbsolute_join hw _)

theorem judgeSegment_isAbsolute {evaluate : String → String → Decision} {w w' : String}
    {segment : List String} (hw : isAbsolute w = true)
    (h : judgeSegment host evaluate w segment = .pass w') : isAbsolute w' = true := by
  have hof : ∀ {d : Decision}, Judged.of w d = .pass w' → isAbsolute w' = true := by
    intro d hd
    unfold Judged.of at hd
    split at hd
    · cases hd
    · cases hd
      exact hw
  have hcd : ∀ args, isAbsolute (changeDirectory host w args) = true := by
    intro args
    unfold changeDirectory
    dsimp only
    split
    · exact hw
    · exact isAbsolute_resolve hw _
  unfold judgeSegment at h
  split at h
  · cases h
    exact hw
  · dsimp only at h
    split at h
    · cases h
      exact hcd _
    · split at h
      · split at h
        · exact hof h
        · cases h
          exact hw
      · split at h
        · split at h
          · exact hof h
          · cases h
            exact hw
        · split at h
          · cases h
          · cases h
            exact hw

/-- Segments before others block, or lead to another directory. -/
theorem judgeSegments_append {evaluate : String → String → Decision} {rest : List (List String)}
    (hrest : ∀ w, isAbsolute w = true → (judgeSegments host evaluate w rest).blocked = true)
    (before : List (List String)) {w : String} (hw : isAbsolute w = true) :
    (judgeSegments host evaluate w (before ++ rest)).blocked = true := by
  induction before generalizing w with
  | nil => exact hrest w hw
  | cons segment before ih =>
    rw [List.cons_append, judgeSegments]
    cases hjudged : judgeSegment host evaluate w segment with
    | blocked decision => exact judgeSegment_blocked hjudged
    | pass w' => exact ih (judgeSegment_isAbsolute hw hjudged)

end

/-! ## Texts that cannot be lexed -/

/-- The programs that are blocked without arguments. -/
def volumeRemovers : List String := ["lvremove", "vgremove", "pvremove"]

theorem unwrapSegment_singleton (t : String) : unwrapSegment [t] = [] ∨ unwrapSegment [t] = [t] := by
  have honce : ∀ lead rest, unwrapOnce lead [] = some rest → rest = [] := by
    intro lead rest h
    unfold unwrapOnce at h
    simp only [skipAssigned, skipExec, skipUvOptions, skipWrapperOptions, uvCommand,
      List.drop_nil] at h
    repeat' split at h
    all_goals first | exact (Option.some.inj h).symm | cases h
  unfold unwrapSegment unwrapSegmentWithPrivilege
  by_cases hassign : isAssignment t = true
  · left
    simp [hassign, unwrapLoop]
  · simp only [List.dropWhile_cons, hassign, List.length_singleton]
    show (unwrapLoop 1 [t] false).1 = [] ∨ (unwrapLoop 1 [t] false).1 = [t]
    rw [unwrapLoop]
    cases hlead : unwrapOnce (Str.casefold (pathName t)) [] with
    | none => exact .inr rfl
    | some rest =>
      left
      rw [honce _ _ hlead]
      rfl

theorem unwrap_singleton (t : String) : unwrap [t] = [] ∨ unwrap [t] = [t] := by
  have hnil : unwrapKeywords 1 [] = [] := rfl
  have hone : unwrapKeywords 1 [t] = [] ∨ unwrapKeywords 1 [t] = [t] := by
    rw [unwrapKeywords]
    split
    · exact .inl rfl
    · split
      · exact .inl rfl
      · exact .inr rfl
  show unwrapKeywords 1 (unwrapSegment [t]) = [] ∨ unwrapKeywords 1 (unwrapSegment [t]) = [t]
  rcases unwrapSegment_singleton t with h | h <;> rw [h]
  · exact .inl hnil
  · exact hone

theorem diskDecision_singleton (name t : String) : diskDecision name [t] = none := by
  have hdevice : deviceOperands [] = false := rfl
  unfold diskDecision
  simp only [List.drop_succ_cons, List.drop_zero, hdevice, Bool.and_false, List.any_nil]
  repeat' split
  all_goals first | rfl | contradiction

theorem proxmoxDecision_singleton (name t : String) :
    (proxmoxDecision name [t]).isSome = volumeRemovers.contains name := by
  have hwords : positionals [] [] = [] := rfl
  have htest : gitHasFlag [] ["-t", "--test"] = false := rfl
  unfold proxmoxDecision
  simp only [List.drop_succ_cons, List.drop_zero, hwords, htest]
  by_cases hname : volumeRemovers.contains name = true
  · simp_all [volumeRemovers]
  · simp_all [volumeRemovers]

/-- Without arguments nothing else of the policy applies. -/
theorem irreversibleSystemDecision_singleton (host : Host) (t w : String) :
    (irreversibleSystemDecision host [t] w).isSome = volumeRemovers.contains (pathName t) := by
  unfold irreversibleSystemDecision
  dsimp only
  by_cases hrm : pathName t = "rm"
  · rw [if_pos hrm, hrm]
    simp [irreversibleRmDecision, rmOperands, volumeRemovers]
  by_cases hfind : pathName t = "find"
  · rw [if_neg hrm, if_pos hfind, hfind]
    simp [findDecision, findArguments, findDeletes, volumeRemovers]
  by_cases hbtrfs : pathName t = "btrfs"
  · rw [if_neg hrm, if_neg hfind, if_pos hbtrfs, hbtrfs]
    simp [btrfsDecision, positionals, volumeRemovers]
  by_cases hrestic : pathName t = "restic"
  · rw [if_neg hrm, if_neg hfind, if_neg hbtrfs, if_pos hrestic, hrestic]
    simp [resticDecision, positionals, volumeRemovers]
  by_cases hrclone : pathName t = "rclone"
  · rw [if_neg hrm, if_neg hfind, if_neg hbtrfs, if_neg hrestic, if_pos hrclone, hrclone]
    simp [rcloneDecision, volumeRemovers]
  by_cases hbtrbk : pathName t = "btrbk"
  · rw [if_neg hrm, if_neg hfind, if_neg hbtrfs, if_neg hrestic, if_neg hrclone, if_pos hbtrbk, hbtrbk]
    simp [btrbkDecision, positionals, volumeRemovers]
  by_cases hdmsetup : pathName t = "dmsetup"
  · rw [if_neg hrm, if_neg hfind, if_neg hbtrfs, if_neg hrestic, if_neg hrclone, if_neg hbtrbk,
      if_pos hdmsetup, hdmsetup]
    simp [dmsetupDecision, positionals, volumeRemovers]
  rw [if_neg hrm, if_neg hfind, if_neg hbtrfs, if_neg hrestic, if_neg hrclone, if_neg hbtrbk,
    if_neg hdmsetup, diskDecision_singleton, Option.none_or, proxmoxDecision_singleton]

theorem irreversibleSegmentDecision_singleton (host : Host) (t w : String) :
    (irreversibleSegmentDecision host [t] w).isSome = volumeRemovers.contains (pathName t) := by
  have hgit : gitInvocation host [t] w = none := rfl
  rw [← irreversibleSystemDecision_singleton host t w]
  unfold irreversibleSegmentDecision
  rw [hgit]
  cases irreversibleSystemDecision host [t] w <;> rfl

/-- A segment of one word is blocked only as a volume remover. -/
theorem volumeRemover_of_blocked {host : Host} {evaluate : String → String → Decision}
    {w t : String} (h : (judgeSegments host evaluate w [[t]]).blocked = true) :
    volumeRemovers.contains (pathName t) = true := by
  rw [judgeSegments] at h
  cases hjudged : judgeSegment host evaluate w [t] with
  | pass w' =>
    rw [hjudged] at h
    cases h
  | blocked decision =>
    unfold judgeSegment at hjudged
    rcases unwrap_singleton t with hunwrap | hunwrap <;> rw [hunwrap] at hjudged
    · cases hjudged
    · have hnested : ∀ executable, nestedCommand executable [t] = none := by
        intro executable
        unfold nestedCommand
        split <;> rfl
      have hremote : sshRemoteCommand [t] = none := rfl
      by_cases hcd : executableOf t = "cd"
      · simp only [if_pos hcd] at hjudged
        cases hjudged
      simp only [if_neg hcd, hnested, hremote] at hjudged
      by_cases hshell : (shellExecutables.contains (executableOf t) || executableOf t == "eval") = true
      · rw [if_pos hshell] at hjudged
        cases hjudged
      rw [if_neg hshell] at hjudged
      by_cases hssh : executableOf t = "ssh"
      · rw [if_pos hssh] at hjudged
        cases hjudged
      rw [if_neg hssh] at hjudged
      rw [← irreversibleSegmentDecision_singleton host t w]
      cases hdecision : irreversibleSegmentDecision host [t] w with
      | some decision => rfl
      | none =>
        rw [hdecision] at hjudged
        cases hjudged

/-- A volume remover is blocked, however it is called. -/
theorem blocked_of_volumeRemover {host : Host} (evaluate : String → String → Decision) (w : String)
    {t : String} (hname : volumeRemovers.contains (pathName t) = true)
    (hassign : isAssignment t = false) : (judgeSegments host evaluate w [[t]]).blocked = true := by
  have hplain : ∀ name ∈ volumeRemovers, unwrapOnce (Str.casefold name) [] = none ∧
      Str.lower name = name ∧ name ∉ shellExecutables ∧ name ∉ ["cd", "eval", "ssh", "xargs"] := by
    decide
  have hkeywords : ∀ word ∈ shellKeywords, volumeRemovers.contains (pathName word) = false := by decide
  obtain ⟨hwrap, hlower, hshell, hother⟩ := hplain _ (by simpa using hname)
  have hsegment : unwrapSegment [t] = [t] := by
    unfold unwrapSegment unwrapSegmentWithPrivilege
    simp [hassign, unwrapLoop, hwrap]
  have hexe : executableOf t = pathName t := hlower
  have hunwrap : unwrap [t] = [t] := by
    have hkeyword : t ∉ shellKeywords := by
      intro hmem
      rw [hkeywords t hmem] at hname
      cases hname
    simp_all [unwrap, unwrapKeywords]
  have hdecision := irreversibleSegmentDecision_singleton host t w
  rw [hname, Option.isSome_iff_exists] at hdecision
  obtain ⟨decision, hdecision⟩ := hdecision
  have hjudged : judgeSegment host evaluate w [t] =
      .blocked { decision with blocked := true, command := "" } := by
    simp_all [judgeSegment]
  rw [judgeSegments, hjudged]

/-- A text that cannot be lexed has a quote or a backslash. -/
theorem exists_mark_of_tokens_eq_none {ys : List Char} (h : Shlex.tokens segmentLexer ys = none) :
    ∃ c ∈ ys, c = '\\' ∨ Shlex.isQuote c = true := by
  by_contra hno
  have hmarks : ∀ c ∈ ys, c ≠ '\\' ∧ Shlex.isQuote c = false := by
    intro c hc
    constructor
    · exact fun hback => hno ⟨c, hc, .inl hback⟩
    · rw [Bool.eq_false_iff]
      exact fun hquote => hno ⟨c, hc, .inr hquote⟩
  have hsome : (Shlex.tokens segmentLexer ys).isSome = true := by
    rw [Shlex.tokens, Shlex.isSome_tokensFrom regular_segmentLexer]
    exact Shlex.ends_of_no_marks hmarks (.inl rfl)
  rw [h] at hsome
  cases hsome

/-- The name of a path is not changed by what stands before, when it is not the first
    component. -/
theorem pathName_append {ys : List Char} {c : Char} (hc : c ∈ ys)
    (hname : c ∉ (pathName (String.ofList ys)).toList) (hdot : c ≠ '.') (hslash : c ≠ '/')
    (xs : List Char) : pathName (String.ofList (xs ++ ys)) = pathName (String.ofList ys) := by
  obtain ⟨piece, hpiece, hcpiece⟩ := Str.exists_piece_of_mem hc hslash
  obtain ⟨first, rest, hsplit, head, before, hall⟩ := Str.splitOnChar_append_left '/' xs ys
  let keep : List Char → Bool := fun comp => comp != [] && comp != ['.']
  have hkeep : keep piece = true := by
    have hne : piece ≠ [] := List.ne_nil_of_mem hcpiece
    have hdots : piece ≠ ['.'] := by
      rintro rfl
      exact hdot (List.mem_singleton.mp hcpiece)
    simp [keep, hne, hdots]
  have hpath : ∀ text : List Char, pathName (String.ofList text) =
      String.ofList (((Str.splitOnChar '/' text).filter keep).getLast?.getD []) := by
    intro text
    simp [pathName, keep]
  -- the name is a component after the first one
  have hrest : rest.filter keep ≠ [] := by
    intro hnil
    rw [hsplit] at hpiece
    rcases List.mem_cons.mp hpiece with rfl | hmem
    · rw [hpath, hsplit, List.filter_cons_of_pos hkeep, hnil] at hname
      simp only [List.getLast?_singleton, Option.getD_some, String.toList_ofList] at hname
      exact hname hcpiece
    · have hkept := List.mem_filter.mpr ⟨hmem, hkeep⟩
      rw [hnil] at hkept
      cases hkept
  rw [hpath, hpath, hall, hsplit, ← List.cons_append, List.filter_append,
    show first :: rest = [first] ++ rest from rfl, List.filter_append,
    List.getLast?_append_of_ne_nil _ hrest, List.getLast?_append_of_ne_nil _ hrest]

theorem dropWhile_append_stop {p : Char → Bool} {x : Char} (hx : p x = false) (xs ys : List Char) :
    (xs ++ x :: ys).dropWhile p = xs.dropWhile p ++ x :: ys := by
  induction xs with
  | nil => simp [hx]
  | cons c cs ih =>
    rw [List.cons_append, List.dropWhile_cons, List.dropWhile_cons, ih]
    split <;> rfl

/-- A text with a line break inside is no assignment. -/
theorem isAssignment_line (xs : List Char) {ys : List Char} (hys : ys ≠ []) :
    isAssignment (String.ofList (xs ++ '\n' :: ys)) = false := by
  unfold isAssignment
  rw [String.toList_ofList]
  cases xs with
  | nil => rfl
  | cons c cs =>
    simp only [List.cons_append]
    rw [dropWhile_append_stop (by decide)]
    cases cs.dropWhile isNameChar with
    | nil => exact Bool.and_false _
    | cons d ds =>
      by_cases hd : d = '='
      · subst hd
        simp only [List.cons_append]
        rw [dropWhile_append_stop (by decide)]
        cases ds.dropWhile (· != '\n') with
        | nil => simp [hys]
        | cons e es => simp
      · simp [hd]

/-- A text that cannot be lexed is blocked on a later line as well. -/
theorem blocked_of_unlexable {host : Host} {evaluate : String → String → Decision} {w : String}
    (xs : List Char) {ys : List Char} (hys : Shlex.tokens segmentLexer ys = none)
    (h : (judgeSegments host evaluate w [[String.ofList ys]]).blocked = true)
    (evaluate' : String → String → Decision) (w' : String) :
    (judgeSegments host evaluate' w' [[String.ofList (xs ++ '\n' :: ys)]]).blocked = true := by
  obtain ⟨c, hc, hmark⟩ := exists_mark_of_tokens_eq_none hys
  have hname := volumeRemover_of_blocked h
  have hall : ∀ name ∈ volumeRemovers,
      name.toList.all (fun c => c ≠ '\\' ∧ Shlex.isQuote c = false) = true := by decide
  have hnot : c ∉ (pathName (String.ofList ys)).toList := by
    intro hmem
    obtain ⟨hback, hquote⟩ :=
      List.all_iff_forall_prop.mp (hall _ (by simpa using hname)) c hmem
    rcases hmark with hmark | hmark
    · exact hback hmark
    · rw [hquote] at hmark
      cases hmark
  have hdot : c ≠ '.' := by
    rintro rfl
    exact absurd hmark (by decide)
  have hslash : c ≠ '/' := by
    rintro rfl
    exact absurd hmark (by decide)
  have heq : pathName (String.ofList (xs ++ '\n' :: ys)) = pathName (String.ofList ys) := by
    have := pathName_append hc hnot hdot hslash (xs ++ ['\n'])
    simpa using this
  exact blocked_of_volumeRemover evaluate' w' (by rw [heq]; exact hname)
    (isAssignment_line xs (List.ne_nil_of_mem hc))

/-! ## Lines -/

/-- The guard has read all of a text when the text ends: no here-document waits for its
    delimiter, no substitution for its end, and the lexer takes the next newline as the end
    of the segment. -/
def readToEnd (host : Host) (command : String) : Bool :=
  heredocsClosed host command.toList &&
    settled (keptText host command.toList) &&
    substitutionsClosed (keptText host command.toList)

/-- A command is blocked in every working directory. -/
def BlockedEverywhere (host : Host) (command : String) : Prop :=
  ∀ cwd, isAbsolute (workingDirectory host cwd) = true →
    (evaluateIrreversibleCommand host command cwd).blocked = true

theorem toList_lines (c₁ c₂ : String) :
    (c₁ ++ "\n" ++ c₂).toList = c₁.toList ++ '\n' :: c₂.toList := by
  simp

section

variable {host : Host} {c₁ : String} (h : readToEnd host c₁ = true) (c₂ : String)

include h

theorem kept_lines : (splitHeredocs host (c₁ ++ "\n" ++ c₂).toList).1 =
    keptText host c₁.toList ++ '\n' :: keptText host c₂.toList := by
  simp only [readToEnd, Bool.and_eq_true] at h
  rw [splitHeredocs_eq, toList_lines, keptText_append h.1.1]

/-- The nested texts of the last line are nested texts of the whole. -/
theorem nestedTexts_lines {text : String} (htext : text ∈ nestedTexts host c₂) :
    text ∈ nestedTexts host (c₁ ++ "\n" ++ c₂) := by
  have hkept := kept_lines h c₂
  simp only [readToEnd, Bool.and_eq_true] at h
  have hbodies : (splitHeredocs host (c₁ ++ "\n" ++ c₂).toList).2.1 =
      (readLines host c₁.toList).shellBodies ++ (readLines host c₂.toList).finish.shellBodies := by
    rw [splitHeredocs_eq, toList_lines, shellBodies_append h.1.1]
  unfold nestedTexts at htext ⊢
  rw [hkept, hbodies, substitutions_append h.2]
  rw [splitHeredocs_eq] at htext
  simp only [List.map_append, List.mem_append] at htext ⊢
  rcases htext with htext | htext
  · exact .inl (.inr htext)
  · exact .inr (.inr htext)

/-- Segments that are blocked in every directory are blocked after those of an earlier
    line. -/
theorem judgeSegments_lines {evaluate : String → String → Decision}
    (hsegments : ∀ w, isAbsolute w = true →
      (judgeSegments host evaluate w (commandSegments host c₂)).blocked = true)
    {w : String} (hw : isAbsolute w = true) :
    (judgeSegments host evaluate w (commandSegments host (c₁ ++ "\n" ++ c₂))).blocked = true := by
  have hkept := kept_lines h c₂
  have hkept₂ : (splitHeredocs host c₂.toList).1 = keptText host c₂.toList := by
    rw [splitHeredocs_eq]
  simp only [readToEnd, Bool.and_eq_true] at h
  unfold commandSegments at hsegments ⊢
  rw [hkept]
  rw [hkept₂] at hsegments
  rcases segments_settled h.1.2 (keptText host c₂.toList) with ⟨before, hbefore⟩ | ⟨hall, halone, hnone⟩
  · rw [hbefore, List.map_append]
    exact judgeSegments_append hsegments _ hw
  · rw [halone] at hsegments
    rw [hall]
    exact blocked_of_unlexable _ hnone (hsegments w hw) evaluate w

end

/-- A command that is blocked in every directory is blocked in every directory after a
    command list that the guard reads to its end. -/
theorem blockedEverywhere_lines (host : Host) (c₁ c₂ : String) (h : readToEnd host c₁ = true)
    (hblocked : BlockedEverywhere host c₂) : BlockedEverywhere host (c₁ ++ "\n" ++ c₂) := by
  intro cwd hcwd
  have hlen : c₂.length ≤ (c₁ ++ "\n" ++ c₂).length := by
    simp only [String.length_append]
    omega
  have hrec := evaluateTo_carried host hlen
  -- one directory deep enough for the nested texts and the segments of `c₂`
  obtain ⟨n, hn⟩ := nested_carried hrec (nestedTexts host c₂)
  obtain ⟨m, hm⟩ := judgeSegments_carried hrec (commandSegments host c₂)
  have htracks : ∀ {w : String}, isAbsolute w = true → Tracks host (max n m) (deep host (max n m) []) w :=
    fun hw => .deep le_rfl (by simp) hw List.nil_prefix
  have hdir : workingDirectory host (some (deep host (max n m) [])) = deep host (max n m) [] :=
    workingDirectory_deep host _ (by simp)
  have hdeep := hblocked (some (deep host (max n m) []))
    (by rw [hdir]; exact isAbsolute_deep host _ _)
  unfold evaluateIrreversibleCommand at hdeep ⊢
  rw [hdir, judge_blocked_iff] at hdeep
  rw [judge_blocked_iff]
  rcases hdeep with hnested | hsegments
  · obtain ⟨text, htext, hfound⟩ := hn _ _ ((htracks hcwd).mono (le_max_left n m)) hnested
    exact .inl ⟨text, nestedTexts_lines h c₂ htext, hfound⟩
  · right
    refine judgeSegments_lines h c₂ (fun w hw => ?_) hcwd
    exact hm _ _ ((htracks hw).mono (le_max_right n m)) hsegments

/-- A host with one home directory. -/
def agentHost : Host where
  users := ⟨"/home/agent", fun _ => none⟩
  getcwd := "/srv/workspaces/projects/summitflow"
  unicodeWord := fun _ => false

theorem forcePush_blockedEverywhere :
    BlockedEverywhere agentHost "git push --force origin main" := by
  intro cwd _
  have hsegments : commandSegments agentHost "git push --force origin main" =
      [["git", "push", "--force", "origin", "main"]] := by decide +kernel
  unfold evaluateIrreversibleCommand
  rw [judge_blocked_iff, hsegments]
  right
  -- a force push to main is refused before the directory is looked at
  generalize workingDirectory agentHost cwd = w
  rfl

/-- A comment on a line of its own, and a `#` in quotes. -/
theorem blockedEverywhere_after_comment_line :
    readToEnd agentHost "echo 'a # b'\n# note" = true ∧
      BlockedEverywhere agentHost
        ("echo 'a # b'\n# note" ++ "\n" ++ "git push --force origin main") :=
  ⟨by decide +kernel,
    blockedEverywhere_lines agentHost _ _ (by decide +kernel) forcePush_blockedEverywhere⟩

/-- A comment after words takes the newline that ends its line, and the command on the next
    line becomes arguments of `echo`. -/
theorem comment_hides_next_line :
    BlockedEverywhere agentHost "git push --force origin main" ∧
      ¬ BlockedEverywhere agentHost
        ("echo ok # note" ++ "\n" ++ "git push --force origin main") := by
  constructor
  · exact forcePush_blockedEverywhere
  · intro h
    exact absurd (h none (by decide)) (by decide +kernel)

end SummitFlow.Guard
