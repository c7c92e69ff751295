import Mathlib
import SummitFlow.ForStd.Descent
import SummitFlow.Spec.GuardLocality
import SummitFlow.Spec.GuardText

/-!
# The recursion of the guard

Every command the guard judges inside another one is shorter than it: a here-document's
body, a substitution, the argument of `bash -c`, the words of `eval` and a remote command.
So the depth `evaluate_irreversible_command` is given suffices, and the function satisfies
the equation of the source, in which it calls itself.
-/

namespace SummitFlow.Guard

/-! ## Weights -/

/-- The length of some words with one character after each. -/
def weight (words : List (List Char)) : Nat := (words.map (·.length + 1)).sum

@[simp] theorem weight_nil : weight [] = 0 := rfl

@[simp] theorem weight_cons (word : List Char) (words : List (List Char)) :
    weight (word :: words) = word.length + 1 + weight words := by
  simp [weight]

@[simp] theorem weight_append (words more : List (List Char)) :
    weight (words ++ more) = weight words + weight more := by
  simp [weight]

theorem weight_le_of_sublist {words more : List (List Char)} (h : words.Sublist more) :
    weight words ≤ weight more := by
  induction h with
  | slnil => exact Nat.le_refl 0
  | cons word _ ih =>
    rw [weight_cons]
    omega
  | cons_cons word _ ih =>
    rw [weight_cons, weight_cons]
    omega

theorem length_lt_weight {word : List Char} {words : List (List Char)} (h : word ∈ words) :
    word.length < weight words := by
  have hle := weight_le_of_sublist (List.singleton_sublist.mpr h)
  rw [weight_cons, weight_nil] at hle
  omega

/-- Joined words are shorter than their weight, when there are any. -/
theorem length_intercalate (sep : Char) {words : List (List Char)} (h : words ≠ []) :
    ([sep].intercalate words).length + 1 = weight words := by
  induction words with
  | nil => exact absurd rfl h
  | cons word words ih =>
    cases words with
    | nil => simp [List.intercalate]
    | cons next words =>
      have hjoin : [sep].intercalate (word :: next :: words) =
          word ++ sep :: [sep].intercalate (next :: words) := by
        simp [List.intercalate, List.intersperse]
      have htail := ih (by simp)
      rw [hjoin, weight_cons, List.length_append, List.length_cons]
      omega

theorem length_intercalate_le (sep : Char) (words : List (List Char)) :
    ([sep].intercalate words).length ≤ weight words := by
  by_cases h : words = []
  · simp [h, List.intercalate]
  · have := length_intercalate sep h
    omega

theorem weight_splitOnChar (sep : Char) (text : List Char) :
    weight (Str.splitOnChar sep text) = text.length + 1 := by
  induction text with
  | nil => rfl
  | cons c cs ih =>
    rw [Str.splitOnChar]
    cases hcs : Str.splitOnChar sep cs with
    | nil => exact absurd hcs (Str.splitOnChar_ne_nil sep cs)
    | cons piece pieces =>
      rw [hcs, weight_cons] at ih
      dsimp only
      split
      · rw [weight_cons, weight_cons, List.length_nil, List.length_cons]
        omega
      · rw [weight_cons, List.length_cons, List.length_cons]
        omega

/-! ## Substitutions -/

theorem length_scanSubstitutions {skip : Nat} {text body : List Char}
    (h : body ∈ scanSubstitutions skip text) : body.length + 2 ≤ text.length := by
  fun_induction scanSubstitutions skip text with
  | case1 => cases h
  | case2 skip c cs ih =>
    have := ih h
    rw [List.length_cons]
    omega
  | case3 c cs found hfound ih =>
    have hlen := substitutionAt_length hfound
    have hmarks : 2 ≤ substitutionMarks (c :: cs) := by
      unfold substitutionMarks
      split <;> omega
    rw [List.length_cons]
    rcases List.mem_cons.mp h with rfl | hmem
    · omega
    · have := ih hmem
      omega
  | case4 c cs hnone ih =>
    have := ih h
    rw [List.length_cons]
    omega

/-! ## Here-documents -/

/-- The lines read so far pay for the lines kept and for the bodies found. -/
structure HeredocState.Paid (lines : List (List Char)) (s : HeredocState) : Prop where
  room : weight s.kept + weight s.body ≤ weight lines
  open_line : s.pending ≠ [] → 2 ≤ weight s.kept
  bodies : ∀ body ∈ s.shellBodies, body.length + 2 ≤ weight lines

theorem HeredocState.Paid.close {lines : List (List Char)} {s : HeredocState} (h : s.Paid lines)
    (hkept : 2 ≤ weight s.kept) (heredoc : Heredoc) (kind : Consumer)
    (rest : List (Heredoc × Consumer)) : (s.close heredoc kind rest).Paid lines := by
  have hlines := h.room
  have htext := length_intercalate_le '\n' s.body
  have hbody : (['\n'].intercalate s.body).length + 2 ≤ weight lines := by omega
  constructor
  · show weight s.kept + weight [] ≤ weight lines
    rw [weight_nil]
    omega
  · exact fun _ => hkept
  · intro body hmem
    unfold HeredocState.close at hmem
    simp only [List.mem_append] at hmem
    rcases hmem with hmem | hmem | hmem
    · exact h.bodies body hmem
    · split at hmem
      · have := length_scanSubstitutions hmem
        omega
      · cases hmem
    · split at hmem
      · rw [List.mem_singleton.mp hmem]
        exact hbody
      · cases hmem

theorem announced_nil (host : Host) : announced host [] = [] := rfl

theorem HeredocState.Paid.line (host : Host) {lines : List (List Char)} {s : HeredocState}
    (h : s.Paid lines) (l : List Char) : (s.line host l).Paid (lines ++ [l]) := by
  have hlines := h.room
  have hmore : s.Paid (lines ++ [l]) := by
    refine ⟨?_, h.open_line, fun body hbody => ?_⟩
    · rw [weight_append]
      omega
    · have := h.bodies body hbody
      rw [weight_append]
      omega
  unfold HeredocState.line
  cases hpending : s.pending with
  | nil =>
    refine ⟨?_, fun hne => ?_, hmore.bodies⟩
    · show weight (s.kept ++ [l]) + weight s.body ≤ weight (lines ++ [l])
      rw [weight_append, weight_append]
      omega
    · -- a line that announces a here-document has a character
      show 2 ≤ weight (s.kept ++ [l])
      cases l with
      | nil => exact absurd (announced_nil host) hne
      | cons c cs =>
        rw [weight_append, weight_cons, List.length_cons]
        omega
  | cons p rest =>
    obtain ⟨heredoc, kind⟩ := p
    have hopen : 2 ≤ weight s.kept := h.open_line (by simp [hpending])
    dsimp only
    split
    · have hkept : HeredocState.Paid (lines ++ [l]) { s with kept := s.kept ++ [l] } := by
        refine ⟨?_, fun _ => ?_, hmore.bodies⟩
        · show weight (s.kept ++ [l]) + weight s.body ≤ weight (lines ++ [l])
          rw [weight_append, weight_append]
          omega
        · show 2 ≤ weight (s.kept ++ [l])
          rw [weight_append]
          omega
      exact hkept.close (hkept.open_line (by simp [hpending])) heredoc kind rest
    · refine ⟨?_, fun _ => hopen, hmore.bodies⟩
      show weight s.kept + weight (s.body ++ [l]) ≤ weight (lines ++ [l])
      rw [weight_append, weight_append]
      omega

theorem HeredocState.Paid.foldl_line (host : Host) {before : List (List Char)} {s : HeredocState}
    (h : s.Paid before) (lines : List (List Char)) :
    (lines.foldl (HeredocState.line host) s).Paid (before ++ lines) := by
  induction lines generalizing before s with
  | nil => simpa using h
  | cons l lines ih =>
    have := ih (h.line host l)
    rwa [List.append_assoc] at this

theorem HeredocState.Paid.finish {lines : List (List Char)} {s : HeredocState} (h : s.Paid lines) :
    s.finish.Paid lines := by
  have hfold : ∀ (pending : List (Heredoc × Consumer)) (s : HeredocState), s.Paid lines →
      (pending ≠ [] → 2 ≤ weight s.kept) →
      (pending.foldl (fun s p => s.close p.1 p.2 []) s).Paid lines := by
    intro pending
    induction pending with
    | nil => exact fun _ hs _ => hs
    | cons p pending ih =>
      intro s hs hkept
      exact ih _ (hs.close (hkept (by simp)) p.1 p.2 []) (fun _ => hkept (by simp))
  exact hfold s.pending s h h.open_line

theorem readLines_paid (host : Host) (text : List Char) :
    (readLines host text).Paid (Str.splitOnChar '\n' text) := by
  have hinitial : HeredocState.initial.Paid [] := ⟨Nat.le_refl 0, by simp [HeredocState.initial],
    by simp [HeredocState.initial]⟩
  exact hinitial.foldl_line host _

/-- The command without bodies is no longer than the command. -/
theorem length_keptText (host : Host) (text : List Char) :
    (keptText host text).length ≤ text.length := by
  have hpaid := (readLines_paid host text).room
  have hjoin := length_intercalate '\n' (readLines_kept_ne_nil host text)
  rw [weight_splitOnChar] at hpaid
  unfold keptText
  omega

/-- A nested text is shorter than its command. -/
theorem length_nestedTexts {host : Host} {command text : String}
    (h : text ∈ nestedTexts host command) : text.length < command.length := by
  have hlen : command.toList.length = command.length := String.length_toList
  unfold nestedTexts at h
  rw [splitHeredocs_eq] at h
  obtain ⟨chars, hchars, rfl⟩ := List.mem_map.mp h
  rw [String.length_ofList]
  rcases List.mem_append.mp hchars with hbody | hbody
  · have := (readLines_paid host command.toList).finish.bodies chars hbody
    rw [weight_splitOnChar] at this
    omega
  · have hsub : chars.length + 2 ≤ (keptText host command.toList).length :=
      length_scanSubstitutions hbody
    have hkept := length_keptText host command.toList
    omega

/-! ## Segments -/

/-- A separator weighs nothing. -/
def wordWeight (token : List Char) : Nat := if isSeparator token then 0 else token.length + 1

/-- The characters of the token a state has read. -/
def held : Shlex.State → Nat
  | .blank | .punct _ | .comment => 0
  | .word token | .quote _ token | .escape token => token.length
  | .quotedEscape _ token => token.length + 1

theorem wordWeight_le (token : List Char) : wordWeight token ≤ token.length + 1 := by
  unfold wordWeight
  split <;> omega

theorem held_stepBlank (c : Char) : held (Shlex.stepBlank segmentLexer c) ≤ 1 := by
  unfold Shlex.stepBlank
  repeat' split
  all_goals simp [held]

/-- A character pays for the token it ends or for its place in a token. -/
theorem held_step {st : Shlex.State} (h : InSeparator st) (c : Char) :
    ((Shlex.step segmentLexer st c).1.toList.map wordWeight).sum +
      held (Shlex.step segmentLexer st c).2 ≤ held st + 1 := by
  have hblank := held_stepBlank c
  cases st with
  | blank => simpa [Shlex.step, held] using hblank
  | word token =>
    have hword := wordWeight_le token
    have hends : ∀ st', held st' = 0 →
        (((some token).toList.map wordWeight).sum + held st' ≤ token.length + 1) := by
      intro st' hst'
      rw [hst']
      simpa using hword
    show ((Shlex.stepWord segmentLexer token c).1.toList.map wordWeight).sum +
      held (Shlex.stepWord segmentLexer token c).2 ≤ token.length + 1
    unfold Shlex.stepWord
    split
    · exact hends .blank rfl
    · split
      · exact hends .comment rfl
      · split
        · simp [held]
        · split
          · simp [held]
          · split
            · next hc => exact hends _ (by rw [stepBlank_mem hc]; rfl)
            · simp [held]
  | punct token =>
    have hends : ∀ st', held st' ≤ 1 →
        (((some token).toList.map wordWeight).sum + held st' ≤ 0 + 1) := by
      intro st' hst'
      have hsep : wordWeight token = 0 := by simp [wordWeight, h token rfl]
      simpa [hsep] using hst'
    show ((Shlex.stepPunct segmentLexer token c).1.toList.map wordWeight).sum +
      held (Shlex.stepPunct segmentLexer token c).2 ≤ 0 + 1
    unfold Shlex.stepPunct
    split
    · exact hends .blank (Nat.zero_le 1)
    · split
      · exact hends .comment (Nat.zero_le 1)
      · split
        · exact Nat.zero_le 1
        · exact hends _ hblank
  | quote mark token =>
    simp only [Shlex.step]
    repeat' split
    all_goals simp [held]
  | escape token => simp [Shlex.step, held]
  | quotedEscape mark token =>
    simp only [Shlex.step]
    split
    all_goals simp [held]
  | comment =>
    simp only [Shlex.step]
    split
    all_goals simp [held]

theorem held_scan {st : Shlex.State} (h : InSeparator st) (text : List Char) :
    ((Shlex.scan segmentLexer st text).1.map wordWeight).sum +
      held (Shlex.scan segmentLexer st text).2 ≤ held st + text.length := by
  induction text generalizing st with
  | nil => simp [Shlex.scan]
  | cons c cs ih =>
    have hstep := held_step h c
    have hrest := ih (h.step c)
    simp only [Shlex.scan, List.map_append, List.sum_append, List.length_cons]
    omega

/-- The words of a text with one character after each are as long as the text, or longer
    by the one after the last word. -/
theorem words_tokens {text : List Char} {tokens : List (List Char)}
    (h : Shlex.tokens segmentLexer text = some tokens) :
    (tokens.map wordWeight).sum ≤ text.length + 1 := by
  have hscan := held_scan InSeparator.blank text
  have hlast : ∀ last, Shlex.finish (Shlex.scan segmentLexer .blank text).2 = some last →
      (last.map wordWeight).sum ≤ held (Shlex.scan segmentLexer .blank text).2 + 1 := by
    have hpunct := InSeparator.blank.scan text
    intro last hfinish
    generalize (Shlex.scan segmentLexer .blank text).2 = st at hfinish hpunct ⊢
    cases st with
    | word token =>
      cases hfinish
      have := wordWeight_le token
      simpa [held] using this
    | punct token =>
      cases hfinish
      simp [wordWeight, hpunct token rfl]
    | blank => cases hfinish; exact Nat.zero_le _
    | comment => cases hfinish; exact Nat.zero_le _
    | quote mark token => cases hfinish
    | escape token => cases hfinish
    | quotedEscape mark token => cases hfinish
  rw [Shlex.tokens, Shlex.tokensFrom_eq, Option.map_eq_some_iff] at h
  obtain ⟨last, hfinish, rfl⟩ := h
  have := hlast last hfinish
  simp only [List.map_append, List.sum_append]
  rw [show held .blank = 0 from rfl] at hscan
  omega

theorem weight_groupTokens {current tokens group : List (List Char)}
    (h : group ∈ groupTokens isSeparator current tokens) :
    weight group ≤ weight current + (tokens.map wordWeight).sum := by
  induction tokens generalizing current with
  | nil =>
    rw [groupTokens] at h
    split at h
    · cases h
    · rw [List.mem_singleton.mp h]
      exact Nat.le_add_right _ _
  | cons token tokens ih =>
    rw [groupTokens] at h
    rw [List.map_cons, List.sum_cons]
    split at h
    · split at h
      · have := ih h
        rw [weight_nil] at this
        omega
      · rcases List.mem_cons.mp h with rfl | hmem
        · omega
        · have := ih hmem
          rw [weight_nil] at this
          omega
    · next hsep =>
      have := ih h
      have hword : wordWeight token = token.length + 1 := by simp [wordWeight, hsep]
      rw [weight_append, weight_cons, weight_nil] at this
      omega

theorem weight_trimLast (p : Char → Bool) (words : List (List Char)) (h : words ≠ []) :
    weight (words.dropLast ++ [(words.getLast?.getD []).rdropWhile p]) ≤ weight words := by
  have hlast : words.getLast?.getD [] = words.getLast h := by
    rw [List.getLast?_eq_some_getLast h, Option.getD_some]
  have hsplit : weight words.dropLast + ((words.getLast h).length + 1) = weight words := by
    conv_rhs => rw [← List.dropLast_append_getLast h]
    rw [weight_append, weight_cons, weight_nil, Nat.add_zero]
  have htrim := (List.rdropWhile_prefix p (l := words.getLast h)).length_le
  rw [hlast, weight_append, weight_cons, weight_nil]
  omega

/-- Cleaning a segment does not add to it. -/
theorem weight_cleanSegment {segment cleaned : List (List Char)}
    (h : cleanSegment segment = some cleaned) : weight cleaned ≤ weight segment := by
  have hdrop := weight_le_of_sublist (List.dropWhile_sublist
    (fun token => token == ['('] || token == ['{'] || token == ['!']) (l := segment))
  unfold cleanSegment at h
  cases hrest : segment.dropWhile fun token => token == ['('] || token == ['{'] || token == ['!'] with
  | nil =>
    rw [hrest] at h
    cases h
  | cons first rest =>
    rw [hrest] at h
    rw [hrest, weight_cons] at hdrop
    dsimp only at h
    have hfirst := (List.dropWhile_sublist (fun c => c == '(' || c == '{') (l := first)).length_le
    have htrim := weight_trimLast (fun c => c == ')' || c == '}')
      (first.dropWhile (fun c => c == '(' || c == '{') :: rest) (by simp)
    rw [weight_cons] at htrim
    split at h
    · cases h
      omega
    · cases h
      have hfilter := weight_le_of_sublist (List.filter_sublist (p := (· ≠ [])) (l :=
        (first.dropWhile (fun c => c == '(' || c == '{') :: rest).dropLast ++
          [((first.dropWhile (fun c => c == '(' || c == '{') :: rest).getLast?.getD []).rdropWhile
            fun c => c == ')' || c == '}']))
      exact hfilter.trans (htrim.trans (by omega))

/-- A segment with one character after each word is no longer than its command. -/
theorem weight_segments {text : List Char} {segment : List (List Char)}
    (h : segment ∈ segments text) : weight segment ≤ text.length + 1 := by
  cases htokens : Shlex.tokens segmentLexer text with
  | none =>
    rw [segments_of_tokens_eq_none htokens] at h
    rw [List.mem_singleton.mp h, weight_cons, weight_nil]
  | some tokens =>
    unfold segments at h
    rw [htokens] at h
    obtain ⟨group, hgroup, hclean⟩ := List.mem_filterMap.mp h
    have hwords := words_tokens htokens
    have hweight := weight_groupTokens hgroup
    have hcleaned := weight_cleanSegment hclean
    rw [weight_nil] at hweight
    omega

/-! ## Wrappers -/

theorem skipAssigned_suffix (valueOptions args : List String) :
    skipAssigned valueOptions args <:+ args := by
  fun_induction skipAssigned valueOptions args with
  | case1 => exact List.suffix_rfl
  | case2 | case3 => exact List.nil_suffix
  | case4 => exact List.suffix_rfl
  | case5 => exact List.suffix_cons _ _
  | case6 t value rest _ _ ih => exact ih.trans ((List.suffix_cons _ _).trans (List.suffix_cons _ _))
  | case7 t value rest _ _ _ ih => exact ih.trans (List.suffix_cons _ _)
  | case8 => exact List.suffix_rfl

theorem skipExec_suffix (args : List String) : skipExec args <:+ args := by
  fun_induction skipExec args with
  | case1 => exact List.suffix_rfl
  | case2 => exact List.nil_suffix
  | case3 => exact List.suffix_rfl
  | case4 => exact List.suffix_cons _ _
  | case5 t value rest _ _ _ ih => exact ih.trans ((List.suffix_cons _ _).trans (List.suffix_cons _ _))
  | case6 t value rest _ _ _ ih => exact ih.trans (List.suffix_cons _ _)
  | case7 => exact List.suffix_rfl

theorem skipUvOptions_suffix (args : List String) : skipUvOptions args <:+ args := by
  fun_induction skipUvOptions args with
  | case1 => exact List.suffix_rfl
  | case2 => exact List.nil_suffix
  | case3 => exact List.suffix_rfl
  | case4 => exact List.suffix_cons _ _
  | case5 t value rest _ _ _ ih => exact ih.trans ((List.suffix_cons _ _).trans (List.suffix_cons _ _))
  | case6 t value rest _ _ _ ih => exact ih.trans (List.suffix_cons _ _)
  | case7 => exact List.suffix_rfl

theorem skipWrapperOptions_suffix (args : List String) : skipWrapperOptions args <:+ args := by
  fun_induction skipWrapperOptions args with
  | case1 => exact List.suffix_rfl
  | case2 => exact List.nil_suffix
  | case3 => exact List.suffix_rfl
  | case4 t value rest _ _ ih => exact ih.trans ((List.suffix_cons _ _).trans (List.suffix_cons _ _))
  | case5 t value rest _ _ ih => exact ih.trans (List.suffix_cons _ _)
  | case6 => exact List.suffix_rfl

theorem skipXargs_suffix (args : List String) : skipXargs args <:+ args := by
  fun_induction skipXargs args with
  | case1 => exact List.suffix_rfl
  | case2 => exact List.nil_suffix
  | case3 => exact List.suffix_rfl
  | case4 t value rest _ _ ih => exact ih.trans ((List.suffix_cons _ _).trans (List.suffix_cons _ _))
  | case5 t value rest _ _ ih => exact ih.trans (List.suffix_cons _ _)
  | case6 => exact List.suffix_rfl

theorem skipSsh_suffix (args : List String) : skipSsh args <:+ args := by
  fun_induction skipSsh args with
  | case1 => exact List.suffix_rfl
  | case2 => exact List.nil_suffix
  | case3 => exact List.suffix_rfl
  | case4 => exact List.suffix_cons _ _
  | case5 t value rest _ _ _ ih => exact ih.trans ((List.suffix_cons _ _).trans (List.suffix_cons _ _))
  | case6 t value rest _ _ _ ih => exact ih.trans (List.suffix_cons _ _)
  | case7 => exact List.suffix_rfl

theorem uvCommand_suffix {args rest : List String} (h : uvCommand args = some rest) :
    rest <:+ args := by
  have hskip := skipUvOptions_suffix args
  unfold uvCommand at h
  split at h
  · next words heq =>
    cases h
    rw [heq] at hskip
    exact ((skipUvOptions_suffix words).trans (List.suffix_cons _ _)).trans hskip
  · next words heq =>
    rw [heq] at hskip
    have hwords := skipUvOptions_suffix words
    split at h
    · next words' heq' =>
      cases h
      rw [heq'] at hwords
      exact (((skipUvOptions_suffix words').trans (List.suffix_cons _ _)).trans hwords).trans
        ((List.suffix_cons _ _).trans hskip)
    · cases h
  · cases h

/-- A wrapper with its options stands before the command it runs. -/
theorem unwrapOnce_suffix {lead : String} {args rest : List String}
    (h : unwrapOnce lead args = some rest) : rest <:+ args := by
  unfold unwrapOnce at h
  split at h
  · cases h
    exact skipAssigned_suffix _ _
  · split at h
    · cases h
      exact skipAssigned_suffix _ _
    · split at h
      · cases h
        exact List.suffix_rfl
      · split at h
        · cases h
          exact skipExec_suffix _
        · split at h
          · exact uvCommand_suffix h
          · split at h
            · cases h
              exact skipUvOptions_suffix _
            · split at h
              · cases h
                exact (List.drop_suffix 1 _).trans (skipWrapperOptions_suffix _)
              · split at h
                · cases h
                  exact skipWrapperOptions_suffix _
                · cases h

theorem unwrapLoop_suffix (n : Nat) (tokens : List String) (privileged : Bool) :
    (unwrapLoop n tokens privileged).1 <:+ tokens := by
  fun_induction unwrapLoop n tokens privileged with
  | case1 => exact List.suffix_rfl
  | case2 => exact List.suffix_rfl
  | case3 n privileged token args lead rest hrest ih =>
    exact ih.trans ((unwrapOnce_suffix hrest).trans (List.suffix_cons _ _))
  | case4 => exact List.suffix_rfl

theorem unwrapSegment_suffix (segment : List String) : unwrapSegment segment <:+ segment :=
  (unwrapLoop_suffix _ _ _).trans (List.dropWhile_suffix _)

theorem unwrapKeywords_suffix (n : Nat) (args : List String) : unwrapKeywords n args <:+ args := by
  fun_induction unwrapKeywords n args with
  | case1 => exact List.suffix_rfl
  | case2 => exact List.suffix_rfl
  | case3 n arg args _ ih => exact ih.trans ((unwrapSegment_suffix _).trans (List.suffix_cons _ _))
  | case4 n arg args _ _ ih =>
    exact ih.trans (((unwrapSegment_suffix _).trans (skipXargs_suffix _)).trans (List.suffix_cons _ _))
  | case5 => exact List.suffix_rfl

theorem unwrap_suffix (segment : List String) : unwrap segment <:+ segment :=
  (unwrapKeywords_suffix _ _).trans (unwrapSegment_suffix segment)

/-! ## Nested commands -/

theorem weight_map_toList_le {args more : List String} (h : args <:+ more) :
    weight (args.map String.toList) ≤ weight (more.map String.toList) :=
  weight_le_of_sublist (h.sublist.map _)

theorem length_joined {args : List String} (h : args ≠ []) :
    (" ".intercalate args).length < weight (args.map String.toList) := by
  have hne : args.map String.toList ≠ [] := mt List.map_eq_nil_iff.mp h
  have hjoin := length_intercalate ' ' hne
  rw [← String.length_toList, String.toList_intercalate]
  show ([' '].intercalate (args.map String.toList)).length < _
  omega

theorem shellExecArgs_mem {args : List String} {value : String}
    (h : shellExecArgs args = some value) : value ∈ args := by
  fun_induction shellExecArgs args with
  | case1 => cases h
  | case2 => cases h
  | case3 value' rest =>
    cases h
    simp
  | case4 arg value' rest _ _ =>
    cases h
    simp
  | case5 arg value' rest _ _ ih => exact List.mem_cons_of_mem _ (ih h)

/-- The command a `bash -c` or `eval` segment runs leaves out the first word. -/
theorem length_nestedCommand {executable : String} {args : List String} {nested : String}
    (h : nestedCommand executable args = some nested) :
    nested.length < weight ((args.drop 1).map String.toList) := by
  unfold nestedCommand at h
  split at h
  · dsimp only at h
    split at h
    · cases h
    · next hne =>
      cases h
      apply length_joined
      intro hnil
      rw [hnil] at hne
      exact hne rfl
  · have hmem := List.mem_map_of_mem (f := String.toList) (shellExecArgs_mem h)
    have hlt := length_lt_weight hmem
    rw [String.length_toList] at hlt
    exact hlt

theorem length_sshRemoteCommand {args : List String} {remote : String}
    (h : sshRemoteCommand args = some remote) :
    remote.length < weight ((args.drop 1).map String.toList) := by
  have hsuffix : (skipSsh (args.drop 1)).drop 1 <:+ args.drop 1 :=
    (List.drop_suffix 1 _).trans (skipSsh_suffix _)
  unfold sshRemoteCommand at h
  split at h
  · cases h
  · next hne =>
    cases h
    exact (length_joined hne).trans_le (weight_map_toList_le hsuffix)

/-! ## The calls of a command -/

/-- The command that a shell or `eval` runs in a segment. -/
def shellTexts (segment : List String) : List String :=
  match unwrap segment with
  | [] => []
  | arg :: rest =>
    if shellExecutables.contains (executableOf arg) || executableOf arg == "eval" then
      (nestedCommand (executableOf arg) (arg :: rest)).toList
    else []

/-- The command that a segment sends to another host. -/
def remoteTexts (segment : List String) : List String :=
  match unwrap segment with
  | [] => []
  | arg :: rest => if executableOf arg = "ssh" then (sshRemoteCommand (arg :: rest)).toList else []

/-- The texts `evaluate_irreversible_command` calls itself on. -/
def irreversibleCalls (host : Host) (command : String) : List String :=
  nestedTexts host command ++
    (commandSegments host command).flatMap fun segment => shellTexts segment ++ remoteTexts segment

theorem weight_commandSegments {host : Host} {command : String} {segment : List String}
    (h : segment ∈ commandSegments host command) :
    weight (segment.map String.toList) ≤ command.length + 1 := by
  unfold commandSegments at h
  rw [splitHeredocs_eq] at h
  obtain ⟨chars, hchars, rfl⟩ := List.mem_map.mp h
  have hweight := weight_segments hchars
  have hkept := length_keptText host command.toList
  rw [String.length_toList] at hkept
  rw [List.map_map, show String.toList ∘ String.ofList = id from funext fun _ => String.toList_ofList,
    List.map_id]
  dsimp only at hweight
  omega

/-- What a segment runs leaves out its first word. -/
theorem length_shellTexts {segment : List String} {text : String} (h : text ∈ shellTexts segment) :
    text.length + 1 < weight (segment.map String.toList) := by
  have hsuffix := weight_map_toList_le (unwrap_suffix segment)
  unfold shellTexts at h
  cases hunwrap : unwrap segment with
  | nil =>
    rw [hunwrap] at h
    cases h
  | cons arg rest =>
    rw [hunwrap, List.map_cons, weight_cons] at hsuffix
    rw [hunwrap] at h
    dsimp only at h
    split at h
    · have hlt := length_nestedCommand (Option.mem_toList.mp h)
      rw [List.drop_one, List.tail_cons] at hlt
      omega
    · cases h

theorem length_remoteTexts {segment : List String} {text : String}
    (h : text ∈ remoteTexts segment) : text.length + 1 < weight (segment.map String.toList) := by
  have hsuffix := weight_map_toList_le (unwrap_suffix segment)
  unfold remoteTexts at h
  cases hunwrap : unwrap segment with
  | nil =>
    rw [hunwrap] at h
    cases h
  | cons arg rest =>
    rw [hunwrap, List.map_cons, weight_cons] at hsuffix
    rw [hunwrap] at h
    dsimp only at h
    split at h
    · have hlt := length_sshRemoteCommand (Option.mem_toList.mp h)
      rw [List.drop_one, List.tail_cons] at hlt
      omega
    · cases h

/-- Every text a command calls for is shorter than the command. -/
theorem length_irreversibleCalls {host : Host} {command text : String}
    (h : text ∈ irreversibleCalls host command) : text.length < command.length := by
  rcases List.mem_append.mp h with htext | htext
  · exact length_nestedTexts htext
  · obtain ⟨segment, hsegment, hmem⟩ := List.mem_flatMap.mp htext
    have hweight := weight_commandSegments hsegment
    rcases List.mem_append.mp hmem with hshell | hremote
    · have := length_shellTexts hshell
      omega
    · have := length_remoteTexts hremote
      omega

section

variable {host : Host} {evaluate evaluate' : String → String → Decision}

/-- A segment asks for the judgement of its own texts only. -/
theorem judgeSegment_congr {segment : List String}
    (h : ∀ text ∈ shellTexts segment ++ remoteTexts segment, ∀ w,
      evaluate text w = evaluate' text w) (w : String) :
    judgeSegment host evaluate w segment = judgeSegment host evaluate' w segment := by
  unfold judgeSegment
  unfold shellTexts remoteTexts at h
  cases hunwrap : unwrap segment with
  | nil => rfl
  | cons arg rest =>
    rw [hunwrap] at h
    dsimp only at h ⊢
    split
    · rfl
    · split
      · next hshell =>
        rw [if_pos hshell] at h
        cases hnested : nestedCommand (executableOf arg) (arg :: rest) with
        | none => rfl
        | some nested =>
          rw [hnested] at h
          dsimp only
          rw [h nested (List.mem_append_left _ List.mem_cons_self) w]
      · split
        · next hssh =>
          rw [if_pos hssh] at h
          cases hremote : sshRemoteCommand (arg :: rest) with
          | none => rfl
          | some remote =>
            rw [hremote] at h
            dsimp only
            rw [h remote (List.mem_append_right _ List.mem_cons_self) remoteCwd]
        · rfl

theorem judgeSegments_congr {segs : List (List String)}
    (h : ∀ text ∈ segs.flatMap fun segment => shellTexts segment ++ remoteTexts segment, ∀ w,
      evaluate text w = evaluate' text w) (w : String) :
    judgeSegments host evaluate w segs = judgeSegments host evaluate' w segs := by
  induction segs generalizing w with
  | nil => rfl
  | cons segment segs ih =>
    rw [List.flatMap_cons] at h
    have hsegment : judgeSegment host evaluate w segment = judgeSegment host evaluate' w segment :=
      judgeSegment_congr (fun text htext => h text (List.mem_append_left _ htext)) w
    rw [judgeSegments, judgeSegments, hsegment]
    cases judgeSegment host evaluate' w segment with
    | blocked decision => rfl
    | pass w' => exact ih (fun text htext => h text (List.mem_append_right _ htext)) w'

/-- A command asks for the judgement of the texts it calls for only. -/
theorem judge_congr {command : String}
    (h : ∀ text ∈ irreversibleCalls host command, ∀ w, evaluate text w = evaluate' text w)
    (w : String) : judge host evaluate command w = judge host evaluate' command w := by
  have hnested : (nestedTexts host command).map (evaluate · w) =
      (nestedTexts host command).map (evaluate' · w) :=
    List.map_congr_left fun text htext => h text (List.mem_append_left _ htext) w
  have hsegments : judgeSegments host evaluate w (commandSegments host command) =
      judgeSegments host evaluate' w (commandSegments host command) :=
    judgeSegments_congr (fun text htext => h text (List.mem_append_right _ htext)) w
  rw [judge_eq, judge_eq, judgeNested, judgeNested, hnested, hsegments]

end

/-! ## The recursion -/

/-- The body of `evaluate_irreversible_command`, on a command with its directory. -/
def irreversibleBody (host : Host) (evaluate : String × Option String → Decision)
    (call : String × Option String) : Decision :=
  judge host (fun nested w => evaluate (nested, some w)) call.1 (workingDirectory host call.2)

theorem irreversibleBody_descends (host : Host) :
    Descends (irreversibleBody host) (fun call nested => nested.1 ∈ irreversibleCalls host call.1)
      (fun call => call.1.length) where
  only _ _ _ h := judge_congr (fun text htext w => h (text, some w) htext) _
  smaller _ _ h := length_irreversibleCalls h

theorem evaluateTo_eq_unfolded (host : Host) (depth : Nat) (command w : String) :
    evaluateTo host depth command w =
      unfolded (irreversibleBody host) (fun _ => .pass) depth (command, some w) := by
  induction depth generalizing command w with
  | zero => rfl
  | succ depth ih =>
    have hrec : evaluateTo host depth = fun nested w =>
        unfolded (irreversibleBody host) (fun _ => .pass) depth (nested, some w) := by
      funext nested w
      exact ih nested w
    rw [evaluateTo, hrec]
    rfl

theorem evaluateIrreversibleCommand_eq_unfolded (host : Host) (command : String)
    (cwd : Option String) : evaluateIrreversibleCommand host command cwd =
      unfolded (irreversibleBody host) (fun _ => .pass) (command.length + 1) (command, cwd) := by
  have hrec : evaluateTo host command.length = fun nested w =>
      unfolded (irreversibleBody host) (fun _ => .pass) command.length (nested, some w) := by
    funext nested w
    exact evaluateTo_eq_unfolded host _ nested w
  rw [evaluateIrreversibleCommand, hrec]
  rfl

/-- The equation of the source: the function judges the commands nested in its own. -/
theorem evaluateIrreversibleCommand_eq (host : Host) (command : String) (cwd : Option String) :
    evaluateIrreversibleCommand host command cwd =
      judge host (fun nested w => evaluateIrreversibleCommand host nested (some w)) command
        (workingDirectory host cwd) := by
  have hself := (irreversibleBody_descends host).unfolded_self (fun _ => .pass) (command, cwd)
  rw [evaluateIrreversibleCommand_eq_unfolded]
  simp only [evaluateIrreversibleCommand_eq_unfolded]
  exact hself

end SummitFlow.Guard
