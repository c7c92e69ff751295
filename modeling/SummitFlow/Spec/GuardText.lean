import Mathlib.Data.Bool.AllAny
import SummitFlow.Services.PublicationGuard
import SummitFlow.Spec.ShlexScan

/-!
# How the guard reads a text line after line

What the guard takes from a text `xs`, a newline and a text `ys`: the here-document
scan, the lexer and the substitution scan each go on after `xs` where they were left.
Each has a state in which it is done with `xs`; then it takes from `ys` what it takes
from `ys` alone.
-/

namespace SummitFlow.Guard

/-! ## Segments -/

theorem regular_segmentLexer : segmentLexer.Regular where
  comments := rfl
  whitespace := List.all_iff_forall_prop.mp (by decide)
  punctuation := List.all_iff_forall_prop.mp (by decide)

theorem regular_fallbackLexer : fallbackLexer.Regular where
  comments := rfl
  whitespace := List.all_iff_forall_prop.mp (by decide)
  punctuation := List.all_iff_forall_prop.mp (by decide)

/-- The tokens since the last separator. -/
def openGroup (separator : List Char → Bool) (current : List (List Char)) :
    List (List Char) → List (List Char)
  | [] => current
  | token :: tokens =>
    if separator token then openGroup separator [] tokens
    else openGroup separator (current ++ [token]) tokens

section

variable (separator : List Char → Bool)

/-- The tokens so far make their groups, and the group that is open goes on. -/
theorem groupTokens_append (current tokens rest : List (List Char)) :
    ∃ groups, groupTokens separator current (tokens ++ rest) =
      groups ++ groupTokens separator (openGroup separator current tokens) rest := by
  induction tokens generalizing current with
  | nil => exact ⟨[], rfl⟩
  | cons token tokens ih =>
    simp only [List.cons_append, groupTokens, openGroup]
    split
    · obtain ⟨groups, hgroups⟩ := ih []
      split
      · exact ⟨groups, hgroups⟩
      · exact ⟨current :: groups, by rw [hgroups, List.cons_append]⟩
    · exact ih _

/-- A separator closes the open group. -/
theorem groupTokens_separator {token : List Char} (h : separator token = true)
    (current rest : List (List Char)) :
    ∃ groups, groupTokens separator current (token :: rest) =
      groups ++ groupTokens separator [] rest := by
  simp only [groupTokens, h, if_true]
  split
  · exact ⟨[], rfl⟩
  · exact ⟨[current], rfl⟩

end

theorem isSeparator_singleton {c : Char} (hc : c ∈ segmentLexer.punctuation) :
    isSeparator [c] = true := by
  have hall : ∀ c ∈ segmentLexer.punctuation, isSeparator [c] = true :=
    List.all_eq_true.mp (by decide)
  exact hall c hc

theorem isSeparator_append {token : List Char} (h : isSeparator token = true) {c : Char}
    (hc : c ∈ segmentLexer.punctuation) : isSeparator (token ++ [c]) = true := by
  have hlast := isSeparator_singleton hc
  simp only [isSeparator, Bool.and_eq_true, List.all_append] at h hlast ⊢
  exact ⟨by simp, h.2, hlast.2⟩

/-- A separator character goes to the token of the ones before it. -/
theorem stepPunct_mem (token : List Char) {c : Char} (hc : c ∈ segmentLexer.punctuation) :
    Shlex.stepPunct segmentLexer token c = (none, .punct (token ++ [c])) := by
  have hall : ∀ c ∈ segmentLexer.punctuation, c ∉ segmentLexer.whitespace ∧ c ≠ '#' :=
    List.all_iff_forall_prop.mp (by decide)
  simp [Shlex.stepPunct, hc, hall c hc]

/-- Any other character ends that token and is read as if nothing came before it. -/
theorem stepPunct_not_mem (token : List Char) {c : Char} (hc : c ∉ segmentLexer.punctuation) :
    Shlex.stepPunct segmentLexer token c = (some token, Shlex.stepBlank segmentLexer c) := by
  by_cases hws : c ∈ segmentLexer.whitespace
  · simp [Shlex.stepPunct, Shlex.stepBlank, hws]
  · by_cases hhash : segmentLexer.comments = true ∧ c = '#'
    · simp only [Shlex.stepPunct, Shlex.stepBlank, if_neg hws, if_pos hhash]
    · simp only [Shlex.stepPunct, if_neg hws, if_neg hhash, if_neg hc]

theorem stepBlank_mem {c : Char} (hc : c ∈ segmentLexer.punctuation) :
    Shlex.stepBlank segmentLexer c = .punct [c] := by
  have hall : ∀ c ∈ segmentLexer.punctuation, Shlex.stepBlank segmentLexer c = .punct [c] :=
    List.all_iff_forall_prop.mp (by decide)
  exact hall c hc

/-- Lexing on from separator characters: a token of these and their successors, then what
    comes in any case. -/
theorem tokensFrom_punct (ys : List Char) {p q : List Char} (hp : isSeparator p = true)
    (hq : isSeparator q = true) :
    (Shlex.tokensFrom segmentLexer (.punct p) ys = none ∧
      Shlex.tokensFrom segmentLexer (.punct q) ys = none) ∨
    ∃ t u rest, Shlex.tokensFrom segmentLexer (.punct p) ys = some (t :: rest) ∧
      Shlex.tokensFrom segmentLexer (.punct q) ys = some (u :: rest) ∧
      isSeparator t = true ∧ isSeparator u = true := by
  induction ys generalizing p q with
  | nil => exact .inr ⟨p, q, [], rfl, rfl, hp, hq⟩
  | cons c cs ih =>
    rw [Shlex.tokensFrom_cons, Shlex.tokensFrom_cons]
    simp only [Shlex.step]
    by_cases hc : c ∈ segmentLexer.punctuation
    · rw [stepPunct_mem p hc, stepPunct_mem q hc]
      simpa using ih (isSeparator_append hp hc) (isSeparator_append hq hc)
    · rw [stepPunct_not_mem p hc, stepPunct_not_mem q hc]
      dsimp only
      cases Shlex.tokensFrom segmentLexer (Shlex.stepBlank segmentLexer c) cs with
      | none => exact .inl ⟨rfl, rfl⟩
      | some tokens => exact .inr ⟨p, q, tokens, rfl, rfl, hp, hq⟩

/-- After separator characters a text makes the groups it makes alone. -/
theorem groups_after_punct (ys : List Char) {p : List Char} (hp : isSeparator p = true) :
    (Shlex.tokensFrom segmentLexer (.punct p) ys = none ∧ Shlex.tokens segmentLexer ys = none) ∨
    ∃ t rest alone, Shlex.tokensFrom segmentLexer (.punct p) ys = some (t :: rest) ∧
      isSeparator t = true ∧ Shlex.tokens segmentLexer ys = some alone ∧
      groupTokens isSeparator [] rest = groupTokens isSeparator [] alone := by
  unfold Shlex.tokens
  cases ys with
  | nil => exact .inr ⟨p, [], [], rfl, hp, rfl, rfl⟩
  | cons c cs =>
    by_cases hc : c ∈ segmentLexer.punctuation
    · have hblank : Shlex.tokensFrom segmentLexer .blank (c :: cs) =
          Shlex.tokensFrom segmentLexer (.punct [c]) cs := by
        rw [Shlex.tokensFrom_cons]
        simp [Shlex.step, stepBlank_mem hc]
      have hpunct : Shlex.tokensFrom segmentLexer (.punct p) (c :: cs) =
          Shlex.tokensFrom segmentLexer (.punct (p ++ [c])) cs := by
        rw [Shlex.tokensFrom_cons]
        simp [Shlex.step, stepPunct_mem p hc]
      rw [hblank, hpunct]
      rcases tokensFrom_punct cs (isSeparator_append hp hc) (isSeparator_singleton hc) with
        hnone | ⟨t, u, rest, ht, hu, hts, hus⟩
      · exact .inl hnone
      · refine .inr ⟨t, rest, u :: rest, ht, hts, hu, ?_⟩
        simp [groupTokens, hus]
    · rw [Shlex.tokensFrom_cons, Shlex.tokensFrom_cons]
      simp only [Shlex.step, stepPunct_not_mem p hc]
      cases Shlex.tokensFrom segmentLexer (Shlex.stepBlank segmentLexer c) cs with
      | none => exact .inl ⟨rfl, rfl⟩
      | some tokens => exact .inr ⟨p, tokens, tokens, rfl, hp, rfl, rfl⟩

/-- A token of separator characters the lexer is in is a separator. -/
def InSeparator (st : Shlex.State) : Prop := ∀ token, st = .punct token → isSeparator token = true

theorem InSeparator.blank : InSeparator .blank := fun _ h => nomatch h

theorem InSeparator.stepBlank (c : Char) : InSeparator (Shlex.stepBlank segmentLexer c) := by
  intro token htoken
  by_cases hc : c ∈ segmentLexer.punctuation
  · rw [stepBlank_mem hc] at htoken
    cases htoken
    exact isSeparator_singleton hc
  · unfold Shlex.stepBlank at htoken
    simp only [if_neg hc] at htoken
    repeat' split at htoken
    all_goals cases htoken

theorem InSeparator.step {st : Shlex.State} (h : InSeparator st) (c : Char) :
    InSeparator (Shlex.step segmentLexer st c).2 := by
  have hblank := InSeparator.stepBlank c
  intro token htoken
  cases st with
  | blank => exact hblank token htoken
  | punct before =>
    change (Shlex.stepPunct segmentLexer before c).2 = .punct token at htoken
    by_cases hc : c ∈ segmentLexer.punctuation
    · rw [stepPunct_mem before hc] at htoken
      cases htoken
      exact isSeparator_append (h before rfl) hc
    · rw [stepPunct_not_mem before hc] at htoken
      exact hblank token htoken
  | word before =>
    simp only [Shlex.step, Shlex.stepWord] at htoken
    repeat' split at htoken
    all_goals first | exact hblank token htoken | cases htoken
  | quote mark before =>
    simp only [Shlex.step] at htoken
    repeat' split at htoken
    all_goals cases htoken
  | escape before => cases htoken
  | quotedEscape mark before =>
    simp only [Shlex.step] at htoken
    split at htoken <;> cases htoken
  | comment =>
    simp only [Shlex.step] at htoken
    split at htoken <;> cases htoken

theorem InSeparator.scan {st : Shlex.State} (h : InSeparator st) (text : List Char) :
    InSeparator (Shlex.scan segmentLexer st text).2 := by
  induction text generalizing st with
  | nil => exact h
  | cons c cs ih => exact ih (h.step c)

/-- The lexer is done with a text: it is not inside quotes or after a backslash, and not
    in a comment that follows words of an open group, because such a comment takes the
    newline that would end the group. -/
def settled (text : List Char) : Bool :=
  match Shlex.scan segmentLexer .blank text with
  | (_, .blank) | (_, .word _) | (_, .punct _) => true
  | (tokens, .comment) => (openGroup isSeparator [] tokens).isEmpty
  | (_, .quote ..) | (_, .escape ..) | (_, .quotedEscape ..) => false

/-- What the lexer makes of `ys` when it follows tokens and a separator. -/
theorem groups_after_separator (ys : List Char) {p : List Char} (hp : isSeparator p = true)
    (tokens : List (List Char)) :
    ((Shlex.tokensFrom segmentLexer (.punct p) ys).map (tokens ++ ·) = none ∧
      Shlex.tokens segmentLexer ys = none) ∨
    ∃ all alone groups, (Shlex.tokensFrom segmentLexer (.punct p) ys).map (tokens ++ ·) = some all ∧
      Shlex.tokens segmentLexer ys = some alone ∧
      groupTokens isSeparator [] all = groups ++ groupTokens isSeparator [] alone := by
  rcases groups_after_punct ys hp with ⟨hnone, halone⟩ | ⟨t, rest, alone, hsome, ht, halone, hgroups⟩
  · exact .inl ⟨by rw [hnone]; rfl, halone⟩
  · obtain ⟨before, hbefore⟩ := groupTokens_append isSeparator [] tokens (t :: rest)
    obtain ⟨last, hlast⟩ := groupTokens_separator isSeparator ht (openGroup isSeparator [] tokens) rest
    refine .inr ⟨tokens ++ t :: rest, alone, before ++ last, by rw [hsome]; rfl, halone, ?_⟩
    rw [hbefore, hlast, hgroups, List.append_assoc]

/-- After a settled text and a newline the lexer groups what follows as if it stood
    alone. -/
theorem tokens_settled {xs : List Char} (h : settled xs = true) (ys : List Char) :
    (Shlex.tokens segmentLexer (xs ++ '\n' :: ys) = none ∧ Shlex.tokens segmentLexer ys = none) ∨
    ∃ all alone groups, Shlex.tokens segmentLexer (xs ++ '\n' :: ys) = some all ∧
      Shlex.tokens segmentLexer ys = some alone ∧
      groupTokens isSeparator [] all = groups ++ groupTokens isSeparator [] alone := by
  have hnl : '\n' ∈ segmentLexer.punctuation := by decide
  have hblank : Shlex.step segmentLexer .blank '\n' = (none, .punct ['\n']) := rfl
  have hword : ∀ token, Shlex.step segmentLexer (.word token) '\n' =
      (some token, .punct ['\n']) := fun _ => rfl
  have hjoin : ∀ p, Shlex.step segmentLexer (.punct p) '\n' = (none, .punct (p ++ ['\n'])) :=
    fun p => stepPunct_mem p hnl
  have hpunct : InSeparator (Shlex.scan segmentLexer .blank xs).2 := InSeparator.blank.scan xs
  unfold settled at h
  rw [show Shlex.tokens segmentLexer (xs ++ '\n' :: ys) = _ from
    Shlex.tokensFrom_append segmentLexer .blank xs ('\n' :: ys), Shlex.tokensFrom_cons]
  generalize Shlex.scan segmentLexer .blank xs = result at h hpunct
  obtain ⟨tokens, st⟩ := result
  dsimp only at h hpunct ⊢
  rw [Option.map_map]
  cases st with
  | blank =>
    have := groups_after_separator ys (isSeparator_singleton hnl) tokens
    simpa [Function.comp_def, hblank] using this
  | word token =>
    have := groups_after_separator ys (isSeparator_singleton hnl) (tokens ++ [token])
    simpa [Function.comp_def, hword] using this
  | punct p =>
    have := groups_after_separator ys (isSeparator_append (hpunct p rfl) hnl) tokens
    simpa [Function.comp_def, hjoin] using this
  | comment =>
    -- the newline is gone, but no group is open
    have hopen : openGroup isSeparator [] tokens = [] := by simpa using h
    have hcomment : Shlex.step segmentLexer .comment '\n' = (none, .blank) := rfl
    rw [hcomment]
    change ((Shlex.tokens segmentLexer ys).map _ = none ∧ _) ∨
      ∃ all alone groups, (Shlex.tokens segmentLexer ys).map _ = some all ∧ _
    cases halone : Shlex.tokens segmentLexer ys with
    | none => exact .inl ⟨rfl, rfl⟩
    | some alone =>
      obtain ⟨groups, hgroups⟩ := groupTokens_append isSeparator [] tokens alone
      rw [hopen] at hgroups
      exact .inr ⟨tokens ++ alone, alone, groups, rfl, rfl, hgroups⟩
  | quote mark token => cases h
  | escape token => cases h
  | quotedEscape mark token => cases h

/-- The second lexer fails where the first one does, and the text is one word. -/
theorem segments_of_tokens_eq_none {text : List Char} (h : Shlex.tokens segmentLexer text = none) :
    segments text = [[text]] := by
  have heq := Shlex.isSome_tokens_eq regular_segmentLexer regular_fallbackLexer text
  rw [h] at heq
  have hfallback : Shlex.tokens fallbackLexer text = none := by simpa using heq.symm
  unfold segments splitShellSegments
  rw [h, hfallback]

/-- The segments of a text after a settled one come after others; a text that cannot be
    lexed spoils the whole. -/
theorem segments_settled {xs : List Char} (h : settled xs = true) (ys : List Char) :
    (∃ before, segments (xs ++ '\n' :: ys) = before ++ segments ys) ∨
    (segments (xs ++ '\n' :: ys) = [[xs ++ '\n' :: ys]] ∧ segments ys = [[ys]] ∧
      Shlex.tokens segmentLexer ys = none) := by
  rcases tokens_settled h ys with ⟨hnone, halone⟩ | ⟨all, alone, groups, hall, halone, hgroups⟩
  · right
    exact ⟨segments_of_tokens_eq_none hnone, segments_of_tokens_eq_none halone, halone⟩
  · left
    unfold segments
    rw [hall, halone]
    dsimp only
    rw [hgroups, List.filterMap_append]
    exact ⟨_, rfl⟩

/-! ## Here-documents -/

namespace HeredocState

/-- What was found before, and then what was found since. -/
def after (s t : HeredocState) : HeredocState where
  kept := s.kept ++ t.kept
  shellBodies := s.shellBodies ++ t.shellBodies
  dataBodies := s.dataBodies ++ t.dataBodies
  pending := t.pending
  body := t.body

theorem close_after (s t : HeredocState) (heredoc : Heredoc) (kind : Consumer)
    (rest : List (Heredoc × Consumer)) :
    (s.after t).close heredoc kind rest = s.after (t.close heredoc kind rest) := by
  simp [close, after, List.append_assoc]

theorem line_after (host : Host) (s t : HeredocState) (l : List Char) :
    (s.after t).line host l = s.after (t.line host l) := by
  unfold line
  cases hpending : t.pending with
  | nil => simp [after, hpending, List.append_assoc]
  | cons p rest =>
    obtain ⟨heredoc, kind⟩ := p
    have hafter : (s.after t).pending = (heredoc, kind) :: rest := hpending
    rw [hafter]
    dsimp only
    split
    · rw [← close_after]
      simp [after, List.append_assoc]
    · simp [after]

theorem foldl_line_after (host : Host) (s t : HeredocState) (lines : List (List Char)) :
    lines.foldl (line host) (s.after t) = s.after (lines.foldl (line host) t) := by
  induction lines generalizing t with
  | nil => rfl
  | cons l lines ih => rw [List.foldl_cons, List.foldl_cons, line_after, ih]

theorem finish_after (s t : HeredocState) : (s.after t).finish = s.after t.finish := by
  have hfold : ∀ (pending : List (Heredoc × Consumer)) (t : HeredocState),
      pending.foldl (fun s p => s.close p.1 p.2 []) (s.after t) =
        s.after (pending.foldl (fun s p => s.close p.1 p.2 []) t) := by
    intro pending
    induction pending with
    | nil => exact fun _ => rfl
    | cons p pending ih =>
      intro t
      rw [List.foldl_cons, List.foldl_cons, close_after, ih]
  exact hfold t.pending t

/-- The lines of a body belong to a here-document that is open. -/
theorem line_body (host : Host) {s : HeredocState} (h : s.pending = [] → s.body = [])
    (l : List Char) : (s.line host l).pending = [] → (s.line host l).body = [] := by
  unfold line
  cases hpending : s.pending with
  | nil => exact fun _ => h hpending
  | cons p rest =>
    obtain ⟨heredoc, kind⟩ := p
    dsimp only
    split
    · exact fun _ => rfl
    · intro hnil
      cases hnil

theorem foldl_line_body (host : Host) (lines : List (List Char)) {s : HeredocState}
    (h : s.pending = [] → s.body = []) :
    (lines.foldl (line host) s).pending = [] → (lines.foldl (line host) s).body = [] := by
  induction lines generalizing s with
  | nil => exact h
  | cons l lines ih => exact ih (line_body host h l)

/-- The first line is kept, and later lines only add to what is kept. -/
theorem foldl_line_kept (host : Host) (lines : List (List Char)) (s : HeredocState) :
    ∃ more, (lines.foldl (line host) s).kept = s.kept ++ more := by
  induction lines generalizing s with
  | nil => exact ⟨[], by simp⟩
  | cons l lines ih =>
    obtain ⟨more, hmore⟩ := ih (s.line host l)
    rw [List.foldl_cons, hmore]
    unfold line
    split
    · exact ⟨l :: more, by simp⟩
    · split
      · exact ⟨l :: more, by simp [close]⟩
      · exact ⟨more, rfl⟩

theorem foldl_close_kept (pending : List (Heredoc × Consumer)) (s : HeredocState) :
    (pending.foldl (fun s p => s.close p.1 p.2 []) s).kept = s.kept := by
  induction pending generalizing s with
  | nil => rfl
  | cons p pending ih =>
    rw [List.foldl_cons, ih]
    rfl

end HeredocState

/-- The line loop after a text. -/
def readLines (host : Host) (text : List Char) : HeredocState :=
  (Str.splitOnChar '\n' text).foldl (HeredocState.line host) .initial

/-- The text without the bodies of here-documents. -/
def keptText (host : Host) (text : List Char) : List Char := ['\n'].intercalate (readLines host text).kept

/-- No here-document of the text waits for its end. -/
def heredocsClosed (host : Host) (text : List Char) : Bool := (readLines host text).pending.isEmpty

theorem readLines_kept_ne_nil (host : Host) (text : List Char) : (readLines host text).kept ≠ [] := by
  unfold readLines
  cases hlines : Str.splitOnChar '\n' text with
  | nil => exact absurd hlines (Str.splitOnChar_ne_nil _ _)
  | cons l lines =>
    obtain ⟨more, hmore⟩ := HeredocState.foldl_line_kept host lines (HeredocState.initial.line host l)
    rw [List.foldl_cons, hmore]
    simp [HeredocState.line, HeredocState.initial]

theorem splitHeredocs_eq (host : Host) (text : List Char) :
    splitHeredocs host text = (keptText host text, (readLines host text).finish.shellBodies,
      (readLines host text).finish.dataBodies) := by
  have hkept : (readLines host text).finish.kept = (readLines host text).kept :=
    HeredocState.foldl_close_kept _ _
  show (['\n'].intercalate (readLines host text).finish.kept, _, _) = _
  rw [hkept]
  rfl

/-- With no here-document open, the next lines are read as if they came first. -/
theorem readLines_append {host : Host} {xs : List Char} (h : heredocsClosed host xs = true)
    (ys : List Char) : readLines host (xs ++ '\n' :: ys) = (readLines host xs).after (readLines host ys) := by
  have hpending : (readLines host xs).pending = [] := by simpa [heredocsClosed] using h
  have hbody : (readLines host xs).body = [] :=
    HeredocState.foldl_line_body host _ (fun _ => rfl) hpending
  have hself : readLines host xs = (readLines host xs).after .initial := by
    conv_lhs => rw [show readLines host xs = ⟨(readLines host xs).kept, (readLines host xs).shellBodies,
      (readLines host xs).dataBodies, (readLines host xs).pending, (readLines host xs).body⟩ from rfl]
    rw [hpending, hbody]
    simp [HeredocState.after, HeredocState.initial]
  have hlines : readLines host (xs ++ '\n' :: ys) =
      (Str.splitOnChar '\n' ys).foldl (HeredocState.line host) (readLines host xs) := by
    unfold readLines
    rw [Str.splitOnChar_append, List.foldl_append]
  rw [hlines, hself, HeredocState.foldl_line_after, ← hself]
  rfl

/-- What the guard keeps of both texts. -/
theorem keptText_append {host : Host} {xs : List Char} (h : heredocsClosed host xs = true)
    (ys : List Char) : keptText host (xs ++ '\n' :: ys) = keptText host xs ++ '\n' :: keptText host ys := by
  unfold keptText
  rw [readLines_append h]
  exact Str.intercalate_append (readLines_kept_ne_nil host xs) (readLines_kept_ne_nil host ys)

theorem shellBodies_append {host : Host} {xs : List Char} (h : heredocsClosed host xs = true)
    (ys : List Char) : (readLines host (xs ++ '\n' :: ys)).finish.shellBodies =
      (readLines host xs).shellBodies ++ (readLines host ys).finish.shellBodies := by
  rw [readLines_append h, HeredocState.finish_after]
  rfl

/-! ## Substitutions -/

/-- A substitution that starts here and may end in what follows the text. -/
def substitutionOpen : List Char → Bool
  | '$' :: '(' :: rest => rest.all (· ∉ ['(', ')'])
  | '`' :: rest => rest.all (· ∉ ['`'])
  | _ => false

/-- No substitution of the text can end in what follows it; the first argument counts the
    characters of the last one still to pass. -/
def closedFrom : Nat → List Char → Bool
  | _, [] => true
  | skip + 1, _ :: cs => closedFrom skip cs
  | 0, c :: cs =>
    match substitutionAt (c :: cs) with
    | some body => closedFrom (body.length + substitutionMarks (c :: cs) - 1) cs
    | none => !substitutionOpen (c :: cs) && closedFrom 0 cs

/-- The substitution scan is done with the text. -/
def substitutionsClosed (text : List Char) : Bool := closedFrom 0 text

/-- A search that ends in a text is not changed by what follows the text. -/
theorem bodyUntil_append {stop : Char} {ends rest : List Char}
    (h : rest.all (· ∉ ends) = false) (zs : List Char) :
    bodyUntil stop ends (rest ++ zs) = bodyUntil stop ends rest := by
  unfold bodyUntil
  induction rest with
  | nil => cases h
  | cons c cs ih =>
    by_cases hc : c ∈ ends
    · simp [hc]
    · have hcs : cs.all (· ∉ ends) = false := by simpa [hc] using h
      have := ih hcs
      simp only [List.cons_append, decide_not, hc, decide_false, Bool.not_false,
        List.dropWhile_cons_of_pos, List.takeWhile_cons_of_pos] at this ⊢
      split at this <;> split at this <;> simp_all

theorem bodyUntil_some {stop : Char} {ends rest body : List Char}
    (h : bodyUntil stop ends rest = some body) :
    rest.all (· ∉ ends) = false ∧ body.length + 1 ≤ rest.length := by
  unfold bodyUntil at h
  split at h
  · next hhead =>
    cases h
    have hdrop : rest.dropWhile (· ∉ ends) ≠ [] := by
      intro hnil
      rw [hnil] at hhead
      cases hhead
    have hlen : (rest.takeWhile (· ∉ ends)).length + (rest.dropWhile (· ∉ ends)).length =
        rest.length := by
      rw [← List.length_append, List.takeWhile_append_dropWhile]
    have hpos := List.length_pos_iff.mpr hdrop
    constructor
    · rw [Bool.eq_false_iff]
      intro hall
      exact hdrop (List.dropWhile_eq_nil_iff.mpr (List.all_eq_true.mp hall))
    · omega
  · cases h

theorem bodyUntil_none {stop : Char} {ends rest : List Char} (h : bodyUntil stop ends rest = none)
    (hopen : rest.all (· ∉ ends) = false) (zs : List Char) :
    bodyUntil stop ends (rest ++ zs) = none := by
  rw [bodyUntil_append hopen, h]

/-- A substitution of a text is one of the text and what follows it. -/
theorem substitutionAt_append_some {cs body : List Char} (h : substitutionAt cs = some body)
    (zs : List Char) : substitutionAt (cs ++ zs) = some body := by
  unfold substitutionAt at h ⊢
  split at h
  · have hends := (bodyUntil_some h).1
    simpa only [List.cons_append, bodyUntil_append hends] using h
  · have hends := (bodyUntil_some h).1
    simpa only [List.cons_append, bodyUntil_append hends] using h
  · cases h

/-- Where no substitution starts and none is open, none starts with what follows either. -/
theorem substitutionAt_append_none {c : Char} {cs : List Char}
    (h : substitutionAt (c :: cs) = none) (hopen : substitutionOpen (c :: cs) = false)
    (ys : List Char) : substitutionAt (c :: cs ++ '\n' :: ys) = none := by
  by_cases hdollar : c = '$'
  · subst hdollar
    cases cs with
    | nil => rfl
    | cons d ds =>
      by_cases hparen : d = '('
      · subst hparen
        exact bodyUntil_none h hopen ('\n' :: ys)
      · simp [substitutionAt, hparen]
  · by_cases htick : c = '`'
    · subst htick
      exact bodyUntil_none h hopen ('\n' :: ys)
    · simp [substitutionAt, hdollar, htick]

/-- The characters of a match after the first one belong to the text. -/
theorem substitutionAt_length {c : Char} {cs body : List Char}
    (h : substitutionAt (c :: cs) = some body) :
    body.length + substitutionMarks (c :: cs) - 1 ≤ cs.length := by
  unfold substitutionAt at h
  split at h
  · next rest heq =>
    cases heq
    have hlen := (bodyUntil_some h).2
    show body.length + 3 - 1 ≤ _
    rw [List.length_cons]
    omega
  · next rest heq =>
    cases heq
    have hlen := (bodyUntil_some h).2
    show body.length + 2 - 1 ≤ _
    omega
  · cases h

theorem substitutionMarks_append (c : Char) (cs zs : List Char) :
    substitutionMarks (c :: cs ++ zs) = substitutionMarks (c :: cs) := by
  by_cases hc : c = '$'
  · subst hc
    rfl
  · simp [substitutionMarks, hc]

theorem scanSubstitutions_append {skip : Nat} {xs : List Char} (hskip : skip ≤ xs.length)
    (h : closedFrom skip xs = true) (ys : List Char) :
    scanSubstitutions skip (xs ++ '\n' :: ys) = scanSubstitutions skip xs ++ substitutions ys := by
  fun_induction closedFrom skip xs with
  | case1 skip =>
    -- the newline itself starts nothing
    obtain rfl : skip = 0 := by simpa using hskip
    rfl
  | case2 skip c cs ih =>
    exact ih (by simpa using hskip) h
  | case3 c cs body hbody ih =>
    have hall := substitutionAt_append_some hbody ('\n' :: ys)
    rw [List.cons_append] at hall ⊢
    rw [scanSubstitutions, scanSubstitutions, hall, hbody]
    dsimp only
    rw [← List.cons_append, substitutionMarks_append, ih (substitutionAt_length hbody) h,
      List.cons_append]
  | case4 c cs hnone ih =>
    rw [Bool.and_eq_true, Bool.not_eq_true'] at h
    have hall := substitutionAt_append_none hnone h.1 ys
    rw [List.cons_append] at hall ⊢
    rw [scanSubstitutions, scanSubstitutions, hall, hnone]
    exact ih (Nat.zero_le _) h.2

/-- After a text whose substitutions are closed, a line has the substitutions it has alone. -/
theorem substitutions_append {xs : List Char} (h : substitutionsClosed xs = true)
    (ys : List Char) : substitutions (xs ++ '\n' :: ys) = substitutions xs ++ substitutions ys :=
  scanSubstitutions_append (Nat.zero_le _) h ys

end SummitFlow.Guard
