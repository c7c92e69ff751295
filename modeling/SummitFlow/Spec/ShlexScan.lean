import SummitFlow.Python.Shlex

/-!
# How a lexer reads on

A text is scanned piece by piece, and whether it ends in a `ValueError` depends on its
quotes, backslashes and comments only: two lexers that differ in what separates words
fail on the same texts.
-/

namespace SummitFlow.Shlex

theorem scan_append (cfg : Config) (st : State) (xs ys : List Char) :
    scan cfg st (xs ++ ys) =
      ((scan cfg st xs).1 ++ (scan cfg (scan cfg st xs).2 ys).1,
        (scan cfg (scan cfg st xs).2 ys).2) := by
  induction xs generalizing st with
  | nil => rfl
  | cons c cs ih =>
    simp only [List.cons_append, scan, ih, List.append_assoc]

theorem tokensFrom_eq (cfg : Config) (st : State) (text : List Char) :
    tokensFrom cfg st text = (finish (scan cfg st text).2).map ((scan cfg st text).1 ++ ·) := rfl

/-- The tokens of a text that starts with a scanned one. -/
theorem tokensFrom_append (cfg : Config) (st : State) (xs ys : List Char) :
    tokensFrom cfg st (xs ++ ys) =
      (tokensFrom cfg (scan cfg st xs).2 ys).map ((scan cfg st xs).1 ++ ·) := by
  rw [tokensFrom_eq, tokensFrom_eq, scan_append]
  cases finish (scan cfg (scan cfg st xs).2 ys).2 with
  | none => rfl
  | some last => simp

theorem tokensFrom_cons (cfg : Config) (st : State) (c : Char) (cs : List Char) :
    tokensFrom cfg st (c :: cs) =
      (tokensFrom cfg (step cfg st c).2 cs).map ((step cfg st c).1.toList ++ ·) := by
  have h := tokensFrom_append cfg st [c] cs
  simpa [scan] using h

/-! ## Where an error comes from -/

/-- What a state remembers of quotes, backslashes and comments. -/
inductive Mode where
  | plain
  | quote (mark : Char)
  | escape
  | quotedEscape (mark : Char)
  | comment
deriving DecidableEq

/-- The mode of a state. -/
@[simp] def State.mode : State → Mode
  | .blank | .word _ | .punct _ => .plain
  | .quote mark _ => .quote mark
  | .escape _ => .escape
  | .quotedEscape mark _ => .quotedEscape mark
  | .comment => .comment

/-- How a character changes the mode. -/
def Mode.next : Mode → Char → Mode
  | .plain, c =>
    if c = '#' then .comment
    else if c = '\\' then .escape
    else if isQuote c then .quote c
    else .plain
  | .quote mark, c =>
    if c = mark then .plain
    else if c = '\\' ∧ mark = '"' then .quotedEscape mark
    else .quote mark
  | .escape, _ => .plain
  | .quotedEscape mark, _ => .quote mark
  | .comment, c => if c = '\n' then .plain else .comment

/-- A lexer with comments whose separators are no quotes, backslashes or comment signs. -/
structure Config.Regular (cfg : Config) : Prop where
  comments : cfg.comments = true
  whitespace : ∀ c ∈ cfg.whitespace, c ≠ '#' ∧ c ≠ '\\' ∧ isQuote c = false
  punctuation : ∀ c ∈ cfg.punctuation, c ≠ '#' ∧ c ≠ '\\' ∧ isQuote c = false

/-- A character that is a quote, a backslash or a comment sign. -/
def isMark (c : Char) : Prop := c = '#' ∨ c = '\\' ∨ isQuote c = true

theorem Config.Regular.not_mem {cfg : Config} (h : cfg.Regular) {c : Char} (hc : isMark c) :
    c ∉ cfg.whitespace ∧ c ∉ cfg.punctuation := by
  have hno : ∀ l : List Char, (∀ d ∈ l, d ≠ '#' ∧ d ≠ '\\' ∧ isQuote d = false) → c ∉ l := by
    intro l hl hmem
    obtain ⟨h₁, h₂, h₃⟩ := hl c hmem
    rcases hc with hc | hc | hc
    · exact h₁ hc
    · exact h₂ hc
    · simp [h₃] at hc
  exact ⟨hno _ h.whitespace, hno _ h.punctuation⟩

theorem isQuote_backslash : isQuote '\\' = false := by decide

theorem mode_stepBlank {cfg : Config} (h : cfg.Regular) (c : Char) :
    (stepBlank cfg c).mode = Mode.next .plain c := by
  have hcomments := h.comments
  have hmark := @Config.Regular.not_mem cfg h c
  unfold stepBlank
  simp only [Mode.next]
  by_cases hhash : c = '#'
  · subst hhash
    simp [hcomments, hmark (.inl rfl), State.mode]
  · by_cases hback : c = '\\'
    · subst hback
      simp [hmark (.inr (.inl rfl)), State.mode]
    · by_cases hquote : isQuote c = true
      · have := hmark (.inr (.inr hquote))
        simp [hhash, hback, hquote, this, State.mode]
      · simp only [hhash, hback, hquote, and_false, if_false, Bool.false_eq_true]
        split
        · rfl
        · split <;> rfl

theorem mode_step {cfg : Config} (h : cfg.Regular) (st : State) (c : Char) :
    (step cfg st c).2.mode = Mode.next st.mode c := by
  have hcomments := h.comments
  have hmark := @Config.Regular.not_mem cfg h c
  have hblank := mode_stepBlank h c
  cases st with
  | blank => exact hblank
  | word token =>
    show (stepWord cfg token c).2.mode = Mode.next .plain c
    unfold stepWord
    by_cases hhash : c = '#'
    · subst hhash
      simp [hcomments, hmark (.inl rfl), Mode.next]
    · by_cases hback : c = '\\'
      · subst hback
        simp [hmark (.inr (.inl rfl)), Mode.next, isQuote_backslash]
      · by_cases hquote : isQuote c = true
        · have := hmark (.inr (.inr hquote))
          simp [hhash, hback, hquote, this, Mode.next]
        · have hplain : Mode.next .plain c = .plain := by simp [Mode.next, hhash, hback, hquote]
          rw [hplain] at hblank ⊢
          simp only [hhash, hback, hquote, and_false, if_false, Bool.false_eq_true]
          split
          · rfl
          · split
            · exact hblank
            · rfl
  | punct token =>
    show (stepPunct cfg token c).2.mode = Mode.next .plain c
    unfold stepPunct
    by_cases hhash : c = '#'
    · subst hhash
      simp [hcomments, hmark (.inl rfl), Mode.next]
    · simp only [hhash, and_false, if_false]
      split
      · next hws =>
        have := h.whitespace c hws
        simp [Mode.next, this]
      · split
        · next hp =>
          have := h.punctuation c hp
          simp [Mode.next, this]
        · exact hblank
  | quote mark token =>
    by_cases hend : c = mark
    · simp [step, Mode.next, hend]
    · by_cases hback : c = '\\' ∧ mark = '"'
      · simp [step, Mode.next, hback]
      · simp [step, Mode.next, hend, hback]
  | escape token => rfl
  | quotedEscape mark token =>
    simp only [step]
    split <;> rfl
  | comment =>
    by_cases hnl : c = '\n'
    · simp [step, Mode.next, hnl]
    · simp [step, Mode.next, hnl]

theorem mode_scan {cfg : Config} (h : cfg.Regular) (st : State) (text : List Char) :
    (scan cfg st text).2.mode = text.foldl Mode.next st.mode := by
  induction text generalizing st with
  | nil => rfl
  | cons c cs ih =>
    rw [List.foldl_cons, ← mode_step h]
    exact ih _

/-- The modes a text may end in. -/
def Mode.ends : Mode → Bool
  | .plain | .comment => true
  | .quote _ | .escape | .quotedEscape _ => false

theorem isSome_finish (st : State) : (finish st).isSome = st.mode.ends := by
  cases st <;> rfl

theorem isSome_tokensFrom {cfg : Config} (h : cfg.Regular) (st : State) (text : List Char) :
    (tokensFrom cfg st text).isSome = (text.foldl Mode.next st.mode).ends := by
  rw [tokensFrom_eq, ← mode_scan h st text, ← isSome_finish]
  cases finish (scan cfg st text).2 <;> rfl

/-- Lexers fail on the same texts. -/
theorem isSome_tokens_eq {cfg cfg' : Config} (h : cfg.Regular) (h' : cfg'.Regular)
    (text : List Char) : (tokens cfg text).isSome = (tokens cfg' text).isSome := by
  rw [tokens, tokens, isSome_tokensFrom h, isSome_tokensFrom h']

/-- A text without quotes and backslashes has tokens. -/
theorem ends_of_no_marks {text : List Char} (h : ∀ c ∈ text, c ≠ '\\' ∧ isQuote c = false)
    {mode : Mode} (hmode : mode = .plain ∨ mode = .comment) :
    (text.foldl Mode.next mode).ends = true := by
  induction text generalizing mode with
  | nil => rcases hmode with rfl | rfl <;> rfl
  | cons c cs ih =>
    obtain ⟨hback, hquote⟩ := h c List.mem_cons_self
    rw [List.foldl_cons]
    refine ih (fun d hd => h d (List.mem_cons_of_mem _ hd)) ?_
    rcases hmode with rfl | rfl
    · by_cases hhash : c = '#'
      · right
        simp [Mode.next, hhash]
      · left
        simp [Mode.next, hhash, hback, hquote]
    · by_cases hnl : c = '\n'
      · left
        simp [Mode.next, hnl]
      · right
        simp [Mode.next, hnl]

end SummitFlow.Shlex
