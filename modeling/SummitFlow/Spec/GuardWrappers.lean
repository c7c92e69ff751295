import SummitFlow.Spec.GuardDepth

/-!
# Wrappers are transparent

A command may stand behind a stack of wrappers: assignments, `env`, `sudo`, `command`,
`nohup`, `exec`, `uv run`, `timeout` and others, each with its options, shell keywords and
`xargs`.  Each wrapper's options are read by a loop of its own; every loop stops at the first
token that is neither an option nor the value of one, so `_unwrap` finds the same command
behind every stack, and sees `sudo` wherever it stands.
-/

namespace SummitFlow.Guard

open PosixPath (pathName)

/-! ## Options -/

/-- What a wrapper takes for an option: by itself, with the next token as its value, or as
    the end of the options. -/
structure OptionGrammar where
  plain : String → Prop
  valued : String → Prop
  last : String → Prop

/-- The tokens of some options, each with its value. -/
inductive Options (g : OptionGrammar) : List String → Prop
  | nil : Options g []
  | plain {t : String} {ts : List String} : g.plain t → Options g ts → Options g (t :: ts)
  | valued {t value : String} {ts : List String} :
      g.valued t → Options g ts → Options g (t :: value :: ts)
  | last {t : String} : g.last t → Options g [t]

/-- A loop passes over the options of a grammar and stops at certain tokens. -/
structure Skips (skip : List String → List String) (g : OptionGrammar) (stays : String → Prop) :
    Prop where
  plain : ∀ {t : String} (ts : List String), g.plain t → skip (t :: ts) = skip ts
  valued : ∀ {t : String} (value : String) (ts : List String), g.valued t →
    skip (t :: value :: ts) = skip ts
  last : ∀ {t : String} (ts : List String), g.last t → skip (t :: ts) = ts
  stays : ∀ {t : String} (ts : List String), stays t → skip (t :: ts) = t :: ts

theorem Skips.append {skip : List String → List String} {g : OptionGrammar} {stays : String → Prop}
    (h : Skips skip g stays) {options : List String} (hoptions : Options g options) {t : String}
    (ht : stays t) (ts : List String) : skip (options ++ t :: ts) = t :: ts := by
  induction hoptions with
  | nil => exact h.stays ts ht
  | plain hplain _ ih =>
    rw [List.cons_append, h.plain _ hplain]
    exact ih
  | valued hvalued _ ih =>
    rw [List.cons_append, List.cons_append, h.valued _ _ hvalued]
    exact ih
  | last hlast => exact h.last _ hlast

/-- A token that starts with a dash. -/
abbrev Dashed (t : String) : Prop := Str.startswith t "-" = true

/-- A token that is neither an option nor an assignment. -/
def Plain (t : String) : Prop := ¬ Dashed t ∧ isAssignment t = false

/-! ## The loops -/

/-- The options and assignments of `env` and `sudo`. -/
def assignedGrammar (valueOptions : List String) : OptionGrammar where
  plain t := t ≠ "--" ∧ t ∉ valueOptions ∧ (Dashed t ∨ isAssignment t = true)
  valued t := t ∈ valueOptions
  last t := t = "--"

/-- The options of `exec`: one that ends in `a` takes a name. -/
def execGrammar : OptionGrammar where
  plain t := t ≠ "--" ∧ Dashed t ∧ Str.endswith t "a" = false
  valued t := t ≠ "--" ∧ Dashed t ∧ Str.endswith t "a" = true
  last t := t = "--"

def uvGrammar : OptionGrammar where
  plain t := t ≠ "--" ∧ Dashed t ∧ t ∉ uvOptionsWithValue
  valued t := t ∈ uvOptionsWithValue
  last t := t = "--"

/-- The options of `nice`, `stdbuf` and `timeout`. -/
def wrapperGrammar : OptionGrammar where
  plain t := Dashed t ∧ t ∉ wrapperOptionsWithValue
  valued t := t ∈ wrapperOptionsWithValue
  last _ := False

def xargsGrammar : OptionGrammar where
  plain t := Dashed t ∧ t ∉ xargsValueOptions
  valued t := t ∈ xargsValueOptions
  last _ := False

/-- Every option of a table starts with a dash and is not `--`. -/
def OptionTable (table : List String) : Prop := ∀ t ∈ table, Dashed t ∧ t ≠ "--"

theorem OptionTable.not_mem {table : List String} (h : OptionTable table) {t : String}
    (ht : ¬ Dashed t) : t ∉ table := fun hmem => ht (h t hmem).1

theorem dashed_dashes : Dashed "--" := by
  unfold Dashed
  decide

theorem skips_skipAssigned {valueOptions : List String} (htable : OptionTable valueOptions) :
    Skips (skipAssigned valueOptions) (assignedGrammar valueOptions) Plain where
  plain := by
    rintro t ts ⟨hend, hvalue, hplain⟩
    have hskip : (Str.startswith t "-" || isAssignment t) = true := by
      simpa [Dashed] using hplain
    cases ts with
    | nil =>
      show skipAssigned valueOptions [t] = []
      rw [skipAssigned, if_neg hend, if_pos hskip]
    | cons value ts => rw [skipAssigned, if_neg hend, if_neg hvalue, if_pos hskip]
  valued := by
    intro t value ts hvalue
    have hmem : t ∈ valueOptions := hvalue
    rw [skipAssigned, if_neg (htable t hmem).2, if_pos hmem]
  last := by
    rintro t ts rfl
    cases ts with
    | nil => rw [skipAssigned, if_pos rfl]
    | cons value ts => rw [skipAssigned, if_pos rfl]
  stays := by
    rintro t ts ⟨hdash, hassignment⟩
    have hend : t ≠ "--" := fun heq => hdash (heq ▸ dashed_dashes)
    have hstay : ¬ (Str.startswith t "-" || isAssignment t) = true := by
      rw [Bool.or_eq_true, hassignment]
      exact fun h => h.elim hdash (by decide)
    cases ts with
    | nil => rw [skipAssigned, if_neg hend, if_neg hstay]
    | cons value ts =>
      rw [skipAssigned, if_neg hend, if_neg (htable.not_mem hdash), if_neg hstay]

theorem skips_skipExec : Skips skipExec execGrammar fun t => ¬ Dashed t where
  plain := by
    rintro t ts ⟨hend, hdash, hname⟩
    have hnot : ¬ Str.endswith t "a" = true := by rw [hname]; decide
    cases ts with
    | nil =>
      show skipExec [t] = []
      rw [skipExec, if_pos hdash]
    | cons value ts => rw [skipExec, if_pos hdash, if_neg hend, if_neg hnot]
  valued := by
    rintro t value ts ⟨hend, hdash, hname⟩
    rw [skipExec, if_pos hdash, if_neg hend, if_pos hname]
  last := by
    rintro t ts rfl
    cases ts with
    | nil => rw [skipExec, if_pos dashed_dashes]
    | cons value ts => rw [skipExec, if_pos dashed_dashes, if_pos rfl]
  stays := by
    intro t ts hdash
    cases ts with
    | nil => rw [skipExec, if_neg hdash]
    | cons value ts => rw [skipExec, if_neg hdash]

theorem optionTable_uv : OptionTable uvOptionsWithValue := by
  unfold OptionTable Dashed
  decide +kernel

theorem skips_skipUvOptions : Skips skipUvOptions uvGrammar fun t => ¬ Dashed t where
  plain := by
    rintro t ts ⟨hend, hdash, hvalue⟩
    cases ts with
    | nil =>
      show skipUvOptions [t] = []
      rw [skipUvOptions, if_pos hdash]
    | cons value ts => rw [skipUvOptions, if_pos hdash, if_neg hend, if_neg hvalue]
  valued := by
    intro t value ts hvalue
    have hmem : t ∈ uvOptionsWithValue := hvalue
    obtain ⟨hdash, hend⟩ := optionTable_uv t hmem
    rw [skipUvOptions, if_pos hdash, if_neg hend, if_pos hmem]
  last := by
    rintro t ts rfl
    cases ts with
    | nil => rw [skipUvOptions, if_pos dashed_dashes]
    | cons value ts => rw [skipUvOptions, if_pos dashed_dashes, if_pos rfl]
  stays := by
    intro t ts hdash
    cases ts with
    | nil => rw [skipUvOptions, if_neg hdash]
    | cons value ts => rw [skipUvOptions, if_neg hdash]

theorem optionTable_wrapper : OptionTable wrapperOptionsWithValue := by
  unfold OptionTable Dashed
  decide +kernel

theorem skips_skipWrapperOptions :
    Skips skipWrapperOptions wrapperGrammar fun t => ¬ Dashed t where
  plain := by
    rintro t ts ⟨hdash, hvalue⟩
    cases ts with
    | nil =>
      show skipWrapperOptions [t] = []
      rw [skipWrapperOptions, if_pos hdash]
    | cons value ts => rw [skipWrapperOptions, if_pos hdash, if_neg hvalue]
  valued := by
    intro t value ts hvalue
    have hmem : t ∈ wrapperOptionsWithValue := hvalue
    rw [skipWrapperOptions, if_pos (optionTable_wrapper t hmem).1, if_pos hmem]
  last := fun _ h => h.elim
  stays := by
    intro t ts hdash
    cases ts with
    | nil => rw [skipWrapperOptions, if_neg hdash]
    | cons value ts => rw [skipWrapperOptions, if_neg hdash]

theorem optionTable_xargs : OptionTable xargsValueOptions := by
  unfold OptionTable Dashed
  decide +kernel

theorem skips_skipXargs : Skips skipXargs xargsGrammar fun t => ¬ Dashed t where
  plain := by
    rintro t ts ⟨hdash, hvalue⟩
    cases ts with
    | nil =>
      show skipXargs [t] = []
      rw [skipXargs, if_pos hdash]
    | cons value ts => rw [skipXargs, if_pos hdash, if_neg hvalue]
  valued := by
    intro t value ts hvalue
    have hmem : t ∈ xargsValueOptions := hvalue
    rw [skipXargs, if_pos (optionTable_xargs t hmem).1, if_pos hmem]
  last := fun _ h => h.elim
  stays := by
    intro t ts hdash
    cases ts with
    | nil => rw [skipXargs, if_neg hdash]
    | cons value ts => rw [skipXargs, if_neg hdash]

/-! ## Stacks -/

/-- The name of a command, in any case and with any directory before it. -/
def Called (name t : String) : Prop := Plain t ∧ Str.casefold (pathName t) = name

/-- One wrapper with its options; the flag says whether it is `sudo`. -/
inductive Wrapper : Bool → List String → Prop
  | env {t : String} {options : List String} : Called "env" t →
      Options (assignedGrammar envOptionsWithValue) options → Wrapper false (t :: options)
  | privileged {t : String} {options : List String} : Called "sudo" t →
      Options (assignedGrammar sudoOptionsWithValue) options → Wrapper true (t :: options)
  | command {name t : String} : name ∈ commandWrappers → Called name t → Wrapper false [t]
  | exec {t : String} {options : List String} : Called "exec" t → Options execGrammar options →
      Wrapper false (t :: options)
  | uvRun {t : String} {options more : List String} : Called "uv" t → Options uvGrammar options →
      Options uvGrammar more → Wrapper false (t :: (options ++ "run" :: more))
  | uvToolRun {t : String} {options more rest : List String} : Called "uv" t →
      Options uvGrammar options → Options uvGrammar more → Options uvGrammar rest →
      Wrapper false (t :: (options ++ "tool" :: (more ++ "run" :: rest)))
  | uvx {t : String} {options : List String} : Called "uvx" t → Options uvGrammar options →
      Wrapper false (t :: options)
  | nice {name t : String} {options : List String} : name ∈ ["nice", "stdbuf"] → Called name t →
      Options wrapperGrammar options → Wrapper false (t :: options)
  | timeout {t duration : String} {options : List String} : Called "timeout" t →
      Options wrapperGrammar options → ¬ Dashed duration →
      Wrapper false (t :: (options ++ [duration]))

/-- Wrappers, one inside the other. -/
inductive Wrappers : Bool → List String → Prop
  | nil : Wrappers false []
  | cons {elevated elevated' : Bool} {wrapper stack : List String} : Wrapper elevated wrapper →
      Wrappers elevated' stack → Wrappers (elevated || elevated') (wrapper ++ stack)

/-- Assignments before wrappers. -/
inductive Lead : Bool → List String → Prop
  | wrappers {elevated : Bool} {stack : List String} : Wrappers elevated stack → Lead elevated stack
  | assignment {elevated : Bool} {t : String} {stack : List String} : isAssignment t = true →
      Lead elevated stack → Lead elevated (t :: stack)

/-- What `_unwrap` takes off: such stacks, with shell keywords and `xargs` between them. -/
inductive Stack : List String → Prop
  | lead {elevated : Bool} {stack : List String} : Lead elevated stack → Stack stack
  | keyword {elevated : Bool} {stack rest : List String} {t : String} : Lead elevated stack →
      t ∈ shellKeywords → Stack rest → Stack (stack ++ t :: rest)
  | xargs {elevated : Bool} {stack options rest : List String} {t : String} : Lead elevated stack →
      Plain t → executableOf t = "xargs" → Options xargsGrammar options → Stack rest →
      Stack (stack ++ t :: (options ++ rest))

/-! ## One wrapper -/

theorem uvCommand_run {options more ts : List String} {t : String} (hoptions : Options uvGrammar options)
    (hmore : Options uvGrammar more) (ht : ¬ Dashed t) :
    uvCommand (options ++ "run" :: (more ++ t :: ts)) = some (t :: ts) := by
  have hrun : ¬ Dashed "run" := by decide
  unfold uvCommand
  rw [skips_skipUvOptions.append hoptions hrun]
  show some (skipUvOptions (more ++ t :: ts)) = _
  rw [skips_skipUvOptions.append hmore ht]

theorem uvCommand_toolRun {options more rest ts : List String} {t : String}
    (hoptions : Options uvGrammar options) (hmore : Options uvGrammar more)
    (hrest : Options uvGrammar rest) (ht : ¬ Dashed t) :
    uvCommand (options ++ "tool" :: (more ++ "run" :: (rest ++ t :: ts))) = some (t :: ts) := by
  have hrun : ¬ Dashed "run" := by decide
  have htool : ¬ Dashed "tool" := by decide
  unfold uvCommand
  rw [skips_skipUvOptions.append hoptions htool]
  simp only [skips_skipUvOptions.append hmore hrun]
  show some (skipUvOptions (rest ++ t :: ts)) = _
  rw [skips_skipUvOptions.append hrest ht]

/-- A round of the loop takes a wrapper off what it runs. -/
theorem Wrapper.unwrapOnce {elevated : Bool} {wrapper : List String} (h : Wrapper elevated wrapper)
    {t : String} (ht : Plain t) (ts : List String) :
    ∃ word args, wrapper = word :: args ∧ Plain word ∧
      unwrapOnce (Str.casefold (pathName word)) (args ++ t :: ts) = some (t :: ts) ∧
      elevated = (Str.casefold (pathName word) == "sudo") := by
  cases h with
  | @env word options hcalled hoptions =>
    refine ⟨word, options, rfl, hcalled.1, ?_, ?_⟩
    · have htable : OptionTable envOptionsWithValue := by
        unfold OptionTable Dashed
        decide +kernel
      rw [hcalled.2]
      show some (skipAssigned envOptionsWithValue (options ++ t :: ts)) = _
      rw [(skips_skipAssigned htable).append hoptions ht]
    · rw [hcalled.2]
      rfl
  | @privileged word options hcalled hoptions =>
    refine ⟨word, options, rfl, hcalled.1, ?_, ?_⟩
    · have htable : OptionTable sudoOptionsWithValue := by
        unfold OptionTable Dashed
        decide +kernel
      rw [hcalled.2]
      show some (skipAssigned sudoOptionsWithValue (options ++ t :: ts)) = _
      rw [(skips_skipAssigned htable).append hoptions ht]
    · rw [hcalled.2]
      rfl
  | @command name word hname hcalled =>
    refine ⟨word, [], rfl, hcalled.1, ?_, ?_⟩
    · rw [hcalled.2]
      simp only [commandWrappers, List.mem_cons, List.not_mem_nil, or_false] at hname
      rcases hname with rfl | rfl | rfl <;> rfl
    · rw [hcalled.2]
      simp only [commandWrappers, List.mem_cons, List.not_mem_nil, or_false] at hname
      rcases hname with rfl | rfl | rfl <;> rfl
  | @exec word options hcalled hoptions =>
    refine ⟨word, options, rfl, hcalled.1, ?_, ?_⟩
    · rw [hcalled.2]
      show some (skipExec (options ++ t :: ts)) = _
      rw [skips_skipExec.append hoptions ht.1]
    · rw [hcalled.2]
      rfl
  | @uvRun word options more hcalled hoptions hmore =>
    refine ⟨word, _, rfl, hcalled.1, ?_, ?_⟩
    · rw [hcalled.2, List.append_assoc, List.cons_append]
      exact uvCommand_run hoptions hmore ht.1
    · rw [hcalled.2]
      rfl
  | @uvToolRun word options more rest hcalled hoptions hmore hrest =>
    refine ⟨word, _, rfl, hcalled.1, ?_, ?_⟩
    · rw [hcalled.2, List.append_assoc, List.cons_append, List.append_assoc, List.cons_append]
      exact uvCommand_toolRun hoptions hmore hrest ht.1
    · rw [hcalled.2]
      rfl
  | @uvx word options hcalled hoptions =>
    refine ⟨word, options, rfl, hcalled.1, ?_, ?_⟩
    · rw [hcalled.2]
      show some (skipUvOptions (options ++ t :: ts)) = _
      rw [skips_skipUvOptions.append hoptions ht.1]
    · rw [hcalled.2]
      rfl
  | @nice name word options hname hcalled hoptions =>
    refine ⟨word, options, rfl, hcalled.1, ?_, ?_⟩
    · have hskip : some (skipWrapperOptions (options ++ t :: ts)) = some (t :: ts) := by
        rw [skips_skipWrapperOptions.append hoptions ht.1]
      rw [hcalled.2]
      simp only [List.mem_cons, List.not_mem_nil, or_false] at hname
      rcases hname with rfl | rfl
      · exact hskip
      · exact hskip
    · rw [hcalled.2]
      simp only [List.mem_cons, List.not_mem_nil, or_false] at hname
      rcases hname with rfl | rfl <;> rfl
  | @timeout word duration options hcalled hoptions hduration =>
    refine ⟨word, _, rfl, hcalled.1, ?_, ?_⟩
    · rw [hcalled.2, List.append_assoc, List.singleton_append]
      show some ((skipWrapperOptions (options ++ duration :: t :: ts)).drop 1) = _
      rw [skips_skipWrapperOptions.append hoptions hduration]
      rfl
    · rw [hcalled.2]
      rfl

/-! ## The loops over wrappers -/

/-- The number of tokens is enough rounds. -/
theorem unwrapLoop_enough {n m : Nat} {tokens : List String} (hn : tokens.length ≤ n)
    (hm : tokens.length ≤ m) (privileged : Bool) :
    unwrapLoop n tokens privileged = unwrapLoop m tokens privileged := by
  induction n generalizing m tokens privileged with
  | zero =>
    obtain rfl : tokens = [] := List.length_eq_zero_iff.mp (by omega)
    cases m <;> rfl
  | succ n ih =>
    cases tokens with
    | nil => cases m <;> rfl
    | cons token args =>
      rw [List.length_cons] at hn hm
      obtain ⟨m, rfl⟩ : ∃ k, m = k + 1 := ⟨m - 1, by omega⟩
      rw [unwrapLoop, unwrapLoop]
      cases hround : unwrapOnce (Str.casefold (pathName token)) args with
      | none => rfl
      | some rest =>
        have hshort := (unwrapOnce_suffix hround).length_le
        exact ih (by omega) (by omega) _

/-- What was seen before adds to what the rounds see. -/
theorem unwrapLoop_privileged (n : Nat) (tokens : List String) (privileged : Bool) :
    unwrapLoop n tokens privileged =
      ((unwrapLoop n tokens false).1, privileged || (unwrapLoop n tokens false).2) := by
  induction n generalizing tokens privileged with
  | zero => rw [unwrapLoop, unwrapLoop, Bool.or_false]
  | succ n ih =>
    cases tokens with
    | nil => rw [unwrapLoop, unwrapLoop, Bool.or_false]
    | cons token args =>
      rw [unwrapLoop, unwrapLoop]
      cases unwrapOnce (Str.casefold (pathName token)) args with
      | none =>
        dsimp only
        rw [Bool.or_false]
      | some rest =>
        dsimp only
        rw [ih rest (privileged || _), ih rest (false || _), Bool.false_or, Bool.or_assoc]

/-- The number of tokens is enough rounds. -/
theorem unwrapKeywords_enough {n m : Nat} {args : List String} (hn : args.length ≤ n)
    (hm : args.length ≤ m) : unwrapKeywords n args = unwrapKeywords m args := by
  induction n generalizing m args with
  | zero =>
    obtain rfl : args = [] := List.length_eq_zero_iff.mp (by omega)
    cases m <;> rfl
  | succ n ih =>
    cases args with
    | nil => cases m <;> rfl
    | cons arg args =>
      rw [List.length_cons] at hn hm
      obtain ⟨m, rfl⟩ : ∃ k, m = k + 1 := ⟨m - 1, by omega⟩
      rw [unwrapKeywords, unwrapKeywords]
      split
      · have hshort := (unwrapSegment_suffix args).length_le
        exact ih (by omega) (by omega)
      · split
        · have hshort := ((unwrapSegment_suffix (skipXargs args)).trans (skipXargs_suffix args)).length_le
          exact ih (by omega) (by omega)
        · rfl

variable {t : String} {stack : List String} {elevated : Bool}

/-- What stands before a command starts with a token that is neither an option nor an
    assignment. -/
theorem Wrappers.head (h : Wrappers elevated stack) (ht : Plain t) (ts : List String) :
    ∃ word rest, stack ++ t :: ts = word :: rest ∧ Plain word := by
  cases h with
  | nil => exact ⟨t, ts, rfl, ht⟩
  | @cons _ _ wrapper stack hwrapper _ =>
    obtain ⟨word, args, rfl, hword, -⟩ := hwrapper.unwrapOnce ht ts
    exact ⟨word, args ++ stack ++ t :: ts, by rw [List.cons_append, List.cons_append], hword⟩

theorem Wrappers.unwrapLoop (h : Wrappers elevated stack) (ht : Plain t) (ts : List String) {n m : Nat}
    (hn : (stack ++ t :: ts).length ≤ n) (hm : (t :: ts).length ≤ m) (privileged : Bool) :
    unwrapLoop n (stack ++ t :: ts) privileged = unwrapLoop m (t :: ts) (privileged || elevated) := by
  induction h generalizing n privileged with
  | nil =>
    rw [Bool.or_false]
    exact unwrapLoop_enough hn hm privileged
  | @cons elevated elevated' wrapper stack hwrapper hstack ih =>
    obtain ⟨next, rest, hrest, hnext⟩ := hstack.head ht ts
    obtain ⟨word, args, rfl, -, hround, helevated⟩ := hwrapper.unwrapOnce hnext rest
    rw [List.append_assoc, List.cons_append, List.length_cons] at hn
    obtain ⟨n, rfl⟩ : ∃ k, n = k + 1 := ⟨n - 1, by omega⟩
    have hlength : (stack ++ t :: ts).length ≤ n := by
      rw [List.length_append] at hn
      omega
    rw [List.append_assoc, hrest, List.cons_append, Guard.unwrapLoop, hround]
    dsimp only
    rw [← helevated, ← hrest, ih hlength, Bool.or_assoc]

/-- The assignments in front go. -/
theorem Lead.dropWhile (h : Lead elevated stack) (ht : Plain t) (ts : List String) :
    ∃ wrappers, Wrappers elevated wrappers ∧
      (stack ++ t :: ts).dropWhile isAssignment = wrappers ++ t :: ts := by
  induction h with
  | @wrappers stack hwrappers =>
    obtain ⟨word, rest, hrest, hword⟩ := hwrappers.head ht ts
    refine ⟨stack, hwrappers, ?_⟩
    rw [hrest, List.dropWhile_cons_of_neg (by rw [hword.2]; decide)]
  | assignment hassignment _ ih =>
    obtain ⟨wrappers, hwrappers, hdrop⟩ := ih
    exact ⟨wrappers, hwrappers, by rw [List.cons_append, List.dropWhile_cons_of_pos hassignment, hdrop]⟩

theorem Lead.unwrapSegmentWithPrivilege (h : Lead elevated stack) (ht : Plain t) (ts : List String) :
    unwrapSegmentWithPrivilege (stack ++ t :: ts) =
      ((unwrapSegmentWithPrivilege (t :: ts)).1,
        elevated || (unwrapSegmentWithPrivilege (t :: ts)).2) := by
  obtain ⟨wrappers, hwrappers, hdrop⟩ := h.dropWhile ht ts
  have hself : (t :: ts).dropWhile isAssignment = t :: ts :=
    List.dropWhile_cons_of_neg (by rw [ht.2]; decide)
  have hlength : (wrappers ++ t :: ts).length ≤ (stack ++ t :: ts).length :=
    hdrop ▸ (List.dropWhile_sublist _).length_le
  unfold Guard.unwrapSegmentWithPrivilege
  rw [hdrop, hself, hwrappers.unwrapLoop ht ts hlength le_rfl, Bool.false_or,
    unwrapLoop_privileged]

theorem Lead.unwrapSegment (h : Lead elevated stack) (ht : Plain t) (ts : List String) :
    unwrapSegment (stack ++ t :: ts) = unwrapSegment (t :: ts) := by
  unfold Guard.unwrapSegment
  rw [h.unwrapSegmentWithPrivilege ht ts]

/-! ## Keywords and `xargs` -/

/-- A token that is no wrapper stays. -/
theorem unwrapSegment_of_plain (ht : Plain t)
    (hround : ∀ args, unwrapOnce (Str.casefold (pathName t)) args = none) (ts : List String) :
    unwrapSegment (t :: ts) = t :: ts := by
  unfold Guard.unwrapSegment Guard.unwrapSegmentWithPrivilege
  rw [List.dropWhile_cons_of_neg (by rw [ht.2]; decide), List.length_cons, unwrapLoop, hround]

theorem plain_keyword (ht : t ∈ shellKeywords) :
    Plain t ∧ ∀ args, unwrapOnce (Str.casefold (pathName t)) args = none := by
  have hall : ∀ word ∈ shellKeywords, Plain word ∧
      Str.casefold (pathName word) ∉ ["env", "sudo", "exec", "uv", "uvx", "timeout"] ++
        commandWrappers ++ optionWrappers := by
    unfold Plain Dashed
    decide +kernel
  obtain ⟨hplain, hname⟩ := hall t ht
  refine ⟨hplain, fun args => ?_⟩
  simp only [List.cons_append, List.nil_append, List.mem_cons, List.mem_append, not_or] at hname
  simp only [unwrapOnce, hname, if_false]

/-- The word `xargs` is no wrapper of the inner loop, in any case. -/
theorem unwrapOnce_xargs (ht : executableOf t = "xargs") (args : List String) :
    unwrapOnce (Str.casefold (pathName t)) args = none := by
  have hascii : ∀ c ∈ "xargs".toList, c.toNat < 128 := by simp
  rw [Str.casefold_of_lower ht hascii]
  rfl

/-- What stands before a command never starts with an option. -/
theorem Stack.head (h : Stack stack) (ht : Plain t) (ts : List String) :
    ∃ word rest, stack ++ t :: ts = word :: rest ∧ ¬ Dashed word := by
  have hlead : ∀ {elevated : Bool} {stack : List String} {word : String} (words : List String),
      Lead elevated stack → Plain word →
      ∃ first rest, stack ++ word :: words = first :: rest ∧ ¬ Dashed first := by
    intro elevated stack word words hlead hword
    cases hlead with
    | wrappers hwrappers =>
      obtain ⟨first, rest, hrest, hfirst⟩ := hwrappers.head hword words
      exact ⟨first, rest, hrest, hfirst.1⟩
    | @assignment first stack hassignment _ =>
      refine ⟨first, stack ++ word :: words, rfl, fun hdash => ?_⟩
      -- a name does not start with a dash
      unfold isAssignment at hassignment
      unfold Dashed Str.startswith at hdash
      cases hchars : first.toList with
      | nil =>
        rw [hchars] at hassignment
        cases hassignment
      | cons c cs =>
        rw [hchars] at hassignment hdash
        have hc : '-' = c := by simpa using hdash
        subst hc
        rw [Bool.and_eq_true] at hassignment
        exact absurd hassignment.1 (by decide)
  cases h with
  | lead hstack => exact hlead ts hstack ht
  | @keyword _ stack rest word hstack hword _ =>
    obtain ⟨first, more, hmore, hfirst⟩ :=
      hlead (rest ++ t :: ts) hstack (plain_keyword hword).1
    exact ⟨first, more, by rw [List.append_assoc, List.cons_append, hmore], hfirst⟩
  | @xargs _ stack options rest word hstack hword _ _ _ =>
    obtain ⟨first, more, hmore, hfirst⟩ := hlead (options ++ rest ++ t :: ts) hstack hword
    exact ⟨first, more, by rw [List.append_assoc, List.cons_append, hmore], hfirst⟩

/-- Every stack comes off. -/
theorem Stack.unwrap (h : Stack stack) (ht : Plain t) (ts : List String) :
    unwrap (stack ++ t :: ts) = unwrap (t :: ts) := by
  induction h with
  | @lead _ stack hstack =>
    unfold Guard.unwrap
    rw [hstack.unwrapSegment ht ts]
    have hshort := (unwrapSegment_suffix (t :: ts)).length_le
    refine unwrapKeywords_enough (hshort.trans ?_) hshort
    rw [List.length_append]
    omega
  | @keyword _ stack rest word hstack hword _ ih =>
    obtain ⟨hplain, hround⟩ := plain_keyword hword
    rw [← ih]
    unfold Guard.unwrap
    rw [List.append_assoc, List.cons_append, hstack.unwrapSegment hplain,
      unwrapSegment_of_plain hplain hround]
    have hshort := (unwrapSegment_suffix (rest ++ t :: ts)).length_le
    rw [List.length_append, List.length_cons, ← Nat.add_assoc, unwrapKeywords, if_pos hword]
    exact unwrapKeywords_enough (hshort.trans (by omega)) hshort
  | @xargs _ stack options rest word hstack hplain hname hoptions hrest ih =>
    obtain ⟨first, more, hmore, hfirst⟩ := hrest.head ht ts
    rw [← ih]
    unfold Guard.unwrap
    rw [List.append_assoc, List.cons_append, hstack.unwrapSegment hplain,
      unwrapSegment_of_plain hplain (unwrapOnce_xargs hname)]
    have hkeyword : word ∉ shellKeywords := by
      intro hmem
      have hnot : ∀ keyword ∈ shellKeywords, executableOf keyword ≠ "xargs" := by decide +kernel
      exact hnot word hmem hname
    have hskip : skipXargs (options ++ rest ++ t :: ts) = rest ++ t :: ts := by
      rw [List.append_assoc, hmore, skips_skipXargs.append hoptions hfirst]
    have hshort := (unwrapSegment_suffix (rest ++ t :: ts)).length_le
    rw [List.length_append, List.length_cons, ← Nat.add_assoc, unwrapKeywords, if_neg hkeyword,
      if_pos hname, hskip]
    refine unwrapKeywords_enough (hshort.trans ?_) hshort
    simp only [List.length_append]
    omega

/-- Behind every stack of wrappers the guard finds the same command, and where the stack has
    no keyword and no `xargs` it reports `sudo` exactly when it is in the stack or in the
    command. -/
theorem wrappers_transparent {t : String} (ht : Plain t) (ts : List String) :
    (∀ stack, Stack stack → unwrap (stack ++ t :: ts) = unwrap (t :: ts)) ∧
      ∀ elevated stack, Lead elevated stack →
        ((unwrapSegmentWithPrivilege (stack ++ t :: ts)).2 = true ↔
          elevated = true ∨ (unwrapSegmentWithPrivilege (t :: ts)).2 = true) := by
  constructor
  · exact fun stack hstack => hstack.unwrap ht ts
  · intro elevated stack hstack
    rw [hstack.unwrapSegmentWithPrivilege ht ts, Bool.or_eq_true]

/-- `X=1 sudo -u root timeout -k 5 10`. -/
theorem lead_sudo_timeout :
    Lead true (["X=1"] ++ (["sudo", "-u", "root"] ++ (["timeout", "-k", "5", "10"] ++ []))) := by
  have hcalled : ∀ name ∈ ["sudo", "timeout"], Called name name := by
    unfold Called Plain Dashed
    decide +kernel
  have huser : "-u" ∈ sudoOptionsWithValue := by decide
  have hkill : "-k" ∈ wrapperOptionsWithValue := by decide
  have hsudo : Wrapper true ["sudo", "-u", "root"] :=
    .privileged (hcalled "sudo" (by decide)) (.valued huser .nil)
  have htimeout : Wrapper false (["timeout"] ++ (["-k", "5"] ++ ["10"])) :=
    .timeout (hcalled "timeout" (by decide)) (.valued hkill .nil) (by decide)
  exact .assignment (by decide) (.wrappers (.cons hsudo (.cons htimeout .nil)))

theorem wrappers_transparent_push :
    unwrap ["X=1", "sudo", "-u", "root", "timeout", "-k", "5", "10", "if", "xargs", "-n", "1",
        "git", "push"] = unwrap ["git", "push"] ∧
      (unwrapSegmentWithPrivilege
        ["X=1", "sudo", "-u", "root", "timeout", "-k", "5", "10", "git", "push"]).2 = true := by
  have hgit : Plain "git" := by
    unfold Plain Dashed
    decide
  have hmax : "-n" ∈ xargsValueOptions := by decide
  have hxargs : Stack ([] ++ "xargs" :: (["-n", "1"] ++ [])) := by
    apply Stack.xargs (.wrappers .nil) _ (by decide) (.valued hmax .nil)
      (.lead (.wrappers .nil))
    unfold Plain Dashed
    decide
  have hstack : Stack (["X=1", "sudo", "-u", "root", "timeout", "-k", "5", "10"] ++
      "if" :: ["xargs", "-n", "1"]) :=
    .keyword lead_sudo_timeout (by decide) hxargs
  obtain ⟨hunwrap, hprivileged⟩ := wrappers_transparent hgit ["push"]
  exact ⟨hunwrap _ hstack, (hprivileged true _ lead_sudo_timeout).mpr (.inl rfl)⟩

end SummitFlow.Guard
