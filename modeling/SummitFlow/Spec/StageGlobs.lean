import SummitFlow.Cli.StageInputs

/-!
# What a stage's globs select

A glob is made of tokens, each of which stands for some texts.  In the expressions of
`_glob_pattern` the dot does not match a newline, so `**`, `**/` and the part of a path below a
selected one stand for texts without a newline only.
-/

namespace SummitFlow.NativeCheck

open Regex

/-! ## The meaning of a glob -/

/-- The text is one that a token stands for; `spans` holds of what may go across
    directories. -/
def GlobToken.Stands (spans : List Char → Prop) : GlobToken → List Char → Prop
  | directories, m => (m = [] ∨ m.getLast? = some '/') ∧ spans m
  | anything, m => spans m
  | part, m => '/' ∉ m
  | character, m => ∃ c, m = [c] ∧ c ≠ '/'
  | itself c, m => m = [c]

/-- The text is made of what the tokens stand for. -/
def Globs (spans : List Char → Prop) (tokens : List GlobToken) (text : List Char) : Prop :=
  ∃ parts, List.Forall₂ (GlobToken.Stands spans) tokens parts ∧ text = parts.flatten

/-- The path matches the pattern, or is below a path that does if the pattern does not end in
    a star. -/
def Chosen (spans : List Char → Prop) (pattern path : String) : Prop :=
  let pattern := Str.rstripSlash pattern
  Globs spans (globTokens pattern.toList) path.toList ∨
    Str.endswith pattern "*" = false ∧ ∃ parent below, path.toList = parent ++ '/' :: below ∧
      spans below ∧ Globs spans (globTokens pattern.toList) parent

/-- What the pattern says. -/
def Chooses (pattern path : String) : Prop := Chosen (fun _ => True) pattern path

/-- What the pattern says, if nothing in it stands for a newline across directories. -/
def ChoosesInLine (pattern path : String) : Prop := Chosen (fun m => '\n' ∉ m) pattern path

theorem GlobToken.Stands.mono {spans spans' : List Char → Prop} (h : ∀ m, spans m → spans' m)
    {token : GlobToken} {m : List Char} (hm : token.Stands spans m) : token.Stands spans' m := by
  cases token with
  | directories => exact ⟨hm.1, h m hm.2⟩
  | anything => exact h m hm
  | part => exact hm
  | character => exact hm
  | itself c => exact hm

theorem Globs.mono {spans spans' : List Char → Prop} (h : ∀ m, spans m → spans' m)
    {tokens : List GlobToken} {text : List Char} (htext : Globs spans tokens text) :
    Globs spans' tokens text := by
  obtain ⟨parts, hparts, rfl⟩ := htext
  exact ⟨parts, hparts.imp fun _ _ hm => hm.mono h, rfl⟩

theorem ChoosesInLine.chooses {pattern path : String} (h : ChoosesInLine pattern path) :
    Chooses pattern path := by
  rcases h with hglob | ⟨hstar, parent, below, hpath, -, hglob⟩
  · exact .inl (hglob.mono fun _ _ => trivial)
  · exact .inr ⟨hstar, parent, below, hpath, trivial, hglob.mono fun _ _ => trivial⟩

/-! ## The expressions -/

def dot : Regex Char := .one (· ≠ '\n')

def slash : Regex Char := .one (Re.isChar globFlags '/')

/-- `[^/]` -/
def notSlash : Regex Char := .one fun d => [Re.isChar globFlags '/'].any (fun p => p d) != true

/-- What the expression of a token is compiled to. -/
def GlobToken.regex : GlobToken → Regex Char
  | directories => .alt (concat [.star dot, slash]) .eps
  | anything => .star dot
  | part => .star notSlash
  | character => notSlash
  | itself c => .one (Re.isChar globFlags c)

def beneathRegex : Regex Char := .alt (concat [slash, .star dot]) .eps

open Re (Reader Group)

theorem read_token (token : GlobToken) (group : Group) (outer : List Group) :
    token.expression.foldlM (Reader.read globFlags) ⟨.plain, group, outer⟩ =
      some (Reader.push ⟨.plain, group, outer⟩ token.regex) := by
  cases token with
  | directories => rfl
  | anything => rfl
  | part => rfl
  | character => rfl
  | itself c => exact Re.read_escape globFlags group outer c

theorem read_beneath (group : Group) (outer : List Group) :
    beneath.foldlM (Reader.read globFlags) ⟨.plain, group, outer⟩ =
      some (Reader.push ⟨.plain, group, outer⟩ beneathRegex) := rfl

/-- The expressions of some tokens are read as the tokens. -/
theorem read_tokens (tokens : List GlobToken) (items : List (Regex Char)) :
    (tokens.flatMap GlobToken.expression).foldlM (Reader.read globFlags) ⟨.plain, ⟨[], items⟩, []⟩ =
      some ⟨.plain, ⟨[], (tokens.map GlobToken.regex).reverse ++ items⟩, []⟩ := by
  induction tokens generalizing items with
  | nil => rfl
  | cons token tokens ih =>
    rw [List.flatMap_cons, List.foldlM_append, read_token]
    show (tokens.flatMap GlobToken.expression).foldlM (Reader.read globFlags)
      (⟨.plain, ⟨[], token.regex :: items⟩, []⟩ : Reader) = _
    rw [ih, List.map_cons, List.reverse_cons, List.append_assoc]
    rfl

theorem sequence_reverse (rs : List (Regex Char)) : Re.sequence rs.reverse = concat rs := by
  rw [Re.sequence, List.foldl_reverse]
  rfl

theorem finish_items (items : List (Regex Char)) :
    Reader.finish ⟨.plain, ⟨[], items⟩, []⟩ = some (Re.sequence items) := rfl

theorem push_items (items : List (Regex Char)) (r : Regex Char) :
    Reader.push ⟨.plain, ⟨[], items⟩, []⟩ r = ⟨.plain, ⟨[], r :: items⟩, []⟩ := rfl

/-- What a pattern is compiled to. -/
theorem globPattern_eq (pattern : String) :
    globPattern pattern = some (concat ((globTokens (Str.rstripSlash pattern).toList).map
      GlobToken.regex ++
        if Str.endswith (Str.rstripSlash pattern) "*" then [] else [beneathRegex])) := by
  have hread := read_tokens (globTokens (Str.rstripSlash pattern).toList) []
  rw [List.append_nil] at hread
  unfold globPattern globExpression Re.compile
  dsimp only
  split
  · rw [Reader.start, hread, Option.bind_some, finish_items, sequence_reverse, List.append_nil]
  · rw [Reader.start, List.foldlM_append, hread]
    simp only [Option.bind_eq_bind, Option.bind_some, read_beneath, push_items]
    rw [finish_items, ← sequence_reverse, List.reverse_append, List.reverse_singleton,
      List.singleton_append]

/-! ## What the expressions match -/

section

variable {prev : Option Char} {m after : List Char}

theorem isChar_iff {c d : Char} : Re.isChar globFlags c d = true ↔ d = c := by
  simp [Re.isChar, globFlags]

/-- The dot leaves out the newline. -/
theorem match_dots : Match (.star dot) prev m after ↔ '\n' ∉ m := by
  rw [dot, match_star_one]
  simp only [decide_eq_true_eq]
  constructor
  · intro h hmem
    exact h _ hmem rfl
  · intro h c hc heq
    exact h (heq ▸ hc)

theorem match_char {c : Char} :
    Match (.one (Re.isChar globFlags c)) prev m after ↔ m = [c] := by
  rw [match_one]
  simp only [isChar_iff]
  constructor
  · rintro ⟨d, rfl, rfl⟩
    rfl
  · intro h
    exact ⟨c, h, rfl⟩

theorem notSlash_iff {c : Char} :
    ([Re.isChar globFlags '/'].any (fun p => p c) != true) = true ↔ c ≠ '/' := by
  simp [Re.isChar, globFlags]

/-- A token's expression matches what the token stands for in a line. -/
theorem match_token (token : GlobToken) :
    Match token.regex prev m after ↔ token.Stands (fun m => '\n' ∉ m) m := by
  cases token with
  | directories =>
    rw [GlobToken.regex, match_alt, match_eps, match_concat_cons, GlobToken.Stands]
    constructor
    · rintro (⟨m₁, m₂, rfl, hdots, hslash⟩ | rfl)
      · obtain rfl := match_char.mp (match_concat_singleton.mp hslash)
        have hline := match_dots.mp hdots
        refine ⟨.inr (List.getLast?_concat), ?_⟩
        simpa using hline
      · exact ⟨.inl rfl, List.not_mem_nil⟩
    · rintro ⟨rfl | hlast, hline⟩
      · exact .inr rfl
      · obtain ⟨dirs, rfl⟩ := List.getLast?_eq_some_iff.mp hlast
        refine .inl ⟨dirs, ['/'], rfl, match_dots.mpr fun hmem => ?_, ?_⟩
        · exact hline (List.mem_append_left _ hmem)
        · exact match_concat_singleton.mpr (match_char.mpr rfl)
  | anything => exact match_dots
  | part =>
    rw [GlobToken.regex, notSlash, match_star_one, GlobToken.Stands]
    simp only [notSlash_iff]
    constructor
    · intro h hmem
      exact h _ hmem rfl
    · intro h c hc heq
      exact h (heq ▸ hc)
  | character =>
    rw [GlobToken.regex, notSlash, match_one, GlobToken.Stands]
    simp only [notSlash_iff]
  | itself c => exact match_char

theorem match_tokens (tokens : List GlobToken) :
    Match (concat (tokens.map GlobToken.regex)) prev m after ↔
      Globs (fun m => '\n' ∉ m) tokens m := by
  induction tokens generalizing prev m with
  | nil =>
    constructor
    · intro h
      obtain rfl := match_eps.mp h
      exact ⟨[], .nil, rfl⟩
    · rintro ⟨parts, hparts, rfl⟩
      cases hparts
      exact .eps
  | cons token tokens ih =>
    rw [List.map_cons, match_concat_cons]
    constructor
    · rintro ⟨m₁, m₂, rfl, hfirst, hrest⟩
      obtain ⟨parts, hparts, rfl⟩ := ih.mp hrest
      exact ⟨m₁ :: parts, .cons ((match_token token).mp hfirst) hparts, rfl⟩
    · rintro ⟨parts, hparts, rfl⟩
      cases hparts with
      | cons hfirst hrest =>
        exact ⟨_, _, rfl, (match_token token).mpr hfirst, ih.mpr ⟨_, hrest, rfl⟩⟩

theorem match_beneath :
    Match beneathRegex prev m after ↔ m = [] ∨ ∃ below, m = '/' :: below ∧ '\n' ∉ below := by
  rw [beneathRegex, match_alt, match_eps, match_concat_cons]
  constructor
  · rintro (⟨m₁, m₂, rfl, hslash, hdots⟩ | rfl)
    · obtain rfl := match_char.mp hslash
      exact .inr ⟨m₂, rfl, match_dots.mp (match_concat_singleton.mp hdots)⟩
    · exact .inl rfl
  · rintro (rfl | ⟨below, rfl, hline⟩)
    · exact .inr rfl
    · exact .inl ⟨['/'], below, rfl, match_char.mpr rfl,
        match_concat_singleton.mpr (match_dots.mpr hline)⟩

end

/-! ## What is selected -/

/-- The code selects what a pattern says of a line. -/
theorem fullmatch_globPattern (pattern path : String) :
    ((globPattern pattern).any fun r => r.fullmatch path.toList) = true ↔
      ChoosesInLine pattern path := by
  rw [globPattern_eq, Option.any_some, fullmatch_iff, ChoosesInLine, Chosen]
  split
  · next hstar =>
    rw [List.append_nil, match_tokens, hstar]
    simp
  · next hstar =>
    rw [match_concat_append]
    simp only [match_tokens, match_concat_singleton, match_beneath]
    constructor
    · rintro ⟨m₁, m₂, hpath, hglob, rfl | ⟨below, rfl, hline⟩⟩
      · rw [List.append_nil] at hpath
        rw [hpath]
        exact .inl hglob
      · exact .inr ⟨Bool.eq_false_iff.mpr hstar, m₁, below, hpath, hline, hglob⟩
    · rintro (hglob | ⟨-, parent, below, hpath, hline, hglob⟩)
      · exact ⟨path.toList, [], (List.append_nil _).symm, hglob, .inl rfl⟩
      · exact ⟨parent, '/' :: below, hpath, hglob, .inr ⟨below, rfl, hline⟩⟩

theorem selected_iff (path : String) (patterns : List String) :
    selected path patterns = true ↔ ∃ pattern ∈ patterns, ChoosesInLine pattern path := by
  rw [selected, List.any_eq_true]
  simp only [fullmatch_globPattern]

/-- A pattern selects what it says if, whenever it says so of a path, it does without a
    newline across directories; and then the inputs of a stage are those it declares. -/
theorem selected_chooses_iff {α : Type} (pattern path : String) (stage : Stage)
    (tree : List (String × α)) :
    ((selected path [pattern] = true ↔ Chooses pattern path) ↔
      (Chooses pattern path → ChoosesInLine pattern path)) ∧
    ((∀ entry ∈ tree, ∀ pattern ∈ stage.inputs ++ stage.exclude,
        Chooses pattern entry.1 → ChoosesInLine pattern entry.1) →
      ∀ path, path ∈ stageInputs stage tree ↔ path ∈ tree.map Prod.fst ∧
        (∃ pattern ∈ stage.inputs, Chooses pattern path) ∧
        ¬ ∃ pattern ∈ stage.exclude, Chooses pattern path) := by
  constructor
  · rw [selected_iff]
    simp only [List.mem_singleton, exists_eq_left]
    constructor
    · intro h
      exact h.mpr
    · intro h
      exact ⟨ChoosesInLine.chooses, h⟩
  · intro h path
    rw [stageInputs, mem_sortBy, List.mem_filter, Bool.and_eq_true, Bool.not_eq_true']
    rw [and_congr_right_iff]
    intro hpath
    obtain ⟨entry, hentry, rfl⟩ := List.mem_map.mp hpath
    have hsame : ∀ patterns, patterns ⊆ stage.inputs ++ stage.exclude →
        (selected entry.1 patterns = true ↔ ∃ pattern ∈ patterns, Chooses pattern entry.1) := by
      intro patterns hsub
      rw [selected_iff]
      constructor
      · rintro ⟨pattern, hmem, hline⟩
        exact ⟨pattern, hmem, hline.chooses⟩
      · rintro ⟨pattern, hmem, hchooses⟩
        exact ⟨pattern, hmem, h entry hentry pattern (hsub hmem) hchooses⟩
    rw [hsame stage.inputs (List.subset_append_left _ _), ← Bool.not_eq_true,
      hsame stage.exclude (List.subset_append_right _ _)]

/-- A file with a newline in its name is not below its directory. -/
theorem newline_below_not_selected :
    ¬ (selected "docs/a\nb.md" ["docs"] = true ↔ Chooses "docs" "docs/a\nb.md") := by
  intro h
  have hchooses : Chooses "docs" "docs/a\nb.md" := by
    refine .inr ⟨by decide +kernel, "docs".toList, "a\nb.md".toList, by decide +kernel, trivial, ?_⟩
    refine ⟨[['d'], ['o'], ['c'], ['s']], ?_, by decide +kernel⟩
    have htokens : globTokens (Str.rstripSlash "docs").toList =
        [.itself 'd', .itself 'o', .itself 'c', .itself 's'] := by decide +kernel
    rw [htokens]
    exact .cons rfl (.cons rfl (.cons rfl (.cons rfl .nil)))
  exact absurd (h.mpr hchooses) (by decide +kernel)

end SummitFlow.NativeCheck
