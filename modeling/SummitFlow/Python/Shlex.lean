import SummitFlow.Python.Str

/-!
# Python's `shlex`

`shlex.shlex(text, posix=True, punctuation_chars=…)` with `whitespace_split` set, as a
machine that reads one character at a time and emits tokens.  The class pushes a
character back when it ends a token; here the step that emits the token reads the
character again in the new state.  A token in the word state is always emitted, also
an empty one, because that state is entered with a character or by a closing quote.
-/

namespace SummitFlow.Shlex

/-- How a lexer is set up: `whitespace`, `punctuation_chars` and whether `commenters` is
    `#` or empty. -/
structure Config where
  whitespace : List Char
  punctuation : List Char
  comments : Bool

/-- The lexer's `state` with the token read so far: `' '`, `'a'`, `'c'`, inside a quote,
    after a backslash (in a word, or in a double-quoted text) and in a comment. -/
inductive State where
  | blank
  | word (token : List Char)
  | punct (token : List Char)
  | quote (mark : Char) (token : List Char)
  | escape (token : List Char)
  | quotedEscape (mark : Char) (token : List Char)
  | comment
deriving DecidableEq, Repr

/-- `quotes`. -/
def isQuote (c : Char) : Bool := c == '\'' || c == '"'

variable (cfg : Config)

/-- A character in state `' '`. -/
def stepBlank (c : Char) : State :=
  if c ∈ cfg.whitespace then .blank
  else if cfg.comments ∧ c = '#' then .comment
  else if c = '\\' then .escape []
  else if c ∈ cfg.punctuation then .punct [c]
  else if isQuote c then .quote c []
  else .word [c]

/-- A character in state `'a'`: the token it ends, if it does, and the next state. -/
def stepWord (token : List Char) (c : Char) : Option (List Char) × State :=
  if c ∈ cfg.whitespace then (some token, .blank)
  else if cfg.comments ∧ c = '#' then (some token, .comment)
  else if isQuote c then (none, .quote c token)
  else if c = '\\' then (none, .escape token)
  else if c ∈ cfg.punctuation then (some token, stepBlank cfg c)
  else (none, .word (token ++ [c]))

/-- A character in state `'c'`. -/
def stepPunct (token : List Char) (c : Char) : Option (List Char) × State :=
  if c ∈ cfg.whitespace then (some token, .blank)
  else if cfg.comments ∧ c = '#' then (some token, .comment)
  else if c ∈ cfg.punctuation then (none, .punct (token ++ [c]))
  else (some token, stepBlank cfg c)

/-- One character. -/
def step : State → Char → Option (List Char) × State
  | .blank, c => (none, stepBlank cfg c)
  | .word token, c => stepWord cfg token c
  | .punct token, c => stepPunct cfg token c
  | .quote mark token, c =>
    if c = mark then (none, .word token)
    else if c = '\\' ∧ mark = '"' then (none, .quotedEscape mark token)
    else (none, .quote mark (token ++ [c]))
  | .escape token, c => (none, .word (token ++ [c]))
  | .quotedEscape mark token, c =>
    -- only the quote itself or a backslash may be escaped inside quotes
    if c ≠ '\\' ∧ c ≠ mark then (none, .quote mark (token ++ ['\\', c]))
    else (none, .quote mark (token ++ [c]))
  | .comment, c => (none, if c = '\n' then .blank else .comment)

/-- The tokens emitted over a text, and the state at its end. -/
def scan : State → List Char → List (List Char) × State
  | st, [] => ([], st)
  | st, c :: cs =>
    let (emitted, st') := step cfg st c
    let (tokens, last) := scan st' cs
    (emitted.toList ++ tokens, last)

/-- What the end of the text emits; a `ValueError` inside a quote or after a backslash. -/
def finish : State → Option (List (List Char))
  | .blank | .comment => some []
  | .word token | .punct token => some [token]
  | .quote .. | .escape .. | .quotedEscape .. => none

/-- `list(lexer)` from a state: the tokens, `none` for a `ValueError`. -/
def tokensFrom (st : State) (text : List Char) : Option (List (List Char)) :=
  let (tokens, last) := scan cfg st text
  (finish last).map (tokens ++ ·)

/-- `list(lexer)`. -/
def tokens (text : List Char) : Option (List (List Char)) := tokensFrom cfg .blank text

/-- `shlex.split`. -/
def split (text : String) : Option (List String) :=
  (tokens ⟨[' ', '\t', '\r', '\n'], [], false⟩ text.toList).map (·.map String.ofList)

/-- The characters `shlex.quote` leaves bare. -/
def isSafe (c : Char) : Bool :=
  c.isAlphanum || c ∈ ['_', '@', '%', '+', '=', ':', ',', '.', '/', '-']

/-- `shlex.quote`. -/
def quote (s : String) : String :=
  if s = "" then "''"
  else if s.toList.all isSafe then s
  else String.ofList ('\'' ::
    s.toList.flatMap (fun c => if c = '\'' then "'\"'\"'".toList else [c]) ++ ['\''])

/-- `shlex.join`. -/
def join (args : List String) : String := " ".intercalate (args.map quote)

end SummitFlow.Shlex
