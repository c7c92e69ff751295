import Mathlib.Data.List.Forall2
import SummitFlow.ForStd.ShellScript
import SummitFlow.Spec.GuardText

/-!
# Scripts as they are written

The text of a script, with the quotes of its words, and what the guard's splitting makes
of it: as long as every word is one that the lexer reads back, its segments are the simple
commands of the script, each cleaned of grouping characters.
-/

namespace SummitFlow.Guard

open Shell (Level Term)

/-! ## Words -/

/-- Characters that need no quotes in a word. -/
def isBare (c : Char) : Bool :=
  c ∉ [' ', '\t', '\r', '\n', ';', '&', '|', '(', ')', '<', '>', '\'', '"', '\\']

/-- A piece of a word: a character that stands for itself, a text in quotes, or a
    character after a backslash. -/
inductive Piece where
  | bare (c : Char) (h : isBare c = true)
  | single (cs : List Char) (h : '\'' ∉ cs)
  | double (cs : List Char)
  | escaped (c : Char) (h : c ≠ '\n')

/-- A character in double quotes. -/
def doubleQuoted (c : Char) : List Char := if c = '"' ∨ c = '\\' then ['\\', c] else [c]

def Piece.text : Piece → List Char
  | .bare c _ => [c]
  | .single cs _ => '\'' :: cs ++ ['\'']
  | .double cs => '"' :: cs.flatMap doubleQuoted ++ ['"']
  | .escaped c _ => ['\\', c]

def Piece.value : Piece → List Char
  | .bare c _ => [c]
  | .single cs _ => cs
  | .double cs => cs
  | .escaped c _ => [c]

/-- A word has at least one piece; its value may be empty. -/
structure Word where
  first : Piece
  rest : List Piece

def Word.pieces (w : Word) : List Piece := w.first :: w.rest

def Word.text (w : Word) : List Char := w.pieces.flatMap Piece.text

def Word.value (w : Word) : List Char := w.pieces.flatMap Piece.value

/-- A simple command. -/
structure Simple where
  command : Word
  arguments : List Word

def Simple.words (a : Simple) : List Word := a.command :: a.arguments

/-- What the command gets. -/
def Simple.argv (a : Simple) : List String := a.words.map fun w => String.ofList w.value

/-! ## Scripts -/

/-- Words with closing parentheses after the last one. -/
def closeLast (closed : Nat) : List Char → List (List Char) → List (List Char)
  | word, [] => [word ++ List.replicate closed ')']
  | word, next :: rest => word :: closeLast closed next rest

/-- Words with parentheses around them. -/
def parenthesized (opened closed : Nat) (first : List Char) (rest : List (List Char)) :
    List (List Char) :=
  closeLast closed (List.replicate opened '(' ++ first) rest

/-- The words and operators of a script, with parentheses that are open before it and
    closed after it. -/
def spelled (spell : Word → List Char) : {level : Level} → Term Simple level → Nat → Nat →
    List (List Char)
  | _, .simple a, k, j => parenthesized k j (spell a.command) (a.arguments.map spell)
  | _, .group body, k, j => spelled spell body (k + 1) (j + 1)
  | _, .single c, k, j => spelled spell c k j
  | _, .pipe c rest, k, j => spelled spell c k 0 ++ ['|'] :: spelled spell rest 0 j
  | _, .chain p, k, j => spelled spell p k j
  | _, .and l p, k, j => spelled spell l k 0 ++ ['&', '&'] :: spelled spell p 0 j
  | _, .or l p, k, j => spelled spell l k 0 ++ ['|', '|'] :: spelled spell p 0 j
  | _, .done l, k, j => spelled spell l k j
  | _, .async l, k, j =>
    spelled spell l k 0 ++ ['&'] :: if j = 0 then [] else [List.replicate j ')']
  | _, .seq l newline rest, k, j =>
    spelled spell l k 0 ++ [if newline then '\n' else ';'] :: spelled spell rest 0 j
  | _, .background l rest, k, j => spelled spell l k 0 ++ ['&'] :: spelled spell rest 0 j

/-- The text of a script, with blanks between words and operators. -/
def written (c : Term Simple .script) : List Char := [' '].intercalate (spelled Word.text c 0 0)

/-! ## The lexer reads words back -/

/-- From a blank, or on in a word, the lexer reads this text as this part of the word. -/
def Reads (text value : List Char) : Prop :=
  ∀ st token, st = .blank ∧ token = [] ∨ st = .word token →
    Shlex.scan segmentLexer st text = ([], .word (token ++ value))

theorem Reads.append {text text' value value' : List Char} (h : Reads text value)
    (h' : Reads text' value') : Reads (text ++ text') (value ++ value') := by
  intro st token hst
  rw [Shlex.scan_append, h st token hst, h' _ _ (.inr rfl), List.append_assoc]
  rfl

/-- A step that stays in the word. -/
theorem reads_char {c : Char} (hws : c ∉ segmentLexer.whitespace)
    (hp : c ∉ segmentLexer.punctuation) (hmark : ¬ Shlex.isMark c) : Reads [c] [c] := by
  simp only [Shlex.isMark, not_or] at hmark
  rintro st token (⟨rfl, rfl⟩ | rfl)
  · simp [Shlex.scan, Shlex.step, Shlex.stepBlank, hws, hp, hmark]
  · simp [Shlex.scan, Shlex.step, Shlex.stepWord, hws, hp, hmark]

theorem scan_single (token : List Char) {cs : List Char} (h : '\'' ∉ cs) :
    Shlex.scan segmentLexer (.quote '\'' token) cs = ([], .quote '\'' (token ++ cs)) := by
  induction cs generalizing token with
  | nil => simp [Shlex.scan]
  | cons c cs ih =>
    rw [List.mem_cons, not_or] at h
    simp [Shlex.scan, Shlex.step, Ne.symm h.1, ih _ h.2]

theorem scan_double (token cs : List Char) :
    Shlex.scan segmentLexer (.quote '"' token) (cs.flatMap doubleQuoted) =
      ([], .quote '"' (token ++ cs)) := by
  induction cs generalizing token with
  | nil => simp [Shlex.scan]
  | cons c cs ih =>
    rw [List.flatMap_cons, Shlex.scan_append]
    have hchar : Shlex.scan segmentLexer (.quote '"' token) (doubleQuoted c) =
        ([], .quote '"' (token ++ [c])) := by
      unfold doubleQuoted
      split
      · next hmark => rcases hmark with rfl | rfl <;> simp [Shlex.scan, Shlex.step]
      · next hmark =>
        rw [not_or] at hmark
        simp [Shlex.scan, Shlex.step, hmark]
    rw [hchar, ih]
    simp

/-- A comment sign that stands for itself ends the word for the lexer. -/
def Piece.isHash : Piece → Bool
  | .bare c _ => c == '#'
  | _ => false

theorem reads_piece {piece : Piece} (h : piece.isHash = false) : Reads piece.text piece.value := by
  cases piece with
  | bare c hbare =>
    have hhash : c ≠ '#' := by simpa [Piece.isHash] using h
    simp only [isBare, List.mem_cons, List.not_mem_nil, or_false, not_or, decide_eq_true_eq]
      at hbare
    apply reads_char
    · simp [segmentLexer, hbare]
    · simp [segmentLexer, hbare]
    · simp [Shlex.isMark, Shlex.isQuote, hhash, hbare]
  | single cs hcs =>
    rintro st token hst
    have hstart : Shlex.scan segmentLexer st ['\''] = ([], .quote '\'' token) := by
      rcases hst with ⟨rfl, rfl⟩ | rfl <;> rfl
    show Shlex.scan segmentLexer st (['\''] ++ (cs ++ ['\''])) = _
    rw [Shlex.scan_append, Shlex.scan_append, hstart, scan_single token hcs]
    simp [Shlex.scan, Shlex.step, Piece.value]
  | double cs =>
    rintro st token hst
    have hstart : Shlex.scan segmentLexer st ['"'] = ([], .quote '"' token) := by
      rcases hst with ⟨rfl, rfl⟩ | rfl <;> rfl
    show Shlex.scan segmentLexer st (['"'] ++ (cs.flatMap doubleQuoted ++ ['"'])) = _
    rw [Shlex.scan_append, Shlex.scan_append, hstart, scan_double token cs]
    simp [Shlex.scan, Shlex.step, Piece.value]
  | escaped c hc =>
    rintro st token (⟨rfl, rfl⟩ | rfl) <;> rfl

theorem reads_pieces {piece : Piece} {rest : List Piece}
    (h : ∀ p ∈ piece :: rest, p.isHash = false) :
    Reads ((piece :: rest).flatMap Piece.text) ((piece :: rest).flatMap Piece.value) := by
  induction rest generalizing piece with
  | nil => simpa using reads_piece (h piece List.mem_cons_self)
  | cons next rest ih =>
    rw [List.flatMap_cons, List.flatMap_cons]
    exact (reads_piece (h piece List.mem_cons_self)).append
      (ih fun p hp => h p (List.mem_cons_of_mem _ hp))

theorem reads_paren : Reads [')'] [')'] :=
  reads_char (by decide) (by decide) (by simp [Shlex.isMark, Shlex.isQuote])

theorem Reads.opened {text value : List Char} (h : Reads text value) (k : Nat) :
    Reads (List.replicate k '(' ++ text) (List.replicate k '(' ++ value) := by
  induction k with
  | zero => exact h
  | succ k ih =>
    have hparen : Reads ['('] ['('] :=
      reads_char (by decide) (by decide) (by simp [Shlex.isMark, Shlex.isQuote])
    exact hparen.append ih

theorem Reads.closed {text value : List Char} (h : Reads text value) (j : Nat) :
    Reads (text ++ List.replicate j ')') (value ++ List.replicate j ')') := by
  induction j with
  | zero => simpa using h
  | succ j ih =>
    rw [List.replicate_succ', ← List.append_assoc, ← List.append_assoc]
    exact ih.append reads_paren

/-! ## The lexer reads scripts back -/

/-- Words that the lexer reads back: no comment sign stands for itself, and the value is
    no operator. -/
def Word.readable (w : Word) : Bool := !w.pieces.any Piece.isHash && !isSeparator w.value

theorem Word.reads {w : Word} (h : w.readable = true) : Reads w.text w.value := by
  simp only [Word.readable, Bool.and_eq_true, Bool.not_eq_true', List.any_eq_false] at h
  exact reads_pieces fun p hp => by simpa using h.1 p hp

/-- The characters that open and close groups. -/
def opens (c : Char) : Bool := c == '(' || c == '{'

def Simple.values (a : Simple) : List (List Char) := a.words.map Word.value

/-- The words the guard makes of a simple command. -/
def Simple.cleaned (a : Simple) : List (List Char) := (cleanSegment a.values).getD []

/-- A parenthesis that stands alone is read like an empty word. -/
def closing : Simple := ⟨⟨.single [] List.not_mem_nil, []⟩, []⟩

/-- The text has `<<` somewhere. -/
def arrows : List Char → Bool
  | [] | [_] => false
  | c :: d :: cs => c == '<' && d == '<' || arrows (d :: cs)

/-- No word of the command has `<<` in it. -/
def Simple.plain (a : Simple) : Bool := !(a.words.map Word.text).any arrows

end SummitFlow.Guard
