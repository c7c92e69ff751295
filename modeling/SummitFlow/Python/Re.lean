import SummitFlow.ForStd.Regex
import SummitFlow.Python.Str

/-!
# Regular expressions of Python

What `re.compile` makes of an expression: characters, `.`, sets, groups without a number, `|`,
the repetitions `*`, `+` and `?`, and the escapes `\b`, `\s` and `\n`.  An expression is read
one character at a time; what is not in this part of the language is not read.
-/

namespace SummitFlow.Re

/-- `re.IGNORECASE`, and the letters of `\w`. -/
structure Flags where
  ignoreCase : Bool
  word : Char → Bool

/-! ## Reading an expression -/

/-- The letters that are the same as an ASCII letter when case is ignored. -/
def caseOrbit (c : Char) : List Char :=
  [c.toLower, c.toUpper] ++
    (if c.toLower = 'i' then ['\u0130', '\u0131']
    else if c.toLower = 'k' then ['\u212a']
    else if c.toLower = 's' then ['\u017f']
    else [])

/-- A character that stands for itself. -/
def isChar (flags : Flags) (c d : Char) : Bool := d = c || (flags.ignoreCase && d ∈ caseOrbit c)

/-- The group that is being read: the alternatives before the last bar and the items after
    it, each the last first. -/
structure Group where
  earlier : List (Regex Char)
  items : List (Regex Char)

/-- Items in the order they stand in. -/
def sequence (items : List (Regex Char)) : Regex Char := items.foldl (fun r item => .seq item r) .eps

def Group.regex (group : Group) : Regex Char :=
  group.earlier.foldl (fun r alternative => .alt alternative r) (sequence group.items)

inductive Mode where
  | plain
  /-- after a backslash -/
  | escape
  /-- after an opening bracket, and after the question mark behind it -/
  | opened
  | marked
  /-- in a set; `fresh` as long as it has no member -/
  | set (negated fresh : Bool) (members : List (Char → Bool))
  | setEscape (negated : Bool) (members : List (Char → Bool))

structure Reader where
  mode : Mode
  group : Group
  outer : List Group

def Reader.start : Reader := ⟨.plain, ⟨[], []⟩, []⟩

/-- One more item. -/
def Reader.push (st : Reader) (r : Regex Char) : Reader :=
  ⟨.plain, { st.group with items := r :: st.group.items }, st.outer⟩

/-- A repetition of the last item. -/
def Reader.again (st : Reader) (f : Regex Char → Regex Char) : Option Reader :=
  match st.group.items with
  | [] => none
  | r :: items => some { st with group := { st.group with items := f r :: items } }

/-- `\b`, `\s`, or a character that is no letter or digit. -/
def escaped (flags : Flags) (c : Char) : Option (Regex Char) :=
  if c = 'b' then some (.boundary flags.word)
  else if c = 's' then some (.one Str.isSpace)
  else if c.isAlphanum then none
  else some (.one (isChar flags c))

/-- A character outside of sets. -/
def Reader.readPlain (flags : Flags) (st : Reader) (c : Char) : Option Reader :=
  if c = '\\' then some { st with mode := .escape }
  else if c = '.' then some (st.push (.one (· ≠ '\n')))
  else if c = '*' then st.again .star
  else if c = '+' then st.again fun r => .seq r (.star r)
  else if c = '?' then st.again fun r => .alt r .eps
  else if c = '(' then some { st with mode := .opened }
  else if c = ')' then
    match st.outer with
    | [] => none
    | group :: outer => some (Reader.push ⟨.plain, group, outer⟩ st.group.regex)
  else if c = '|' then
    some { st with group := ⟨sequence st.group.items :: st.group.earlier, []⟩ }
  else if c = '[' then some { st with mode := .set false true [] }
  else if c = '^' ∨ c = '$' ∨ c = '\x7b' then none
  else some (st.push (.one (isChar flags c)))

/-- A character in a set. -/
def Reader.readSet (flags : Flags) (st : Reader) (negated fresh : Bool)
    (members : List (Char → Bool)) (c : Char) : Option Reader :=
  if c = '^' ∧ fresh = true ∧ negated = false then some { st with mode := .set true true members }
  else if c = ']' ∧ fresh = false then
    some (st.push (.one fun d => members.any (fun p => p d) != negated))
  else if c = '\\' then some { st with mode := .setEscape negated members }
  else if c = '-' then none
  else some { st with mode := .set negated false (isChar flags c :: members) }

/-- One character of an expression. -/
def Reader.read (flags : Flags) (st : Reader) (c : Char) : Option Reader :=
  match st.mode with
  | .plain => st.readPlain flags c
  | .escape => (escaped flags c).map st.push
  | .opened => if c = '?' then some { st with mode := .marked } else none
  | .marked => if c = ':' then some ⟨.plain, ⟨[], []⟩, st.group :: st.outer⟩ else none
  | .set negated fresh members => st.readSet flags negated fresh members c
  | .setEscape negated members =>
    if c = 's' then some { st with mode := .set negated false (Str.isSpace :: members) }
    else if c = 'n' then some { st with mode := .set negated false ((· = '\n') :: members) }
    else if c.isAlphanum then none
    else some { st with mode := .set negated false (isChar flags c :: members) }

/-- The expression of a reader at its end. -/
def Reader.finish (st : Reader) : Option (Regex Char) :=
  match st.mode, st.outer with
  | .plain, [] => some st.group.regex
  | _, _ => none

/-- `re.compile`; none where the code gets an error or a part that is not read here. -/
def compile (flags : Flags) (expression : List Char) : Option (Regex Char) :=
  (expression.foldlM (Reader.read flags) .start).bind Reader.finish

/-- `re.search` in a text. -/
def search (flags : Flags) (expression text : String) : Bool :=
  (compile flags expression.toList).any fun r => r.search text.toList

/-! ## Escaping -/

/-- The characters that `re.escape` puts a backslash before. -/
def specials : List Char :=
  ['(', ')', '[', ']', '\x7b', '\x7d', '?', '*', '+', '-', '|', '^', '$', '\\', '.', '&', '~', '#',
    ' ', '\t', '\n', '\r', '\x0b', '\x0c']

/-- `re.escape` of a character. -/
def escape (c : Char) : List Char := if c ∈ specials then ['\\', c] else [c]

/-- An escaped character is read as itself. -/
theorem read_escape (flags : Flags) (group : Group) (outer : List Group) (c : Char) :
    (escape c).foldlM (Reader.read flags) ⟨.plain, group, outer⟩ =
      some (Reader.push ⟨.plain, group, outer⟩ (.one (isChar flags c))) := by
  have hspecial : specials.all (fun c => !c.isAlphanum) = true := by decide
  unfold escape
  split
  · next hc =>
    -- no special character is a letter, so its escape is none either
    have halnum : c.isAlphanum = false := by
      simpa using List.all_eq_true.mp hspecial c hc
    have hb : c ≠ 'b' := by
      rintro rfl
      cases halnum
    have hs : c ≠ 's' := by
      rintro rfl
      cases halnum
    show ((escaped flags c).map _).bind _ = _
    rw [escaped, if_neg hb, if_neg hs, halnum]
    rfl
  · next hc =>
    have hother : ∀ d, d ∈ specials → c ≠ d := by
      intro d hd heq
      exact hc (heq ▸ hd)
    show (Reader.readPlain flags _ c).bind _ = _
    rw [Reader.readPlain, if_neg (hother _ (by decide)), if_neg (hother _ (by decide)),
      if_neg (hother _ (by decide)), if_neg (hother _ (by decide)), if_neg (hother _ (by decide)),
      if_neg (hother _ (by decide)), if_neg (hother _ (by decide)), if_neg (hother _ (by decide)),
      if_neg (hother _ (by decide)), if_neg]
    · rfl
    · rintro (h | h | h)
      · exact hother _ (by decide) h
      · exact hother _ (by decide) h
      · exact hother _ (by decide) h

end SummitFlow.Re
