import Mathlib.Data.List.Infix

/-!
# Shell patterns

`fnmatch.fnmatch` on a POSIX host: `*` matches any text (also across `/`), `?` any
character, `[...]` a character class with ranges and `!` for its complement, and an
unclosed `[` itself.  A pattern is first read into tokens, as `fnmatch.translate`
reads it into a regular expression.
-/

namespace SummitFlow.Fnmatch

/-- One token of a pattern.  A class is its chunks: the characters of every chunk, and
    the range from the last character of a chunk to the first of the next. -/
inductive Token where
  | star
  | any
  | lit (c : Char)
  | cls (negated : Bool) (chunks : List (List Char))
deriving DecidableEq, Repr

/-- The text of a class after its `[`, up to the `]` that closes it, and what follows. -/
def classBody (cs : List Char) : Option (List Char × List Char) :=
  let bang := if cs.head? = some '!' then ['!'] else []
  let cs := cs.drop bang.length
  -- a `]` in the first place is an ordinary character
  let bracket := if cs.head? = some ']' then [']'] else []
  match (cs.drop bracket.length).span (· != ']') with
  | (body, _ :: rest) => some (bang ++ bracket ++ body, rest)
  | (_, []) => none

/-- A class cut at the hyphens that make ranges: at least `least` characters stand
    before one, and a hyphen at the end is an ordinary character. -/
def rangeChunks : Nat → Nat → List Char → List (List Char)
  | 0, _, cs => [cs]
  | fuel + 1, least, cs =>
    match (cs.drop least).span (· != '-') with
    | (body, _ :: rest) =>
      let chunk := cs.take least ++ body
      if rest.isEmpty then [chunk ++ ['-']] else chunk :: rangeChunks fuel 2 rest
    | (_, []) => [cs]

/-- Merge the chunks around a range that is empty. -/
def dropEmptyRanges : List (List Char) → List (List Char)
  | [] => []
  | chunk :: chunks =>
    match dropEmptyRanges chunks with
    | [] => [chunk]
    | next :: rest =>
      match chunk.getLast?, next.head? with
      | some lo, some hi =>
        if hi < lo then (chunk.dropLast ++ next.tail) :: rest else chunk :: next :: rest
      | _, _ => chunk :: next :: rest

/-- The class token of a class body. -/
def classToken (stuff : List Char) : Token :=
  let negated := stuff.head? = some '!'
  let chunks := dropEmptyRanges (rangeChunks stuff.length (if negated then 2 else 1) stuff)
  match chunks with
  | first :: rest => .cls negated ((if negated then first.tail else first) :: rest)
  | [] => .cls negated []

/-- The tokens of a pattern; every step reads at least one character. -/
def tokens : Nat → List Char → List Token
  | 0, _ => []
  | _ + 1, [] => []
  | fuel + 1, c :: cs =>
    if c = '*' then .star :: tokens fuel cs
    else if c = '?' then .any :: tokens fuel cs
    else if c = '[' then
      match classBody cs with
      | some (stuff, rest) => classToken stuff :: tokens fuel rest
      | none => .lit '[' :: tokens fuel cs
    else .lit c :: tokens fuel cs

/-- Whether a character is in the class with these chunks. -/
def inChunks (c : Char) : List (List Char) → Bool
  | [] => false
  | [chunk] => chunk.contains c
  | chunk :: next :: rest =>
    chunk.contains c || inChunks c (next :: rest) ||
      match chunk.getLast?, next.head? with
      | some lo, some hi => lo ≤ c && c ≤ hi
      | _, _ => false

/-- Whether tokens match a whole text. -/
def matchTokens : List Token → List Char → Bool
  | [], cs => cs.isEmpty
  | .star :: ts, cs => cs.tails.any (matchTokens ts)
  | .any :: ts, cs => match cs with
    | [] => false
    | _ :: cs => matchTokens ts cs
  | .lit c :: ts, cs => match cs with
    | [] => false
    | d :: cs => d == c && matchTokens ts cs
  | .cls negated chunks :: ts, cs => match cs with
    | [] => false
    | d :: cs => (inChunks d chunks != negated) && matchTokens ts cs

/-- `fnmatch.fnmatch(name, pat)`. -/
def fnmatch (name pat : String) : Bool :=
  matchTokens (tokens pat.toList.length pat.toList) name.toList

example : fnmatch "/app/[id]/page.tsx" "/app/[id]/page.tsx" = false := by decide

example : fnmatch "/app/i/page.tsx" "/app/[a-ij]/*.tsx" = true := by decide

end SummitFlow.Fnmatch
