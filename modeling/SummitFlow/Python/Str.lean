import Mathlib.Data.List.DropRight

/-!
# Python string methods

The `str` methods the modelled code calls, on the characters of a Lean `String`.
All of them are structural on the character list, so closed calls evaluate.
-/

namespace SummitFlow.Str

/-- `c.isspace()`: the characters `strip` and `split` treat as white space. -/
def isSpace (c : Char) : Bool :=
  let n := c.toNat
  (9 ≤ n && n ≤ 13) || (28 ≤ n && n ≤ 32) || n == 0x85 || n == 0xa0 || n == 0x1680 ||
    (0x2000 ≤ n && n ≤ 0x200a) || n == 0x2028 || n == 0x2029 || n == 0x202f || n == 0x205f ||
    n == 0x3000

/-- `s.startswith(p)`. -/
def startswith (s p : String) : Bool := p.toList.isPrefixOf s.toList

/-- `s.endswith(p)`. -/
def endswith (s p : String) : Bool := p.toList.isSuffixOf s.toList

/-- `s.removeprefix(p)`. -/
def removeprefix (s p : String) : String :=
  if startswith s p then String.ofList (s.toList.drop p.toList.length) else s

/-- Characters without the leading ones that satisfy `p`, as `str.lstrip` drops them. -/
def lstripBy (p : Char → Bool) (s : String) : String := String.ofList (s.toList.dropWhile p)

/-- Characters without the trailing ones that satisfy `p`, as `str.rstrip` drops them. -/
def rstripBy (p : Char → Bool) (s : String) : String := String.ofList (s.toList.rdropWhile p)

/-- `s.strip()`. -/
def strip (s : String) : String := rstripBy isSpace (lstripBy isSpace s)

/-- `s.rstrip("/")`. -/
def rstripSlash (s : String) : String := rstripBy (· == '/') s

/-- The line boundaries of `str.splitlines`. -/
def isLineBreak (c : Char) : Bool :=
  let n := c.toNat
  (10 ≤ n && n ≤ 13) || (28 ≤ n && n ≤ 30) || n == 0x85 || n == 0x2028 || n == 0x2029

/-- `s.splitlines()` on characters; `line` is the current line, reversed. -/
def splitlinesAux : List Char → List Char → List (List Char)
  | line, [] => if line.isEmpty then [] else [line.reverse]
  | line, '\r' :: '\n' :: cs => line.reverse :: splitlinesAux [] cs
  | line, c :: cs =>
    if isLineBreak c then line.reverse :: splitlinesAux [] cs else splitlinesAux (c :: line) cs

/-- `s.splitlines()`. -/
def splitlines (s : String) : List String := (splitlinesAux [] s.toList).map String.ofList

/-- `s.split(sep)` for a one-character separator: always at least one piece. -/
def splitOnChar (sep : Char) : List Char → List (List Char)
  | [] => [[]]
  | c :: cs =>
    match splitOnChar sep cs with
    | [] => [[c]]
    | piece :: pieces => if c = sep then [] :: piece :: pieces else (c :: piece) :: pieces

theorem splitOnChar_ne_nil (sep : Char) (cs : List Char) : splitOnChar sep cs ≠ [] := by
  cases cs with
  | nil => simp [splitOnChar]
  | cons c cs =>
    rw [splitOnChar]
    split
    · simp
    · split <;> simp

@[simp] theorem splitOnChar_cons_self (sep : Char) (cs : List Char) :
    splitOnChar sep (sep :: cs) = [] :: splitOnChar sep cs := by
  rw [splitOnChar]
  split
  · next h => exact absurd h (splitOnChar_ne_nil sep cs)
  · next h => simp [h]

/-- A text splits at each of its separators. -/
theorem splitOnChar_append (sep : Char) (xs ys : List Char) :
    splitOnChar sep (xs ++ sep :: ys) = splitOnChar sep xs ++ splitOnChar sep ys := by
  induction xs with
  | nil => simp [splitOnChar]
  | cons c cs ih =>
    rw [List.cons_append, splitOnChar, splitOnChar, ih]
    cases hcs : splitOnChar sep cs with
    | nil => exact absurd hcs (splitOnChar_ne_nil sep cs)
    | cons piece pieces =>
      simp only [List.cons_append]
      split <;> rfl

theorem splitOnChar_of_not_mem {sep : Char} {cs : List Char} (h : sep ∉ cs) :
    splitOnChar sep cs = [cs] := by
  induction cs with
  | nil => rfl
  | cons c cs ih =>
    rw [List.mem_cons, not_or] at h
    rw [splitOnChar, ih h.2]
    simp [Ne.symm h.1]

/-- Characters before a text that are no separators go to its first piece. -/
theorem splitOnChar_append_of_not_mem {sep : Char} {xs : List Char} (h : sep ∉ xs)
    (cs : List Char) : ∃ piece pieces, splitOnChar sep cs = piece :: pieces ∧
      splitOnChar sep (xs ++ cs) = (xs ++ piece) :: pieces := by
  induction xs with
  | nil =>
    cases hcs : splitOnChar sep cs with
    | nil => exact absurd hcs (splitOnChar_ne_nil sep cs)
    | cons piece pieces => exact ⟨piece, pieces, rfl, hcs⟩
  | cons x xs ih =>
    rw [List.mem_cons, not_or] at h
    obtain ⟨piece, pieces, hcs, happend⟩ := ih h.2
    refine ⟨piece, pieces, hcs, ?_⟩
    rw [List.cons_append, splitOnChar, happend]
    simp [Ne.symm h.1]

/-- What stands before a text changes its first piece only. -/
theorem splitOnChar_append_left (sep : Char) (xs ys : List Char) :
    ∃ first rest, splitOnChar sep ys = first :: rest ∧
      ∃ head before, splitOnChar sep (xs ++ ys) = head :: (before ++ rest) := by
  cases hys : splitOnChar sep ys with
  | nil => exact absurd hys (splitOnChar_ne_nil sep ys)
  | cons first rest =>
    refine ⟨first, rest, rfl, ?_⟩
    induction xs with
    | nil => exact ⟨first, [], hys⟩
    | cons c cs ih =>
      obtain ⟨head, before, hcs⟩ := ih
      rw [List.cons_append, splitOnChar, hcs]
      dsimp only
      split
      · exact ⟨[], head :: before, rfl⟩
      · exact ⟨c :: head, before, rfl⟩

/-- Every other character is in a piece. -/
theorem exists_piece_of_mem {sep c : Char} {cs : List Char} (h : c ∈ cs) (hne : c ≠ sep) :
    ∃ piece ∈ splitOnChar sep cs, c ∈ piece := by
  induction cs with
  | nil => cases h
  | cons d ds ih =>
    rw [splitOnChar]
    cases hds : splitOnChar sep ds with
    | nil => exact absurd hds (splitOnChar_ne_nil sep ds)
    | cons first rest =>
      rw [hds] at ih
      dsimp only
      rcases List.mem_cons.mp h with rfl | hmem
      · rw [if_neg hne]
        exact ⟨_, List.mem_cons_self, List.mem_cons_self⟩
      · obtain ⟨piece, hpiece, hc⟩ := ih hmem
        split
        · exact ⟨piece, List.mem_cons_of_mem _ hpiece, hc⟩
        · rcases List.mem_cons.mp hpiece with rfl | hpiece
          · exact ⟨_, List.mem_cons_self, List.mem_cons_of_mem _ hc⟩
          · exact ⟨piece, List.mem_cons_of_mem _ hpiece, hc⟩

/-- The pieces have no separator in them. -/
theorem not_mem_of_mem_splitOnChar {sep : Char} {cs piece : List Char}
    (h : piece ∈ splitOnChar sep cs) : sep ∉ piece := by
  induction cs generalizing piece with
  | nil =>
    simp only [splitOnChar, List.mem_singleton] at h
    simp [h]
  | cons c cs ih =>
    rw [splitOnChar] at h
    cases hcs : splitOnChar sep cs with
    | nil => exact absurd hcs (splitOnChar_ne_nil sep cs)
    | cons first pieces =>
      rw [hcs] at h ih
      simp only at h
      split at h
      · rcases List.mem_cons.mp h with rfl | h
        · simp
        · exact ih h
      · next hc =>
        rcases List.mem_cons.mp h with rfl | h
        · simp only [List.mem_cons, not_or]
          exact ⟨fun heq => hc heq.symm, ih List.mem_cons_self⟩
        · exact ih (List.mem_cons_of_mem _ h)

/-- The pieces and the separators between them are the text. -/
theorem intercalate_splitOnChar (sep : Char) (cs : List Char) :
    [sep].intercalate (splitOnChar sep cs) = cs := by
  induction cs with
  | nil => rfl
  | cons c cs ih =>
    rw [splitOnChar]
    cases hcs : splitOnChar sep cs with
    | nil => exact absurd hcs (splitOnChar_ne_nil sep cs)
    | cons piece pieces =>
      rw [hcs] at ih
      dsimp only
      split
      · next hc =>
        have hjoin : [sep].intercalate ([] :: piece :: pieces) =
            sep :: [sep].intercalate (piece :: pieces) := by simp [List.intercalate]
        rw [hc, hjoin, ih]
      · cases pieces with
        | nil => simpa using ih
        | cons next pieces =>
          have hjoin : ∀ first, [sep].intercalate (first :: next :: pieces) =
              first ++ sep :: [sep].intercalate (next :: pieces) := by simp [List.intercalate]
          rw [hjoin, List.cons_append, ← hjoin, ih]

theorem intercalate_append {sep : Char} {xs ys : List (List Char)} (hxs : xs ≠ [])
    (hys : ys ≠ []) :
    [sep].intercalate (xs ++ ys) = [sep].intercalate xs ++ sep :: [sep].intercalate ys := by
  induction xs with
  | nil => exact absurd rfl hxs
  | cons x xs ih =>
    rw [List.cons_append]
    by_cases hnil : xs = []
    · subst hnil
      rw [List.nil_append, List.intercalate_cons_of_ne_nil hys, List.intercalate_singleton,
        List.append_assoc]
      rfl
    · rw [List.intercalate_cons_of_ne_nil (by simp [hnil]), ih hnil,
        List.intercalate_cons_of_ne_nil hnil]
      simp only [List.append_assoc]

/-- Joined pieces split into the same pieces. -/
theorem splitOnChar_intercalate {sep : Char} {pieces : List (List Char)} (hne : pieces ≠ [])
    (h : ∀ piece ∈ pieces, sep ∉ piece) : splitOnChar sep ([sep].intercalate pieces) = pieces := by
  induction pieces with
  | nil => exact absurd rfl hne
  | cons piece pieces ih =>
    have hpiece := splitOnChar_of_not_mem (h piece List.mem_cons_self)
    cases pieces with
    | nil => simpa [List.intercalate] using hpiece
    | cons next pieces =>
      have hjoin : [sep].intercalate (piece :: next :: pieces) =
          piece ++ sep :: [sep].intercalate (next :: pieces) := by
        simp [List.intercalate, List.intersperse]
      rw [hjoin, splitOnChar_append, hpiece,
        ih (by simp) (fun p hp => h p (List.mem_cons_of_mem _ hp))]
      rfl

/-- `s.split()` on characters; `word` is the current word, reversed. -/
def wordsAux : List Char → List Char → List (List Char)
  | word, [] => if word.isEmpty then [] else [word.reverse]
  | word, c :: cs =>
    if isSpace c then
      if word.isEmpty then wordsAux [] cs else word.reverse :: wordsAux [] cs
    else wordsAux (c :: word) cs

/-- `" ".join(s.split())`. -/
def joinWords (s : String) : String :=
  String.ofList ([' '].intercalate (wordsAux [] s.toList))

/-- `s.partition(sep)` for a one-character separator, without the separator; `none`
    when it does not occur. -/
def partition (sep : Char) (s : String) : Option (String × String) :=
  if sep ∈ s.toList then
    some (String.ofList (s.toList.takeWhile (· != sep)),
      String.ofList (s.toList.dropWhile (· != sep)).tail)
  else none

/-- The zeros of the Unicode decimal digits; each starts a block of ten. -/
def decimalZeros : List Nat :=
  [0x30, 0x660, 0x6f0, 0x7c0, 0x966, 0x9e6, 0xa66, 0xae6, 0xb66, 0xbe6, 0xc66, 0xce6, 0xd66,
   0xde6, 0xe50, 0xed0, 0xf20, 0x1040, 0x1090, 0x17e0, 0x1810, 0x1946, 0x19d0, 0x1a80, 0x1a90,
   0x1b50, 0x1bb0, 0x1c40, 0x1c50, 0xa620, 0xa8d0, 0xa900, 0xa9d0, 0xa9f0, 0xaa50, 0xabf0,
   0xff10, 0x104a0, 0x10d30, 0x11066, 0x110f0, 0x11136, 0x111d0, 0x112f0, 0x11450, 0x114d0,
   0x11650, 0x116c0, 0x11730, 0x118e0, 0x11950, 0x11c50, 0x11d50, 0x11da0, 0x16a60, 0x16ac0,
   0x16b50, 0x1d7ce, 0x1d7d8, 0x1d7e2, 0x1d7ec, 0x1d7f6, 0x1e140, 0x1e2f0, 0x1e950, 0x1fbf0]

/-- The value of a decimal digit, the characters `\d` matches. -/
def digitValue (c : Char) : Option Nat :=
  (decimalZeros.find? fun z => z ≤ c.toNat && c.toNat < z + 10).map (c.toNat - ·)

/-- `int(s)` for a text of decimal digits, `none` for any other text. -/
def intOf (cs : List Char) : Option Nat :=
  if cs.isEmpty then none else
    (cs.mapM digitValue).map fun digits => digits.foldl (fun n d => 10 * n + d) 0

/-- `sub in s`. -/
def contains (s sub : String) : Bool := s.toList.tails.any fun t => sub.toList.isPrefixOf t

/-- `c.lower()`.  Outside ASCII only the two characters whose lower case contains an
    ASCII letter are mapped: the modelled code compares the result with ASCII texts. -/
def lowerChar (c : Char) : List Char :=
  if 'A' ≤ c ∧ c ≤ 'Z' then [Char.ofNat (c.toNat + 32)]
  else if c.toNat = 0x212a then ['k']
  else if c.toNat = 0x130 then ['i', Char.ofNat 0x307]
  else [c]

/-- `s.lower()`. -/
def lower (s : String) : String := String.ofList (s.toList.flatMap lowerChar)

/-- `c.casefold()`, under the same proviso. -/
def casefoldChar (c : Char) : List Char :=
  match c.toNat with
  | 0xdf | 0x1e9e => ['s', 's']
  | 0x149 => [Char.ofNat 0x2bc, 'n']
  | 0x17f => ['s']
  | 0x1f0 => ['j', Char.ofNat 0x30c]
  | 0x1e96 => ['h', Char.ofNat 0x331]
  | 0x1e97 => ['t', Char.ofNat 0x308]
  | 0x1e98 => ['w', Char.ofNat 0x30a]
  | 0x1e99 => ['y', Char.ofNat 0x30a]
  | 0x1e9a => ['a', Char.ofNat 0x2be]
  | 0xfb00 => ['f', 'f']
  | 0xfb01 => ['f', 'i']
  | 0xfb02 => ['f', 'l']
  | 0xfb03 => ['f', 'f', 'i']
  | 0xfb04 => ['f', 'f', 'l']
  | 0xfb05 | 0xfb06 => ['s', 't']
  | _ => lowerChar c

/-- `s.casefold()`. -/
def casefold (s : String) : String := String.ofList (s.toList.flatMap casefoldChar)

/-- `c.upper()`, under the same proviso. -/
def upperChar (c : Char) : List Char :=
  match c.toNat with
  | 0xdf => ['S', 'S']
  | 0x131 => ['I']
  | 0x149 => [Char.ofNat 0x2bc, 'N']
  | 0x17f => ['S']
  | 0x1f0 => ['J', Char.ofNat 0x30c]
  | 0x1e96 => ['H', Char.ofNat 0x331]
  | 0x1e97 => ['T', Char.ofNat 0x308]
  | 0x1e98 => ['W', Char.ofNat 0x30a]
  | 0x1e99 => ['Y', Char.ofNat 0x30a]
  | 0x1e9a => ['A', Char.ofNat 0x2be]
  | 0xfb00 => ['F', 'F']
  | 0xfb01 => ['F', 'I']
  | 0xfb02 => ['F', 'L']
  | 0xfb03 => ['F', 'F', 'I']
  | 0xfb04 => ['F', 'F', 'L']
  | 0xfb05 | 0xfb06 => ['S', 'T']
  | _ => if 'a' ≤ c ∧ c ≤ 'z' then [Char.ofNat (c.toNat - 32)] else [c]

/-- `s.upper()`. -/
def upper (s : String) : String := String.ofList (s.toList.flatMap upperChar)

/-- Outside ASCII a character is its own lower case, but for two. -/
theorem lowerChar_of_large {c : Char} (h : 128 ≤ c.toNat) (hkelvin : c.toNat ≠ 0x212a)
    (hdotted : c.toNat ≠ 0x130) : lowerChar c = [c] := by
  unfold lowerChar
  have hupper : ¬ ('A' ≤ c ∧ c ≤ 'Z') := by
    rintro ⟨-, hle⟩
    have hnat : c.toNat ≤ 'Z'.toNat := hle
    have hz : 'Z'.toNat = 90 := rfl
    omega
  rw [if_neg hupper, if_neg hkelvin, if_neg hdotted]

/-- A character whose lower case is in ASCII folds to it. -/
theorem casefoldChar_of_lower {c : Char} (h : ∀ d ∈ lowerChar c, d.toNat < 128) :
    casefoldChar c = lowerChar c := by
  have hspecial : ∀ n, c.toNat = n → 128 ≤ n → n ≠ 0x212a → n ≠ 0x130 → False := by
    rintro n rfl hlarge hkelvin hdotted
    have hself := lowerChar_of_large hlarge hkelvin hdotted
    have hsmall := h c (by rw [hself]; exact List.mem_singleton_self c)
    omega
  unfold casefoldChar
  split <;> first
    | rfl
    | next heq => exact absurd (hspecial _ heq (by decide) (by decide) (by decide)) id

/-- A text whose lower case is in ASCII folds to it. -/
theorem casefold_of_lower {s text : String} (h : lower s = text)
    (hascii : ∀ c ∈ text.toList, c.toNat < 128) : casefold s = text := by
  have hchars : s.toList.flatMap lowerChar = text.toList := by
    rw [← h, lower, String.toList_ofList]
  have hfold : s.toList.flatMap casefoldChar = s.toList.flatMap lowerChar := by
    apply List.flatMap_congr
    intro c hc
    apply casefoldChar_of_lower
    intro d hd
    apply hascii
    rw [← hchars]
    exact List.mem_flatMap.mpr ⟨c, hc, hd⟩
  rw [casefold, hfold]
  exact h

/-- `s.split("=", 1)[0]`. -/
def beforeEquals (s : String) : String := String.ofList (s.toList.takeWhile (· != '='))

end SummitFlow.Str
