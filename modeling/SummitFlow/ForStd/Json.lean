import SummitFlow.ForStd.JsonNumber

/-!
# JSON texts

Values are written without blanks and with every character as it is that need not be
escaped, and are read with blanks between the tokens and with all escapes.  What is written
is read back, whatever text follows that cannot go on a number.

An object is the list of its entries as they stand, and a float is the literal it is
written as.
-/

namespace SummitFlow.Json

/-! ## Strings -/

def hexDigit (v : Nat) : Char := if v < 10 then Char.ofNat (48 + v) else Char.ofNat (87 + v)

def hexValue (c : Char) : Option Nat :=
  if c.isDigit then some (c.toNat - 48)
  else if 'a' ≤ c ∧ c ≤ 'f' then some (c.toNat - 87)
  else if 'A' ≤ c ∧ c ≤ 'F' then some (c.toNat - 55)
  else none

/-- The escapes of one letter, with the characters they stand for. -/
def escapes : List (Char × Char) :=
  [('"', '"'), ('\\', '\\'), ('/', '/'), ('b', '\x08'), ('f', '\x0c'), ('n', '\n'), ('r', '\r'),
    ('t', '\t')]

def escape (c : Char) : List Char :=
  if c = '"' then ['\\', '"']
  else if c = '\\' then ['\\', '\\']
  else if c = '\n' then ['\\', 'n']
  else if c = '\r' then ['\\', 'r']
  else if c = '\t' then ['\\', 't']
  else if c = '\x0c' then ['\\', 'f']
  else if c = '\x08' then ['\\', 'b']
  else if c.toNat < 32 then ['\\', 'u', '0', '0', hexDigit (c.toNat / 16), hexDigit (c.toNat % 16)]
  else [c]

def stringText (s : String) : List Char := '"' :: (s.toList.flatMap escape ++ ['"'])

/-- Four hexadecimal digits. -/
def hexCode : List Char → Option (Nat × List Char)
  | a :: b :: c :: d :: rest => do
    let n := (((← hexValue a) * 16 + (← hexValue b)) * 16 + (← hexValue c)) * 16 + (← hexValue d)
    return (n, rest)
  | _ => none

/-- What is escaped, after the backslash.  Half of a surrogate pair is no character. -/
def unescape : List Char → Option (Char × List Char)
  | [] => none
  | e :: cs =>
    if e = 'u' then do
      let (n, rest) ← hexCode cs
      if 0xD800 ≤ n ∧ n < 0xDC00 then
        match rest with
        | '\\' :: 'u' :: rest => do
          let (low, rest) ← hexCode rest
          if 0xDC00 ≤ low ∧ low < 0xE000 then
            return (Char.ofNat (0x10000 + (n - 0xD800) * 0x400 + (low - 0xDC00)), rest)
          else none
        | _ => none
      else if 0xDC00 ≤ n ∧ n < 0xE000 then none
      else return (Char.ofNat n, rest)
    else (escapes.lookup e).map fun c => (c, cs)

/-- A string after its first quote. -/
def scanString : Nat → List Char → Option (List Char × List Char)
  | 0, _ => none
  | _ + 1, [] => none
  | fuel + 1, c :: cs =>
    if c = '"' then some ([], cs)
    else if c = '\\' then do
      let (x, rest) ← unescape cs
      let (xs, rest) ← scanString fuel rest
      return (x :: xs, rest)
    else if c.toNat < 32 then none
    else do
      let (xs, rest) ← scanString fuel cs
      return (c :: xs, rest)

theorem hexValue_hexDigit {v : Nat} (h : v < 16) : hexValue (hexDigit v) = some v := by
  have hall : ∀ v < 16, hexValue (hexDigit v) = some v := by decide +kernel
  exact hall v h

/-- An escaped character is read back. -/
theorem scanString_escape (c : Char) (fuel : Nat) (cs : List Char) :
    scanString (fuel + 1) (escape c ++ cs) =
      (scanString fuel cs).map fun read => (c :: read.1, read.2) := by
  have hbind : ∀ scanned : Option (List Char × List Char),
      (scanned.bind fun read => some (c :: read.1, read.2)) =
        scanned.map fun read => (c :: read.1, read.2) := fun scanned => Option.map_eq_bind.symm
  unfold escape
  split
  · rename_i h
    subst h
    exact hbind _
  split
  · rename_i h
    subst h
    exact hbind _
  split
  · rename_i h
    subst h
    exact hbind _
  split
  · rename_i h
    subst h
    exact hbind _
  split
  · rename_i h
    subst h
    exact hbind _
  split
  · rename_i h
    subst h
    exact hbind _
  split
  · rename_i h
    subst h
    exact hbind _
  rename_i hquote hback _ _ _ _ _
  split
  · rename_i hcontrol
    -- a control character is its code
    have hread : unescape ('u' :: '0' :: '0' :: hexDigit (c.toNat / 16) :: hexDigit (c.toNat % 16) ::
        cs) = some (c, cs) := by
      have hcode : hexCode ('0' :: '0' :: hexDigit (c.toNat / 16) :: hexDigit (c.toNat % 16) :: cs) =
          some (c.toNat, cs) := by
        rw [hexCode, hexValue_hexDigit (by omega), hexValue_hexDigit (by omega),
          show hexValue '0' = some 0 by decide]
        show some (((0 * 16 + 0) * 16 + c.toNat / 16) * 16 + c.toNat % 16, cs) = _
        congr 2
        omega
      rw [unescape, if_pos rfl, hcode]
      dsimp only [Option.bind_eq_bind, Option.bind_some]
      rw [if_neg (by omega), if_neg (by omega), Char.ofNat_toNat]
      rfl
    show scanString (fuel + 1) ('\\' :: 'u' :: '0' :: '0' :: hexDigit (c.toNat / 16) ::
      hexDigit (c.toNat % 16) :: cs) = _
    rw [scanString, if_neg (by decide), if_pos rfl, hread]
    exact hbind _
  · rename_i hcontrol
    show scanString (fuel + 1) (c :: cs) = _
    rw [scanString, if_neg hquote, if_neg hback, if_neg hcontrol]
    exact hbind _

theorem scanString_flatMap {cs rest : List Char} {fuel : Nat} (h : cs.length < fuel) :
    scanString fuel (cs.flatMap escape ++ '"' :: rest) = some (cs, rest) := by
  induction cs generalizing fuel with
  | nil =>
    obtain ⟨fuel, rfl⟩ := Nat.exists_eq_add_one_of_ne_zero (Nat.ne_of_gt h)
    rfl
  | cons c cs ih =>
    obtain ⟨fuel, rfl⟩ := Nat.exists_eq_add_one_of_ne_zero (Nat.ne_of_gt (Nat.zero_lt_of_lt h))
    rw [List.length_cons, Nat.add_lt_add_iff_right] at h
    rw [List.flatMap_cons, List.append_assoc, scanString_escape, ih h]
    rfl

/-! ## Values -/

/-- The floats that are no numbers of JSON. -/
inductive Nonfinite where
  | nan
  | infinity
  | negInfinity
deriving DecidableEq, Repr

def Nonfinite.text : Nonfinite → List Char
  | .nan => ['N', 'a', 'N']
  | .infinity => ['I', 'n', 'f', 'i', 'n', 'i', 't', 'y']
  | .negInfinity => ['-', 'I', 'n', 'f', 'i', 'n', 'i', 't', 'y']

inductive Value where
  | null
  | bool (b : Bool)
  | int (n : Int)
  | float (x : FloatLiteral)
  | nonfinite (x : Nonfinite)
  | str (s : String)
  | arr (items : List Value)
  | obj (entries : List (String × Value))

mutual

def Value.text : Value → List Char
  | .null => ['n', 'u', 'l', 'l']
  | .bool true => ['t', 'r', 'u', 'e']
  | .bool false => ['f', 'a', 'l', 's', 'e']
  | .int n => integerText n
  | .float x => x.text
  | .nonfinite x => x.text
  | .str s => stringText s
  | .arr items => '[' :: (itemsText items ++ [']'])
  | .obj entries => '\x7b' :: (entriesText entries ++ ['\x7d'])

/-- The items with commas between them. -/
def itemsText : List Value → List Char
  | [] => []
  | [v] => v.text
  | v :: w :: items => v.text ++ ',' :: itemsText (w :: items)

def entriesText : List (String × Value) → List Char
  | [] => []
  | [(k, v)] => stringText k ++ ':' :: v.text
  | (k, v) :: e :: entries => stringText k ++ ':' :: (v.text ++ ',' :: entriesText (e :: entries))

end

/-! ### Equality -/

theorem FloatLiteral.eq_iff {x y : FloatLiteral} : x = y ↔ x.whole = y.whole ∧ x.tail = y.tail := by
  cases x
  cases y
  simp

mutual

/-- Equality as a test; `DecidableEq` is not derived for a type nested in lists. -/
def Value.beq : Value → Value → Bool
  | .null, .null => true
  | .bool a, .bool b => a == b
  | .int a, .int b => a == b
  | .float x, .float y => x.whole == y.whole && x.tail == y.tail
  | .nonfinite x, .nonfinite y => decide (x = y)
  | .str a, .str b => a == b
  | .arr xs, .arr ys => itemsBeq xs ys
  | .obj xs, .obj ys => entriesBeq xs ys
  | _, _ => false

def itemsBeq : List Value → List Value → Bool
  | [], [] => true
  | x :: xs, y :: ys => x.beq y && itemsBeq xs ys
  | _, _ => false

def entriesBeq : List (String × Value) → List (String × Value) → Bool
  | [], [] => true
  | (k, x) :: xs, (k', y) :: ys => k == k' && x.beq y && entriesBeq xs ys
  | _, _ => false

end

mutual

theorem Value.beq_iff : ∀ v w : Value, v.beq w = true ↔ v = w
  | .null, w => by cases w <;> simp [Value.beq]
  | .bool _, w => by cases w <;> simp [Value.beq]
  | .int _, w => by cases w <;> simp [Value.beq]
  | .float _, w => by cases w <;> simp [Value.beq, FloatLiteral.eq_iff]
  | .nonfinite _, w => by cases w <;> simp [Value.beq]
  | .str _, w => by cases w <;> simp [Value.beq]
  | .arr xs, w => by cases w <;> simp [Value.beq, itemsBeq_iff xs]
  | .obj xs, w => by cases w <;> simp [Value.beq, entriesBeq_iff xs]

theorem itemsBeq_iff : ∀ xs ys : List Value, itemsBeq xs ys = true ↔ xs = ys
  | [], ys => by cases ys <;> simp [itemsBeq]
  | x :: xs, ys => by
    cases ys with
    | nil => simp [itemsBeq]
    | cons y ys => simp [itemsBeq, Value.beq_iff x y, itemsBeq_iff xs ys]

theorem entriesBeq_iff : ∀ xs ys : List (String × Value), entriesBeq xs ys = true ↔ xs = ys
  | [], ys => by cases ys <;> simp [entriesBeq]
  | (k, x) :: xs, ys => by
    cases ys with
    | nil => simp [entriesBeq]
    | cons y ys => simp [entriesBeq, Value.beq_iff x, entriesBeq_iff xs ys, Prod.ext_iff]

end

instance : DecidableEq Value := fun v w => decidable_of_iff (v.beq w = true) (v.beq_iff w)

/-- The most digits an integer is read from or written with. -/
def maxDigits : Nat := 4300

mutual

/-- The value is written without an error: its floats are numbers and its integers are not
    too long. -/
def Value.encodable : Value → Bool
  | .int n => (Nat.toDigits 10 n.natAbs).length ≤ maxDigits
  | .nonfinite _ => false
  | .arr items => itemsEncodable items
  | .obj entries => entriesEncodable entries
  | _ => true

def itemsEncodable : List Value → Bool
  | [] => true
  | v :: items => v.encodable && itemsEncodable items

def entriesEncodable : List (String × Value) → Bool
  | [] => true
  | (_, v) :: entries => v.encodable && entriesEncodable entries

end

/-- The text after the blanks. -/
def skip (cs : List Char) : List Char :=
  cs.dropWhile fun c => c == ' ' || c == '\t' || c == '\n' || c == '\r'

/-- The values that are words. -/
def words : List (List Char × Value) :=
  [(['n', 'u', 'l', 'l'], .null), (['t', 'r', 'u', 'e'], .bool true), (['f', 'a', 'l', 's', 'e'], .bool false),
    (['N', 'a', 'N'], .nonfinite .nan), (['I', 'n', 'f', 'i', 'n', 'i', 't', 'y'], .nonfinite .infinity),
    (['-', 'I', 'n', 'f', 'i', 'n', 'i', 't', 'y'], .nonfinite .negInfinity)]

def scanNumber (cs : List Char) : Option (Value × List Char) :=
  match h : number cs with
  | none => none
  | some (whole, tail, rest) =>
    if htail : tail = [] then
      if (whole.filter Char.isDigit).length > maxDigits then none
      else some (.int (integerOf whole), rest)
    else some (.float ⟨whole, tail, ⟨cs, rest, h⟩, htail⟩, rest)

def scanWord (cs : List Char) : Option (Value × List Char) :=
  match words.find? fun word => word.1.isPrefixOf cs with
  | some (word, v) => some (v, cs.drop word.length)
  | none => scanNumber cs

section

variable (scan : List Char → Option (Value × List Char))

/-- Items up to the bracket that closes them. -/
def scanItems : Nat → List Char → Option (List Value × List Char)
  | 0, _ => none
  | fuel + 1, cs => do
    let (v, rest) ← scan cs
    match skip rest with
    | [] => none
    | c :: rest =>
      if c = ']' then return ([v], rest)
      else if c = ',' then do
        let (vs, rest) ← scanItems fuel (skip rest)
        return (v :: vs, rest)
      else none

/-- A key and its colon. -/
def scanKey : List Char → Option (String × List Char)
  | [] => none
  | c :: cs =>
    if c = '"' then do
      let (key, rest) ← scanString (cs.length + 1) cs
      match skip rest with
      | [] => none
      | c :: rest => if c = ':' then return (String.ofList key, skip rest) else none
    else none

/-- Entries up to the brace that closes them. -/
def scanEntries : Nat → List Char → Option (List (String × Value) × List Char)
  | 0, _ => none
  | fuel + 1, cs => do
    let (key, rest) ← scanKey cs
    let (v, rest) ← scan rest
    match skip rest with
    | [] => none
    | c :: rest =>
      if c = '\x7d' then return ([(key, v)], rest)
      else if c = ',' then do
        let (es, rest) ← scanEntries fuel (skip rest)
        return ((key, v) :: es, rest)
      else none

end

/-- A value, with so many levels at most. -/
def scanValue : Nat → List Char → Option (Value × List Char)
  | 0, _ => none
  | _ + 1, [] => none
  | fuel + 1, c :: cs =>
    if c = '"' then do
      let (s, rest) ← scanString (cs.length + 1) cs
      return (.str (String.ofList s), rest)
    else if c = '[' then
      if (skip cs).head? = some ']' then some (.arr [], (skip cs).tail)
      else do
        let (items, rest) ← scanItems (scanValue fuel) cs.length (skip cs)
        return (.arr items, rest)
    else if c = '\x7b' then
      if (skip cs).head? = some '\x7d' then some (.obj [], (skip cs).tail)
      else do
        let (entries, rest) ← scanEntries (scanValue fuel) cs.length (skip cs)
        return (.obj entries, rest)
    else scanWord (c :: cs)

/-- The value of a whole text. -/
def read (s : String) : Option Value := do
  let (v, rest) ← scanValue (s.length + 1) (skip s.toList)
  if skip rest = [] then return v else none

/-! ## Reading back -/

theorem itemsEncodable_iff {items : List Value} :
    itemsEncodable items = true ↔ ∀ v ∈ items, v.encodable = true := by
  induction items with
  | nil => simp [itemsEncodable]
  | cons v items ih => simp [itemsEncodable, ih]

theorem entriesEncodable_iff {entries : List (String × Value)} :
    entriesEncodable entries = true ↔ ∀ e ∈ entries, e.2.encodable = true := by
  induction entries with
  | nil => simp [entriesEncodable]
  | cons e entries ih => simp [entriesEncodable, ih]

/-- A character that a value starts with is no blank and closes nothing. -/
abbrev Opens (c : Char) : Prop :=
  (c == ' ' || c == '\t' || c == '\n' || c == '\r') = false ∧ c ≠ ']' ∧ c ≠ '\x7d'

theorem opens_of_isDigit {c : Char} (h : c.isDigit = true) : Opens c := by
  have hne : ∀ d : Char, d.isDigit = false → c ≠ d := by
    rintro d hd rfl
    rw [h] at hd
    cases hd
  refine ⟨?_, hne ']' (by decide), hne '\x7d' (by decide)⟩
  rw [beq_eq_false_iff_ne.mpr (hne ' ' (by decide)), beq_eq_false_iff_ne.mpr (hne '\t' (by decide)),
    beq_eq_false_iff_ne.mpr (hne '\n' (by decide)), beq_eq_false_iff_ne.mpr (hne '\r' (by decide))]
  rfl

/-- How a number starts. -/
theorem number_head {cs : List Char} {read : List Char × List Char × List Char}
    (h : number cs = some read) : ∃ c rest, cs = c :: rest ∧
      (c.isDigit = true ∨ c = '-' ∧ ∃ d ds, rest = d :: ds ∧ d.isDigit = true) := by
  have hdigit : ∀ {ds : List Char} {read : List Char × List Char}, natural ds = some read →
      ∃ d rest, ds = d :: rest ∧ d.isDigit = true := by
    intro ds read hread
    cases ds with
    | nil => cases hread
    | cons d ds =>
      rw [natural] at hread
      split at hread
      · rename_i hzero
        exact ⟨d, ds, rfl, hzero ▸ rfl⟩
      · split at hread
        · rename_i hd
          exact ⟨d, ds, rfl, hd⟩
        · cases hread
  obtain ⟨whole, hwhole, -⟩ := Option.bind_eq_some_iff.mp h
  cases cs with
  | nil => cases hwhole
  | cons c cs =>
    rw [integer] at hwhole
    split at hwhole
    · rename_i hminus
      obtain ⟨read, hread, -⟩ := Option.map_eq_some_iff.mp hwhole
      exact ⟨c, cs, rfl, .inr ⟨hminus, hdigit hread⟩⟩
    · obtain ⟨d, rest, hcons, hd⟩ := hdigit hwhole
      obtain ⟨rfl, rfl⟩ := List.cons.inj hcons
      exact ⟨c, cs, rfl, .inl hd⟩

/-- A number is no word. -/
theorem scanWord_of_number {cs : List Char} {read : List Char × List Char × List Char}
    (h : number cs = some read) : scanWord cs = scanNumber cs := by
  obtain ⟨c, rest, rfl, hc⟩ := number_head h
  have hnone : words.find? (fun word => word.1.isPrefixOf (c :: rest)) = none := by
    rw [List.find?_eq_none]
    rcases hc with hdigit | ⟨rfl, d, ds, rfl, hdigit⟩
    · have hne : ∀ d : Char, d.isDigit = false → d ≠ c := by
        rintro d hd rfl
        rw [hdigit] at hd
        cases hd
      simp [words, hne 'n' (by decide), hne 't' (by decide), hne 'f' (by decide),
        hne 'N' (by decide), hne 'I' (by decide), hne '-' (by decide)]
    · have hne : 'I' ≠ d := by
        rintro rfl
        cases hdigit
      simp [words, hne]
  rw [scanWord, hnone]

theorem text_head (v : Value) : ∃ c cs, v.text = c :: cs ∧ Opens c := by
  have hnumber : ∀ {cs : List Char} {read : List Char × List Char × List Char},
      number cs = some read → ∃ c rest, cs = c :: rest ∧ Opens c := by
    intro cs read h
    obtain ⟨c, rest, rfl, hdigit | ⟨rfl, -⟩⟩ := number_head h
    · exact ⟨c, rest, rfl, opens_of_isDigit hdigit⟩
    · exact ⟨'-', rest, rfl, by decide⟩
  cases v with
  | null => exact ⟨'n', _, by rw [Value.text], by decide⟩
  | bool b =>
    cases b with
    | false => exact ⟨'f', _, by rw [Value.text], by decide⟩
    | true => exact ⟨'t', _, by rw [Value.text], by decide⟩
  | int n =>
    have hread := @number_integerText n [] (fun c hc => by cases hc)
    rw [List.append_nil] at hread
    rw [Value.text]
    exact hnumber hread
  | float x =>
    obtain ⟨cs, rest, hread⟩ := x.read
    have hagain := @number_append cs x.whole x.tail rest [] hread (fun c hc => by cases hc)
    rw [List.append_nil] at hagain
    rw [Value.text]
    exact hnumber hagain
  | nonfinite x =>
    rw [Value.text]
    cases x with
    | nan => exact ⟨'N', _, rfl, by decide⟩
    | infinity => exact ⟨'I', _, rfl, by decide⟩
    | negInfinity => exact ⟨'-', _, rfl, by decide⟩
  | str s => exact ⟨'"', _, by rw [Value.text, stringText], by decide⟩
  | arr items => exact ⟨'[', _, by rw [Value.text], by decide⟩
  | obj entries => exact ⟨'\x7b', _, by rw [Value.text], by decide⟩

theorem skip_of_opens {c : Char} {cs : List Char} (h : Opens c) : skip (c :: cs) = c :: cs :=
  List.dropWhile_cons_of_neg (Bool.eq_false_iff.mp h.1)

/-- The integer of a decimal that is not too long is read. -/
theorem scanNumber_integerText {n : Int} {rest : List Char}
    (hn : (Nat.toDigits 10 n.natAbs).length ≤ maxDigits) (hrest : Stops numeric rest) :
    scanNumber (integerText n ++ rest) = some (.int n, rest) := by
  have hall : ∀ m, (Nat.toDigits 10 m).filter Char.isDigit = Nat.toDigits 10 m := fun m =>
    List.filter_eq_self.mpr fun c hc => Nat.isDigit_of_mem_toDigits (by decide) (by decide) hc
  have hdigits : (integerText n).filter Char.isDigit = Nat.toDigits 10 n.natAbs := by
    cases n with
    | ofNat m => exact hall m
    | negSucc m =>
      show ('-' :: Nat.toDigits 10 (m + 1)).filter Char.isDigit = Nat.toDigits 10 (m + 1)
      rw [List.filter_cons_of_neg (by decide), hall]
  have hread := number_integerText (n := n) hrest
  unfold scanNumber
  split
  · rename_i hnone
    rw [hread] at hnone
    cases hnone
  · rename_i whole tail rest' hsome
    rw [hread] at hsome
    obtain ⟨rfl, hsome'⟩ := Prod.mk.inj (Option.some.inj hsome)
    obtain ⟨rfl, rfl⟩ := Prod.mk.inj hsome'
    rw [dif_pos rfl, hdigits, if_neg (by omega), integerOf_integerText]

theorem scanNumber_float {x : FloatLiteral} {rest : List Char} (hrest : Stops numeric rest) :
    scanNumber (x.text ++ rest) = some (.float x, rest) := by
  obtain ⟨cs, rest₁, hcs⟩ := x.read
  have hread := number_append hcs hrest
  unfold FloatLiteral.text scanNumber
  split
  · rename_i hnone
    rw [hread] at hnone
    cases hnone
  · rename_i whole tail rest' hsome
    rw [hread] at hsome
    obtain ⟨rfl, hsome'⟩ := Prod.mk.inj (Option.some.inj hsome)
    obtain ⟨rfl, rfl⟩ := Prod.mk.inj hsome'
    rw [dif_neg x.inexact]

theorem length_le_flatMap_escape (cs : List Char) : cs.length ≤ (cs.flatMap escape).length := by
  induction cs with
  | nil => exact Nat.le_refl _
  | cons c cs ih =>
    have hc : 1 ≤ (escape c).length := by
      unfold escape
      repeat' split
      all_goals simp
    rw [List.flatMap_cons, List.length_append, List.length_cons]
    omega

theorem scanString_stringText (s : String) (rest : List Char) :
    ∃ cs, stringText s ++ rest = '"' :: cs ∧
      scanString (cs.length + 1) cs = some (s.toList, rest) := by
  refine ⟨s.toList.flatMap escape ++ '"' :: rest, ?_, scanString_flatMap ?_⟩
  · simp [stringText]
  · have hlength := length_le_flatMap_escape s.toList
    rw [List.length_append, List.length_cons]
    omega

theorem scanKey_stringText {s : String} {rest : List Char} (hrest : skip rest = rest) :
    scanKey (stringText s ++ ':' :: rest) = some (s, rest) := by
  obtain ⟨cs, hcons, hscan⟩ := scanString_stringText s (':' :: rest)
  rw [hcons, scanKey, if_pos rfl, hscan]
  show (if ':' = ':' then some (String.ofList s.toList, skip rest) else none) = _
  rw [if_pos rfl, hrest, String.ofList_toList]

/-- What follows a value in what is written. -/
theorem stops_of_mem {c : Char} {cs : List Char} (h : c ∈ [',', ']', '\x7d']) :
    Stops numeric (c :: cs) := by
  rintro _ ⟨⟩
  simp only [List.mem_cons, List.not_mem_nil, or_false] at h
  rcases h with rfl | rfl | rfl <;> rfl

theorem scanItems_itemsText {scan : List Char → Option (Value × List Char)} {items : List Value}
    {fuel : Nat} {rest : List Char} (hne : items ≠ []) (hfuel : items.length ≤ fuel)
    (hscan : ∀ v ∈ items, ∀ rest, Stops numeric rest → scan (v.text ++ rest) = some (v, rest)) :
    scanItems scan fuel (itemsText items ++ ']' :: rest) = some (items, rest) := by
  induction items generalizing fuel with
  | nil => exact absurd rfl hne
  | cons v items ih =>
    obtain ⟨fuel, rfl⟩ := Nat.exists_eq_add_one_of_ne_zero (n := fuel) (by
      rw [List.length_cons] at hfuel
      omega)
    have hv := hscan v List.mem_cons_self
    cases items with
    | nil =>
      rw [itemsText, scanItems, hv _ (stops_of_mem (by simp))]
      rfl
    | cons w items =>
      have hrest := ih (List.cons_ne_nil _ _) (Nat.le_of_succ_le_succ hfuel) fun u hu =>
        hscan u (List.mem_cons_of_mem _ hu)
      have hskip : skip (itemsText (w :: items) ++ ']' :: rest) =
          itemsText (w :: items) ++ ']' :: rest := by
        obtain ⟨c, cs, hcons, hopens⟩ := text_head w
        cases items with
        | nil =>
          rw [itemsText, hcons, List.cons_append, skip_of_opens hopens]
        | cons u items =>
          rw [itemsText, hcons, List.cons_append, List.cons_append, skip_of_opens hopens]
      rw [itemsText, List.append_assoc, List.cons_append, scanItems,
        hv _ (stops_of_mem List.mem_cons_self)]
      show ((scanItems scan fuel (skip (itemsText (w :: items) ++ ']' :: rest))).bind fun read =>
        some (v :: read.1, read.2)) = _
      rw [hskip, hrest]
      rfl

theorem scanEntries_entriesText {scan : List Char → Option (Value × List Char)}
    {entries : List (String × Value)} {fuel : Nat} {rest : List Char} (hne : entries ≠ [])
    (hfuel : entries.length ≤ fuel)
    (hscan : ∀ e ∈ entries, ∀ rest, Stops numeric rest →
      scan (e.2.text ++ rest) = some (e.2, rest)) :
    scanEntries scan fuel (entriesText entries ++ '\x7d' :: rest) = some (entries, rest) := by
  induction entries generalizing fuel with
  | nil => exact absurd rfl hne
  | cons e entries ih =>
    obtain ⟨fuel, rfl⟩ := Nat.exists_eq_add_one_of_ne_zero (n := fuel) (by
      rw [List.length_cons] at hfuel
      omega)
    obtain ⟨k, v⟩ := e
    have hv := hscan (k, v) List.mem_cons_self
    have hvalue : ∀ cs, skip (v.text ++ cs) = v.text ++ cs := by
      intro cs
      obtain ⟨c, ds, hcons, hopens⟩ := text_head v
      rw [hcons, List.cons_append, skip_of_opens hopens]
    cases entries with
    | nil =>
      rw [entriesText, List.append_assoc, List.cons_append, scanEntries,
        scanKey_stringText (hvalue _)]
      dsimp only [Option.bind_eq_bind, Option.bind_some]
      rw [hv _ (stops_of_mem (by simp))]
      rfl
    | cons e entries =>
      have hrest := ih (List.cons_ne_nil _ _) (Nat.le_of_succ_le_succ hfuel) fun u hu =>
        hscan u (List.mem_cons_of_mem _ hu)
      have hskip : skip (entriesText (e :: entries) ++ '\x7d' :: rest) =
          entriesText (e :: entries) ++ '\x7d' :: rest := by
        obtain ⟨k', v'⟩ := e
        have hquote : Opens '"' := by decide
        cases entries with
        | nil =>
          rw [entriesText, stringText, List.cons_append, List.cons_append, skip_of_opens hquote]
        | cons u entries =>
          rw [entriesText, stringText, List.cons_append, List.cons_append, skip_of_opens hquote]
      rw [entriesText, List.append_assoc, List.cons_append, List.append_assoc, List.cons_append,
        scanEntries, scanKey_stringText (hvalue _)]
      dsimp only [Option.bind_eq_bind, Option.bind_some]
      rw [hv _ (stops_of_mem List.mem_cons_self)]
      show ((scanEntries scan fuel (skip (entriesText (e :: entries) ++ '\x7d' :: rest))).bind
        fun read => some ((k, v) :: read.1, read.2)) = _
      rw [hskip, hrest]
      rfl

theorem length_text_le_itemsText {items : List Value} {v : Value} (h : v ∈ items) :
    v.text.length ≤ (itemsText items).length := by
  induction items with
  | nil => cases h
  | cons w items ih =>
    cases items with
    | nil =>
      obtain rfl := List.mem_singleton.mp h
      rw [itemsText]
    | cons u items =>
      rw [itemsText, List.length_append, List.length_cons]
      rcases List.mem_cons.mp h with rfl | h
      · omega
      · have hle := ih h
        omega

theorem length_le_itemsText (items : List Value) : items.length ≤ (itemsText items).length := by
  induction items with
  | nil => exact Nat.le_refl _
  | cons v items ih =>
    obtain ⟨c, cs, hcons, -⟩ := text_head v
    cases items with
    | nil =>
      rw [itemsText, hcons]
      exact Nat.succ_le_succ (Nat.zero_le _)
    | cons w items =>
      rw [itemsText]
      simp only [List.length_append, List.length_cons] at ih ⊢
      omega

theorem length_text_le_entriesText {entries : List (String × Value)} {e : String × Value}
    (h : e ∈ entries) : e.2.text.length ≤ (entriesText entries).length := by
  induction entries with
  | nil => cases h
  | cons d entries ih =>
    cases entries with
    | nil =>
      obtain rfl := List.mem_singleton.mp h
      rw [entriesText, List.length_append, List.length_cons]
      omega
    | cons u entries =>
      rw [entriesText, List.length_append, List.length_cons, List.length_append, List.length_cons]
      rcases List.mem_cons.mp h with rfl | h
      · omega
      · have hle := ih h
        omega

theorem length_le_entriesText (entries : List (String × Value)) :
    entries.length ≤ (entriesText entries).length := by
  induction entries with
  | nil => exact Nat.le_refl _
  | cons e entries ih =>
    cases entries with
    | nil =>
      rw [entriesText, List.length_append, List.length_cons]
      simp only [List.length_nil, List.length_cons]
      omega
    | cons d entries =>
      rw [entriesText]
      simp only [List.length_append, List.length_cons] at ih ⊢
      omega

/-- What is written is read back, with as many levels as it has characters. -/
theorem scanValue_text {v : Value} {fuel : Nat} {rest : List Char} (hfuel : v.text.length < fuel)
    (hv : v.encodable = true) (hrest : Stops numeric rest) :
    scanValue fuel (v.text ++ rest) = some (v, rest) := by
  induction fuel generalizing v rest with
  | zero => cases hfuel
  | succ fuel ih =>
    have hnumber : ∀ {cs : List Char} {read : List Char × List Char × List Char},
        number cs = some read → scanValue (fuel + 1) cs = scanNumber cs := by
      intro cs read hread
      obtain ⟨c, ds, rfl, hc⟩ := number_head hread
      have hne : c ≠ '"' ∧ c ≠ '[' ∧ c ≠ '\x7b' := by
        refine ⟨?_, ?_, ?_⟩
        all_goals
          rintro rfl
          rcases hc with hc | ⟨hc, -⟩
          · cases hc
          · cases hc
      rw [scanValue, if_neg hne.1, if_neg hne.2.1, if_neg hne.2.2, scanWord_of_number hread]
    cases v with
    | null =>
      rw [Value.text]
      rfl
    | bool b =>
      cases b with
      | false =>
        rw [Value.text]
        rfl
      | true =>
        rw [Value.text]
        rfl
    | int n =>
      rw [Value.encodable, decide_eq_true_eq] at hv
      rw [Value.text, hnumber (number_integerText hrest), scanNumber_integerText hv hrest]
    | float x =>
      obtain ⟨cs, rest₁, hcs⟩ := x.read
      have hread : number (x.text ++ rest) = some (x.whole, x.tail, rest) :=
        number_append hcs hrest
      rw [Value.text, hnumber hread, scanNumber_float hrest]
    | nonfinite x =>
      rw [Value.encodable] at hv
      cases hv
    | str s =>
      obtain ⟨cs, hcons, hscan⟩ := scanString_stringText s rest
      rw [Value.text, hcons, scanValue, if_pos rfl, hscan]
      show some (Value.str (String.ofList s.toList), rest) = _
      rw [String.ofList_toList]
    | arr items =>
      rw [Value.encodable, itemsEncodable_iff] at hv
      rw [Value.text, List.length_cons, List.length_append, List.length_singleton] at hfuel
      rw [Value.text, List.cons_append, List.append_assoc, List.singleton_append, scanValue,
        if_neg (by decide), if_pos rfl]
      cases items with
      | nil => rfl
      | cons w items =>
        have hskip : skip (itemsText (w :: items) ++ ']' :: rest) =
            itemsText (w :: items) ++ ']' :: rest ∧
              (itemsText (w :: items) ++ ']' :: rest).head? ≠ some ']' := by
          obtain ⟨c, cs, hcons, hopens⟩ := text_head w
          cases items with
          | nil =>
            rw [itemsText, hcons, List.cons_append, skip_of_opens hopens]
            exact ⟨rfl, fun heq => hopens.2.1 (Option.some.inj heq)⟩
          | cons u items =>
            rw [itemsText, hcons, List.cons_append, List.cons_append, skip_of_opens hopens]
            exact ⟨rfl, fun heq => hopens.2.1 (Option.some.inj heq)⟩
        have hcount := length_le_itemsText (w :: items)
        have hitems := @scanItems_itemsText (scanValue fuel) (w :: items)
          (itemsText (w :: items) ++ ']' :: rest).length rest (List.cons_ne_nil _ _)
          (by simp only [List.length_append, List.length_cons] at hcount ⊢; omega) (by
            intro u hu rest' hrest'
            have hlength := length_text_le_itemsText hu
            exact ih (by omega) (hv u hu) hrest')
        rw [hskip.1, if_neg hskip.2, hitems]
        rfl
    | obj entries =>
      rw [Value.encodable, entriesEncodable_iff] at hv
      rw [Value.text, List.length_cons, List.length_append, List.length_singleton] at hfuel
      rw [Value.text, List.cons_append, List.append_assoc, List.singleton_append, scanValue,
        if_neg (by decide), if_neg (by decide), if_pos rfl]
      cases entries with
      | nil => rfl
      | cons e entries =>
        have hskip : skip (entriesText (e :: entries) ++ '\x7d' :: rest) =
            entriesText (e :: entries) ++ '\x7d' :: rest ∧
              (entriesText (e :: entries) ++ '\x7d' :: rest).head? ≠ some '\x7d' := by
          obtain ⟨k, v⟩ := e
          have hquote : Opens '"' := by decide
          cases entries with
          | nil =>
            rw [entriesText, stringText, List.cons_append, List.cons_append, skip_of_opens hquote]
            exact ⟨rfl, fun heq => hquote.2.2 (Option.some.inj heq)⟩
          | cons u entries =>
            rw [entriesText, stringText, List.cons_append, List.cons_append, skip_of_opens hquote]
            exact ⟨rfl, fun heq => hquote.2.2 (Option.some.inj heq)⟩
        have hcount := length_le_entriesText (e :: entries)
        have hentries := @scanEntries_entriesText (scanValue fuel) (e :: entries)
          (entriesText (e :: entries) ++ '\x7d' :: rest).length rest (List.cons_ne_nil _ _)
          (by simp only [List.length_append, List.length_cons] at hcount ⊢; omega) (by
            intro u hu rest' hrest'
            have hlength := length_text_le_entriesText hu
            exact ih (by omega) (hv u hu) hrest')
        rw [hskip.1, if_neg hskip.2, hentries]
        rfl

/-- What is written is read back. -/
theorem read_text {v : Value} (hv : v.encodable = true) :
    read (String.ofList v.text) = some v := by
  obtain ⟨c, cs, hcons, hopens⟩ := text_head v
  have hskip : skip v.text = v.text := by rw [hcons, skip_of_opens hopens]
  have hscan := @scanValue_text v (v.text.length + 1) [] (Nat.lt_succ_self _) hv nofun
  rw [List.append_nil] at hscan
  rw [read, String.toList_ofList, String.length_ofList, hskip, hscan]
  rfl

/-- Two values with one text are the same. -/
theorem text_injective {v w : Value} (hv : v.encodable = true) (hw : w.encodable = true)
    (h : v.text = w.text) : v = w := by
  have hread := read_text hv
  rw [h, read_text hw] at hread
  exact (Option.some.inj hread).symm

end SummitFlow.Json
