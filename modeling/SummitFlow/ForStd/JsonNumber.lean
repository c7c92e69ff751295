import Mathlib.Data.List.TakeWhile
import Mathlib.Data.String.Basic

/-!
# JSON numbers

A number is a whole part, a fraction and an exponent, each read as far as it goes.  A number
is read again from its own text, whatever follows that cannot go on it.
-/

namespace SummitFlow.Json

/-- The text does not start with a character of this kind. -/
def Stops (p : Char → Bool) (cs : List Char) : Prop := ∀ c ∈ cs.head?, p c = false

theorem Stops.mono {p q : Char → Bool} {cs : List Char} (h : Stops p cs)
    (hsub : ∀ c, q c = true → p c = true) : Stops q cs := by
  intro c hc
  have hp := h c hc
  cases hq : q c with
  | false => rfl
  | true =>
    rw [hsub c hq] at hp
    cases hp

theorem span_stops {p : Char → Bool} {ds rest : List Char} (hds : ∀ c ∈ ds, p c = true)
    (hrest : Stops p rest) :
    (ds ++ rest).takeWhile p = ds ∧ (ds ++ rest).dropWhile p = rest := by
  induction ds with
  | nil =>
    cases rest with
    | nil => exact ⟨rfl, rfl⟩
    | cons c cs =>
      have hc : ¬ p c = true := Bool.eq_false_iff.mp (hrest c rfl)
      exact ⟨List.takeWhile_cons_of_neg hc, List.dropWhile_cons_of_neg hc⟩
  | cons d ds ih =>
    have hd := hds d List.mem_cons_self
    obtain ⟨htake, hdrop⟩ := ih fun c hc => hds c (List.mem_cons_of_mem _ hc)
    rw [List.cons_append, List.takeWhile_cons_of_pos hd, List.dropWhile_cons_of_pos hd, htake]
    exact ⟨rfl, hdrop⟩

/-- A decimal without zeros in front, and what follows it. -/
def natural : List Char → Option (List Char × List Char)
  | [] => none
  | c :: cs =>
    if c = '0' then some (['0'], cs)
    else if c.isDigit then some (c :: cs.takeWhile Char.isDigit, cs.dropWhile Char.isDigit)
    else none

def integer : List Char → Option (List Char × List Char)
  | [] => none
  | c :: cs =>
    if c = '-' then (natural cs).map fun read => ('-' :: read.1, read.2) else natural (c :: cs)

/-- The digits after a point, if there are any. -/
def fraction : List Char → List Char × List Char
  | [] => ([], [])
  | c :: cs =>
    if c = '.' ∧ cs.takeWhile Char.isDigit ≠ [] then
      ('.' :: cs.takeWhile Char.isDigit, cs.dropWhile Char.isDigit)
    else ([], c :: cs)

def signed : List Char → List Char × List Char
  | [] => ([], [])
  | c :: cs => if c = '+' ∨ c = '-' then ([c], cs) else ([], c :: cs)

/-- An exponent, if there is one. -/
def exponent : List Char → List Char × List Char
  | [] => ([], [])
  | c :: cs =>
    if (c = 'e' ∨ c = 'E') ∧ (signed cs).2.takeWhile Char.isDigit ≠ [] then
      (c :: ((signed cs).1 ++ (signed cs).2.takeWhile Char.isDigit),
        (signed cs).2.dropWhile Char.isDigit)
    else ([], c :: cs)

/-- A number: its whole part, its fraction and exponent, and what follows it. -/
def number (cs : List Char) : Option (List Char × List Char × List Char) := do
  let (whole, rest) ← integer cs
  let (point, rest) := fraction rest
  let (power, rest) := exponent rest
  return (whole, point ++ power, rest)

/-- A character that a number can go on with. -/
def numeric (c : Char) : Bool :=
  c.isDigit || c == '.' || c == 'e' || c == 'E' || c == '+' || c == '-'

theorem natural_append {cs whole rest rest' : List Char} (h : natural cs = some (whole, rest))
    (hrest : Stops Char.isDigit rest') : natural (whole ++ rest') = some (whole, rest') := by
  cases cs with
  | nil => cases h
  | cons c cs =>
    rw [natural] at h
    split at h
    · obtain ⟨rfl, rfl⟩ := Prod.mk.inj (Option.some.inj h)
      rfl
    · rename_i hzero
      split at h
      · rename_i hdigit
        obtain ⟨rfl, rfl⟩ := Prod.mk.inj (Option.some.inj h)
        have hall : ∀ d ∈ cs.takeWhile Char.isDigit, d.isDigit = true := fun d hd =>
          List.mem_takeWhile_imp hd
        obtain ⟨htake, hdrop⟩ := span_stops hall hrest
        rw [List.cons_append, natural, if_neg hzero, if_pos hdigit, htake, hdrop]
      · cases h

theorem natural_head {cs whole rest : List Char} (h : natural cs = some (whole, rest)) :
    ∃ c cs', whole = c :: cs' ∧ c.isDigit = true := by
  cases cs with
  | nil => cases h
  | cons c cs =>
    rw [natural] at h
    split at h
    · obtain ⟨rfl, -⟩ := Prod.mk.inj (Option.some.inj h)
      exact ⟨'0', [], rfl, rfl⟩
    · split at h
      · rename_i hdigit
        obtain ⟨rfl, -⟩ := Prod.mk.inj (Option.some.inj h)
        exact ⟨c, _, rfl, hdigit⟩
      · cases h

theorem integer_append {cs whole rest rest' : List Char} (h : integer cs = some (whole, rest))
    (hrest : Stops Char.isDigit rest') : integer (whole ++ rest') = some (whole, rest') := by
  cases cs with
  | nil => cases h
  | cons c cs =>
    rw [integer] at h
    split at h
    · obtain ⟨read, hread, heq⟩ := Option.map_eq_some_iff.mp h
      obtain ⟨rfl, rfl⟩ := Prod.mk.inj heq
      rw [List.cons_append, integer, if_pos rfl, natural_append hread hrest]
      rfl
    · obtain ⟨d, ds, hwhole, hdigit⟩ := natural_head h
      have hne : d ≠ '-' := by
        rintro rfl
        cases hdigit
      have happend := natural_append h hrest
      rw [hwhole] at happend ⊢
      rw [List.cons_append] at happend ⊢
      rw [integer, if_neg hne, happend]

theorem fraction_append {cs point rest rest' : List Char} (h : fraction cs = (point, rest))
    (hrest : Stops (fun c => c.isDigit || c == '.') rest') :
    fraction (point ++ rest') = (point, rest') := by
  have hnone : fraction rest' = ([], rest') := by
    cases rest' with
    | nil => rfl
    | cons c cs =>
      have hc := hrest c rfl
      rw [Bool.or_eq_false_iff, beq_eq_false_iff_ne] at hc
      rw [fraction, if_neg fun hpoint => hc.2 hpoint.1]
  have hdigits : Stops Char.isDigit rest' := hrest.mono fun c hc => by rw [hc]; rfl
  cases cs with
  | nil =>
    obtain ⟨rfl, -⟩ := Prod.mk.inj h
    exact hnone
  | cons c cs =>
    rw [fraction] at h
    split at h
    · rename_i hpoint
      obtain ⟨rfl, -⟩ := Prod.mk.inj h
      have hall : ∀ d ∈ cs.takeWhile Char.isDigit, d.isDigit = true := fun d hd =>
        List.mem_takeWhile_imp hd
      obtain ⟨htake, hdrop⟩ := span_stops hall hdigits
      rw [List.cons_append, fraction, htake, if_pos ⟨rfl, hpoint.2⟩, hdrop]
    · obtain ⟨rfl, -⟩ := Prod.mk.inj h
      exact hnone

/-- A sign is read again where a digit follows it. -/
theorem signed_append {cs ds : List Char} {d : Char} (h : d.isDigit = true) :
    signed ((signed cs).1 ++ d :: ds) = ((signed cs).1, d :: ds) := by
  have hnone : signed (d :: ds) = ([], d :: ds) := by
    rw [signed, if_neg]
    rintro (rfl | rfl)
    · cases h
    · cases h
  cases cs with
  | nil => exact hnone
  | cons s cs =>
    rw [signed]
    split
    · rename_i hs
      rw [List.singleton_append, signed, if_pos hs]
    · exact hnone

theorem exponent_append {cs power rest rest' : List Char} (h : exponent cs = (power, rest))
    (hrest : Stops numeric rest') : exponent (power ++ rest') = (power, rest') := by
  have hnone : exponent rest' = ([], rest') := by
    cases rest' with
    | nil => rfl
    | cons c cs =>
      have hc := hrest c rfl
      rw [exponent, if_neg]
      rintro ⟨rfl | rfl, -⟩
      · cases hc
      · cases hc
  have hdigits : Stops Char.isDigit rest' := hrest.mono fun c hc => by simp [numeric, hc]
  cases cs with
  | nil =>
    obtain ⟨rfl, -⟩ := Prod.mk.inj h
    exact hnone
  | cons c cs =>
    rw [exponent] at h
    split at h
    · rename_i hpower
      obtain ⟨rfl, -⟩ := Prod.mk.inj h
      have hall : ∀ d ∈ (signed cs).2.takeWhile Char.isDigit, d.isDigit = true := fun d hd =>
        List.mem_takeWhile_imp hd
      obtain ⟨htake, hdrop⟩ := span_stops hall hdigits
      have hsigned : signed ((signed cs).1 ++ ((signed cs).2.takeWhile Char.isDigit ++ rest')) =
          ((signed cs).1, (signed cs).2.takeWhile Char.isDigit ++ rest') := by
        cases hdigit : (signed cs).2.takeWhile Char.isDigit with
        | nil => exact absurd hdigit hpower.2
        | cons d ds => exact signed_append (hall d (hdigit ▸ List.mem_cons_self))
      rw [List.cons_append, List.append_assoc, exponent, hsigned]
      dsimp only
      rw [htake, hdrop, if_pos hpower]
    · obtain ⟨rfl, -⟩ := Prod.mk.inj h
      exact hnone

theorem fraction_head (cs : List Char) :
    (fraction cs).1 = [] ∨ ∃ ds, (fraction cs).1 = '.' :: ds := by
  cases cs with
  | nil => exact .inl rfl
  | cons c cs =>
    rw [fraction]
    split
    · exact .inr ⟨_, rfl⟩
    · exact .inl rfl

theorem exponent_head (cs : List Char) :
    (exponent cs).1 = [] ∨ ∃ c ds, (c = 'e' ∨ c = 'E') ∧ (exponent cs).1 = c :: ds := by
  cases cs with
  | nil => exact .inl rfl
  | cons c cs =>
    rw [exponent]
    split
    · rename_i hpower
      exact .inr ⟨c, _, hpower.1, rfl⟩
    · exact .inl rfl

/-- A number is read again from its own text, whatever follows that cannot go on it. -/
theorem number_append {cs whole tail rest rest' : List Char}
    (h : number cs = some (whole, tail, rest)) (hrest : Stops numeric rest') :
    number (whole ++ tail ++ rest') = some (whole, tail, rest') := by
  obtain ⟨⟨whole', rest₁⟩, hwhole, h⟩ := Option.bind_eq_some_iff.mp h
  dsimp only at h
  obtain ⟨rfl, hrest'⟩ := Prod.mk.inj (Option.some.inj h)
  obtain ⟨rfl, -⟩ := Prod.mk.inj hrest'
  have hpower : Stops (fun c => c.isDigit || c == '.') ((exponent (fraction rest₁).2).1 ++ rest') := by
    rcases exponent_head (fraction rest₁).2 with hnil | ⟨c, ds, hc, hcons⟩
    · rw [hnil, List.nil_append]
      exact hrest.mono fun c hc => by
        rw [Bool.or_eq_true] at hc
        rcases hc with hc | hc <;> simp [numeric, hc]
    · rw [hcons]
      rintro _ ⟨⟩
      rcases hc with rfl | rfl <;> rfl
  have hpoint : Stops Char.isDigit
      ((fraction rest₁).1 ++ ((exponent (fraction rest₁).2).1 ++ rest')) := by
    rcases fraction_head rest₁ with hnil | ⟨ds, hcons⟩
    · rw [hnil, List.nil_append]
      exact hpower.mono fun c hc => by simp [hc]
    · rw [hcons]
      rintro _ ⟨⟩
      rfl
  rw [List.append_assoc, List.append_assoc, number, integer_append hwhole hpoint]
  show some (whole', (fraction _).1 ++ (exponent (fraction _).2).1, (exponent (fraction _).2).2) = _
  rw [fraction_append (Prod.mk.eta (p := fraction rest₁)).symm hpower,
    exponent_append (Prod.mk.eta (p := exponent (fraction rest₁).2)).symm hrest]

/-- The text of a number that has a fraction or an exponent. -/
structure FloatLiteral where
  whole : List Char
  tail : List Char
  read : ∃ cs rest, number cs = some (whole, tail, rest)
  inexact : tail ≠ []

def FloatLiteral.text (x : FloatLiteral) : List Char := x.whole ++ x.tail

/-- The decimal of an integer. -/
def integerText : Int → List Char
  | .ofNat n => Nat.toDigits 10 n
  | .negSucc n => '-' :: Nat.toDigits 10 (n + 1)

/-- The integer of a decimal. -/
def integerOf (cs : List Char) : Int :=
  if cs.head? = some '-' then - (Nat.ofDigitChars 10 cs.tail 0 : Int)
  else Nat.ofDigitChars 10 cs 0

theorem toDigits_head {n : Nat} (hn : n ≠ 0) :
    ∃ c cs, Nat.toDigits 10 n = c :: cs ∧ c ≠ '0' ∧ c.isDigit = true := by
  induction n using Nat.strongRecOn with
  | ind n ih =>
    by_cases hlt : n < 10
    · have hall : ∀ n < 10, n ≠ 0 → n.digitChar ≠ '0' ∧ n.digitChar.isDigit = true := by decide
      exact ⟨n.digitChar, [], Nat.toDigits_of_lt_base hlt, hall n hlt hn⟩
    · obtain ⟨c, cs, hcons, hc⟩ := ih (n / 10) (by omega) (by omega)
      rw [Nat.toDigits_of_base_le (by decide) (by omega), hcons]
      exact ⟨c, _, rfl, hc⟩

theorem natural_toDigits {n : Nat} {rest : List Char} (hrest : Stops Char.isDigit rest) :
    natural (Nat.toDigits 10 n ++ rest) = some (Nat.toDigits 10 n, rest) := by
  by_cases hn : n = 0
  · rw [hn]
    rfl
  · obtain ⟨c, cs, hcons, hzero, hdigit⟩ := toDigits_head hn
    have hall : ∀ d ∈ cs, d.isDigit = true := by
      intro d hd
      apply Nat.isDigit_of_mem_toDigits (b := 10) (n := n) (by decide) (by decide)
      rw [hcons]
      exact List.mem_cons_of_mem _ hd
    obtain ⟨htake, hdrop⟩ := span_stops hall hrest
    rw [hcons, List.cons_append, natural, if_neg hzero, if_pos hdigit, htake, hdrop]

theorem integer_integerText {n : Int} {rest : List Char} (hrest : Stops Char.isDigit rest) :
    integer (integerText n ++ rest) = some (integerText n, rest) := by
  cases n with
  | ofNat n =>
    obtain ⟨c, cs, hcons, hdigit⟩ := natural_head (natural_toDigits (n := n) hrest)
    have hne : c ≠ '-' := by
      rintro rfl
      cases hdigit
    have hread := natural_toDigits (n := n) hrest
    show integer (Nat.toDigits 10 n ++ rest) = some (Nat.toDigits 10 n, rest)
    rw [hcons] at hread ⊢
    rw [List.cons_append] at hread ⊢
    rw [integer, if_neg hne, hread]
  | negSucc n =>
    show integer ('-' :: (Nat.toDigits 10 (n + 1) ++ rest)) = _
    rw [integer, if_pos rfl, natural_toDigits hrest]
    rfl

theorem integerOf_integerText (n : Int) : integerOf (integerText n) = n := by
  cases n with
  | ofNat n =>
    have hne : (Nat.toDigits 10 n).head? ≠ some '-' := by
      intro heq
      have hdigit := Nat.isDigit_of_mem_toDigits (by decide) (by decide) (List.mem_of_head? heq)
      cases hdigit
    show integerOf (Nat.toDigits 10 n) = _
    rw [integerOf, if_neg hne, Nat.ofDigitChars_ten_toDigits]
    rfl
  | negSucc n =>
    show integerOf ('-' :: Nat.toDigits 10 (n + 1)) = _
    rw [integerOf, List.head?_cons, if_pos rfl, List.tail_cons, Nat.ofDigitChars_ten_toDigits]
    rfl

theorem number_integerText {n : Int} {rest : List Char} (hrest : Stops numeric rest) :
    number (integerText n ++ rest) = some (integerText n, [], rest) := by
  have hdigits : Stops Char.isDigit rest := hrest.mono fun c hc => by simp [numeric, hc]
  have hpoint : Stops (fun c => c.isDigit || c == '.') rest := hrest.mono fun c hc => by
    rw [Bool.or_eq_true] at hc
    rcases hc with hc | hc <;> simp [numeric, hc]
  have hfraction := @fraction_append [] [] [] rest rfl hpoint
  have hexponent := @exponent_append [] [] [] rest rfl hrest
  rw [List.nil_append] at hfraction hexponent
  rw [number, integer_integerText hdigits]
  show some (integerText n, (fraction rest).1 ++ (exponent (fraction rest).2).1,
    (exponent (fraction rest).2).2) = _
  rw [hfraction, hexponent]
  rfl

end SummitFlow.Json
