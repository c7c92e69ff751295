import Mathlib.Data.List.Basic
import Mathlib.Data.String.Basic

/-!
# Zero-padded decimals

Decimals of one length compare like their values, also when texts follow them.
-/

namespace SummitFlow

/-- The decimal digits of `n`, with zeros in front up to `width` characters. -/
def zfill (width n : Nat) : List Char :=
  List.replicate (width - (Nat.toDigits 10 n).length) '0' ++ Nat.toDigits 10 n

theorem isDigit_of_mem_zfill {width n : Nat} {c : Char} (h : c ∈ zfill width n) :
    c.isDigit = true := by
  rcases List.mem_append.mp h with h | h
  · rw [List.eq_of_mem_replicate h]
    rfl
  · exact Nat.isDigit_of_mem_toDigits (by decide) (by decide) h

theorem length_zfill_eq_iff {width n : Nat} (hwidth : 0 < width) :
    (zfill width n).length = width ↔ n < 10 ^ width := by
  have hlength : (zfill width n).length = max width (Nat.toDigits 10 n).length := by
    simp only [zfill, List.length_append, List.length_replicate]
    omega
  have hle := Nat.length_toDigits_le_iff (n := n) (b := 10) (by decide) hwidth
  omega

@[simp] theorem ofDigitChars_zfill (width n : Nat) :
    Nat.ofDigitChars 10 (zfill width n) 0 = n := by
  simp [zfill, Nat.ofDigitChars_append]

theorem ofDigitChars_lt {cs : List Char} (h : ∀ c ∈ cs, c.isDigit = true) :
    Nat.ofDigitChars 10 cs 0 < 10 ^ cs.length := by
  induction cs with
  | nil => simp
  | cons c cs ih =>
    have hcs := ih fun d hd => h d (List.mem_cons_of_mem _ hd)
    have hc : c.toNat - '0'.toNat ≤ 9 := by
      have hdigit := h c List.mem_cons_self
      simp only [Char.isDigit, Bool.and_eq_true, decide_eq_true_eq] at hdigit
      have hle : c.toNat ≤ 57 := hdigit.2
      have hzero : '0'.toNat = 48 := rfl
      omega
    rw [Nat.ofDigitChars_cons, Nat.ofDigitChars_eq_ofDigitChars_zero, List.length_cons,
      Nat.pow_succ]
    have hmul : 10 ^ cs.length * (10 * 0 + (c.toNat - '0'.toNat)) ≤ 10 ^ cs.length * 9 :=
      Nat.mul_le_mul_left _ (by omega)
    omega

/-- Digits of one length that do not come later have no greater value. -/
theorem ofDigitChars_le_of_not_lt {ds es xs ys : List Char}
    (hlength : ds.length = es.length) (hds : ∀ c ∈ ds, c.isDigit = true)
    (h : ¬ es ++ ys < ds ++ xs) : Nat.ofDigitChars 10 ds 0 ≤ Nat.ofDigitChars 10 es 0 := by
  -- the values are compared after any digits both texts begin with
  suffices ∀ init, Nat.ofDigitChars 10 ds init ≤ Nat.ofDigitChars 10 es init from this 0
  induction ds generalizing es with
  | nil =>
    intro init
    rw [List.length_eq_zero_iff.mp hlength.symm]
  | cons d ds ih =>
    intro init
    cases es with
    | nil => cases hlength
    | cons e es =>
      simp only [List.length_cons, Nat.add_right_cancel_iff] at hlength
      have hrest : ∀ c ∈ ds, c.isDigit = true := fun c hc => hds c (List.mem_cons_of_mem _ hc)
      rw [List.cons_append, List.cons_append, List.cons_lt_cons_iff, not_or] at h
      rw [Nat.ofDigitChars_cons, Nat.ofDigitChars_cons]
      rcases lt_or_eq_of_le (le_of_not_gt h.1) with hlt | rfl
      · have hd := hds d List.mem_cons_self
        simp only [Char.isDigit, Bool.and_eq_true, decide_eq_true_eq] at hd
        have hzero : '0'.toNat ≤ d.toNat := hd.1
        have hchar : d.toNat < e.toNat := hlt
        have hbound := ofDigitChars_lt hrest
        rw [Nat.ofDigitChars_eq_ofDigitChars_zero (l := ds),
          Nat.ofDigitChars_eq_ofDigitChars_zero (l := es), ← hlength]
        have hmul : 10 ^ ds.length * (10 * init + (d.toNat - '0'.toNat) + 1) ≤
            10 ^ ds.length * (10 * init + (e.toNat - '0'.toNat)) :=
          Nat.mul_le_mul_left _ (by omega)
        rw [Nat.mul_add, Nat.mul_one] at hmul
        omega
      · exact ih hlength hrest (fun hlt => h.2 ⟨rfl, hlt⟩) _

end SummitFlow
