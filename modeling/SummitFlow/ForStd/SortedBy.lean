import Mathlib.Data.List.Sort

/-!
# Lists sorted by a key

Selecting from a list and then sorting it is sorting it and then selecting from it, since
the sort keeps the order of elements with equal keys.  A range of a sorted list is the
ranges of its two parts, one after the other.
-/

namespace SummitFlow

variable {α K : Type} [LinearOrder K]

/-- The elements in the order of their keys; equal keys stay in the order they were. -/
def sortBy (key : α → K) (l : List α) : List α := l.insertionSort fun a b => key a ≤ key b

/-- The elements with a key in a range. -/
def slice (key : α → K) (lo hi : K) (l : List α) : List α :=
  l.filter fun a => lo ≤ key a && key a < hi

section

variable {key : α → K}

theorem orderedInsert_of_le {a : α} {l : List α} (h : ∀ b ∈ l, key a ≤ key b) :
    l.orderedInsert (fun a b => key a ≤ key b) a = a :: l := by
  cases l with
  | nil => rfl
  | cons b l => rw [List.orderedInsert_cons, if_pos (h b List.mem_cons_self)]

theorem filter_orderedInsert {l : List α} (h : l.Pairwise fun a b => key a ≤ key b) (p : α → Bool)
    (a : α) :
    (l.orderedInsert (fun a b => key a ≤ key b) a).filter p =
      if p a then (l.filter p).orderedInsert (fun a b => key a ≤ key b) a else l.filter p := by
  induction l with
  | nil =>
    rw [List.orderedInsert_nil, List.filter_cons]
    rfl
  | cons b l ih =>
    rw [List.pairwise_cons] at h
    by_cases hab : key a ≤ key b
    · have hall : ∀ c ∈ (b :: l).filter p, key a ≤ key c := by
        intro c hc
        rcases List.mem_cons.mp (List.mem_filter.mp hc).1 with rfl | hmem
        · exact hab
        · exact hab.trans (h.1 c hmem)
      rw [List.orderedInsert_cons, if_pos hab, List.filter_cons, orderedInsert_of_le hall]
    · rw [List.orderedInsert_cons, if_neg hab, List.filter_cons, ih h.2, List.filter_cons]
      by_cases hb : p b = true
      · rw [if_pos hb, if_pos hb]
        split
        · rw [List.orderedInsert_cons, if_neg hab]
        · rfl
      · rw [if_neg hb, if_neg hb]

theorem pairwise_sortBy (key : α → K) (l : List α) : (sortBy key l).Pairwise fun a b => key a ≤ key b := by
  have htotal : Std.Total fun a b : α => key a ≤ key b := ⟨fun a b => le_total (key a) (key b)⟩
  have htrans : IsTrans α fun a b => key a ≤ key b := ⟨fun _ _ _ => le_trans⟩
  exact List.pairwise_insertionSort _ l

theorem perm_sortBy (key : α → K) (l : List α) : (sortBy key l).Perm l :=
  List.perm_insertionSort _ l

@[simp] theorem mem_sortBy {key : α → K} {a : α} {l : List α} : a ∈ sortBy key l ↔ a ∈ l :=
  (perm_sortBy key l).mem_iff

/-- Selecting and sorting. -/
theorem filter_sortBy (key : α → K) (p : α → Bool) (l : List α) :
    (sortBy key l).filter p = sortBy key (l.filter p) := by
  induction l with
  | nil => rfl
  | cons a l ih =>
    have hsorted := pairwise_sortBy key l
    unfold sortBy at ih hsorted ⊢
    rw [List.insertionSort_cons, filter_orderedInsert hsorted, ih, List.filter_cons]
    split
    · rw [List.insertionSort_cons]
    · rfl

/-- Selecting from a range what is another range. -/
theorem slice_slice {p : α → Bool} {lo hi lo' hi' : K} {l : List α}
    (h : ∀ a, (lo ≤ key a ∧ key a < hi ∧ p a = true) ↔ (lo' ≤ key a ∧ key a < hi')) :
    (slice key lo hi l).filter p = slice key lo' hi' l := by
  unfold slice
  rw [List.filter_filter]
  apply List.filter_congr
  intro a _
  have ha := h a
  rw [Bool.eq_iff_iff]
  simp only [Bool.and_eq_true, decide_eq_true_eq] at ha ⊢
  rw [and_comm, and_assoc]
  exact ha

/-- A range of a sorted list, in two parts. -/
theorem slice_append {l : List α} (h : l.Pairwise fun a b => key a ≤ key b) {lo mid hi : K}
    (hlo : lo ≤ mid) (hhi : mid ≤ hi) :
    slice key lo hi l = slice key lo mid l ++ slice key mid hi l := by
  induction l with
  | nil => rfl
  | cons a l ih =>
    rw [List.pairwise_cons] at h
    unfold slice at ih ⊢
    rw [List.filter_cons, List.filter_cons, List.filter_cons, ih h.2]
    by_cases hmid : key a < mid
    · have hsecond : ¬ (decide (mid ≤ key a) && decide (key a < hi)) = true := by
        simp [hmid]
      have hfirst : (decide (lo ≤ key a) && decide (key a < hi)) =
          (decide (lo ≤ key a) && decide (key a < mid)) := by
        simp [hmid, hmid.trans_le hhi]
      rw [if_neg hsecond, hfirst]
      split
      · rfl
      · rfl
    · -- nothing after `a` is in the first part
      have hnone : l.filter (fun b => decide (lo ≤ key b) && decide (key b < mid)) = [] := by
        rw [List.filter_eq_nil_iff]
        intro b hb
        have hle := h.1 b hb
        simp [(not_lt.mp hmid).trans hle]
      have hsame : (decide (lo ≤ key a) && decide (key a < hi)) =
          (decide (mid ≤ key a) && decide (key a < hi)) := by
        simp [not_lt.mp hmid, hlo.trans (not_lt.mp hmid)]
      have hfirst : ¬ (decide (lo ≤ key a) && decide (key a < mid)) = true := by
        simp [not_lt.mp hmid]
      rw [hnone, if_neg hfirst, hsame]
      split
      · rfl
      · rfl

end

end SummitFlow
