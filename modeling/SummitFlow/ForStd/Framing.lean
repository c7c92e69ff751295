import Mathlib.Data.List.Basic

/-!
# Framing

A record ends at a separator.  What stands before the first separator of a list is found
again in every longer list, so a reader that keeps the rest may cut what it reads anywhere.
-/

namespace SummitFlow.Framing

variable {α : Type} [DecidableEq α]

/-- What stands before and after the first separator. -/
def cut (sep : α) : List α → Option (List α × List α)
  | [] => none
  | a :: as => if a = sep then some ([], as) else (cut sep as).map fun (line, rest) => (a :: line, rest)

variable {sep : α} {as bs line rest : List α}

theorem cut_of_notMem (h : sep ∉ line) : cut sep (line ++ sep :: rest) = some (line, rest) := by
  induction line with
  | nil => simp [cut]
  | cons a line ih =>
    have ha : a ≠ sep := fun heq => h (heq ▸ List.mem_cons_self)
    rw [List.cons_append, cut, if_neg ha, ih fun hmem => h (List.mem_cons_of_mem _ hmem)]
    rfl

theorem cut_eq_some_iff : cut sep as = some (line, rest) ↔ as = line ++ sep :: rest ∧ sep ∉ line := by
  constructor
  · intro h
    induction as generalizing line with
    | nil => simp [cut] at h
    | cons a as ih =>
      rw [cut] at h
      by_cases ha : a = sep
      · rw [if_pos ha] at h
        simp at h
        simp [h, ha]
      · rw [if_neg ha, Option.map_eq_some_iff] at h
        obtain ⟨⟨line', rest'⟩, hcut, heq⟩ := h
        simp at heq
        obtain ⟨rfl, rfl⟩ := heq
        obtain ⟨rfl, hline⟩ := ih hcut
        simp [Ne.symm ha, hline]
  · rintro ⟨rfl, hline⟩
    exact cut_of_notMem hline

theorem cut_eq_none_iff : cut sep as = none ↔ sep ∉ as := by
  induction as with
  | nil => simp [cut]
  | cons a as ih =>
    rw [cut]
    by_cases ha : a = sep
    · simp [ha]
    · rw [if_neg ha, Option.map_eq_none_iff, ih]
      simp [Ne.symm ha]

theorem cut_append_of_some (h : cut sep as = some (line, rest)) :
    cut sep (as ++ bs) = some (line, rest ++ bs) := by
  obtain ⟨rfl, hline⟩ := cut_eq_some_iff.mp h
  rw [List.append_assoc, List.cons_append]
  exact cut_of_notMem hline

theorem cut_append_of_none (h : sep ∉ as) :
    cut sep (as ++ bs) = (cut sep bs).map fun (line, rest) => (as ++ line, rest) := by
  induction as with
  | nil => simp
  | cons a as ih =>
    have ha : a ≠ sep := fun heq => h (heq ▸ List.mem_cons_self)
    rw [List.cons_append, cut, if_neg ha, ih fun hmem => h (List.mem_cons_of_mem _ hmem),
      Option.map_map]
    rfl

/-- The first separator stands after the line. -/
theorem idxOf_of_cut (h : cut sep as = some (line, rest)) : as.idxOf sep = line.length := by
  obtain ⟨rfl, hline⟩ := cut_eq_some_iff.mp h
  rw [List.idxOf_append_of_notMem hline, List.idxOf_cons_self, Nat.add_zero]

theorem length_of_cut (h : cut sep as = some (line, rest)) :
    as.length = line.length + rest.length + 1 := by
  obtain ⟨rfl, -⟩ := cut_eq_some_iff.mp h
  rw [List.length_append, List.length_cons]
  omega

end SummitFlow.Framing
