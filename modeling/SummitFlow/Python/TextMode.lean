import SummitFlow.Python.Str

/-!
# Text mode

A file or a pipe that is read as text has its line ends read as newlines: a carriage return
and the newline after it, and a carriage return alone.
-/

namespace SummitFlow.Str

/-- The text with its line ends as newlines, after a carriage return or not. -/
def newlinesAux : Bool → List Char → List Char
  | _, [] => []
  | after, c :: cs =>
    if c = '\r' then '\n' :: newlinesAux true cs
    else if after ∧ c = '\n' then newlinesAux false cs
    else c :: newlinesAux false cs

/-- What text mode reads of a text. -/
def newlines (cs : List Char) : List Char := newlinesAux false cs

theorem newlinesAux_append (after : Bool) (xs ys : List Char) {c : Char} (hreturn : c ≠ '\r')
    (hnewline : c ≠ '\n') :
    newlinesAux after (xs ++ c :: ys) = newlinesAux after xs ++ c :: newlines ys := by
  induction xs generalizing after with
  | nil =>
    show newlinesAux after (c :: ys) = c :: newlines ys
    rw [newlinesAux, if_neg hreturn, if_neg fun h => hnewline h.2]
    rfl
  | cons x xs ih =>
    rw [List.cons_append, newlinesAux, newlinesAux]
    split
    · rw [ih]
      rfl
    · split
      · rw [ih]
      · rw [ih]
        rfl

/-- A text is read in the pieces between its other characters. -/
theorem newlines_append (xs ys : List Char) {c : Char} (hreturn : c ≠ '\r') (hnewline : c ≠ '\n') :
    newlines (xs ++ c :: ys) = newlines xs ++ c :: newlines ys :=
  newlinesAux_append false xs ys hreturn hnewline

theorem not_mem_newlinesAux (after : Bool) (cs : List Char) : '\r' ∉ newlinesAux after cs := by
  induction cs generalizing after with
  | nil => exact List.not_mem_nil
  | cons c cs ih =>
    rw [newlinesAux]
    split
    · exact List.not_mem_cons_of_ne_of_not_mem (by decide) (ih true)
    · rename_i hc
      split
      · exact ih false
      · exact List.not_mem_cons_of_ne_of_not_mem (Ne.symm hc) (ih false)

theorem newlines_of_not_mem {cs : List Char} (h : '\r' ∉ cs) : newlines cs = cs := by
  unfold newlines
  induction cs with
  | nil => rfl
  | cons c cs ih =>
    rw [List.mem_cons, not_or] at h
    rw [newlinesAux, if_neg (Ne.symm h.1), if_neg (by simp), ih h.2]

/-- Only a text without carriage returns is read as it is. -/
theorem newlines_eq_iff {cs : List Char} : newlines cs = cs ↔ '\r' ∉ cs := by
  constructor
  · intro h
    rw [← h]
    exact not_mem_newlinesAux false cs
  · exact newlines_of_not_mem

theorem not_mem_newlines {c : Char} {cs : List Char} (hnewline : c ≠ '\n') (h : c ∉ cs) :
    c ∉ newlines cs := by
  have hall : ∀ after, c ∉ newlinesAux after cs := by
    induction cs with
    | nil => exact fun _ => List.not_mem_nil
    | cons d cs ih =>
      rw [List.mem_cons, not_or] at h
      intro after
      rw [newlinesAux]
      split
      · exact List.not_mem_cons_of_ne_of_not_mem hnewline (ih h.2 true)
      · split
        · exact ih h.2 false
        · exact List.not_mem_cons_of_ne_of_not_mem h.1 (ih h.2 false)
  exact hall false

theorem length_newlines_le (cs : List Char) : (newlines cs).length ≤ cs.length := by
  have hall : ∀ after, (newlinesAux after cs).length ≤ cs.length := by
    induction cs with
    | nil => exact fun _ => Nat.le_refl _
    | cons c cs ih =>
      intro after
      rw [newlinesAux]
      have htrue := ih true
      have hfalse := ih false
      split
      · simp only [List.length_cons]
        omega
      · split
        · simp only [List.length_cons]
          omega
        · simp only [List.length_cons]
          omega
  exact hall false

end SummitFlow.Str
