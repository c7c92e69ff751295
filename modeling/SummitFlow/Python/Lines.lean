import SummitFlow.Python.Str

/-!
# Lines and words

What `splitlines` and `split` do with the first line or word of a text.
-/

namespace SummitFlow.Str

/-- A line up to its newline. -/
theorem splitlinesAux_line {line : List Char} (h : ∀ c ∈ line, isLineBreak c = false)
    (acc rest : List Char) :
    splitlinesAux acc (line ++ '\n' :: rest) = (acc.reverse ++ line) :: splitlinesAux [] rest := by
  induction line generalizing acc with
  | nil =>
    show splitlinesAux acc ('\n' :: rest) = _
    rw [splitlinesAux]
    · rw [if_pos (by decide), List.append_nil]
    · intro cs hreturn
      exact absurd hreturn (by decide)
  | cons c line ih =>
    have hc := h c List.mem_cons_self
    show splitlinesAux acc (c :: (line ++ '\n' :: rest)) = _
    rw [splitlinesAux]
    · rw [hc, if_neg (by decide), ih fun d hd => h d (List.mem_cons_of_mem _ hd)]
      simp
    · intro cs hreturn
      rw [hreturn] at hc
      exact absurd hc (by decide)

theorem mem_intercalate {sep c : Char} {pieces : List (List Char)}
    (h : c ∈ [sep].intercalate pieces) : (∃ piece ∈ pieces, c ∈ piece) ∨ c = sep := by
  induction pieces with
  | nil => cases h
  | cons piece pieces ih =>
    by_cases hne : pieces = []
    · rw [hne, List.intercalate_singleton] at h
      exact .inl ⟨piece, List.mem_cons_self, h⟩
    · rw [List.intercalate_cons_of_ne_nil hne] at h
      simp only [List.mem_append, List.mem_singleton] at h
      obtain (hpiece | hsep) | hrest := h
      · exact .inl ⟨piece, List.mem_cons_self, hpiece⟩
      · exact .inr hsep
      · obtain ⟨other, hother, hc⟩ | hsep := ih hrest
        · exact .inl ⟨other, List.mem_cons_of_mem _ hother, hc⟩
        · exact .inr hsep

/-- A word up to its blank. -/
theorem wordsAux_word {word : List Char} (h : ∀ c ∈ word, isSpace c = false) (acc rest : List Char)
    (hne : acc ≠ [] ∨ word ≠ []) :
    wordsAux acc (word ++ ' ' :: rest) = (acc.reverse ++ word) :: wordsAux [] rest := by
  induction word generalizing acc with
  | nil =>
    have hacc : acc.isEmpty = false := by simpa using hne
    show wordsAux acc (' ' :: rest) = _
    rw [wordsAux, if_pos (by decide), hacc, List.append_nil]
    rfl
  | cons c word ih =>
    have hc := h c List.mem_cons_self
    show wordsAux acc (c :: (word ++ ' ' :: rest)) = _
    rw [wordsAux, hc, if_neg (by decide), ih (fun d hd => h d (List.mem_cons_of_mem _ hd))]
    · simp
    · exact .inl (List.cons_ne_nil _ _)

end SummitFlow.Str
