import SummitFlow.Spec.GuardTermination

/-!
# Substitutions at every depth

The expression of `_substitutions` finds bodies from left to right, and a body it finds is
judged like a command of its own, so that substitutions in it are found in turn.  It cannot see
a `$(…)` with parentheses in its body; the innermost ones are found wherever they stand, as long
as the backticks before them pair.
-/

namespace SummitFlow.Guard

/-! ## Matches -/

/-- The two kinds of substitution. -/
inductive Marks where
  | dollar | ticks
deriving DecidableEq, Repr

def Marks.opening : Marks → List Char
  | .dollar => ['$', '(']
  | .ticks => ['`']

def Marks.closing : Marks → List Char
  | .dollar => [')']
  | .ticks => ['`']

/-- The characters that the body of a match does not have. -/
def Marks.stops : Marks → List Char
  | .dollar => ['(', ')']
  | .ticks => ['`']

/-- A substitution as it is written. -/
def Marks.around (m : Marks) (body : List Char) : List Char := m.opening ++ (body ++ m.closing)

/-- No character of the body ends a match early. -/
def Marks.Plain (m : Marks) (body : List Char) : Prop := ∀ c ∈ body, c ∉ m.stops

theorem takeWhile_plain {ends body : List Char} (h : ∀ c ∈ body, c ∉ ends) {stop : Char}
    (hstop : stop ∈ ends) (rest : List Char) :
    (body ++ stop :: rest).takeWhile (· ∉ ends) = body ∧
      (body ++ stop :: rest).dropWhile (· ∉ ends) = stop :: rest := by
  induction body with
  | nil => simp [hstop]
  | cons c body ih =>
    rw [List.forall_mem_cons] at h
    simpa [h.1] using ih h.2

theorem bodyUntil_iff {stop : Char} {ends text body : List Char} (hstop : stop ∈ ends) :
    bodyUntil stop ends text = some body ↔
      ∃ rest, text = body ++ stop :: rest ∧ ∀ c ∈ body, c ∉ ends := by
  unfold bodyUntil
  constructor
  · intro h
    split at h
    · next hhead =>
      cases h
      obtain ⟨rest, hrest⟩ := List.head?_eq_some_iff.mp hhead
      refine ⟨rest, ?_, fun c hc => ?_⟩
      · rw [← hrest, List.takeWhile_append_dropWhile]
      · simpa using List.mem_takeWhile_imp hc
    · cases h
  · rintro ⟨rest, rfl, hbody⟩
    obtain ⟨htake, hdrop⟩ := takeWhile_plain hbody hstop rest
    rw [htake, hdrop, List.head?_cons, if_pos rfl]

/-- A match is a substitution with a plain body. -/
theorem substitutionAt_iff {text body : List Char} : substitutionAt text = some body ↔
    ∃ m : Marks, ∃ rest, text = m.around body ++ rest ∧ m.Plain body := by
  constructor
  · intro h
    unfold substitutionAt at h
    split at h
    · obtain ⟨rest, rfl, hbody⟩ := (bodyUntil_iff (by decide)).mp h
      exact ⟨.dollar, rest, by simp [Marks.around, Marks.opening, Marks.closing], hbody⟩
    · obtain ⟨rest, rfl, hbody⟩ := (bodyUntil_iff (by decide)).mp h
      exact ⟨.ticks, rest, by simp [Marks.around, Marks.opening, Marks.closing], hbody⟩
    · cases h
  · rintro ⟨m, rest, rfl, hbody⟩
    cases m with
    | dollar =>
      have hmatch : bodyUntil ')' ['(', ')'] (body ++ ')' :: rest) = some body :=
        (bodyUntil_iff (by decide)).mpr ⟨rest, rfl, hbody⟩
      simpa [Marks.around, Marks.opening, Marks.closing, Marks.stops, substitutionAt] using hmatch
    | ticks =>
      have hmatch : bodyUntil '`' ['`'] (body ++ '`' :: rest) = some body :=
        (bodyUntil_iff (by decide)).mpr ⟨rest, rfl, hbody⟩
      simpa [Marks.around, Marks.opening, Marks.closing, Marks.stops, substitutionAt] using hmatch

theorem substitutionMarks_around (m : Marks) (body rest : List Char) :
    body.length + substitutionMarks (m.around body ++ rest) = (m.around body).length := by
  cases m with
  | dollar =>
    show body.length + 3 = _
    simp [Marks.around, Marks.opening, Marks.closing]
  | ticks =>
    show body.length + 2 = _
    simp [Marks.around, Marks.opening, Marks.closing]

theorem around_ne_nil (m : Marks) (body : List Char) : m.around body ≠ [] := by
  cases m <;> simp [Marks.around, Marks.opening]

theorem scanSubstitutions_skip (skip : Nat) (text : List Char) :
    scanSubstitutions skip text = scanSubstitutions 0 (text.drop skip) := by
  induction text generalizing skip with
  | nil => cases skip <;> rfl
  | cons c cs ih =>
    cases skip with
    | zero => rfl
    | succ skip => exact ih skip

/-- A match is found, and the scan goes on after it. -/
theorem substitutions_around (m : Marks) {body : List Char} (hbody : m.Plain body)
    (rest : List Char) :
    substitutions (m.around body ++ rest) = body :: substitutions rest := by
  have hmatch : substitutionAt (m.around body ++ rest) = some body :=
    substitutionAt_iff.mpr ⟨m, rest, rfl, hbody⟩
  have hmarks := substitutionMarks_around m body rest
  cases htext : m.around body ++ rest with
  | nil => exact absurd (List.append_eq_nil_iff.mp htext).1 (around_ne_nil m body)
  | cons c cs =>
    rw [htext] at hmatch hmarks
    have hdrop : cs.drop (body.length + substitutionMarks (c :: cs) - 1) = rest := by
      have hlength := List.length_pos_of_ne_nil (around_ne_nil m body)
      obtain ⟨n, hn⟩ : ∃ n, (m.around body).length = n + 1 :=
        ⟨(m.around body).length - 1, by omega⟩
      rw [hmarks, hn, Nat.add_sub_cancel]
      have hwhole : (c :: cs).drop (n + 1) = rest := by
        rw [← htext, ← hn, List.drop_left]
      exact hwhole
    show scanSubstitutions 0 (c :: cs) = _
    rw [scanSubstitutions, hmatch]
    dsimp only
    rw [scanSubstitutions_skip, hdrop]
    rfl

/-- Where no match starts the scan goes on with the next character. -/
theorem substitutions_cons {c : Char} {cs : List Char} (h : substitutionAt (c :: cs) = none) :
    substitutions (c :: cs) = substitutions cs := by
  show scanSubstitutions 0 (c :: cs) = _
  rw [scanSubstitutions, h]
  rfl

/-! ## Where the scan comes to -/

/-- Every `$(…)` without parentheses in it holds the pairs of its backticks. -/
def TicksPaired (text : List Char) : Prop :=
  ∀ before body rest, text = before ++ (Marks.dollar.around body ++ rest) →
    Marks.dollar.Plain body → body.count '`' % 2 = 0

theorem TicksPaired.of_append {before text : List Char} (h : TicksPaired (before ++ text)) :
    TicksPaired text := by
  rintro more body rest rfl hbody
  exact h (before ++ more) body rest (List.append_assoc _ _ _).symm hbody

/-- A match spans the place between two parts of a text. -/
structure Spans (before rest body : List Char) (m : Marks) : Prop where
  plain : m.Plain body
  mem : body ∈ substitutions (before ++ rest)
  spans : ∃ first last q after, before = first ++ last ∧ rest = q ++ after ∧
    m.around body = last ++ q ∧ last ≠ [] ∧ q ≠ [] ∧
    -- the matches before it pair their backticks
    (TicksPaired (before ++ rest) → before.count '`' % 2 = 0 → first.count '`' % 2 = 0)

theorem count_around (m : Marks) {body : List Char} (hbody : m.Plain body)
    (hpaired : m = .dollar → body.count '`' % 2 = 0) : (m.around body).count '`' % 2 = 0 := by
  cases m with
  | dollar => simpa [Marks.around, Marks.opening, Marks.closing] using hpaired rfl
  | ticks =>
    have hnone : body.count '`' = 0 :=
      List.count_eq_zero.mpr fun hmem => hbody '`' hmem (by decide)
    simp [Marks.around, Marks.opening, Marks.closing, hnone]

/-- A backtick that starts no match has no backtick after it. -/
theorem not_mem_of_no_match {cs : List Char} (h : substitutionAt ('`' :: cs) = none) :
    '`' ∉ cs := by
  intro hmem
  obtain ⟨body, rest, rfl, hbody⟩ := List.eq_append_cons_of_mem hmem
  have hmatch : substitutionAt ('`' :: (body ++ '`' :: rest)) = some body := by
    apply substitutionAt_iff.mpr
    refine ⟨.ticks, rest, by simp [Marks.around, Marks.opening, Marks.closing], ?_⟩
    intro c hc hstop
    rw [List.mem_singleton.mp hstop] at hc
    exact hbody hc
  rw [h] at hmatch
  cases hmatch

/-- The scan starts anew at a place of the text, or a match spans that place. -/
theorem scan_reaches (before rest : List Char) :
    (∀ body ∈ substitutions rest, body ∈ substitutions (before ++ rest)) ∨
      ∃ body m, Spans before rest body m := by
  induction hn : before.length using Nat.strong_induction_on generalizing before with
  | _ n ih =>
    cases before with
    | nil => exact .inl fun _ hbody => hbody
    | cons c cs =>
      rw [List.length_cons] at hn
      cases hmatch : substitutionAt (c :: (cs ++ rest)) with
      | none =>
        have hscan : substitutions (c :: cs ++ rest) = substitutions (cs ++ rest) :=
          substitutions_cons hmatch
        cases ih cs.length (by omega) cs rfl with
        | inl h =>
          apply Or.inl
          intro body hbody
          rw [hscan]
          exact h body hbody
        | inr h =>
          obtain ⟨body, m, hplain, hmem, first, last, q, after, hbefore, hrest, haround, hlast, hq,
            hpaired⟩ := h
          refine .inr ⟨body, m, hplain, by rw [hscan]; exact hmem, c :: first, last, q, after,
            by rw [hbefore, List.cons_append], hrest, haround, hlast, hq, fun htext heven => ?_⟩
          by_cases hc : c = '`'
          · rw [hc] at hmatch heven
            have hnone : cs.count '`' = 0 :=
              List.count_eq_zero.mpr fun hmem => not_mem_of_no_match hmatch (List.mem_append_left _ hmem)
            rw [List.count_cons_self] at heven
            omega
          · have htail : TicksPaired (cs ++ rest) :=
              TicksPaired.of_append (show TicksPaired ([c] ++ (cs ++ rest)) from htext)
            rw [List.count_cons_of_ne hc] at heven ⊢
            exact hpaired htail heven
      | some body =>
        obtain ⟨m, after, heq, hplain⟩ := substitutionAt_iff.mp hmatch
        have hscan : substitutions (c :: cs ++ rest) = body :: substitutions after := by
          rw [List.cons_append, heq, substitutions_around m hplain]
        rcases List.append_eq_append_iff.mp (show (c :: cs) ++ rest = m.around body ++ after from heq)
          with ⟨q, haround, hrest⟩ | ⟨tail, hbefore, hafter⟩
        · by_cases hq : q = []
          · -- the match ends at the place
            subst hq
            apply Or.inl
            intro body' hbody'
            rw [hscan, show after = rest from hrest.symm]
            exact List.mem_cons_of_mem _ hbody'
          · exact .inr ⟨body, m, hplain, by rw [hscan]; exact List.mem_cons_self, [], c :: cs, q, after,
              rfl, hrest, haround, by simp, hq, fun _ _ => rfl⟩
        · have hlength : tail.length < n := by
            have hpos := List.length_pos_of_ne_nil (around_ne_nil m body)
            have htotal := congrArg List.length hbefore
            rw [List.length_cons, List.length_append] at htotal
            omega
          cases ih tail.length hlength tail rfl with
          | inl h =>
            apply Or.inl
            intro body' hbody'
            rw [hscan, hafter]
            exact List.mem_cons_of_mem _ (h body' hbody')
          | inr h =>
            obtain ⟨body', m', hplain', hmem, first, last, q, after', htail, hrest, haround, hlast, hq,
              hpaired⟩ := h
            refine .inr ⟨body', m', hplain', ?_, m.around body ++ first, last, q, after', ?_, hrest, haround,
              hlast, hq, fun htext heven => ?_⟩
            · rw [hscan, hafter]
              exact List.mem_cons_of_mem _ hmem
            · rw [hbefore, htail, List.append_assoc]
            · rw [hbefore, List.append_assoc] at htext
              have hmarks : (m.around body).count '`' % 2 = 0 := by
                apply count_around m hplain
                rintro rfl
                exact htext [] body (tail ++ rest) rfl hplain
              rw [hbefore, List.count_append] at heven
              have hfirst := hpaired htext.of_append (by omega)
              rw [List.count_append]
              omega

/-! ## Innermost substitutions -/

/-- A body that is found in the text, or in a body found in it, at any depth. -/
inductive Within : List Char → List Char → Prop
  | found {text body : List Char} (h : body ∈ substitutions text) : Within text body
  | deeper {text outer body : List Char} (h : outer ∈ substitutions text)
      (rest : Within outer body) : Within text body

/-- A substitution with no other one in its body: `$(…)` without parentheses and backticks in
    it, or any plain one with an even number of backticks before it in a text whose `$(…)` pair
    their backticks. -/
inductive Innermost (text body : List Char) : Prop
  | bare (before after : List Char) (htext : text = before ++ (Marks.dollar.around body ++ after))
      (hplain : Marks.dollar.Plain body) (hticks : '`' ∉ body)
  | paired (m : Marks) (before after : List Char)
      (htext : text = before ++ (m.around body ++ after)) (hplain : m.Plain body)
      (hpaired : TicksPaired text) (hbefore : before.count '`' % 2 = 0)

theorem around_dollar (body after : List Char) :
    Marks.dollar.around body ++ after = '$' :: '(' :: (body ++ ')' :: after) := by
  simp [Marks.around, Marks.opening, Marks.closing]

theorem around_ticks (body after : List Char) :
    Marks.ticks.around body ++ after = '`' :: (body ++ '`' :: after) := by
  simp [Marks.around, Marks.opening, Marks.closing]

theorem append_singleton_split {x : Char} {body start q : List Char}
    (h : body ++ [x] = start ++ q) (hq : q ≠ []) : ∃ stop, body = start ++ stop ∧ q = stop ++ [x] := by
  rw [← List.dropLast_append_getLast hq, ← List.append_assoc] at h
  obtain ⟨hbody, hlast⟩ := List.append_inj' h rfl
  refine ⟨q.dropLast, hbody, ?_⟩
  rw [hlast, List.dropLast_append_getLast hq]

/-- A `$(…)` that spans a place starts before it and ends in what follows. -/
theorem spans_dollar {body last q : List Char} (h : Marks.dollar.around body = last ++ q)
    (hlast : last ≠ []) (hq : q ≠ []) (hhead : q.head? ≠ some '(') :
    ∃ start stop, body = start ++ stop ∧ last = '$' :: '(' :: start ∧ q = stop ++ [')'] := by
  match last, hlast with
  | [_], _ =>
    obtain ⟨-, hrest⟩ := List.cons.inj h
    have hq' : q = '(' :: (body ++ [')']) := hrest.symm
    rw [hq'] at hhead
    exact absurd rfl hhead
  | c :: d :: start, _ =>
    obtain ⟨hc, hrest⟩ := List.cons.inj h
    obtain ⟨hd, hbody⟩ := List.cons.inj hrest
    have hsplit : body ++ [')'] = start ++ q := hbody
    obtain ⟨stop, hstart, hstop⟩ := append_singleton_split hsplit hq
    exact ⟨start, stop, hstart, by rw [hc, hd], hstop⟩

/-- A pair of backticks that spans a place. -/
theorem spans_ticks {body last q : List Char} (h : Marks.ticks.around body = last ++ q)
    (hlast : last ≠ []) (hq : q ≠ []) :
    ∃ start stop, body = start ++ stop ∧ last = '`' :: start ∧ q = stop ++ ['`'] := by
  match last, hlast with
  | c :: start, _ =>
    obtain ⟨hc, hbody⟩ := List.cons.inj h
    have hsplit : body ++ ['`'] = start ++ q := hbody
    obtain ⟨stop, hstart, hstop⟩ := append_singleton_split hsplit hq
    exact ⟨start, stop, hstart, by rw [hc], hstop⟩

/-- What stands before the first of a character belongs to the text before any of them. -/
theorem append_of_not_mem {c : Char} {xs ys us vs : List Char} (h : xs ++ ys = us ++ c :: vs)
    (hc : c ∉ xs) : ∃ more, us = xs ++ more := by
  rcases List.append_eq_append_iff.mp h with ⟨more, hus, -⟩ | ⟨more, hxs, hrest⟩
  · exact ⟨more, hus⟩
  · cases more with
    | nil => exact ⟨[], by rw [hxs, List.append_nil, List.append_nil]⟩
    | cons d more =>
      obtain ⟨rfl, -⟩ := List.cons.inj hrest
      exact absurd (hxs ▸ List.mem_append_right us List.mem_cons_self) hc

/-- A `$(…)` that spans the place before another `$(…)` would have a parenthesis in its body. -/
theorem not_spans_dollar {before body rest after : List Char}
    (h : Spans before rest body .dollar) (hrest : rest = '$' :: '(' :: after) : False := by
  obtain ⟨hplain, -, first, last, q, tail, -, hsplit, haround, hlast, hq, -⟩ := h
  have hhead : q.head? ≠ some '(' := by
    intro hparen
    obtain ⟨more, rfl⟩ := List.head?_eq_some_iff.mp hparen
    rw [hsplit] at hrest
    cases hrest
  obtain ⟨start, stop, rfl, -, rfl⟩ := spans_dollar haround hlast hq hhead
  rw [hrest, List.append_assoc] at hsplit
  match stop, hsplit with
  | [], hsplit => cases hsplit
  | [_], hsplit => cases hsplit
  | _ :: d :: more, hsplit =>
    obtain ⟨-, hnext⟩ := List.cons.inj hsplit
    obtain ⟨hd, -⟩ := List.cons.inj hnext
    exact hplain d (by simp) (hd ▸ by decide)

theorem Spans.length {before rest body : List Char} {m : Marks} (h : Spans before rest body m) :
    body.length < (before ++ rest).length := by
  have := length_scanSubstitutions h.mem
  omega

/-- A `$(…)` without parentheses and backticks in it is found wherever it stands. -/
theorem within_bare {body : List Char} (hplain : Marks.dollar.Plain body) (hticks : '`' ∉ body)
    (before after : List Char) : Within (before ++ (Marks.dollar.around body ++ after)) body := by
  induction hn : (before ++ (Marks.dollar.around body ++ after)).length using
    Nat.strong_induction_on generalizing before after with
  | _ n ih =>
    cases scan_reaches before (Marks.dollar.around body ++ after) with
    | inl h =>
      apply Within.found
      apply h
      rw [substitutions_around _ hplain]
      exact List.mem_cons_self
    | inr h =>
      obtain ⟨outer, m, hspans⟩ := h
      cases m with
      | dollar => exact (not_spans_dollar hspans (around_dollar body after)).elim
      | ticks =>
        -- the backticks have the whole substitution between them
        obtain ⟨first, last, q, tail, -, hsplit, haround, hlast, hq, -⟩ := hspans.spans
        obtain ⟨start, stop, houter, -, rfl⟩ := spans_ticks haround hlast hq
        have hbare : '`' ∉ Marks.dollar.around body := by
          simpa [Marks.around, Marks.opening, Marks.closing] using hticks
        rw [List.append_assoc] at hsplit
        obtain ⟨more, rfl⟩ := append_of_not_mem hsplit hbare
        have hlength := hspans.length
        rw [houter] at hlength
        apply Within.deeper hspans.mem
        rw [houter]
        exact ih _ (by omega) start more rfl

/-- A text without parentheses has no `$(…)`. -/
theorem ticksPaired_of_plain {text : List Char} (h : Marks.dollar.Plain text) : TicksPaired text := by
  rintro before body rest rfl -
  rw [around_dollar] at h
  exact absurd (by decide) (h '(' (by simp))

/-- A plain substitution is found when the backticks before it pair. -/
theorem within_paired {m : Marks} {body : List Char} (hplain : m.Plain body)
    (before after : List Char) (hpaired : TicksPaired (before ++ (m.around body ++ after)))
    (hbefore : before.count '`' % 2 = 0) : Within (before ++ (m.around body ++ after)) body := by
  induction hn : (before ++ (m.around body ++ after)).length using
    Nat.strong_induction_on generalizing before after with
  | _ n ih =>
    cases scan_reaches before (m.around body ++ after) with
    | inl h =>
      apply Within.found
      apply h
      rw [substitutions_around _ hplain]
      exact List.mem_cons_self
    | inr h =>
      obtain ⟨outer, kind, hspans⟩ := h
      obtain ⟨first, last, q, tail, hfirst, hsplit, haround, hlast, hq, heven⟩ := hspans.spans
      have hfirstEven := heven hpaired hbefore
      rw [hfirst, List.count_append] at hbefore
      cases kind with
      | ticks =>
        -- the backtick that opens the match would be odd
        obtain ⟨start, stop, rfl, rfl, -⟩ := spans_ticks haround hlast hq
        have hstart : start.count '`' = 0 := by
          apply List.count_eq_zero.mpr
          intro hmem
          exact hspans.plain '`' (List.mem_append_left _ hmem) (by decide)
        rw [List.count_cons_self] at hbefore
        omega
      | dollar =>
        cases m with
        | dollar => exact (not_spans_dollar hspans (around_dollar body after)).elim
        | ticks =>
          rw [around_ticks] at hsplit
          have hhead : q.head? ≠ some '(' := by
            intro hparen
            obtain ⟨more, rfl⟩ := List.head?_eq_some_iff.mp hparen
            cases hsplit
          obtain ⟨start, stop, rfl, rfl, rfl⟩ := spans_dollar haround hlast hq hhead
          have houter : (start ++ stop).count '`' % 2 = 0 := by
            apply hpaired first (start ++ stop) tail ?_ hspans.plain
            rw [around_ticks, hsplit, hfirst, around_dollar]
            simp
          have hstart : ('$' :: '(' :: start).count '`' = start.count '`' := by simp
          rw [hstart] at hbefore
          rw [List.count_append] at houter
          rw [List.append_assoc] at hsplit
          match stop, hsplit, houter, hspans with
          | [], hsplit, _, _ => cases hsplit
          | c :: stop, hsplit, houter, hspans =>
            obtain ⟨rfl, hrest⟩ := List.cons.inj hsplit
            rw [List.count_cons_self] at houter
            -- the second backtick is in the match as well
            have hmem : '`' ∈ stop := List.count_pos_iff.mp (by omega)
            rcases List.append_eq_append_iff.mp hrest with ⟨more, hstop, hafter⟩ | ⟨more, hbody, -⟩
            · cases more with
              | nil => cases hafter
              | cons d more =>
                obtain ⟨rfl, -⟩ := List.cons.inj hafter
                have htext : start ++ '`' :: stop = start ++ (Marks.ticks.around body ++ more) := by
                  rw [around_ticks, hstop]
                have hlength := hspans.length
                have hinner := ticksPaired_of_plain hspans.plain
                have hmemOuter := hspans.mem
                rw [htext] at hlength hinner hmemOuter
                apply Within.deeper hmemOuter
                exact ih _ (by omega) start more hinner (by omega) rfl
            · exact absurd (by decide) (hplain '`' (hbody ▸ List.mem_append_left _ hmem))

theorem Innermost.within {text body : List Char} (h : Innermost text body) : Within text body := by
  cases h with
  | bare before after htext hplain hticks =>
    rw [htext]
    exact within_bare hplain hticks before after
  | paired m before after htext hplain hpaired hbefore =>
    subst htext
    exact within_paired hplain before after hpaired hbefore

/-! ## Texts without here-documents -/

/-- No line of the text announces a here-document. -/
def NoHeredoc (host : Host) (text : List Char) : Prop :=
  ∀ line ∈ Str.splitOnChar '\n' text, scanHeredocs host 0 0 none line = []

theorem foldl_line_of_noHeredoc (host : Host) {lines : List (List Char)}
    (h : ∀ line ∈ lines, scanHeredocs host 0 0 none line = []) (kept : List (List Char)) :
    lines.foldl (HeredocState.line host) { HeredocState.initial with kept := kept } =
      { HeredocState.initial with kept := kept ++ lines } := by
  induction lines generalizing kept with
  | nil => rw [List.append_nil]; rfl
  | cons line lines ih =>
    rw [List.forall_mem_cons] at h
    have hline : HeredocState.line host { HeredocState.initial with kept := kept } line =
        { HeredocState.initial with kept := kept ++ [line] } := by
      unfold HeredocState.line
      simp only [HeredocState.initial, announced, h.1]
    rw [List.foldl_cons, hline, ih h.2, List.append_assoc]
    rfl

/-- Such a text is read as it stands. -/
theorem nestedTexts_of_noHeredoc {host : Host} {text : String} (h : NoHeredoc host text.toList) :
    nestedTexts host text = (substitutions text.toList).map String.ofList := by
  have hread : readLines host text.toList =
      { HeredocState.initial with kept := Str.splitOnChar '\n' text.toList } :=
    foldl_line_of_noHeredoc host h []
  have hkept : keptText host text.toList = text.toList := by
    rw [keptText, hread]
    exact Str.intercalate_splitOnChar '\n' text.toList
  have hbodies : (readLines host text.toList).finish.shellBodies = [] := by
    rw [hread]
    rfl
  rw [nestedTexts, splitHeredocs_eq]
  dsimp only
  rw [hkept, hbodies, List.nil_append]

theorem quoted_append {mark : Char} {text : List Char} {found : List Char × Nat × Bool}
    (h : delimiterAt.quoted mark text = some found) (more : List Char) :
    (delimiterAt.quoted mark (text ++ more)).isSome = true := by
  unfold delimiterAt.quoted at h ⊢
  dsimp only at h ⊢
  split at h
  · next hword =>
    obtain ⟨hword, hrest⟩ := hword
    have hdrop : (text ++ more).dropWhile (· != mark) = text.dropWhile (· != mark) ++ more := by
      rw [List.dropWhile_append, if_neg (by simpa using hrest)]
    have htake : (text ++ more).takeWhile (· != mark) ≠ [] := by
      intro hnil
      apply hword
      rw [List.takeWhile_append] at hnil
      split at hnil
      · rw [(List.append_eq_nil_iff.mp hnil).1]
        rfl
      · exact hnil
    rw [if_pos ⟨htake, by simp [hdrop, hrest]⟩]
    rfl
  · cases h

theorem bareWord_append {host : Host} {text word : List Char}
    (h : delimiterAt.bareWord host text = some word) (more : List Char) :
    (delimiterAt.bareWord host (text ++ more)).isSome = true := by
  cases text with
  | nil => cases h
  | cons c cs =>
    rw [delimiterAt.bareWord] at h
    rw [List.cons_append, delimiterAt.bareWord]
    split at h
    · next hstart =>
      rw [if_pos hstart]
      rfl
    · cases h

theorem delimiterAt_append (host : Host) {text : List Char} {found : List Char × Nat × Bool}
    (h : delimiterAt host text = some found) (more : List Char) :
    (delimiterAt host (text ++ more)).isSome = true := by
  unfold delimiterAt at h
  split at h
  · exact quoted_append h more
  · exact quoted_append h more
  · obtain ⟨word, hword, -⟩ := Option.map_eq_some_iff.mp h
    show ((delimiterAt.bareWord host _).map _).isSome = true
    rw [Option.isSome_map]
    exact bareWord_append hword more
  · next hsingle hdouble hescape =>
    obtain ⟨word, hword, -⟩ := Option.map_eq_some_iff.mp h
    cases text with
    | nil => cases hword
    | cons c cs =>
      have hdelimiter : delimiterAt host (c :: cs ++ more) =
          (delimiterAt.bareWord host (c :: cs ++ more)).map fun word => (word, word.length, true) := by
        rw [List.cons_append]
        unfold delimiterAt
        split
        · next heq => exact absurd (by rw [(List.cons.inj heq).1]) (hsingle cs)
        · next heq => exact absurd (by rw [(List.cons.inj heq).1]) (hdouble cs)
        · next heq => exact absurd (by rw [(List.cons.inj heq).1]) (hescape cs)
        · rfl
      rw [hdelimiter, Option.isSome_map]
      exact bareWord_append hword more

theorem heredocAt_append (host : Host) {text : List Char} {found : Bool × List Char × Bool × Nat}
    (h : heredocAt host text = some found) (more : List Char) :
    (heredocAt host (text ++ more)).isSome = true := by
  unfold heredocAt at h
  split at h
  · next rest =>
    dsimp only at h
    obtain ⟨⟨word, length, bare⟩, hdelimiter, -⟩ := Option.map_eq_some_iff.mp h
    have hnil : delimiterAt host [] = none := rfl
    have hrest : rest ≠ [] := by
      rintro rfl
      rw [show ([] : List Char).head? = none from rfl] at hdelimiter
      simp [hnil] at hdelimiter
    have hhead : (rest ++ more).head? = rest.head? := List.head?_append_of_ne_nil _ hrest
    have hdash : (if rest.head? = some '-' then (rest ++ more).drop 1 else rest ++ more) =
        (if rest.head? = some '-' then rest.drop 1 else rest) ++ more := by
      split
      · rw [List.drop_append_of_le_length (List.length_pos_of_ne_nil hrest)]
      · rfl
    rw [show '<' :: '<' :: rest ++ more = '<' :: '<' :: (rest ++ more) from rfl]
    simp only [heredocAt, Option.isSome_map]
    rw [hhead, hdash]
    generalize (if rest.head? = some '-' then rest.drop 1 else rest) = tail at hdelimiter ⊢
    -- the blanks end before the delimiter
    have hshort : (tail.takeWhile fun c => c == ' ' || c == '\t').length ≠ tail.length := by
      intro hall
      rw [hall, List.drop_length, hnil] at hdelimiter
      cases hdelimiter
    have hle := (List.takeWhile_prefix (fun c => c == ' ' || c == '\t') (l := tail)).length_le
    rw [List.takeWhile_append, if_neg hshort, List.drop_append_of_le_length hle]
    exact delimiterAt_append host hdelimiter more
  · cases h

theorem scanHeredocs_append (host : Host) {line more : List Char} {before : Option Char}
    {index : Nat} (h : scanHeredocs host 0 index before (line ++ more) = []) (index' : Nat) :
    scanHeredocs host 0 index' before line = [] := by
  induction line generalizing before index index' with
  | nil => rfl
  | cons c cs ih =>
    rw [List.cons_append, scanHeredocs] at h
    rw [scanHeredocs]
    split at h
    · next hbefore =>
      rw [if_pos hbefore]
      exact ih h _
    · next hbefore =>
      rw [if_neg hbefore]
      split at h
      · cases h
      · next hnone =>
        cases hfound : heredocAt host (c :: cs) with
        | none => exact ih h _
        | some found =>
          have hsome := heredocAt_append host hfound more
          rw [List.cons_append, hnone] at hsome
          cases hsome

/-- After a character that is no arrow and in no word, a line is read as if it began there. -/
theorem scanHeredocs_after (host : Host) {line before : List Char} {c : Char}
    (hc : (c == '<' || isWord host c) = false) {last : Option Char} {index : Nat}
    (h : scanHeredocs host 0 index last (before ++ c :: line) = []) :
    scanHeredocs host 0 0 none line = [] := by
  induction before generalizing last index with
  | nil =>
    rw [List.nil_append, scanHeredocs] at h
    have hrest : ∃ index, scanHeredocs host 0 index (some c) line = [] := by
      split at h
      · exact ⟨_, h⟩
      · split at h
        · cases h
        · exact ⟨_, h⟩
    obtain ⟨index, hrest⟩ := hrest
    have hzero : scanHeredocs host 0 0 (some c) line = [] :=
      scanHeredocs_append host (by rw [List.append_nil]; exact hrest) 0
    cases line with
    | nil => rfl
    | cons d ds =>
      rw [scanHeredocs] at hzero ⊢
      rw [Option.any_some, hc] at hzero
      exact hzero
  | cons d before ih =>
    rw [List.cons_append, scanHeredocs] at h
    split at h
    · exact ih h
    · split at h
      · cases h
      · exact ih h

/-- Texts next to each other share the line where they meet. -/
theorem splitOnChar_meet (sep : Char) (xs ys : List Char) :
    ∃ lines last first rest, Str.splitOnChar sep xs = lines ++ [last] ∧
      Str.splitOnChar sep ys = first :: rest ∧
      Str.splitOnChar sep (xs ++ ys) = lines ++ (last ++ first) :: rest := by
  cases hys : Str.splitOnChar sep ys with
  | nil => exact absurd hys (Str.splitOnChar_ne_nil sep ys)
  | cons first rest =>
    induction xs with
    | nil => exact ⟨[], [], first, rest, rfl, rfl, hys⟩
    | cons c cs ih =>
      obtain ⟨lines, last, first', rest', hcs, hfirst, happend⟩ := ih
      obtain ⟨rfl, rfl⟩ := List.cons.inj hfirst
      rw [List.cons_append, Str.splitOnChar, Str.splitOnChar, hcs, happend]
      cases lines with
      | nil =>
        dsimp only [List.nil_append]
        split
        · exact ⟨[[]], last, first, rest, rfl, rfl, rfl⟩
        · exact ⟨[], c :: last, first, rest, rfl, rfl, rfl⟩
      | cons line lines =>
        dsimp only [List.cons_append]
        split
        · exact ⟨[] :: line :: lines, last, first, rest, rfl, rfl, rfl⟩
        · exact ⟨(c :: line) :: lines, last, first, rest, rfl, rfl, rfl⟩

theorem NoHeredoc.left {host : Host} {text more : List Char} (h : NoHeredoc host (text ++ more)) :
    NoHeredoc host text := by
  obtain ⟨lines, last, first, rest, htext, -, happend⟩ := splitOnChar_meet '\n' text more
  intro line hline
  unfold NoHeredoc at h
  rw [happend] at h
  rw [htext] at hline
  rcases List.mem_append.mp hline with hmem | hmem
  · exact h line (List.mem_append_left _ hmem)
  · rw [List.mem_singleton.mp hmem]
    exact scanHeredocs_append host (h _ (List.mem_append_right _ List.mem_cons_self)) 0

theorem NoHeredoc.right {host : Host} {before text : List Char} {c : Char} (hline : c ≠ '\n')
    (hc : (c == '<' || isWord host c) = false) (h : NoHeredoc host (before ++ c :: text)) :
    NoHeredoc host text := by
  obtain ⟨lines, last, first, rest, -, hmeet, happend⟩ := splitOnChar_meet '\n' before (c :: text)
  unfold NoHeredoc at h
  rw [happend] at h
  rw [Str.splitOnChar] at hmeet
  cases htext : Str.splitOnChar '\n' text with
  | nil => exact absurd htext (Str.splitOnChar_ne_nil _ _)
  | cons line more =>
    rw [htext] at hmeet
    dsimp only at hmeet
    rw [if_neg hline] at hmeet
    obtain ⟨rfl, rfl⟩ := List.cons.inj hmeet
    intro l hl
    rw [htext] at hl
    rcases List.mem_cons.mp hl with rfl | hmem
    · exact scanHeredocs_after host hc (h _ (List.mem_append_right _ List.mem_cons_self))
    · exact h l (List.mem_append_right _ (List.mem_cons_of_mem _ hmem))

/-- What the scan finds is a substitution of the text. -/
theorem exists_around_of_mem {text body : List Char} (h : body ∈ substitutions text) :
    ∃ (m : Marks) (before after : List Char), text = before ++ (m.around body ++ after) := by
  induction hn : text.length using Nat.strong_induction_on generalizing text with
  | _ n ih =>
    cases text with
    | nil => cases h
    | cons c cs =>
      rw [List.length_cons] at hn
      cases hmatch : substitutionAt (c :: cs) with
      | none =>
        rw [substitutions_cons hmatch] at h
        obtain ⟨m, before, after, rfl⟩ := ih cs.length (by omega) h rfl
        exact ⟨m, c :: before, after, rfl⟩
      | some found =>
        obtain ⟨m, rest, htext, hplain⟩ := substitutionAt_iff.mp hmatch
        rw [htext, substitutions_around m hplain] at h
        rw [htext]
        rcases List.mem_cons.mp h with rfl | hrest
        · exact ⟨m, [], rest, rfl⟩
        · have hlength := congrArg List.length htext
          have hpos := List.length_pos_of_ne_nil (around_ne_nil m found)
          rw [List.length_cons, List.length_append] at hlength
          obtain ⟨m', before, after, rfl⟩ := ih rest.length (by omega) hrest rfl
          exact ⟨m', m.around found ++ before, after, (List.append_assoc _ _ _).symm⟩

theorem NoHeredoc.body {host : Host} {text body : List Char} (h : NoHeredoc host text)
    (hbody : body ∈ substitutions text) : NoHeredoc host body := by
  obtain ⟨m, before, after, rfl⟩ := exists_around_of_mem hbody
  cases m with
  | dollar =>
    rw [around_dollar] at h
    have hparen : NoHeredoc host ((before ++ ['$']) ++ '(' :: (body ++ ')' :: after)) := by
      rw [List.append_assoc]
      exact h
    exact (hparen.right (by decide) rfl).left
  | ticks =>
    rw [around_ticks] at h
    exact (h.right (by decide) rfl).left

/-! ## Evaluation -/

/-- Normalising the directory and expanding it again leaves it as it is. -/
def Settled (host : Host) (cwd : Option String) : Prop :=
  workingDirectory host (some (workingDirectory host cwd)) = workingDirectory host cwd

section

variable {host : Host} {text nested : String}

theorem irreversible_of_nested (h : nested ∈ nestedTexts host text) {cwd : Option String}
    (hcwd : Settled host cwd)
    (hblocked : (evaluateIrreversibleCommand host nested cwd).blocked = true) :
    (evaluateIrreversibleCommand host text cwd).blocked = true := by
  have hnested : evaluateIrreversibleCommand host nested (some (workingDirectory host cwd)) =
      evaluateIrreversibleCommand host nested cwd := by
    rw [evaluateIrreversibleCommand, evaluateIrreversibleCommand, hcwd]
  rw [evaluateIrreversibleCommand_eq, judge_blocked_iff]
  exact .inl ⟨nested, h, hnested ▸ hblocked⟩

theorem publication_of_nested (h : nested ∈ nestedTexts host text)
    (hblocked : (evaluatePublicationCommand host nested).blocked = true) :
    (evaluatePublicationCommand host text).blocked = true := by
  rw [evaluatePublicationCommand_eq, judgePublication_eq, judgeNested]
  split
  · rfl
  · cases hfind : ((nestedTexts host text).map (evaluatePublicationCommand host)).find?
        Decision.blocked with
    | some decision => exact List.find?_some hfind
    | none =>
      rw [List.find?_eq_none] at hfind
      exact absurd hblocked (hfind _ (List.mem_map_of_mem h))

end

/-- A body at any depth that is blocked blocks the text. -/
theorem Within.blocked {host : Host} {text body : List Char} (h : Within text body)
    (htext : NoHeredoc host text) :
    (∀ cwd, Settled host cwd →
      (evaluateIrreversibleCommand host (String.ofList body) cwd).blocked = true →
      (evaluateIrreversibleCommand host (String.ofList text) cwd).blocked = true) ∧
    ((evaluatePublicationCommand host (String.ofList body)).blocked = true →
      (evaluatePublicationCommand host (String.ofList text)).blocked = true) := by
  have hnested : ∀ {text found : List Char}, NoHeredoc host text → found ∈ substitutions text →
      String.ofList found ∈ nestedTexts host (String.ofList text) := by
    intro text found htext hfound
    have hlist : NoHeredoc host (String.ofList text).toList := by rwa [String.toList_ofList]
    rw [nestedTexts_of_noHeredoc hlist, String.toList_ofList]
    exact List.mem_map_of_mem hfound
  induction h with
  | found hfound =>
    have hmem := hnested htext hfound
    exact ⟨fun _ hcwd => irreversible_of_nested hmem hcwd, publication_of_nested hmem⟩
  | deeper houter _ ih =>
    have hmem := hnested htext houter
    obtain ⟨hirreversible, hpublication⟩ := ih (htext.body houter)
    constructor
    · intro cwd hcwd hblocked
      exact irreversible_of_nested hmem hcwd (hirreversible cwd hcwd hblocked)
    · intro hblocked
      exact publication_of_nested hmem (hpublication hblocked)

end SummitFlow.Guard
