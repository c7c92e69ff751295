import Mathlib.Data.List.Basic

/-!
# Regular expressions

Expressions over an alphabet, with word boundaries.  A match is a part of a text between the
character before it and the text after it; `ends` computes where the matches from a place end.
-/

namespace SummitFlow

inductive Regex (α : Type) where
  | eps
  | one (p : α → Bool)
  | seq (r s : Regex α)
  | alt (r s : Regex α)
  | star (r : Regex α)
  /-- a place where a word begins or ends -/
  | boundary (word : α → Bool)

namespace Regex

variable {α : Type}

/-- The character before what follows `m`. -/
def lastOr (prev : Option α) (m : List α) : Option α := m.getLast?.or prev

@[simp] theorem lastOr_nil (prev : Option α) : lastOr prev [] = prev := rfl

@[simp] theorem lastOr_singleton (prev : Option α) (c : α) : lastOr prev [c] = some c := rfl

theorem lastOr_append (prev : Option α) (m m' : List α) :
    lastOr prev (m ++ m') = lastOr (lastOr prev m) m' := by
  unfold lastOr
  rw [List.getLast?_append, Option.or_assoc]

/-- The expression matches `m` between the character `prev` and the text `after`. -/
inductive Match : Regex α → Option α → List α → List α → Prop
  | eps {prev : Option α} {after : List α} : Match .eps prev [] after
  | one {p : α → Bool} {c : α} {prev : Option α} {after : List α} (h : p c = true) :
      Match (.one p) prev [c] after
  | seq {r s : Regex α} {prev : Option α} {m m' after : List α} (h : Match r prev m (m' ++ after))
      (h' : Match s (lastOr prev m) m' after) : Match (.seq r s) prev (m ++ m') after
  | left {r s : Regex α} {prev : Option α} {m after : List α} (h : Match r prev m after) : Match (.alt r s) prev m after
  | right {r s : Regex α} {prev : Option α} {m after : List α} (h : Match s prev m after) : Match (.alt r s) prev m after
  | done {r : Regex α} {prev : Option α} {after : List α} : Match (.star r) prev [] after
  | step {r : Regex α} {prev : Option α} {m m' after : List α} (h : Match r prev m (m' ++ after))
      (h' : Match (.star r) (lastOr prev m) m' after) : Match (.star r) prev (m ++ m') after
  | boundary {word : α → Bool} {prev : Option α} {after : List α}
      (h : prev.any word ≠ after.head?.any word) :
      Match (.boundary word) prev [] after

/-! ## What the operators match -/

variable {r s : Regex α} {p : α → Bool} {prev : Option α} {m after : List α}

theorem match_eps : Match .eps prev m after ↔ m = [] := by
  constructor
  · intro h
    cases h
    rfl
  · rintro rfl
    exact .eps

theorem match_one : Match (.one p) prev m after ↔ ∃ c, m = [c] ∧ p c = true := by
  constructor
  · intro h
    cases h with
    | one hc => exact ⟨_, rfl, hc⟩
  · rintro ⟨c, rfl, hc⟩
    exact .one hc

theorem match_seq : Match (.seq r s) prev m after ↔
    ∃ m₁ m₂, m = m₁ ++ m₂ ∧ Match r prev m₁ (m₂ ++ after) ∧ Match s (lastOr prev m₁) m₂ after := by
  constructor
  · intro h
    cases h with
    | seq h h' => exact ⟨_, _, rfl, h, h'⟩
  · rintro ⟨m₁, m₂, rfl, h, h'⟩
    exact .seq h h'

theorem match_alt : Match (.alt r s) prev m after ↔ Match r prev m after ∨ Match s prev m after := by
  constructor
  · intro h
    cases h with
    | left h => exact .inl h
    | right h => exact .inr h
  · intro h
    cases h with
    | inl h => exact .left h
    | inr h => exact .right h

/-- A repetition is empty, or its first round takes a character. -/
theorem match_star_cases (h : Match (.star r) prev m after) :
    m = [] ∨ ∃ m₁ m₂, m = m₁ ++ m₂ ∧ m₁ ≠ [] ∧ Match r prev m₁ (m₂ ++ after) ∧
      Match (.star r) (lastOr prev m₁) m₂ after := by
  generalize heq : Regex.star r = t at h
  induction h with
  | done => exact .inl rfl
  | @step r' prev m₁ m₂ after h h' _ ih =>
    obtain rfl := Regex.star.inj heq
    by_cases hempty : m₁ = []
    · subst hempty
      exact ih rfl
    · exact .inr ⟨m₁, m₂, rfl, hempty, h, h'⟩
  | eps | one | seq | left | right | boundary => cases heq

/-- A repetition of one character. -/
theorem match_star_one : Match (.star (.one p)) prev m after ↔ ∀ c ∈ m, p c = true := by
  constructor
  · intro h
    generalize heq : Regex.star (.one p) = t at h
    induction h with
    | done => exact fun _ hc => nomatch hc
    | step h h' _ ih =>
      obtain rfl := Regex.star.inj heq
      obtain ⟨c, rfl, hc⟩ := match_one.mp h
      exact List.forall_mem_cons.mpr ⟨hc, ih rfl⟩
    | eps | one | seq | left | right | boundary => cases heq
  · intro h
    induction m generalizing prev with
    | nil => exact .done
    | cons c m ih =>
      have hrest : Match (.star (.one p)) (some c) m after :=
        ih fun d hd => h d (List.mem_cons_of_mem _ hd)
      exact .step (m := [c]) (.one (h c List.mem_cons_self)) hrest

/-- The expressions one after the other. -/
def concat (rs : List (Regex α)) : Regex α := rs.foldr .seq .eps

theorem match_concat_cons {rs : List (Regex α)} : Match (concat (r :: rs)) prev m after ↔
    ∃ m₁ m₂, m = m₁ ++ m₂ ∧ Match r prev m₁ (m₂ ++ after) ∧
      Match (concat rs) (lastOr prev m₁) m₂ after :=
  match_seq

theorem match_concat_singleton : Match (concat [r]) prev m after ↔ Match r prev m after := by
  rw [match_concat_cons]
  constructor
  · rintro ⟨m₁, m₂, rfl, h, h'⟩
    obtain rfl := match_eps.mp h'
    rwa [List.append_nil]
  · intro h
    exact ⟨m, [], (List.append_nil m).symm, h, .eps⟩

theorem match_concat_append {rs rs' : List (Regex α)} :
    Match (concat (rs ++ rs')) prev m after ↔
      ∃ m₁ m₂, m = m₁ ++ m₂ ∧ Match (concat rs) prev m₁ (m₂ ++ after) ∧
        Match (concat rs') (lastOr prev m₁) m₂ after := by
  induction rs generalizing prev m with
  | nil =>
    constructor
    · intro h
      exact ⟨[], m, rfl, .eps, h⟩
    · rintro ⟨m₁, m₂, rfl, h, h'⟩
      obtain rfl := match_eps.mp h
      exact h'
  | cons r rs ih =>
    rw [List.cons_append, match_concat_cons]
    constructor
    · rintro ⟨m₁, m₂, rfl, h, h'⟩
      obtain ⟨m₃, m₄, rfl, hrs, hrs'⟩ := ih.mp h'
      refine ⟨m₁ ++ m₃, m₄, (List.append_assoc _ _ _).symm, ?_, ?_⟩
      · rw [List.append_assoc] at h
        exact match_concat_cons.mpr ⟨m₁, m₃, rfl, h, hrs⟩
      · rwa [lastOr_append]
    · rintro ⟨m₁, m₂, rfl, h, h'⟩
      obtain ⟨m₃, m₄, rfl, hr, hrs⟩ := match_concat_cons.mp h
      refine ⟨m₃, m₄ ++ m₂, List.append_assoc _ _ _, ?_, ih.mpr ⟨m₄, m₂, rfl, hrs, ?_⟩⟩
      · rwa [List.append_assoc]
      · rwa [← lastOr_append]

/-! ## Matching -/

/-- Where the repetitions of a round end; a round that takes nothing is not repeated. -/
def starEnds (round : Option α → List α → List (Option α × List α)) :
    Nat → Option α → List α → List (Option α × List α)
  | 0, prev, rest => [(prev, rest)]
  | n + 1, prev, rest =>
    (prev, rest) :: ((round prev rest).filter fun e => e.2.length < rest.length).flatMap fun e =>
      starEnds round n e.1 e.2

/-- Where the matches at the start of a text end: the character before and the text left. -/
def ends : Regex α → Option α → List α → List (Option α × List α)
  | .eps, prev, rest => [(prev, rest)]
  | .one _, _, [] => []
  | .one p, _, c :: rest => if p c then [(some c, rest)] else []
  | .seq r s, prev, rest => (ends r prev rest).flatMap fun e => ends s e.1 e.2
  | .alt r s, prev, rest => ends r prev rest ++ ends s prev rest
  | .star r, prev, rest => starEnds (ends r) rest.length prev rest
  | .boundary word, prev, rest => if prev.any word ≠ rest.head?.any word then [(prev, rest)] else []

/-- `fullmatch`: the expression matches the whole text. -/
def fullmatch (r : Regex α) (text : List α) : Bool := (ends r none text).any fun e => e.2.isEmpty

/-- A match somewhere in a text after `prev`. -/
def searchFrom (r : Regex α) : Option α → List α → Bool
  | prev, [] => !(ends r prev []).isEmpty
  | prev, c :: rest => !(ends r prev (c :: rest)).isEmpty || searchFrom r (some c) rest

/-- `search`: the expression matches somewhere in the text. -/
def search (r : Regex α) (text : List α) : Bool := searchFrom r none text

/-- What `ends` computes are the matches. -/
def Ends (r : Regex α) (prev : Option α) (rest : List α) (e : Option α × List α) : Prop :=
  ∃ m, rest = m ++ e.2 ∧ e.1 = lastOr prev m ∧ Match r prev m e.2

theorem mem_starEnds {round : Option α → List α → List (Option α × List α)}
    (hround : ∀ prev rest e, e ∈ round prev rest ↔ Ends r prev rest e) (n : Nat)
    (prev : Option α) (rest : List α) (hn : rest.length ≤ n) (e : Option α × List α) :
    e ∈ starEnds round n prev rest ↔ Ends (.star r) prev rest e := by
  induction n generalizing prev rest with
  | zero =>
    obtain rfl : rest = [] := List.length_eq_zero_iff.mp (by omega)
    rw [starEnds, List.mem_singleton]
    constructor
    · rintro rfl
      exact ⟨[], rfl, rfl, .done⟩
    · rintro ⟨m, hm, hprev, -⟩
      obtain ⟨rfl, hrest⟩ := List.append_eq_nil_iff.mp hm.symm
      exact Prod.ext hprev hrest
  | succ n ih =>
    rw [starEnds, List.mem_cons, List.mem_flatMap]
    constructor
    · rintro (rfl | ⟨e', he', he⟩)
      · exact ⟨[], rfl, rfl, .done⟩
      · rw [List.mem_filter, decide_eq_true_eq] at he'
        obtain ⟨m₁, hm₁, hprev₁, hfirst⟩ := (hround prev rest e').mp he'.1
        obtain ⟨m₂, hm₂, hprev₂, hrest⟩ := (ih e'.1 e'.2 (by omega)).mp he
        refine ⟨m₁ ++ m₂, ?_, ?_, ?_⟩
        · rw [hm₁, hm₂, List.append_assoc]
        · rw [hprev₂, hprev₁, lastOr_append]
        · rw [hm₂] at hfirst
          rw [hprev₁] at hrest
          exact .step hfirst hrest
    · rintro ⟨m, rfl, hprev, hmatch⟩
      rcases match_star_cases hmatch with rfl | ⟨m₁, m₂, rfl, hne, hfirst, hrest⟩
      · exact .inl (Prod.ext hprev rfl)
      · have hpos := List.length_pos_of_ne_nil hne
        simp only [List.length_append] at hn
        refine .inr ⟨(lastOr prev m₁, m₂ ++ e.2), ?_, ?_⟩
        · rw [List.mem_filter, decide_eq_true_eq]
          refine ⟨(hround _ _ _).mpr ⟨m₁, List.append_assoc _ _ _, rfl, hfirst⟩, ?_⟩
          simp only [List.length_append]
          omega
        · apply (ih _ _ (by simp only [List.length_append]; omega)).mpr
          exact ⟨m₂, rfl, hprev.trans (lastOr_append _ _ _), hrest⟩

/-- The computed ends are those of the matches. -/
theorem mem_ends (r : Regex α) (prev : Option α) (rest : List α) (e : Option α × List α) :
    e ∈ ends r prev rest ↔ Ends r prev rest e := by
  induction r generalizing prev rest e with
  | eps =>
    rw [ends, List.mem_singleton]
    constructor
    · rintro rfl
      exact ⟨[], rfl, rfl, .eps⟩
    · rintro ⟨m, rfl, hprev, hmatch⟩
      obtain rfl := match_eps.mp hmatch
      exact Prod.ext hprev rfl
  | one p =>
    cases rest with
    | nil =>
      rw [ends]
      constructor
      · intro h
        cases h
      · rintro ⟨m, hm, -, hmatch⟩
        obtain ⟨c, rfl, -⟩ := match_one.mp hmatch
        cases hm
    | cons c rest =>
      rw [ends]
      constructor
      · intro h
        split at h
        · next hc =>
          rw [List.mem_singleton.mp h]
          exact ⟨[c], rfl, rfl, .one hc⟩
        · cases h
      · rintro ⟨m, hm, hprev, hmatch⟩
        obtain ⟨d, rfl, hd⟩ := match_one.mp hmatch
        obtain ⟨rfl, hrest⟩ := List.cons.inj hm
        rw [if_pos hd, List.mem_singleton]
        exact Prod.ext hprev hrest.symm
  | seq r s ihr ihs =>
    rw [ends, List.mem_flatMap]
    constructor
    · rintro ⟨e', he', he⟩
      obtain ⟨m₁, hm₁, hprev₁, hfirst⟩ := (ihr _ _ _).mp he'
      obtain ⟨m₂, hm₂, hprev₂, hsecond⟩ := (ihs _ _ _).mp he
      refine ⟨m₁ ++ m₂, ?_, ?_, ?_⟩
      · rw [hm₁, hm₂, List.append_assoc]
      · rw [hprev₂, hprev₁, lastOr_append]
      · rw [hm₂] at hfirst
        rw [hprev₁] at hsecond
        exact .seq hfirst hsecond
    · rintro ⟨m, rfl, hprev, hmatch⟩
      obtain ⟨m₁, m₂, rfl, hfirst, hsecond⟩ := match_seq.mp hmatch
      refine ⟨(lastOr prev m₁, m₂ ++ e.2), ?_, ?_⟩
      · exact (ihr _ _ _).mpr ⟨m₁, List.append_assoc _ _ _, rfl, hfirst⟩
      · exact (ihs _ _ _).mpr ⟨m₂, rfl, hprev.trans (lastOr_append _ _ _), hsecond⟩
  | alt r s ihr ihs =>
    rw [ends, List.mem_append, ihr, ihs]
    constructor
    · rintro (⟨m, hm, hprev, hmatch⟩ | ⟨m, hm, hprev, hmatch⟩)
      · exact ⟨m, hm, hprev, .left hmatch⟩
      · exact ⟨m, hm, hprev, .right hmatch⟩
    · rintro ⟨m, hm, hprev, hmatch⟩
      rcases match_alt.mp hmatch with hmatch | hmatch
      · exact .inl ⟨m, hm, hprev, hmatch⟩
      · exact .inr ⟨m, hm, hprev, hmatch⟩
  | star r ih =>
    rw [ends]
    exact mem_starEnds ih rest.length prev rest (Nat.le_refl _) e
  | boundary word =>
    rw [ends]
    constructor
    · intro h
      split at h
      · next hne =>
        rw [List.mem_singleton.mp h]
        exact ⟨[], rfl, rfl, .boundary hne⟩
      · cases h
    · rintro ⟨m, rfl, hprev, hmatch⟩
      cases hmatch with
      | boundary hne =>
        rw [List.nil_append, if_pos hne, List.mem_singleton]
        exact Prod.ext hprev rfl

/-- `fullmatch` says whether the whole text matches. -/
theorem fullmatch_iff {text : List α} : r.fullmatch text = true ↔ Match r none text [] := by
  rw [fullmatch, List.any_eq_true]
  constructor
  · rintro ⟨e, he, hempty⟩
    obtain ⟨m, hm, -, hmatch⟩ := (mem_ends _ _ _ _).mp he
    rw [List.isEmpty_iff.mp hempty] at hm hmatch
    rw [hm, List.append_nil]
    exact hmatch
  · intro hmatch
    refine ⟨(lastOr none text, []), (mem_ends _ _ _ _).mpr ⟨text, ?_, rfl, hmatch⟩, rfl⟩
    rw [List.append_nil]

end Regex

end SummitFlow
