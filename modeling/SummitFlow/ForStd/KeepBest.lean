import Mathlib.Data.List.Induction
import Mathlib.Order.WithBot

/-!
# Folding a list to its best element

`keepBest rank` folds elements into an optional champion: a challenger replaces it
only when it ranks strictly higher, so among equals the first one stays.  The
lemmas say when the fold leaves the champion in place and when it ends in a given
element of highest rank.
-/

namespace SummitFlow

variable {α ρ : Type} [LinearOrder ρ] (rank : α → ρ)

/-- The champion after one challenger. -/
def keepBest (kept : Option α) (x : α) : Option α :=
  match kept with
  | none => some x
  | some a => if rank a < rank x then some x else some a

/-- The rank of an optional champion; no champion ranks below every element. -/
def bestRank (kept : Option α) : WithBot ρ := kept.map rank

variable {rank}

theorem keepBest_of_lt {kept : Option α} {x : α} (h : bestRank rank kept < rank x) :
    keepBest rank kept x = some x := by
  cases kept with
  | none => rfl
  | some a =>
    have h : rank a < rank x := WithBot.coe_lt_coe.mp h
    simp [keepBest, h]

theorem keepBest_of_not_lt {kept : Option α} {x : α} (h : ¬ bestRank rank kept < rank x) :
    keepBest rank kept x = kept := by
  cases kept with
  | none => exact absurd (WithBot.bot_lt_coe _) h
  | some a =>
    have h : ¬ rank a < rank x := fun hlt => h (WithBot.coe_lt_coe.mpr hlt)
    simp [keepBest, h]

theorem bestRank_le_keepBest (kept : Option α) (x : α) :
    bestRank rank kept ≤ bestRank rank (keepBest rank kept x) := by
  by_cases h : bestRank rank kept < rank x
  · rw [keepBest_of_lt h]
    exact h.le
  · rw [keepBest_of_not_lt h]

theorem bestRank_le_foldl (rank : α → ρ) (kept : Option α) (xs : List α) :
    bestRank rank kept ≤ bestRank rank (xs.foldl (keepBest rank) kept) := by
  induction xs generalizing kept with
  | nil => exact le_rfl
  | cons x xs ih => exact (bestRank_le_keepBest kept x).trans (ih _)

/-- The fold ends in the champion or in one of the elements. -/
theorem mem_of_foldl_keepBest {kept : Option α} {xs : List α} {x : α}
    (h : xs.foldl (keepBest rank) kept = some x) : kept = some x ∨ x ∈ xs := by
  induction xs generalizing kept with
  | nil => exact .inl h
  | cons y xs ih =>
    rw [List.foldl_cons] at h
    rcases ih h with hk | hmem
    · by_cases hlt : bestRank rank kept < rank y
      · rw [keepBest_of_lt hlt] at hk
        exact .inr (Option.some.inj hk ▸ List.mem_cons_self)
      · exact .inl (keepBest_of_not_lt hlt ▸ hk)
    · exact .inr (List.mem_cons_of_mem _ hmem)

/-- The fold leaves the champion in place exactly when no element would replace it:
    a champion once replaced never comes back. -/
theorem foldl_keepBest_eq_self_iff {kept : Option α} {xs : List α} :
    xs.foldl (keepBest rank) kept = kept ↔ ∀ x ∈ xs, keepBest rank kept x = kept := by
  induction xs with
  | nil => simp
  | cons x xs ih =>
    rw [List.foldl_cons, List.forall_mem_cons]
    by_cases h : keepBest rank kept x = kept
    · rw [h, ih]
      simp
    · refine iff_of_false (fun heq => ?_) fun hall => h hall.1
      have hlt : bestRank rank kept < rank x := not_not.mp fun hn => h (keepBest_of_not_lt hn)
      have hle := bestRank_le_foldl rank (keepBest rank kept x) xs
      rw [heq, keepBest_of_lt hlt] at hle
      exact absurd hlt (not_lt.mpr hle)

/-- When no element ranks above `top` and the champion ranks below it, the fold ends
    in `top` exactly when `top` is the first element of its rank. -/
theorem foldl_keepBest_eq_top_iff {kept : Option α} {top : α} {xs : List α}
    (hk : bestRank rank kept < rank top) (hxs : ∀ x ∈ xs, rank x ≤ rank top) :
    xs.foldl (keepBest rank) kept = some top ↔
      ∃ pre post, xs = pre ++ top :: post ∧ ∀ x ∈ pre, rank x < rank top := by
  induction xs generalizing kept with
  | nil =>
    refine iff_of_false (fun h => ?_) (by simp)
    obtain rfl : kept = some top := h
    exact lt_irrefl _ hk
  | cons x xs ih =>
    have hx : rank x ≤ rank top := hxs x List.mem_cons_self
    have hxs' : ∀ y ∈ xs, rank y ≤ rank top := fun y hy => hxs y (List.mem_cons_of_mem _ hy)
    rw [List.foldl_cons]
    rcases hx.lt_or_eq with hlt | heq
    · -- `x` ranks below `top`, so whatever is kept still does
      have hk' : bestRank rank (keepBest rank kept x) < rank top := by
        by_cases h : bestRank rank kept < rank x
        · rw [keepBest_of_lt h]
          exact WithBot.coe_lt_coe.mpr hlt
        · rwa [keepBest_of_not_lt h]
      rw [ih hk' hxs']
      constructor
      · rintro ⟨pre, post, rfl, hpre⟩
        exact ⟨x :: pre, post, rfl, List.forall_mem_cons.mpr ⟨hlt, hpre⟩⟩
      · rintro ⟨pre, post, hsplit, hpre⟩
        cases pre with
        | nil =>
          obtain ⟨rfl, -⟩ := List.cons.inj hsplit
          exact absurd hlt (lt_irrefl _)
        | cons y pre =>
          obtain ⟨-, rfl⟩ := List.cons.inj hsplit
          exact ⟨pre, post, rfl, fun z hz => hpre z (List.mem_cons_of_mem _ hz)⟩
    · -- `x` already has the highest rank and stays
      have hstay : xs.foldl (keepBest rank) (some x) = some x := by
        rw [foldl_keepBest_eq_self_iff]
        intro y hy
        exact keepBest_of_not_lt (not_lt.mpr (WithBot.coe_le_coe.mpr (heq ▸ hxs' y hy)))
      rw [keepBest_of_lt (heq ▸ hk), hstay]
      constructor
      · rintro h
        obtain rfl := Option.some.inj h
        exact ⟨[], xs, rfl, by simp⟩
      · rintro ⟨pre, post, hsplit, hpre⟩
        cases pre with
        | nil => rw [(List.cons.inj hsplit).1]
        | cons y pre =>
          obtain ⟨rfl, -⟩ := List.cons.inj hsplit
          exact absurd heq (hpre x List.mem_cons_self).ne

/-! ## Folds that start without a champion -/

theorem exists_foldl_keepBest {xs : List α} (h : xs ≠ []) :
    ∃ w, xs.foldl (keepBest rank) none = some w := by
  obtain ⟨x, xs, rfl⟩ := List.exists_cons_of_ne_nil h
  rw [List.foldl_cons]
  have hle := bestRank_le_foldl rank (some x) xs
  cases hfold : xs.foldl (keepBest rank) (keepBest rank none x) with
  | some w => exact ⟨w, rfl⟩
  | none =>
    change xs.foldl (keepBest rank) (some x) = none at hfold
    rw [hfold] at hle
    exact absurd hle (not_le.mpr (WithBot.bot_lt_coe _))

/-- The champion is the first element of the highest rank. -/
theorem foldl_keepBest_first {xs : List α} {w : α} (h : xs.foldl (keepBest rank) none = some w) :
    ∃ i : Nat, xs[i]? = some w ∧
      ∀ (j : Nat) (x : α), xs[j]? = some x → rank x < rank w ∨ rank x = rank w ∧ i ≤ j := by
  induction xs using List.reverseRecOn generalizing w with
  | nil => cases h
  | append_singleton xs y ih =>
    rw [List.foldl_append, List.foldl_cons, List.foldl_nil] at h
    have hold : ∀ {j : Nat} {x : α}, (xs ++ [y])[j]? = some x →
        xs[j]? = some x ∨ j = xs.length ∧ x = y := by
      intro j x hj
      rcases lt_or_ge j xs.length with hlt | hge
      · exact .inl (by rwa [List.getElem?_append_left hlt] at hj)
      · rw [List.getElem?_append_right hge, List.getElem?_singleton] at hj
        split at hj
        · exact .inr ⟨by omega, (Option.some.inj hj).symm⟩
        · cases hj
    have hlast : (xs ++ [y])[xs.length]? = some y := by simp
    cases hfold : xs.foldl (keepBest rank) none with
    | none =>
      have hnil : xs = [] := by
        by_contra hne
        obtain ⟨w', hw'⟩ : ∃ w', xs.foldl (keepBest rank) none = some w' := exists_foldl_keepBest hne
        rw [hfold] at hw'
        cases hw'
      subst hnil
      rw [hfold] at h
      obtain rfl := Option.some.inj h
      refine ⟨0, rfl, fun j x hj => ?_⟩
      obtain ⟨hj, rfl⟩ := (hold hj).resolve_left (by simp)
      exact .inr ⟨rfl, by omega⟩
    | some a =>
      obtain ⟨i, hi, hfirst⟩ := ih hfold
      have hlt : i < xs.length := (List.getElem?_eq_some_iff.mp hi).1
      rw [hfold, keepBest] at h
      split at h
      · next hrank =>
        -- the last element ranks above all before it
        obtain rfl := Option.some.inj h
        refine ⟨xs.length, hlast, fun j x hj => ?_⟩
        rcases hold hj with hj | ⟨rfl, rfl⟩
        · left
          rcases hfirst j x hj with hbelow | ⟨heq, -⟩
          · exact hbelow.trans hrank
          · exact heq ▸ hrank
        · exact .inr ⟨rfl, le_rfl⟩
      · next hrank =>
        obtain rfl := Option.some.inj h
        refine ⟨i, by rw [List.getElem?_append_left hlt]; exact hi, fun j x hj => ?_⟩
        rcases hold hj with hj | ⟨rfl, rfl⟩
        · exact hfirst j x hj
        · rcases (not_lt.mp hrank).lt_or_eq with hbelow | heq
          · exact .inl hbelow
          · exact .inr ⟨heq, hlt.le⟩

/-- The champion has a property exactly when every element without it is beaten by one that
    has it: of a higher rank, or of the same rank and earlier. -/
theorem foldl_keepBest_satisfies_iff {p : α → Prop} {xs : List α} {w : α}
    (h : xs.foldl (keepBest rank) none = some w) :
    p w ↔ ∀ (i : Nat) (d : α), xs[i]? = some d → ¬ p d →
      ∃ (j : Nat) (a : α), xs[j]? = some a ∧ p a ∧ (rank d < rank a ∨ rank d = rank a ∧ j < i) := by
  obtain ⟨k, hk, hfirst⟩ := foldl_keepBest_first h
  constructor
  · intro hw i d hi hd
    refine ⟨k, w, hk, hw, ?_⟩
    rcases hfirst i d hi with hbelow | ⟨heq, hle⟩
    · exact .inl hbelow
    · refine .inr ⟨heq, lt_of_le_of_ne hle ?_⟩
      rintro rfl
      obtain rfl := Option.some.inj (hk.symm.trans hi)
      exact hd hw
  · intro hall
    by_contra hw
    obtain ⟨j, a, hj, ha, hbeats⟩ := hall k w hk hw
    rcases hfirst j a hj with hbelow | ⟨heq, hle⟩
    · rcases hbeats with hlt | ⟨heq, -⟩
      · exact lt_asymm hbelow hlt
      · exact hbelow.ne heq.symm
    · rcases hbeats with hlt | ⟨-, hlt⟩
      · exact hlt.ne heq.symm
      · omega

end SummitFlow
