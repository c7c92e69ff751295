import Mathlib.Data.List.Basic
import Mathlib.Data.List.Induction

/-!
# Insertion-ordered dictionaries

A Python `dict` as the list of its entries: `List.lookup` reads, `Dict.set`
replaces the entry of a known key in place and appends a new one, and deleting
keys is `List.filter`.
-/

namespace SummitFlow.Dict

variable {κ α : Type} [DecidableEq κ]

/-- `d[k] = v`. -/
def set (k : κ) (v : α) : List (κ × α) → List (κ × α)
  | [] => [(k, v)]
  | (k', v') :: d => if k' = k then (k, v) :: d else (k', v') :: set k v d

/-- `d.get(k)`; this is `List.lookup`, also where the keys have an equality test of their
    own. -/
def get? (k : κ) (d : List (κ × α)) : Option α := d.lookup k

/-- `List.lookup` on an entry, with a decidable equality in place of `==`. -/
theorem lookup_cons_if (k k' : κ) (v : α) (d : List (κ × α)) :
    ((k', v) :: d).lookup k = if k = k' then some v else d.lookup k := by
  by_cases h : k = k'
  · simp [h]
  · rw [List.lookup_cons, beq_false_of_ne h, if_neg h]

@[simp] theorem lookup_set_self (k : κ) (v : α) (d : List (κ × α)) :
    (set k v d).lookup k = some v := by
  induction d with
  | nil => simp [set]
  | cons e d ih =>
    obtain ⟨k', v'⟩ := e
    by_cases h : k' = k
    · simp [set, h]
    · rw [set, if_neg h, lookup_cons_if, if_neg (Ne.symm h), ih]

theorem lookup_set_of_ne {k k' : κ} (h : k' ≠ k) (v : α) (d : List (κ × α)) :
    (set k v d).lookup k' = d.lookup k' := by
  induction d with
  | nil => rw [set, lookup_cons_if, if_neg h]
  | cons e d ih =>
    obtain ⟨k₁, v₁⟩ := e
    by_cases h₁ : k₁ = k
    · subst h₁
      rw [set, if_pos rfl, lookup_cons_if, lookup_cons_if, if_neg h, if_neg h]
    · rw [set, if_neg h₁, lookup_cons_if, lookup_cons_if, ih]

theorem mem_keys_set {k k' : κ} {v : α} {d : List (κ × α)} (h : k' ∈ (set k v d).map Prod.fst) :
    k' = k ∨ k' ∈ d.map Prod.fst := by
  induction d with
  | nil => exact .inl (List.mem_singleton.mp h)
  | cons e d ih =>
    obtain ⟨k₁, v₁⟩ := e
    unfold set at h
    split at h
    · rcases List.mem_cons.mp h with hk | hmem
      · exact .inl hk
      · exact .inr (List.mem_cons_of_mem _ hmem)
    · rcases List.mem_cons.mp h with hk | hmem
      · exact .inr (by rw [hk]; exact List.mem_cons_self)
      · exact (ih hmem).imp_right (List.mem_cons_of_mem _)

theorem mem_keys_set_iff {k k' : κ} {v : α} {d : List (κ × α)} :
    k' ∈ (set k v d).map Prod.fst ↔ k' = k ∨ k' ∈ d.map Prod.fst := by
  refine ⟨mem_keys_set, ?_⟩
  induction d with
  | nil => simp [set]
  | cons e d ih =>
    obtain ⟨k₁, v₁⟩ := e
    unfold set
    split
    · next heq =>
      subst heq
      simp
    · simp only [List.map_cons, List.mem_cons]
      rintro (hk | hk | hmem)
      · exact .inr (ih (.inl hk))
      · exact .inl hk
      · exact .inr (ih (.inr hmem))

/-- Setting a key keeps every key once. -/
theorem nodup_set {k : κ} {v : α} {d : List (κ × α)} (h : (d.map Prod.fst).Nodup) :
    ((set k v d).map Prod.fst).Nodup := by
  induction d with
  | nil => exact List.nodup_cons.mpr ⟨List.not_mem_nil, List.nodup_nil⟩
  | cons e d ih =>
    obtain ⟨k₁, v₁⟩ := e
    obtain ⟨hnew, hd⟩ := List.nodup_cons.mp h
    unfold set
    split
    · next hk =>
      subst hk
      exact h
    · next hk =>
      apply List.nodup_cons.mpr
      refine ⟨?_, ih hd⟩
      intro hmem
      rcases mem_keys_set hmem with heq | hold
      · exact hk heq
      · exact hnew hold

theorem mem_set_of_ne {k k' : κ} (h : k' ≠ k) {v v' : α} {d : List (κ × α)} (hmem : (k', v') ∈ d) :
    (k', v') ∈ set k v d := by
  induction d with
  | nil => cases hmem
  | cons e d ih =>
    obtain ⟨k₁, v₁⟩ := e
    unfold set
    rcases List.mem_cons.mp hmem with heq | hrest
    · obtain ⟨rfl, rfl⟩ := Prod.mk.inj heq
      rw [if_neg h]
      exact List.mem_cons_self
    · split
      · exact List.mem_cons_of_mem _ hrest
      · exact List.mem_cons_of_mem _ (ih hrest)

theorem length_set_of_mem {k : κ} {v : α} {d : List (κ × α)} (h : k ∈ d.map Prod.fst) :
    (set k v d).length = d.length := by
  induction d with
  | nil => cases h
  | cons e d ih =>
    obtain ⟨k₁, v₁⟩ := e
    unfold set
    split
    · rfl
    · next hne =>
      have hrest : k ∈ d.map Prod.fst := (List.mem_cons.mp h).resolve_left (Ne.symm hne)
      rw [List.length_cons, List.length_cons, ih hrest]

theorem length_set_le (k : κ) (v : α) (d : List (κ × α)) : (set k v d).length ≤ d.length + 1 := by
  induction d with
  | nil => exact Nat.le_refl _
  | cons e d ih =>
    obtain ⟨k₁, v₁⟩ := e
    unfold set
    split
    · exact Nat.le_succ _
    · exact Nat.succ_le_succ ih

theorem lookup_eq_none_of_notMem {k : κ} {d : List (κ × α)} (h : k ∉ d.map Prod.fst) :
    d.lookup k = none := by
  apply List.lookup_eq_none_iff.mpr
  intro e he
  apply bne_iff_ne.mpr
  intro heq
  exact h (List.mem_map.mpr ⟨e, he, heq.symm⟩)

/-- Deleting a key. -/
theorem lookup_filter_ne (k k' : κ) (d : List (κ × α)) :
    (d.filter fun e => e.1 ≠ k').lookup k = if k = k' then none else d.lookup k := by
  induction d with
  | nil => simp
  | cons e d ih =>
    obtain ⟨k₁, v₁⟩ := e
    rw [lookup_cons_if]
    by_cases h₁ : k₁ = k'
    · subst h₁
      rw [List.filter_cons_of_neg (by simp), ih]
      by_cases hk : k = k₁
      · rw [if_pos hk, if_pos hk]
      · rw [if_neg hk, if_neg hk, if_neg hk]
    · rw [List.filter_cons_of_pos (by simpa using h₁), lookup_cons_if, ih]
      by_cases hk : k = k₁
      · rw [if_pos hk, if_pos hk, if_neg (hk.trans_ne h₁)]
      · rw [if_neg hk, if_neg hk]

@[simp] theorem get?_set_self (k : κ) (v : α) (d : List (κ × α)) :
    get? k (set k v d) = some v := lookup_set_self k v d

theorem get?_set_of_ne {k k' : κ} (h : k' ≠ k) (v : α) (d : List (κ × α)) :
    get? k' (set k v d) = get? k' d := lookup_set_of_ne h v d

theorem get?_filter_ne (k k' : κ) (d : List (κ × α)) :
    get? k (d.filter fun e => e.1 ≠ k') = if k = k' then none else get? k d :=
  lookup_filter_ne k k' d

/-- A `get` that is there is one of the entries. -/
theorem mem_of_lookup {k : κ} {v : α} {d : List (κ × α)} (h : d.lookup k = some v) :
    (k, v) ∈ d := by
  induction d with
  | nil => simp at h
  | cons e d ih =>
    obtain ⟨k', v'⟩ := e
    by_cases hk : k = k'
    · subst hk
      obtain rfl : v' = v := by simpa using h
      exact List.mem_cons_self
    · rw [lookup_cons_if, if_neg hk] at h
      exact List.mem_cons_of_mem _ (ih h)

theorem isSome_lookup_of_mem {e : κ × α} {d : List (κ × α)} (h : e ∈ d) :
    (d.lookup e.1).isSome = true := by
  induction d with
  | nil => cases h
  | cons e' d ih =>
    obtain ⟨k', v'⟩ := e'
    rw [lookup_cons_if]
    split
    · rfl
    · rename_i hne
      rcases List.mem_cons.mp h with rfl | hmem
      · exact absurd rfl hne
      · exact ih hmem

theorem lookup_of_mem {e : κ × α} {d : List (κ × α)} (h : (d.map Prod.fst).Nodup) (he : e ∈ d) :
    d.lookup e.1 = some e.2 := by
  induction d with
  | nil => cases he
  | cons entry d ih =>
    obtain ⟨k, v⟩ := entry
    obtain ⟨hnew, hd⟩ := List.nodup_cons.mp h
    rw [lookup_cons_if]
    rcases List.mem_cons.mp he with rfl | hmem
    · rw [if_pos rfl]
    · rw [if_neg, ih hd hmem]
      rintro rfl
      exact hnew (List.mem_map.mpr ⟨e, hmem, rfl⟩)


/-- The entries of a key, where each has one. -/
theorem filter_key {d : List (κ × α)} (h : (d.map Prod.fst).Nodup) (k : κ) :
    d.filter (fun e => e.1 == k) = (d.lookup k).toList.map (k, ·) := by
  induction d with
  | nil => rfl
  | cons e d ih =>
    obtain ⟨k', v⟩ := e
    rw [List.map_cons, List.nodup_cons] at h
    rw [List.filter_cons, lookup_cons_if]
    by_cases hk : k' = k
    · subst hk
      rw [if_pos (beq_self_eq_true k'), if_pos rfl, ih h.2, lookup_eq_none_of_notMem h.1]
      rfl
    · rw [if_neg (by simpa using hk), if_neg (Ne.symm hk), ih h.2]

/-- Rewriting every value rewrites the one a `get` finds. -/
theorem lookup_map_value {β : Type} (f : α → β) (k : κ) (d : List (κ × α)) :
    (d.map fun e => (e.1, f e.2)).lookup k = (d.lookup k).map f := by
  induction d with
  | nil => rfl
  | cons e d ih =>
    obtain ⟨k', v'⟩ := e
    rw [List.map_cons, lookup_cons_if, lookup_cons_if, ih]
    split <;> rfl

/-- Dropping entries keeps a `get` whose own entry stays. -/
theorem lookup_filter_of_pos {p : κ × α → Bool} {k : κ} {v : α} {d : List (κ × α)}
    (h : d.lookup k = some v) (hp : p (k, v) = true) : (d.filter p).lookup k = some v := by
  induction d with
  | nil => simp at h
  | cons e d ih =>
    obtain ⟨k', v'⟩ := e
    rw [lookup_cons_if] at h
    by_cases hk : k = k'
    · subst hk
      obtain rfl : v' = v := by simpa using h
      rw [List.filter_cons_of_pos hp, lookup_cons_if, if_pos rfl]
    · rw [if_neg hk] at h
      rw [List.filter_cons]
      split
      · rw [lookup_cons_if, if_neg hk]
        exact ih h
      · exact ih h

/-! ## Groups -/

/-- `d.setdefault(key(x), []).append(x)`, for every element. -/
def group (key : α → κ) (xs : List α) : List (κ × List α) :=
  xs.foldl (fun d x => set (key x) ((d.lookup (key x)).getD [] ++ [x]) d) []

theorem group_concat (key : α → κ) (xs : List α) (x : α) :
    group key (xs ++ [x]) =
      set (key x) (((group key xs).lookup (key x)).getD [] ++ [x]) (group key xs) := by
  unfold group
  rw [List.foldl_append]
  rfl

theorem nodup_group (key : α → κ) (xs : List α) : ((group key xs).map Prod.fst).Nodup := by
  induction xs using List.reverseRecOn with
  | nil => exact List.nodup_nil
  | append_singleton xs x ih =>
    rw [group_concat]
    exact nodup_set ih

/-- The group of a key has its elements, in order. -/
theorem get?_group (key : α → κ) (xs : List α) (k : κ) :
    (get? k (group key xs)).getD [] = xs.filter fun x => key x = k := by
  unfold get?
  induction xs using List.reverseRecOn with
  | nil => rfl
  | append_singleton xs x ih =>
    rw [group_concat, List.filter_append]
    by_cases hk : key x = k
    · subst hk
      rw [lookup_set_self, Option.getD_some, ih, List.filter_cons_of_pos (by simp),
        List.filter_nil]
    · rw [lookup_set_of_ne (Ne.symm hk), ih, List.filter_cons_of_neg (by simpa using hk),
        List.filter_nil, List.append_nil]

/-- The keys of the groups are the keys of the elements. -/
theorem mem_keys_group {key : α → κ} {xs : List α} {k : κ} :
    k ∈ (group key xs).map Prod.fst ↔ ∃ x ∈ xs, key x = k := by
  induction xs using List.reverseRecOn with
  | nil => simp [group]
  | append_singleton xs x ih =>
    rw [group_concat, mem_keys_set_iff, ih]
    constructor
    · rintro (rfl | ⟨y, hy, rfl⟩)
      · exact ⟨x, by simp, rfl⟩
      · exact ⟨y, by simp [hy], rfl⟩
    · rintro ⟨y, hy, rfl⟩
      rcases List.mem_append.mp hy with hold | hnew
      · exact .inr ⟨y, hold, rfl⟩
      · rw [List.mem_singleton.mp hnew]
        exact .inl rfl

end SummitFlow.Dict
