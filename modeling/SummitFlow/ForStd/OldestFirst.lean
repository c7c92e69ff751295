import Mathlib.Data.List.Basic
import Mathlib.Data.List.Sort

/-!
# Deleting the oldest rows

`DELETE ... WHERE id IN (SELECT id ... WHERE p ORDER BY key LIMIT n)`: of the rows that meet a
condition the first ones by a key go, and the rest of the table stays as it is.
-/

namespace SummitFlow

section

variable {α κ ι : Type} [LinearOrder κ] [DecidableEq ι] (key : α → κ) (id : α → ι)

/-- The rows that go. -/
def oldest (p : α → Bool) (n : Nat) (rows : List α) : List α :=
  ((rows.filter p).insertionSort fun a b => key a ≤ key b).take n

/-- The rows that stay. -/
def dropOldest (p : α → Bool) (n : Nat) (rows : List α) : List α :=
  rows.filter fun row => id row ∉ (oldest key p n rows).map id

variable {key id} {p : α → Bool} {n : Nat} {rows : List α}

theorem dropOldest_sublist : (dropOldest key id p n rows).Sublist rows := List.filter_sublist

theorem mem_of_oldest {row : α} (h : row ∈ oldest key p n rows) : row ∈ rows ∧ p row = true := by
  have hsorted := List.mem_of_mem_take h
  rw [(List.perm_insertionSort _ _).mem_iff] at hsorted
  exact List.mem_filter.mp hsorted

/-- A row goes exactly when it is among the oldest: rows have ids of their own. -/
theorem oldest_of_dropped (hids : (rows.map id).Nodup) {row : α} (hrow : row ∈ rows)
    (hdropped : row ∉ dropOldest key id p n rows) : row ∈ oldest key p n rows := by
  have hid : id row ∈ (oldest key p n rows).map id := by
    by_contra hnot
    exact hdropped (List.mem_filter.mpr ⟨hrow, by simpa using hnot⟩)
  obtain ⟨row', hrow', heq⟩ := List.mem_map.mp hid
  obtain rfl := List.inj_on_of_nodup_map hids (mem_of_oldest hrow').1 hrow heq
  exact hrow'

/-- What goes is no younger than what stays of the same kind. -/
theorem key_le_of_oldest {row kept : α} (hold : row ∈ oldest key p n rows)
    (hkept : kept ∈ dropOldest key id p n rows) (hp : p kept = true) : key row ≤ key kept := by
  obtain ⟨hmem, hid⟩ := List.mem_filter.mp hkept
  let sorted := (rows.filter p).insertionSort fun a b => key a ≤ key b
  have hsorted : sorted.Pairwise fun a b => key a ≤ key b := by
    have hpair : Std.Total fun a b : α => key a ≤ key b := ⟨fun a b => le_total _ _⟩
    have htrans : IsTrans α fun a b => key a ≤ key b := ⟨fun a b c hab hbc => hab.trans hbc⟩
    exact List.pairwise_insertionSort _ _
  have hsplit : sorted.take n ++ sorted.drop n = sorted := List.take_append_drop _ _
  have hin : kept ∈ sorted :=
    (List.perm_insertionSort _ _).mem_iff.mpr (List.mem_filter.mpr ⟨hmem, hp⟩)
  rw [← hsplit] at hin hsorted
  rcases List.mem_append.mp hin with hfirst | hlater
  · -- a kept row is not among the first ones
    have hgoes : id kept ∈ (oldest key p n rows).map id := List.mem_map.mpr ⟨kept, hfirst, rfl⟩
    exact absurd hgoes (by simpa using hid)
  · exact (List.pairwise_append.mp hsorted).2.2 row hold kept hlater

/-- Strictly so, where the key tells the rows apart. -/
theorem key_lt_of_dropped (hids : (rows.map id).Nodup) (hkey : ∀ a b, key a = key b → id a = id b)
    {row kept : α} (hrow : row ∈ rows) (hdropped : row ∉ dropOldest key id p n rows)
    (hkept : kept ∈ dropOldest key id p n rows) (hp : p kept = true) : key row < key kept := by
  apply lt_of_le_of_ne (key_le_of_oldest (oldest_of_dropped hids hrow hdropped) hkept hp)
  intro heq
  have hsame := List.inj_on_of_nodup_map hids hrow (dropOldest_sublist.subset hkept) (hkey _ _ heq)
  exact hdropped (hsame ▸ hkept)

/-- Rows whose ids are their keys need not be told apart otherwise. -/
theorem oldest_of_dropped_key [DecidableEq κ] {row : α} (hrow : row ∈ rows)
    (hdropped : row ∉ dropOldest key key p n rows) :
    ∃ old ∈ oldest key p n rows, key old = key row := by
  have hkey : key row ∈ (oldest key p n rows).map key := by
    by_contra hnot
    exact hdropped (List.mem_filter.mpr ⟨hrow, by simpa using hnot⟩)
  exact List.mem_map.mp hkey

theorem lt_of_dropped_key [DecidableEq κ] {row kept : α} (hrow : row ∈ rows)
    (hdropped : row ∉ dropOldest key key p n rows) (hkept : kept ∈ dropOldest key key p n rows)
    (hp : p kept = true) : key row < key kept := by
  obtain ⟨old, hold, hsame⟩ := oldest_of_dropped_key hrow hdropped
  apply lt_of_le_of_ne (hsame ▸ key_le_of_oldest hold hkept hp)
  intro heq
  have hgoes : key kept ∈ (oldest key p n rows).map key :=
    List.mem_map.mpr ⟨old, hold, hsame.trans heq⟩
  have hid := (List.mem_filter.mp hkept).2
  exact absurd hgoes (by simpa using hid)

theorem length_dropOldest_le : (dropOldest key id p n rows).length ≤ rows.length :=
  dropOldest_sublist.length_le

/-- Where nothing goes there is nothing of the kind. -/
theorem none_of_length_eq (hn : 0 < n) (h : (dropOldest key id p n rows).length = rows.length) :
    dropOldest key id p n rows = rows ∧ ∀ row ∈ rows, p row = false := by
  have hsame : dropOldest key id p n rows = rows := dropOldest_sublist.eq_of_length h
  refine ⟨hsame, fun row hrow => ?_⟩
  rw [Bool.eq_false_iff]
  intro hp
  have hne : oldest key p n rows ≠ [] := by
    have hmem : row ∈ (rows.filter p).insertionSort fun a b => key a ≤ key b :=
      (List.perm_insertionSort _ _).mem_iff.mpr (List.mem_filter.mpr ⟨hrow, hp⟩)
    intro hnil
    rcases List.take_eq_nil_iff.mp hnil with hzero | hempty
    · omega
    · rw [hempty] at hmem
      cases hmem
  obtain ⟨first, rest, hfirst⟩ := List.exists_cons_of_ne_nil hne
  have hgoes : first ∈ oldest key p n rows := hfirst ▸ List.mem_cons_self
  have hstays : first ∈ dropOldest key id p n rows := by
    rw [hsame]
    exact (mem_of_oldest hgoes).1
  have hid := (List.mem_filter.mp hstays).2
  exact absurd (List.mem_map.mpr ⟨first, hgoes, rfl⟩) (by simpa using hid)

end

end SummitFlow
