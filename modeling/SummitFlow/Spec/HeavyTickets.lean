import SummitFlow.Utils.HeavyWork

/-!
# The names of tickets

Tickets are ordered by their file names.  As long as the names have twenty digits, which
`_waiters` checks, this is the order of the numbers in them.
-/

namespace SummitFlow.HeavyWork

theorem digitValue_of_isDigit {c : Char} (h : c.isDigit = true) :
    Str.digitValue c = some (c.toNat - '0'.toNat) := by
  simp only [Char.isDigit, Bool.and_eq_true, decide_eq_true_eq] at h
  have hlow : 48 ≤ c.toNat := h.1
  have hhigh : c.toNat ≤ 57 := h.2
  have hblock : (decide (0x30 ≤ c.toNat) && decide (c.toNat < 0x30 + 10)) = true := by
    simp only [Bool.and_eq_true, decide_eq_true_eq]
    omega
  -- the first block of digits is the ASCII one
  have hfound : Str.decimalZeros.find? (fun z => decide (z ≤ c.toNat) && decide (c.toNat < z + 10)) =
      some 0x30 := List.find?_cons_of_pos hblock
  rw [Str.digitValue, hfound]
  rfl

/-- `int` reads the digits of a number back. -/
theorem intOf_of_isDigit {cs : List Char} (hne : cs ≠ []) (h : ∀ c ∈ cs, c.isDigit = true) :
    Str.intOf cs = some (Nat.ofDigitChars 10 cs 0) := by
  have hdigits : cs.mapM Str.digitValue = some (cs.map fun c => c.toNat - '0'.toNat) := by
    clear hne
    induction cs with
    | nil => rfl
    | cons c cs ih =>
      rw [List.mapM_cons, digitValue_of_isDigit (h c List.mem_cons_self),
        ih fun d hd => h d (List.mem_cons_of_mem _ hd)]
      rfl
  have hempty : cs.isEmpty = false := List.isEmpty_eq_false_iff.mpr hne
  rw [Str.intOf, hempty, hdigits, Nat.ofDigitChars_eq_foldl]
  simp [List.foldl_map]

theorem zfill_ne_nil (n : Nat) : zfill 20 n ≠ [] := by
  intro h
  have hlength := congrArg List.length h
  simp only [zfill, List.length_append, List.length_replicate, List.length_nil] at hlength
  omega

theorem intOf_zfill (n : Nat) : Str.intOf (zfill 20 n) = some n := by
  rw [intOf_of_isDigit (zfill_ne_nil n) fun _ hc => isDigit_of_mem_zfill hc, ofDigitChars_zfill]

theorem dash_notMem_zfill (n : Nat) : '-' ∉ zfill 20 n := by
  intro h
  exact absurd (isDigit_of_mem_zfill h) (by decide)

theorem dash_notMem_hex (uuid : Uuid) : '-' ∉ uuid.val ++ ".json".toList := by
  intro h
  rcases List.mem_append.mp h with h | h
  · have hhex := (Bool.and_eq_true_iff.mp uuid.property).2
    exact absurd (List.all_eq_true.mp hhex _ h) (by decide)
  · exact absurd h (by decide)

theorem toList_ticketName (w : WorkClass) (order : Nat) (uuid : Uuid) :
    (ticketName w order uuid).toList = ("wait-" ++ w.name ++ "-").toList ++
      (zfill 20 order ++ '-' :: (uuid.val ++ ".json".toList)) := by
  simp [ticketName]

theorem split_ticketName (w : WorkClass) (order : Nat) (uuid : Uuid) :
    Str.splitOnChar '-' (ticketName w order uuid).toList =
      ["wait".toList, w.name.toList, zfill 20 order, uuid.val ++ ".json".toList] := by
  have hhead : ("wait-" ++ w.name ++ "-").toList =
      "wait".toList ++ '-' :: (w.name.toList ++ ['-']) := by cases w <;> rfl
  have hname : Str.splitOnChar '-' w.name.toList = [w.name.toList] := by cases w <;> rfl
  rw [toList_ticketName, hhead, List.append_assoc, List.cons_append, List.append_assoc,
    Str.splitOnChar_append, List.singleton_append, Str.splitOnChar_append, hname,
    Str.splitOnChar_append, Str.splitOnChar_of_not_mem (dash_notMem_zfill order),
    Str.splitOnChar_of_not_mem (dash_notMem_hex uuid)]
  rfl

/-- The number in a name. -/
theorem orderOf_ticketName (w : WorkClass) (order : Nat) (uuid : Uuid) :
    orderOf (ticketName w order uuid) = some order := by
  rw [orderOf, split_ticketName]
  exact intOf_zfill order

/-- A name has one class and one number. -/
theorem ticketName_inj {w w' : WorkClass} {order order' : Nat} {uuid uuid' : Uuid}
    (h : ticketName w order uuid = ticketName w' order' uuid') : w = w' ∧ order = order' := by
  constructor
  · have hsplit := split_ticketName w order uuid
    rw [h, split_ticketName] at hsplit
    simp only [List.cons.injEq, true_and] at hsplit
    cases w <;> cases w' <;> first | rfl | exact absurd hsplit.1 (by decide)
  · have horder := orderOf_ticketName w order uuid
    rw [h, orderOf_ticketName] at horder
    exact (Option.some.inj horder).symm

theorem globMatches_self (w : WorkClass) (order : Nat) (uuid : Uuid) :
    globMatches w (ticketName w order uuid) = true := by
  unfold globMatches Str.startswith Str.endswith
  rw [Bool.and_eq_true, List.isPrefixOf_iff_prefix, List.isSuffixOf_iff_suffix, toList_ticketName]
  refine ⟨List.prefix_append _ _, ("wait-" ++ w.name ++ "-").toList ++
    (zfill 20 order ++ '-' :: uuid.val), ?_⟩
  simp

/-- The glob of a class finds its own tickets only. -/
theorem globMatches_ticketName {w w' : WorkClass} {order : Nat} {uuid : Uuid}
    (h : globMatches w (ticketName w' order uuid) = true) : w = w' := by
  unfold globMatches Str.startswith at h
  rw [Bool.and_eq_true, List.isPrefixOf_iff_prefix, toList_ticketName] at h
  obtain ⟨rest, hrest⟩ := h.1
  cases w <;> cases w' <;> first | rfl | (simp [WorkClass.name] at hrest)

/-- A name that passes the check has a number of twenty digits. -/
theorem order_lt_of_validName {w : WorkClass} {order : Nat} {uuid : Uuid}
    (h : validName w (ticketName w order uuid) = true) : order < 10 ^ 20 := by
  rw [← length_zfill_eq_iff (by decide)]
  have hge : 20 ≤ (zfill 20 order).length := by
    simp only [zfill, List.length_append, List.length_replicate]
    omega
  by_contra hne
  have hlt : 20 < (zfill 20 order).length := by omega
  -- then the character where the dash should be is a digit
  unfold validName at h
  simp only [toList_ticketName, List.drop_left, Bool.and_eq_true, beq_iff_eq] at h
  obtain ⟨⟨⟨-, hdash⟩, -⟩, -⟩ := h
  rw [List.getElem?_append_left hlt] at hdash
  exact dash_notMem_zfill order (List.mem_of_getElem? hdash)

/-- The order of the names is that of the numbers. -/
theorem order_le_of_ticketName_le {w : WorkClass} {order order' : Nat} {uuid uuid' : Uuid}
    (horder : order < 10 ^ 20) (horder' : order' < 10 ^ 20)
    (h : ticketName w order uuid ≤ ticketName w order' uuid') : order ≤ order' := by
  rw [String.le_iff_toList_le, toList_ticketName, toList_ticketName] at h
  have hrest : ¬ zfill 20 order' ++ '-' :: (uuid'.val ++ ".json".toList) <
      zfill 20 order ++ '-' :: (uuid.val ++ ".json".toList) :=
    fun hlt => absurd h (not_le_of_gt (List.append_left_lt hlt))
  have hlength : (zfill 20 order).length = (zfill 20 order').length := by
    rw [(length_zfill_eq_iff (by decide)).mpr horder, (length_zfill_eq_iff (by decide)).mpr horder']
  have hle := ofDigitChars_le_of_not_lt hlength (fun _ hc => isDigit_of_mem_zfill hc) hrest
  rwa [ofDigitChars_zfill, ofDigitChars_zfill] at hle

end SummitFlow.HeavyWork
