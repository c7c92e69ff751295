import SummitFlow.ForStd.Run
import SummitFlow.MonitorReader.Pages

/-!
# What a page holds

A page that is packed holds the first candidates, at most as many as asked for.  Unless
it says that its budget was too small, it is truncated exactly when candidates are left
out, and then its cursor stands at the last one it holds.
-/

namespace SummitFlow.Monitor

variable {Filters Coverage Item Position : Type}
  {size : Page Filters Coverage Item Position → Nat}

theorem refuseIf_ok {condition : Prop} [Decidable condition] {message : String} {u : Unit}
    (h : refuseIf condition message = .ok u) : ¬ condition := by
  intro hcondition
  unfold refuseIf at h
  rw [if_pos hcondition] at h
  cases h

/-- The page does not say that its budget was too small. -/
def Page.WithinBudget (page : Page Filters Coverage Item Position) : Prop :=
  ∀ e ∈ page.errors, e.code ≠ "output_budget"

theorem packLoop_eq {filters : Filters} {budget : Nat}
    {base page : Page Filters Coverage Item Position} {cs : List (Item × Position)} {cut : Bool}
    (h : packLoop size filters budget base cs = (page, cut)) :
    ∃ k ≤ cs.length, page = { base with items := base.items ++ (cs.take k).map Prod.fst } ∧
      (cut = true ↔ k < cs.length) := by
  induction cs generalizing base with
  | nil =>
    cases h
    exact ⟨0, Nat.le_refl _, by simp, by simp⟩
  | cons c cs ih =>
    obtain ⟨item, position⟩ := c
    unfold packLoop at h
    dsimp only at h
    split at h
    · cases h
      exact ⟨0, Nat.zero_le _, by simp, by simp⟩
    · obtain ⟨k, hk, hpage, hcut⟩ := ih h
      refine ⟨k + 1, by simpa using hk, ?_, by simpa using hcut⟩
      rw [hpage, List.take_succ_cons, List.map_cons]
      simp

theorem encodeBudgeted_ok {page page' : Page Filters Coverage Item Position} {budget : Nat}
    (h : encodeBudgeted size page budget = .ok page') : page' = page := by
  obtain ⟨_, -, h⟩ := bind_ok h
  obtain ⟨_, -, h⟩ := bind_ok h
  exact (Except.ok.inj h).symm

/-- A page that is emptied of its metadata says so. -/
theorem dropMetadata_eq (size : Page Filters Coverage Item Position → Nat) (budget : Nat)
    (page : Page Filters Coverage Item Position) :
    (dropMetadata size budget page).items = page.items ∧
      (dropMetadata size budget page).truncated = page.truncated ∧
      (∀ cursor, (dropMetadata size budget page).nextCursor = some cursor →
        page.nextCursor = some cursor) ∧
      ((dropMetadata size budget page).WithinBudget → dropMetadata size budget page = page) := by
  unfold dropMetadata
  split
  · refine ⟨rfl, rfl, nofun, ?_⟩
    intro hbudget
    exact absurd rfl (hbudget ⟨"output_budget", none⟩ (List.mem_singleton_self _))
  · exact ⟨rfl, rfl, fun _ h => h, fun _ => rfl⟩

/-- A page that leaves something out has a cursor at its last item, or says that its budget
    was too small. -/
theorem markMore_eq (filters : Filters) (candidates : List (Item × Position))
    (page : Page Filters Coverage Item Position) :
    (markMore filters candidates page).items = page.items ∧
      (markMore filters candidates page).truncated = page.truncated ∧
      (page.items ≠ [] → (markMore filters candidates page).nextCursor =
        (candidates[page.items.length - 1]?).map fun last => ⟨filters, last.2⟩) ∧
      (page.items = [] → (markMore filters candidates page).nextCursor = page.nextCursor ∧
        ¬ (markMore filters candidates page).WithinBudget) := by
  unfold markMore
  split
  · rename_i hnil
    refine ⟨rfl, rfl, fun h => absurd hnil h, fun _ => ⟨rfl, ?_⟩⟩
    intro hbudget
    exact absurd rfl (hbudget ⟨"output_budget", some "first item exceeds max_bytes"⟩ (by simp))
  · rename_i hne
    exact ⟨rfl, rfl, fun _ => rfl, fun h => absurd h hne⟩

/-- Something is left out exactly when the items are not all the candidates. -/
theorem leftOut_eq {more cut : Bool} {k limit n : Nat} (hk : k ≤ min limit n)
    (hcut : cut = true ↔ k < min limit n) :
    (more || cut || decide (k < n) || decide (n > limit)) = (more || decide (k < n)) := by
  cases more with
  | true => rfl
  | false =>
    by_cases hless : k < n
    · simp [hless]
    · have hfull : ¬ n > limit := by omega
      have hnocut : cut = false := by
        rw [← Bool.not_eq_true, hcut]
        omega
      simp [hless, hfull, hnocut]

/-- What `_pack` makes of the page and the candidates. -/
theorem pack_ok {base page : Page Filters Coverage Item Position}
    {candidates : List (Item × Position)} {filters : Filters} {limit budget : Nat} {more : Bool}
    (hbase : base.nextCursor = none)
    (h : pack size base candidates filters limit budget more = .ok page) :
    ∃ k ≤ limit, k ≤ candidates.length ∧ page.items = (candidates.take k).map Prod.fst ∧
      (∀ cursor, page.nextCursor = some cursor → 0 < k ∧
        (candidates[k - 1]?).map (fun last => Cursor.mk filters last.2) = some cursor) ∧
      (page.WithinBudget → page.truncated = (more || decide (k < candidates.length)) ∧
        (page.truncated = true → 0 < k ∧ page.nextCursor.isSome = true)) := by
  unfold pack at h
  cases hloop : packLoop size filters budget { base with items := [] } (candidates.take limit) with
  | mk packed cut =>
  rw [hloop] at h
  obtain ⟨k, hk, rfl, hcut⟩ := packLoop_eq hloop
  dsimp only at h
  rw [List.length_take] at hk hcut
  have hitems : ((candidates.take limit).take k).map Prod.fst = (candidates.take k).map Prod.fst := by
    rw [List.take_take, Nat.min_eq_left (by omega)]
  have hlength : ((candidates.take k).map Prod.fst).length = k := by
    rw [List.length_map, List.length_take]
    omega
  rw [List.nil_append, hitems, hlength] at h
  rw [leftOut_eq hk hcut] at h
  obtain rfl := encodeBudgeted_ok h
  generalize hpage : (if (more || decide (k < candidates.length)) = true then _ else _ :
    Page Filters Coverage Item Position) = marked
  obtain ⟨hsame, htruncated, hcursor, hkept⟩ := dropMetadata_eq size budget marked
  refine ⟨k, by omega, by omega, ?_⟩
  rw [hsame, htruncated]
  cases hleft : (more || decide (k < candidates.length)) with
  | false =>
    rw [hleft, if_neg Bool.false_ne_true] at hpage
    subst hpage
    refine ⟨rfl, ?_, fun _ => ⟨rfl, nofun⟩⟩
    intro cursor hsome
    exact absurd (hcursor cursor hsome) (by simp [hbase])
  | true =>
    rw [hleft, if_pos rfl] at hpage
    subst hpage
    obtain ⟨hitems', htruncated', hlast, hempty⟩ := markMore_eq filters candidates
      { base with items := (candidates.take k).map Prod.fst, truncated := true }
    by_cases hk0 : k = 0
    · have hnil : (candidates.take k).map Prod.fst = [] := by simp [hk0]
      obtain ⟨hnone, hover⟩ := hempty hnil
      refine ⟨hitems', ?_, ?_⟩
      · intro cursor hsome
        have hsome' := hcursor cursor hsome
        rw [hnone] at hsome'
        exact absurd hsome' (by simp [hbase])
      · intro hwithin
        rw [hkept hwithin] at hwithin
        exact absurd hwithin hover
    · have hne : (candidates.take k).map Prod.fst ≠ [] := by
        intro hnil
        rw [hnil] at hlength
        exact hk0 hlength.symm
      have hlast' := hlast hne
      rw [hlength] at hlast'
      refine ⟨hitems', ?_, ?_⟩
      · intro cursor hsome
        exact ⟨Nat.pos_of_ne_zero hk0, hlast'.symm.trans (hcursor cursor hsome)⟩
      · intro hwithin
        refine ⟨htruncated', fun _ => ⟨Nat.pos_of_ne_zero hk0, ?_⟩⟩
        have hbound : k - 1 < candidates.length := by omega
        rw [hkept hwithin, hlast', Option.isSome_map, List.getElem?_eq_getElem hbound]
        rfl

theorem cursorPosition_ok [DecidableEq Filters] {cursor : Option (Cursor Filters Position)}
    {filters : Filters} {position : Option Position}
    (h : cursorPosition cursor filters = .ok position) :
    position = cursor.map Cursor.position := by
  unfold cursorPosition at h
  cases cursor with
  | none => exact (Except.ok.inj h).symm
  | some cursor =>
    dsimp only at h
    split at h
    · exact (Except.ok.inj h).symm
    · cases h

/-- The positions a client gets to that starts without a cursor and only uses cursors of
    the pages it got, with any limits and budgets. -/
inductive Followed (request : Option Position → Nat → Nat →
    Except PyError (Page Filters Coverage Item Position)) : Option Position → Prop where
  | start : Followed request none
  | next {after : Option Position} {limit budget : Nat}
    {page : Page Filters Coverage Item Position} {cursor : Cursor Filters Position}
    (h : Followed request after) (hpage : request after limit budget = .ok page)
    (hcursor : page.nextCursor = some cursor) : Followed request (some cursor.position)

end SummitFlow.Monitor
