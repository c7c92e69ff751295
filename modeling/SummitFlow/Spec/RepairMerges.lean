import SummitFlow.Spec.RepairFindings

/-!
# Actionable findings across a merge

The gates read `finding_actionable`, which an owner's disposition can turn off;
`_merge_duplicate_finding` reads only the state and the time.  Merging a category of the
duplicates keeps the open finding that ranks highest by time, so an actionable one stays
exactly when it beats every open one that was dispositioned.
-/

namespace SummitFlow.Repair

variable {J : Type}

/-! ## One category at a time -/

/-- The entries of a category merged into the one that is kept. -/
def mergeAll (kept : Option (Entry J)) (entries : List (Entry J)) : Option (Entry J) :=
  entries.foldl (fun kept entry => some (mergeEntry kept entry)) kept

/-- What the tasks hold for a category, in their order, but for values that are no objects. -/
def categoryObjects (tasks : List (Stored J)) (category : String) : List (Entry J) :=
  (tasks.filterMap fun task => task.get category).filter Entry.isObject

/-- The open findings among entries. -/
def openFindings (entries : List (Entry J)) : List (Finding J) :=
  entries.filterMap fun
    | .finding f => if f.isOpen then some f else none
    | _ => none

theorem Stored.get_merge (merged : Stored J) (entry : String × Entry J) (category : String) :
    (merged.merge entry).get category =
      if entry.1 = category ∧ entry.2.isObject = true then
        some (mergeEntry (merged.get category) entry.2)
      else merged.get category := by
  unfold Stored.merge
  by_cases hobject : entry.2.isObject = true
  · rw [if_pos hobject]
    by_cases hkey : entry.1 = category
    · subst hkey
      rw [if_pos ⟨rfl, hobject⟩]
      exact Dict.lookup_set_self _ _ _
    · rw [if_neg fun h => hkey h.1]
      exact Dict.lookup_set_of_ne (Ne.symm hkey) _ _
  · rw [if_neg hobject, if_neg fun h => hobject h.2]

/-- The entries of other categories leave a category alone. -/
theorem get_foldl_merge (merged : Stored J) (entries : List (String × Entry J))
    (category : String) :
    (entries.foldl Stored.merge merged).get category =
      mergeAll (merged.get category)
        (((entries.filter fun e => e.1 == category).map Prod.snd).filter Entry.isObject) := by
  induction entries generalizing merged with
  | nil => rfl
  | cons entry entries ih =>
    rw [List.foldl_cons, ih, Stored.get_merge]
    by_cases hkey : entry.1 = category
    · rw [List.filter_cons_of_pos (by simpa using hkey), List.map_cons]
      by_cases hobject : entry.2.isObject = true
      · rw [if_pos ⟨hkey, hobject⟩, List.filter_cons_of_pos hobject]
        rfl
      · rw [if_neg fun h => hobject h.2, List.filter_cons_of_neg hobject]
    · rw [if_neg fun h => hkey h.1, List.filter_cons_of_neg (by simpa using hkey)]

theorem categoryObjects_cons (task : Stored J) (tasks : List (Stored J)) (category : String) :
    categoryObjects (task :: tasks) category =
      (task.get category).toList.filter Entry.isObject ++ categoryObjects tasks category := by
  unfold categoryObjects
  rw [List.filterMap_cons]
  cases task.get category with
  | none => rfl
  | some entry =>
    dsimp only
    rw [Option.toList_some, ← List.singleton_append, List.filter_append]

/-- A category of the merge is the merge of the category. -/
theorem get_consolidatedEntries (canonical : Stored J) (duplicates : List (Stored J))
    (category : String) :
    (consolidatedEntries canonical duplicates).get category =
      mergeAll (canonical.get category) (categoryObjects duplicates category) := by
  unfold consolidatedEntries
  induction duplicates generalizing canonical with
  | nil => rfl
  | cons duplicate duplicates ih =>
    have hone : ((duplicate.entries.filter fun e => e.1 == category).map Prod.snd) =
        (duplicate.get category).toList := by
      rw [Dict.filter_key duplicate.nodup]
      show List.map Prod.snd ((duplicate.get category).toList.map (category, ·)) = _
      rw [List.map_map]
      exact List.map_id _
    rw [List.foldl_cons, ih, get_foldl_merge, hone, categoryObjects_cons]
    unfold mergeAll
    rw [List.foldl_append]

/-! ## What the merge keeps -/

/-- What is kept of entries without an open finding: nothing of none, the empty object where
    it came last, a resolved finding otherwise. -/
def Settled (entries : List (Entry J)) (kept : Option (Entry J)) : Prop :=
  (entries = [] ∧ kept = none) ∨
    (entries.getLast? = some .empty ∧ kept = some .empty) ∨
    ∃ f g, entries.getLast? = some (.finding g) ∧ kept = some (.finding f) ∧ f.isOpen = false

/-- What is kept of entries: the best of the open findings, if any. -/
def Merged (entries : List (Entry J)) (kept : Option (Entry J)) : Prop :=
  match (openFindings entries).foldl (keepBest timeRank) none with
  | some best => kept = some (.finding best)
  | none => Settled entries kept

theorem isOpen_of_best {entries : List (Entry J)} {best : Finding J}
    (h : (openFindings entries).foldl (keepBest timeRank) none = some best) :
    best.isOpen = true := by
  rcases mem_of_foldl_keepBest h with hnone | hmem
  · cases hnone
  · obtain ⟨entry, -, hentry⟩ := List.mem_filterMap.mp hmem
    cases entry with
    | finding f =>
      dsimp only at hentry
      split at hentry
      · next hopen => exact Option.some.inj hentry ▸ hopen
      · cases hentry
    | empty => cases hentry
    | nonObject => cases hentry

theorem mergeEntry_empty {f : Finding J} :
    mergeEntry (some (.finding f)) .empty = if f.isOpen then .finding f else .empty := by
  cases hopen : f.isOpen with
  | true => simp [mergeEntry, Entry.isOpen, Entry.time, hopen]
  | false => simp [mergeEntry, Entry.isOpen, hopen]

/-- Between two findings it is `_merge_duplicate_finding`. -/
theorem mergeEntry_finding (f g : Finding J) :
    mergeEntry (some (.finding f)) (.finding g) = .finding (mergeDuplicateFinding (some f) g) := by
  have hopens : ∀ h : Finding J, (Entry.finding h).isOpen = h.isOpen := fun _ => rfl
  have htimes : ∀ h : Finding J, (Entry.finding h).time = findingTime h := fun _ => rfl
  unfold mergeEntry mergeDuplicateFinding
  dsimp only
  rw [hopens, hopens, htimes, htimes]
  by_cases hopen : (f.isOpen != g.isOpen) = true
  · rw [if_pos hopen, if_pos hopen]
    split
    · rfl
    · rfl
  · rw [if_neg hopen, if_neg hopen]
    cases findingTime f with
    | none =>
      cases findingTime g with
      | none => rfl
      | some _ => rfl
    | some t =>
      cases findingTime g with
      | none => rfl
      | some u =>
        dsimp only
        split
        · rfl
        · rfl

/-- A finding that is open replaces nothing open but what ranks below it. -/
theorem mergeDuplicateFinding_open {f g : Finding J} (hf : f.isOpen = true) (hg : g.isOpen = true) :
    some (mergeDuplicateFinding (some f) g) = keepBest timeRank (some f) g := by
  have hrank : findingRank f < findingRank g ↔ timeRank f < timeRank g := by
    rw [findingRank_lt_iff, hf, hg]
    simp
  rw [mergeDuplicateFinding_eq]
  unfold keepBest
  dsimp only
  simp only [hrank]

theorem mergeDuplicateFinding_of_resolved {f g : Finding J} (hf : f.isOpen = false)
    (hg : g.isOpen = false) : (mergeDuplicateFinding (some f) g).isOpen = false := by
  have hor : mergeDuplicateFinding (some f) g = f ∨ mergeDuplicateFinding (some f) g = g := by
    have hbest := mergeDuplicateFinding_eq (some f) g
    unfold keepBest at hbest
    dsimp only at hbest
    split at hbest
    · exact .inr (Option.some.inj hbest)
    · exact .inl (Option.some.inj hbest)
  rcases hor with heq | heq
  · rw [heq, hf]
  · rw [heq, hg]

/-- One more entry. -/
theorem Merged.concat {entries : List (Entry J)} {kept : Option (Entry J)} (h : Merged entries kept)
    {entry : Entry J} (hobject : entry.isObject = true) :
    Merged (entries ++ [entry]) (some (mergeEntry kept entry)) := by
  have hlast : (entries ++ [entry]).getLast? = some entry := List.getLast?_concat
  unfold Merged at h ⊢
  cases hbest : (openFindings entries).foldl (keepBest timeRank) none with
  | some best =>
    have hopen := isOpen_of_best hbest
    rw [hbest] at h
    dsimp only at h
    subst h
    cases entry with
    | nonObject => cases hobject
    | empty =>
      have hfindings : openFindings (entries ++ [.empty]) = openFindings entries := by
        simp [openFindings]
      rw [hfindings, hbest, mergeEntry_empty, hopen]
      rfl
    | finding g =>
      rw [mergeEntry_finding]
      cases hg : g.isOpen with
      | true =>
        have hfindings : openFindings (entries ++ [.finding g]) = openFindings entries ++ [g] := by
          simp [openFindings, hg]
        rw [hfindings, List.foldl_append, List.foldl_cons, List.foldl_nil, hbest,
          ← mergeDuplicateFinding_open hopen hg]
      | false =>
        have hfindings : openFindings (entries ++ [.finding g]) = openFindings entries := by
          simp [openFindings, hg]
        rw [hfindings, hbest]
        simp [mergeDuplicateFinding, hopen, hg]
  | none =>
    rw [hbest] at h
    change Settled entries kept at h
    cases entry with
    | nonObject => cases hobject
    | empty =>
      have hfindings : openFindings (entries ++ [.empty]) = openFindings entries := by
        simp [openFindings]
      rw [hfindings, hbest]
      refine .inr (.inl ⟨hlast, congrArg some ?_⟩)
      rcases h with ⟨-, rfl⟩ | ⟨-, rfl⟩ | ⟨f, g, -, rfl, hf⟩
      · rfl
      · rfl
      · rw [mergeEntry_empty, hf]
        rfl
    | finding g =>
      cases hg : g.isOpen with
      | true =>
        have hfindings : openFindings (entries ++ [.finding g]) = openFindings entries ++ [g] := by
          simp [openFindings, hg]
        rw [hfindings, List.foldl_append, List.foldl_cons, List.foldl_nil, hbest]
        show some (mergeEntry kept (.finding g)) = some (.finding g)
        rcases h with ⟨-, rfl⟩ | ⟨-, rfl⟩ | ⟨f, g', -, rfl, hf⟩
        · rfl
        · rfl
        · rw [mergeEntry_finding]
          simp [mergeDuplicateFinding, hf, hg]
      | false =>
        have hfindings : openFindings (entries ++ [.finding g]) = openFindings entries := by
          simp [openFindings, hg]
        rw [hfindings, hbest]
        right
        right
        rcases h with ⟨-, rfl⟩ | ⟨-, rfl⟩ | ⟨f, g', -, rfl, hf⟩
        · exact ⟨g, g, hlast, rfl, hg⟩
        · exact ⟨g, g, hlast, rfl, hg⟩
        · exact ⟨_, g, hlast, congrArg some (mergeEntry_finding f g),
            mergeDuplicateFinding_of_resolved hf hg⟩

theorem merged_mergeAll {entries : List (Entry J)} (h : ∀ e ∈ entries, e.isObject = true) :
    Merged entries (mergeAll none entries) := by
  induction entries using List.reverseRecOn with
  | nil => exact .inl ⟨rfl, rfl⟩
  | append_singleton entries entry ih =>
    have hfront := ih fun e he => h e (List.mem_append_left _ he)
    unfold mergeAll
    rw [List.foldl_append, List.foldl_cons, List.foldl_nil]
    exact hfront.concat (h entry (by simp))

/-! ## The gates -/

section

variable [DecidableEq J]

/-- The task holds an actionable finding of the category. -/
def Actionable (task : Stored J) (category : String) : Prop :=
  ∃ entry, task.get category = some entry ∧ entry.actionable = true

/-- The gates list exactly the actionable categories of a repair task. -/
theorem mem_unresolvedRepair {labels : List String} {task : Stored J} {category : String} :
    category ∈ unresolvedRepair labels task ↔ repairLabel ∈ labels ∧ Actionable task category := by
  unfold unresolvedRepair
  by_cases hlabel : repairLabel ∈ labels
  · rw [if_neg (not_not.mpr hlabel), and_iff_right hlabel]
    constructor
    · intro hmem
      obtain ⟨⟨key, entry⟩, hentry, rfl⟩ := List.mem_map.mp hmem
      obtain ⟨hmem, hactionable⟩ := List.mem_filter.mp hentry
      exact ⟨entry, Dict.lookup_of_mem task.nodup hmem, hactionable⟩
    · rintro ⟨entry, hget, hactionable⟩
      apply List.mem_map.mpr
      exact ⟨(category, entry), List.mem_filter.mpr ⟨Dict.mem_of_lookup hget, hactionable⟩, rfl⟩
  · rw [if_pos hlabel]
    exact iff_of_false List.not_mem_nil fun h => hlabel h.1

/-- Among the entries of a category, every open finding that was dispositioned is beaten by an
    actionable one: of a later readable time, or of the same one and earlier in the order of
    the merge.  Without an open finding the empty object comes last. -/
def Retained (entries : List (Entry J)) : Prop :=
  (openFindings entries = [] → entries.getLast? = some .empty) ∧
    ∀ (i : Nat) (d : Finding J), (openFindings entries)[i]? = some d → ¬ findingActionable d = true →
      ∃ (j : Nat) (a : Finding J), (openFindings entries)[j]? = some a ∧
        findingActionable a = true ∧ (timeRank d < timeRank a ∨ timeRank d = timeRank a ∧ j < i)

theorem Merged.actionable_iff {entries : List (Entry J)} {kept : Option (Entry J)}
    (h : Merged entries kept) :
    (∃ entry, kept = some entry ∧ entry.actionable = true) ↔ Retained entries := by
  unfold Merged at h
  cases hbest : (openFindings entries).foldl (keepBest timeRank) none with
  | some best =>
    rw [hbest] at h
    dsimp only at h
    subst h
    have hne : openFindings entries ≠ [] := by
      intro hnil
      rw [hnil] at hbest
      cases hbest
    have hwins := foldl_keepBest_satisfies_iff (p := fun f => findingActionable f = true) hbest
    constructor
    · rintro ⟨entry, heq, hactionable⟩
      obtain rfl := Option.some.inj heq
      exact ⟨fun hnil => absurd hnil hne, hwins.mp hactionable⟩
    · exact fun hretained => ⟨_, rfl, hwins.mpr hretained.2⟩
  | none =>
    rw [hbest] at h
    have hnil : openFindings entries = [] := by
      by_contra hne
      obtain ⟨w, hw⟩ : ∃ w, (openFindings entries).foldl (keepBest timeRank) none = some w :=
        exists_foldl_keepBest hne
      rw [hbest] at hw
      cases hw
    unfold Retained
    rw [hnil]
    rcases h with ⟨rfl, rfl⟩ | ⟨hlast, rfl⟩ | ⟨f, g, hlast, rfl, hf⟩
    · simp
    · simp [hlast, Entry.actionable]
    · simp [hlast, Entry.actionable, findingActionable, hf]

theorem isObject_of_actionable {entry : Entry J} (h : entry.actionable = true) :
    entry.isObject = true := by
  cases entry with
  | finding f => rfl
  | empty => rfl
  | nonObject => cases h

/-- Where some task holds an actionable finding of a category, the canonical task holds one
    after the merge exactly when every open finding of the category that was dispositioned is
    beaten by an actionable one. -/
theorem actionable_kept_iff (canonical : Stored J) (duplicates : List (Stored J))
    (category : String) (h : ∃ task ∈ canonical :: duplicates, Actionable task category) :
    Actionable (consolidatedEntries canonical duplicates) category ↔
      Retained (categoryObjects (canonical :: duplicates) category) := by
  have hobjects : ∀ e ∈ categoryObjects (canonical :: duplicates) category, e.isObject = true :=
    fun e he => (List.mem_filter.mp he).2
  have hne : categoryObjects (canonical :: duplicates) category ≠ [] := by
    obtain ⟨task, htask, entry, hget, hactionable⟩ := h
    apply List.ne_nil_of_mem (a := entry)
    apply List.mem_filter.mpr
    exact ⟨List.mem_filterMap.mpr ⟨task, htask, hget⟩, isObject_of_actionable hactionable⟩
  have hstart : mergeAll (canonical.get category) (categoryObjects duplicates category) =
      mergeAll none (categoryObjects (canonical :: duplicates) category) := by
    rw [categoryObjects_cons] at hne ⊢
    cases hget : canonical.get category with
    | none => rfl
    | some entry =>
      rw [hget] at hne
      cases entry with
      | finding f => rfl
      | empty => rfl
      | nonObject =>
        -- the first object takes the place of what is no object
        change categoryObjects duplicates category ≠ [] at hne
        obtain ⟨first, rest, hfirst⟩ := List.exists_cons_of_ne_nil hne
        show mergeAll _ (categoryObjects duplicates category) =
          mergeAll none (categoryObjects duplicates category)
        rw [hfirst]
        rfl
  unfold Actionable
  rw [get_consolidatedEntries, hstart]
  exact (merged_mergeAll hobjects).actionable_iff

end

/-! ## The table -/

section

variable {canonical : Stored J} {findings : List (String × Finding J)}

theorem set_map_finding (category : String) (f : Finding J) (findings : List (String × Finding J)) :
    Dict.set category (.finding f) (findings.map fun e => (e.1, Entry.finding e.2)) =
      (Dict.set category f findings).map fun e => (e.1, Entry.finding e.2) := by
  induction findings with
  | nil => rfl
  | cons entry findings ih =>
    obtain ⟨key, old⟩ := entry
    rw [List.map_cons, Dict.set, Dict.set]
    split
    · rfl
    · rw [ih, List.map_cons]

theorem entries_foldl_merge (hcanonical : canonical.entries = findings.map fun e => (e.1, .finding e.2))
    (others : List (String × Finding J)) :
    ((others.map fun e => (e.1, Entry.finding e.2)).foldl Stored.merge canonical).entries =
      (others.foldl (fun merged entry =>
        Dict.set entry.1 (mergeDuplicateFinding (merged.lookup entry.1) entry.2) merged)
        findings).map fun e => (e.1, .finding e.2) := by
  induction others generalizing canonical findings with
  | nil => exact hcanonical
  | cons entry others ih =>
    rw [List.map_cons, List.foldl_cons, List.foldl_cons]
    apply ih
    have hget : canonical.get entry.1 = (findings.lookup entry.1).map .finding := by
      unfold Stored.get
      rw [hcanonical]
      exact Dict.lookup_map_value _ _ _
    show Dict.set entry.1 (mergeEntry (canonical.get entry.1) (.finding entry.2)) canonical.entries = _
    rw [hget, hcanonical, ← set_map_finding]
    cases findings.lookup entry.1 with
    | none => rfl
    | some f => rw [Option.map_some, mergeEntry_finding]

/-- Where every entry is a finding, it is the value that the table's canonical row gets. -/
theorem entries_consolidatedEntries
    (hcanonical : canonical.entries = findings.map fun e => (e.1, .finding e.2))
    {duplicates : List (Stored J)} {tasks : List (Task J)}
    (htasks : List.Forall₂ (fun duplicate task =>
      duplicate.entries = task.findings.map fun e => (e.1, .finding e.2)) duplicates tasks) :
    (consolidatedEntries canonical duplicates).entries =
      (mergedFindings findings tasks).map fun e => (e.1, .finding e.2) := by
  unfold consolidatedEntries mergedFindings
  induction htasks generalizing canonical findings with
  | nil => exact hcanonical
  | cons hentries _ ih =>
    rw [List.foldl_cons, List.foldl_cons]
    apply ih
    rw [hentries]
    exact entries_foldl_merge hcanonical _

end

/-! ## A disposition that wins -/

/-- A failed check at a time. -/
def failedCheck (t : Int) : Finding Unit where
  state := some "unresolved"
  observedAt := some (.aware t)
  reason := some "checks_failed"
  sourceCommit := none
  rest := ()
  disposition := none

/-- A missing check at a time, retired by its owner. -/
def retiredCheck (t : Int) : Finding Unit :=
  let core : FindingCore Unit :=
    { state := some "unresolved"
      observedAt := some (.aware t)
      reason := some "cloud_ci_missing"
      sourceCommit := none
      rest := () }
  { core with
    disposition := some
      { kind := some "publication_disposition.v1"
        classification := some "administrative"
        state := some "no_longer_required"
        priorFinding := some core } }

/-- A repair task with one finding. -/
def storedCheck (f : Finding Unit) : Stored Unit := ⟨[("ci", .finding f)], by simp⟩

theorem actionable_kept_later :
    Actionable (consolidatedEntries (storedCheck (failedCheck 2)) [storedCheck (retiredCheck 1)])
      "ci" := by
  apply (actionable_kept_iff (storedCheck (failedCheck 2)) [storedCheck (retiredCheck 1)] "ci"
    ⟨storedCheck (failedCheck 2), List.mem_cons_self, .finding (failedCheck 2), rfl, by decide⟩).mpr
  have hopen : openFindings (categoryObjects [storedCheck (failedCheck 2), storedCheck (retiredCheck 1)]
      "ci") = [failedCheck 2, retiredCheck 1] := rfl
  have hlater : timeRank (retiredCheck 1) < timeRank (failedCheck 2) :=
    timeRank_lt_iff.mpr ⟨2, rfl, by decide⟩
  refine ⟨fun hnil => absurd (hopen.symm.trans hnil) (by simp), fun i d hi hd => ?_⟩
  rw [hopen] at hi ⊢
  refine ⟨0, failedCheck 2, rfl, by decide, ?_⟩
  cases i with
  | zero =>
    obtain rfl := Option.some.inj hi
    exact absurd (by decide) hd
  | succ i =>
    cases i with
    | zero =>
      obtain rfl := Option.some.inj hi
      exact .inl hlater
    | succ i => simp at hi

/-- A later finding that was retired takes the place of a failed check. -/
theorem actionable_not_kept :
    ¬ ∀ (canonical : Stored Unit) (duplicates : List (Stored Unit)) (category : String),
      (∃ task ∈ canonical :: duplicates, Actionable task category) →
        Actionable (consolidatedEntries canonical duplicates) category := by
  intro hall
  obtain ⟨entry, hget, hactionable⟩ := hall (storedCheck (failedCheck 1))
    [storedCheck (retiredCheck 2)] "ci"
    ⟨storedCheck (failedCheck 1), List.mem_cons_self, .finding (failedCheck 1), rfl, by decide⟩
  have hkept : (consolidatedEntries (storedCheck (failedCheck 1)) [storedCheck (retiredCheck 2)]).get
      "ci" = some (.finding (retiredCheck 2)) := rfl
  rw [hkept] at hget
  obtain rfl := Option.some.inj hget
  exact absurd hactionable (by decide)

end SummitFlow.Repair
