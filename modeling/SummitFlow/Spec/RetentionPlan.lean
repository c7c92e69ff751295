import SummitFlow.Cli.Autosnapshot

/-!
# What retention keeps

The points retention promises to keep, among those that were captured: the recent ones, the
newest of an hour and of a day for as long as the hour or the day counts, and the newest of
all.  The promise only gets weaker as time passes and points are added, and the plan made
from any part of the captured points selects none of them.
-/

namespace SummitFlow.Snapshots

/-- A point, as retention sees it. -/
structure Point where
  key : Path
  createdAt : Int
deriving DecidableEq, Repr

/-- The newest of the points in its bucket. -/
def NewestOf (bucket : Int → Int) (captured : List Point) (p : Point) : Prop :=
  ∀ q ∈ captured, bucket q.createdAt = bucket p.createdAt → q.createdAt ≤ p.createdAt

/-- The newest of the points in its bucket, where the bucket has a point of at most this
    age. -/
def KeptOf (bucket : Int → Int) (age now : Int) (captured : List Point) (p : Point) : Prop :=
  NewestOf bucket captured p ∧
    ∃ q ∈ captured, bucket q.createdAt = bucket p.createdAt ∧ now - q.createdAt ≤ age

/-- Retention promises to keep the point. -/
def Wanted (policy : AutosnapshotPolicy) (now : Int) (captured : List Point) (p : Point) : Prop :=
  now - p.createdAt ≤ policy.recentHours * hour ∨
    KeptOf (· / hour) (policy.hourlyHours * hour) now captured p ∨
    KeptOf (· / day) (policy.dailyDays * day) now captured p ∨
    ∀ q ∈ captured, q.createdAt ≤ p.createdAt

/-! ## The promise -/

theorem KeptOf.age_le {bucket : Int → Int} {age now : Int} {captured : List Point} {p : Point}
    (h : KeptOf bucket age now captured p) : now - p.createdAt ≤ age := by
  obtain ⟨hnewest, q, hq, hbucket, hage⟩ := h
  have hle := hnewest q hq hbucket
  omega

theorem NewestOf.subset {bucket : Int → Int} {captured captured' : List Point} {p : Point}
    (h : NewestOf bucket captured p) (hsub : captured' ⊆ captured) : NewestOf bucket captured' p :=
  fun q hq => h q (hsub hq)

/-- What is promised at a time was promised before, when there were fewer points. -/
theorem Wanted.earlier {policy : AutosnapshotPolicy} {now now' : Int}
    {captured captured' : List Point} {p : Point} (h : Wanted policy now captured p)
    (hnow : now' ≤ now) (hsub : captured' ⊆ captured) (hp : p ∈ captured') :
    Wanted policy now' captured' p := by
  have hkept : ∀ (bucket : Int → Int) (age : Int), KeptOf bucket age now captured p →
      KeptOf bucket age now' captured' p := by
    intro bucket age hkept
    have hage := hkept.age_le
    exact ⟨hkept.1.subset hsub, p, hp, rfl, by omega⟩
  rcases h with hrecent | hhour | hday | hall
  · exact .inl (by omega)
  · exact .inr (.inl (hkept _ _ hhour))
  · exact .inr (.inr (.inl (hkept _ _ hday)))
  · exact .inr (.inr (.inr fun q hq => hall q (hsub hq)))

/-- Points of one hour are of one day. -/
theorem day_eq_of_hour_eq {a b : Int} (h : a / hour = b / hour) : a / day = b / day := by
  have hday : ∀ c : Int, c / day = c / hour / 24 := by
    intro c
    rw [Int.ediv_ediv_of_nonneg (by decide)]
    rfl
  rw [hday, hday, h]

/-! ## The buckets -/

section

variable {policy : AutosnapshotPolicy} {now : Int} {created : Path → Int}

theorem mem_keepBuckets_of_mem {key : Path} {keys kept : List Path} {hours days : List Int}
    (h : key ∈ kept) : key ∈ keepBuckets policy now created keys kept hours days := by
  induction keys generalizing kept hours days with
  | nil => exact h
  | cons key' keys ih =>
    unfold keepBuckets
    apply ih
    split
    · exact List.mem_cons_of_mem _ h
    · exact h

/-- The loop keeps a point that is recent, or that is the first of its hour or of its
    day. -/
theorem mem_keepBuckets {key : Path} {before after kept : List Path} {hours days : List Int}
    (h : now - created key ≤ policy.recentHours * hour ∨
      (now - created key ≤ policy.hourlyHours * hour ∧ created key / hour ∉ hours ∧
        ∀ key' ∈ before, created key' / hour ≠ created key / hour) ∨
      (policy.hourlyHours * hour < now - created key ∧
        now - created key ≤ policy.dailyDays * day ∧ created key / day ∉ days ∧
        ∀ key' ∈ before, created key' / day ≠ created key / day)) :
    key ∈ keepBuckets policy now created (before ++ key :: after) kept hours days := by
  induction before generalizing kept hours days with
  | nil =>
    rw [List.nil_append, keepBuckets]
    apply mem_keepBuckets_of_mem
    rw [if_pos]
    · exact List.mem_cons_self
    · rcases h with hrecent | ⟨hage, hnew, -⟩ | ⟨hold, hage, hnew, -⟩
      · exact .inl hrecent
      · exact .inr (.inl ⟨hage, hnew⟩)
      · exact .inr (.inr ⟨hold, hage, hnew⟩)
  | cons key' before ih =>
    rw [List.cons_append, keepBuckets]
    apply ih
    -- another bucket than that of `key'`
    have hnotMem : ∀ (c : Prop) [Decidable c] (a b : Int) (seen : List Int), a ∉ seen → b ≠ a →
        a ∉ if c then b :: seen else seen := by
      intro c _ a b seen hseen hne
      split
      · exact fun hmem => (List.mem_cons.mp hmem).elim (fun heq => hne heq.symm) hseen
      · exact hseen
    rcases h with hrecent | ⟨hage, hnew, hothers⟩ | ⟨hold, hage, hnew, hothers⟩
    · exact .inl hrecent
    · exact .inr (.inl ⟨hage, hnotMem _ _ _ _ hnew (hothers key' List.mem_cons_self),
        fun k hk => hothers k (List.mem_cons_of_mem _ hk)⟩)
    · exact .inr (.inr ⟨hold, hage, hnotMem _ _ _ _ hnew (hothers key' List.mem_cons_self),
        fun k hk => hothers k (List.mem_cons_of_mem _ hk)⟩)

end

/-! ## The plan -/

/-- The first of a list that is sorted from the newest on. -/
theorem mem_upTo_one {α : Type} {key : α → Int} {a : α} {l : List α} (hmem : a ∈ l)
    (hsorted : l.Pairwise fun b c => -key b ≤ -key c)
    (h : ∀ b ∈ l, key a ≤ key b → b = a) : a ∈ upTo 1 l := by
  cases l with
  | nil => cases hmem
  | cons b l =>
    have hfirst : key a ≤ key b := by
      rcases List.mem_cons.mp hmem with rfl | hrest
      · exact Int.le_refl _
      · have hle := (List.pairwise_cons.mp hsorted).1 a hrest
        omega
    rw [← h b List.mem_cons_self hfirst]
    exact List.mem_cons_self

/-- Where a wanted point that is not the newest of all is in a list that is sorted from the
    newest on, the loop finds it recent, or first of its hour or of its day. -/
theorem Wanted.first {policy : AutosnapshotPolicy} {now : Int} {captured : List Point} {p : Point}
    (h : Wanted policy now captured p) (hall : ¬ ∀ q ∈ captured, q.createdAt ≤ p.createdAt)
    {created : Path → Int} (hp : created p.key = p.createdAt) {before : List Path}
    (hnewer : ∀ key ∈ before, ⟨key, created key⟩ ∈ captured ∧ p.createdAt < created key) :
    now - created p.key ≤ policy.recentHours * hour ∨
      (now - created p.key ≤ policy.hourlyHours * hour ∧ created p.key / hour ∉ ([] : List Int) ∧
        ∀ key' ∈ before, created key' / hour ≠ created p.key / hour) ∨
      (policy.hourlyHours * hour < now - created p.key ∧
        now - created p.key ≤ policy.dailyDays * day ∧ created p.key / day ∉ ([] : List Int) ∧
        ∀ key' ∈ before, created key' / day ≠ created p.key / day) := by
  have hfirst : ∀ bucket : Int → Int, NewestOf bucket captured p →
      ∀ key' ∈ before, bucket (created key') ≠ bucket p.createdAt := by
    intro bucket hnewest key' hkey' heq
    obtain ⟨hmem, hlt⟩ := hnewer key' hkey'
    have hle := hnewest _ hmem heq
    exact absurd hlt (Int.not_lt.mpr hle)
  rw [hp]
  rcases h with hrecent | hhour | hday | hnewest
  · exact .inl hrecent
  · exact .inr (.inl ⟨hhour.age_le, List.not_mem_nil, hfirst (· / hour) hhour.1⟩)
  · -- the newest of a day is the newest of its hour
    have hnotDay := hfirst (· / day) hday.1
    by_cases hage : now - p.createdAt ≤ policy.hourlyHours * hour
    · refine .inr (.inl ⟨hage, List.not_mem_nil, ?_⟩)
      exact fun key' hkey' heq => hnotDay key' hkey' (day_eq_of_hour_eq heq)
    · exact .inr (.inr ⟨by omega, hday.age_le, List.not_mem_nil, hnotDay⟩)
  · exact absurd hnewest hall

section

variable {host : Host} {policy : AutosnapshotPolicy} {now : Int} {released : List String}
variable {points : List Path} {isDir : Path → Bool} {entries : List QuickSnapshot}
variable {captured : List Point}

/-- A group has a creation time, which is that of one of its entries. -/
theorem created_group {key : Path} {views : List QuickSnapshot}
    (h : key ∈ (Dict.group (fun entry => pointKey host entry.snapshotPath) views).map Prod.fst) :
    ∃ entry ∈ views, pointKey host entry.snapshotPath = key ∧
      (((Dict.get? key (Dict.group (fun entry => pointKey host entry.snapshotPath) views)).getD []).map
        (·.createdAt)).min?.getD 0 = entry.createdAt := by
  rw [Dict.get?_group]
  obtain ⟨entry, hentry, hkey⟩ := Dict.mem_keys_group.mp h
  have hmem : entry ∈ views.filter fun e => pointKey host e.snapshotPath = key :=
    List.mem_filter.mpr ⟨hentry, by simpa using hkey⟩
  cases hmin : ((views.filter fun e => pointKey host e.snapshotPath = key).map (·.createdAt)).min? with
  | none =>
    rw [List.min?_eq_none_iff, List.map_eq_nil_iff] at hmin
    rw [hmin] at hmem
    cases hmem
  | some created =>
    obtain ⟨e, he, rfl⟩ := List.mem_map.mp (List.min?_mem hmin)
    obtain ⟨hview, hkey'⟩ := List.mem_filter.mp he
    exact ⟨e, hview, by simpa using hkey', rfl⟩

/-- Among points with different creation times, what is kept by age and bucket has every
    wanted one. -/
theorem mem_kept {keys : List Path} {created : Path → Int} (hnodup : keys.Nodup)
    (hcreated : ∀ key ∈ keys, ⟨key, created key⟩ ∈ captured)
    (hkeys : ∀ a ∈ captured, ∀ b ∈ captured, a.key = b.key → a.createdAt = b.createdAt)
    (htimes : ∀ a ∈ captured, ∀ b ∈ captured, a.createdAt = b.createdAt → a.key = b.key)
    {p : Point} (hp : p ∈ captured) (hmem : p.key ∈ keys) (h : Wanted policy now captured p)
    (heldKeys : List Path) :
    p.key ∈ keepBuckets policy now created (sortBy (fun key => -created key) keys)
      (heldKeys ++ upTo 1 (sortBy (fun key => -created key) keys)) [] [] := by
  have hsorted := pairwise_sortBy (fun key => -created key) keys
  have hnodup' : (sortBy (fun key => -created key) keys).Nodup :=
    (perm_sortBy _ keys).nodup_iff.mpr hnodup
  have hcreated' : ∀ key ∈ sortBy (fun key => -created key) keys, ⟨key, created key⟩ ∈ captured :=
    fun key hkey => hcreated key (mem_sortBy.mp hkey)
  rw [← @mem_sortBy _ _ _ (fun key => -created key)] at hmem
  have htime : created p.key = p.createdAt := hkeys _ (hcreated' _ hmem) p hp rfl
  generalize sortBy (fun key => -created key) keys = newest at hsorted hnodup' hcreated' hmem ⊢
  by_cases hall : ∀ q ∈ captured, q.createdAt ≤ p.createdAt
  · apply mem_keepBuckets_of_mem
    apply List.mem_append_right
    apply mem_upTo_one hmem hsorted
    intro key hkey hle
    have hle' := hall _ (hcreated' key hkey)
    exact htimes _ (hcreated' key hkey) p hp (by dsimp only at hle' ⊢; omega)
  · obtain ⟨before, after, rfl⟩ := List.append_of_mem hmem
    apply mem_keepBuckets
    apply h.first hall htime
    -- what comes before it in the list is newer
    intro key hkey
    have hbefore := hcreated' key (List.mem_append_left _ hkey)
    refine ⟨hbefore, ?_⟩
    have hle : -created key ≤ -created p.key :=
      (List.pairwise_append.mp hsorted).2.2 key hkey p.key List.mem_cons_self
    have hne : key ≠ p.key :=
      (List.pairwise_append.mp hnodup').2.2 key hkey p.key List.mem_cons_self
    have hdiffer : created key ≠ p.createdAt := fun heq => hne (htimes _ hbefore p hp heq)
    omega

/-- The plan never selects a point that retention promises to keep. -/
theorem notMem_planRetention
    (hknown : ∀ entry ∈ entries, ⟨pointKey host entry.snapshotPath, entry.createdAt⟩ ∈ captured)
    (hkeys : ∀ a ∈ captured, ∀ b ∈ captured, a.key = b.key → a.createdAt = b.createdAt)
    (htimes : ∀ a ∈ captured, ∀ b ∈ captured, a.createdAt = b.createdAt → a.key = b.key)
    {p : Point} (hp : p ∈ captured) (h : Wanted policy now captured p) :
    p.key ∉ planRetention host policy false now released points isDir entries := by
  unfold planRetention
  dsimp only
  intro hplan
  obtain ⟨hnewest, hnotKept⟩ := List.mem_filter.mp hplan
  rw [decide_eq_true_eq] at hnotKept
  apply hnotKept
  rw [List.mem_reverse, mem_sortBy] at hnewest
  apply List.mem_append_left
  refine mem_kept (Dict.nodup_group _ _) ?_ hkeys htimes hp hnewest h _
  intro key hkey
  obtain ⟨entry, hentry, rfl, hcreated⟩ := created_group hkey
  rw [hcreated]
  exact hknown entry (List.mem_filter.mp hentry).1

end

end SummitFlow.Snapshots
