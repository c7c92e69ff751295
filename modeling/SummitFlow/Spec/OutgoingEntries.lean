import Mathlib
import SummitFlow.ForStd.Run
import SummitFlow.Services.Outgoing

/-!
# What the walk over the commits lets pass

A listing is read back as the tree it was made from.  The walk over the commits keeps one set of
entries that are not looked at again, and passes exactly if every commit is clean: an entry that
is passed over was looked at before, or is in a tree of the destination.
-/

namespace SummitFlow.Outgoing

theorem except_bind_ok_iff {α β ω : Type} {x : Except ω α} {f : α → Except ω β} {b : β} :
    x.bind f = .ok b ↔ ∃ a, x = .ok a ∧ f a = .ok b := by
  constructor
  · exact bind_ok
  · rintro ⟨a, rfl, h⟩
    exact h

/-! ## Listings -/

/-- The blobs of a tree. -/
def keysOf (tree : List TreeEntry) : List TreeKey :=
  (tree.filter fun entry => entry.kind = .blob).map fun entry => (entry.path, entry.mode, ascii entry.oid)

theorem hexDigit_range {c : Char} (h : isHexDigit c = true) : 48 ≤ c.toNat ∧ c.toNat ≤ 102 := by
  simp only [isHexDigit, Bool.or_eq_true, Bool.and_eq_true, decide_eq_true_eq, Char.le_def,
    UInt32.le_iff_toNat_le] at h
  have hval : c.val.toNat = c.toNat := rfl
  have hlits : ('0' : Char).val.toNat = 48 ∧ ('9' : Char).val.toNat = 57 ∧
    ('a' : Char).val.toNat = 97 ∧ ('f' : Char).val.toNat = 102 := by decide
  omega

theorem toNat_byte {n : Nat} (h : n < 256) : (UInt8.ofNat n).toNat = n := UInt8.toNat_ofNat_of_lt' h

/-- A hexadecimal digit is a byte of its own, no blank and no NUL. -/
theorem oid_byte {oid : Oid} (h : isOid oid = true) {b : UInt8} (hb : b ∈ ascii oid) :
    isSpaceByte b = false ∧ b ≠ 0 := by
  obtain ⟨c, hc, rfl⟩ := List.mem_map.mp hb
  rw [isOid, Bool.and_eq_true, List.all_eq_true] at h
  have hrange := hexDigit_range (h.2 c hc)
  have hval : (UInt8.ofNat c.toNat).toNat = c.toNat := toNat_byte (by omega)
  have hne : ∀ n : Nat, n < 48 → UInt8.ofNat c.toNat ≠ UInt8.ofNat n := by
    intro n hn heq
    have htoNat := congrArg UInt8.toNat heq
    rw [hval, toNat_byte (by omega)] at htoNat
    omega
  refine ⟨?_, hne 0 (by omega)⟩
  have hblank : UInt8.ofNat c.toNat ≠ 32 := hne 32 (by omega)
  have hhigh : ¬ UInt8.ofNat c.toNat ≤ 13 := by
    rw [UInt8.le_iff_toNat_le, hval]
    show ¬ c.toNat ≤ 13
    omega
  simp [isSpaceByte, hblank, hhigh]

theorem oid_ne_nil {oid : Oid} (h : isOid oid = true) : ascii oid ≠ [] := by
  intro hnil
  unfold ascii at hnil
  rw [List.map_eq_nil_iff] at hnil
  rw [isOid, hnil] at h
  simp at h

theorem kind_word (kind : Kind) : kind.text ≠ [] ∧ ∀ b ∈ kind.text, isSpaceByte b = false ∧ b ≠ 0 := by
  cases kind <;> decide +kernel

/-- The words of a line of three words. -/
theorem words_three {a b c : Bytes} (ha : a ≠ []) (hb : b ≠ []) (hc : c ≠ [])
    (hwa : ∀ x ∈ a, isSpaceByte x = false) (hwb : ∀ x ∈ b, isSpaceByte x = false)
    (hwc : ∀ x ∈ c, isSpaceByte x = false) : words (a ++ 32 :: (b ++ 32 :: c)) = [a, b, c] := by
  unfold words
  rw [List.splitOnP_append_cons_of_forall_mem hwa 32 (by decide),
    List.splitOnP_append_cons_of_forall_mem hwb 32 (by decide), List.splitOnP_eq_singleton hwc]
  simp [ha, hb, hc]

/-- One line of a listing, without its NUL. -/
def lineOf (entry : TreeEntry) : Bytes :=
  (entry.mode ++ 32 :: (entry.kind.text ++ 32 :: ascii entry.oid)) ++ 9 :: entry.path

theorem readEntry_lineOf {entry : TreeEntry} (h : entry.WellFormed) :
    readEntry (lineOf entry) =
      .ok (if entry.kind = .blob then some (entry.path, entry.mode, ascii entry.oid) else none) := by
  have hkind := kind_word entry.kind
  have htab : 9 ∉ entry.mode ++ 32 :: (entry.kind.text ++ 32 :: ascii entry.oid) := by
    intro hmem
    simp only [List.mem_append, List.mem_cons] at hmem
    have hspace : isSpaceByte 9 = true := by decide
    rcases hmem with hmode | hblank | hname | hblank | hoid
    · simp [(h.modeWord 9 hmode).1] at hspace
    · exact absurd hblank (by decide)
    · simp [(hkind.2 9 hname).1] at hspace
    · exact absurd hblank (by decide)
    · simp [(oid_byte h.oid hoid).1] at hspace
  unfold readEntry lineOf
  rw [Framing.cut_of_notMem htab]
  dsimp only
  rw [words_three h.mode hkind.1 (oid_ne_nil h.oid) (fun b hb => (h.modeWord b hb).1)
    (fun b hb => (hkind.2 b hb).1) (fun b hb => (oid_byte h.oid hb).1)]
  dsimp only
  cases entry.kind <;> rfl

theorem nul_notMem_lineOf {entry : TreeEntry} (h : entry.WellFormed) : 0 ∉ lineOf entry := by
  intro hmem
  unfold lineOf at hmem
  simp only [List.mem_append, List.mem_cons] at hmem
  rcases hmem with (hmode | hblank | hname | hblank | hoid) | htab | hpath
  · exact (h.modeWord 0 hmode).2 rfl
  · exact absurd hblank (by decide)
  · exact ((kind_word entry.kind).2 0 hname).2 rfl
  · exact absurd hblank (by decide)
  · exact (oid_byte h.oid hoid).2 rfl
  · exact absurd htab (by decide)
  · exact h.path hpath

theorem lineOf_ne_nil (entry : TreeEntry) : lineOf entry ≠ [] := by simp [lineOf]

theorem splitOn_lsTree {tree : List TreeEntry} (h : ∀ entry ∈ tree, entry.WellFormed) :
    ((lsTree tree).splitOn 0).filter (· ≠ []) = tree.map lineOf := by
  induction tree with
  | nil => rfl
  | cons entry tree ih =>
    have hline : lsTree (entry :: tree) = lineOf entry ++ 0 :: lsTree tree := by
      simp [lsTree, lineOf]
    rw [hline, List.splitOn_append_cons_self_of_not_mem
      (nul_notMem_lineOf (h entry List.mem_cons_self)), List.filter_cons,
      if_pos (by simp [lineOf_ne_nil]), List.map_cons,
      ih fun e he => h e (List.mem_cons_of_mem _ he)]

theorem mapM_readEntry {tree : List TreeEntry} (h : ∀ entry ∈ tree, entry.WellFormed) :
    (tree.map lineOf).mapM readEntry = .ok (tree.map fun entry =>
      if entry.kind = .blob then some (entry.path, entry.mode, ascii entry.oid) else none) := by
  induction tree with
  | nil => rfl
  | cons entry tree ih =>
    rw [List.map_cons, List.mapM_cons, readEntry_lineOf (h entry List.mem_cons_self),
      ih fun e he => h e (List.mem_cons_of_mem _ he)]
    rfl

/-- A listing is read back as it was written: all its blobs, and only those. -/
theorem readTree_lsTree {tree : List TreeEntry} (h : ∀ entry ∈ tree, entry.WellFormed) :
    readTree (lsTree tree) = .ok (keysOf tree).dedup := by
  have hkeys : (tree.map fun entry =>
      if entry.kind = .blob then some (entry.path, entry.mode, ascii entry.oid) else none).reduceOption =
        keysOf tree := by
    clear h
    induction tree with
    | nil => rfl
    | cons entry tree ih =>
      rw [List.map_cons, keysOf, List.filter_cons]
      by_cases hkind : entry.kind = .blob
      · rw [if_pos hkind, if_pos (by simpa using hkind), List.reduceOption_cons_of_some, ih]
        rfl
      · rw [if_neg hkind, if_neg (by simpa using hkind), List.reduceOption_cons_of_none, ih]
        rfl
  unfold readTree
  rw [splitOn_lsTree h, mapM_readEntry h]
  exact congrArg (fun keys : List TreeKey => Except.ok keys.dedup) hkeys

/-! ## Objects -/

section

variable {repo : Repo} {oid : Oid}

theorem object_of_peelFrom {depth : Nat} {c : Oid} (h : repo.peelFrom depth oid = some c) :
    ∃ body parents tree, repo.object c = some (.commit body parents tree) := by
  induction depth generalizing oid with
  | zero => cases h
  | succ depth ih =>
    rw [Repo.peelFrom] at h
    cases hobject : repo.object oid with
    | none =>
      rw [hobject] at h
      cases h
    | some o =>
      rw [hobject] at h
      cases o with
      | blob body => cases h
      | commit body parents tree =>
        obtain rfl := Option.some.inj h
        exact ⟨body, parents, tree, hobject⟩
      | tag body target => exact ih h

/-- What an object is peeled to is a commit. -/
theorem object_of_peel {c : Oid} (h : repo.peel oid = some c) :
    ∃ body parents tree, repo.object c = some (.commit body parents tree) :=
  object_of_peelFrom h

/-- A commit is not peeled. -/
theorem peel_commit {body : Bytes} {parents : List Oid} {tree : List TreeEntry}
    (h : repo.object oid = some (.commit body parents tree)) : repo.peel oid = some oid := by
  unfold Repo.peel Repo.peelFrom
  rw [h]

/-- A commit leads to commits only. -/
theorem commit_of_leads {a b : Oid} (h : repo.history.Leads a b)
    (ha : (repo.object a).any Object.isCommit = true) : (repo.object b).any Object.isCommit = true := by
  induction h with
  | refl => exact ha
  | @tail mid last _ hedge _ =>
    have hparent : last ∈ repo.parents mid := hedge
    unfold Repo.parents at hparent
    cases hobject : repo.object mid with
    | none => simp [hobject] at hparent
    | some o =>
      rw [hobject] at hparent
      exact repo.parents_commit mid o hobject last hparent

theorem exists_commit (h : (repo.object oid).any Object.isCommit = true) :
    ∃ body parents tree, repo.object oid = some (.commit body parents tree) := by
  cases hobject : repo.object oid with
  | none => simp [hobject] at h
  | some o =>
    cases o with
    | blob body => simp [hobject, Object.isCommit] at h
    | commit body parents tree => exact ⟨body, parents, tree, rfl⟩
    | tag body target => simp [hobject, Object.isCommit] at h

theorem any_commit {body : Bytes} {parents : List Oid} {tree : List TreeEntry}
    (h : repo.object oid = some (.commit body parents tree)) :
    (repo.object oid).any Object.isCommit = true := by
  rw [h]
  rfl

/-- The blobs in the tree of a commit. -/
def Repo.entries (repo : Repo) (commit : Oid) : List TreeKey :=
  keysOf (((repo.object commit).map Object.tree).getD [])

/-- What a commit says of itself. -/
def Repo.body (repo : Repo) (commit : Oid) : Bytes :=
  match repo.object commit with
  | some (.commit body _ _) => body
  | _ => []

end

section

variable {host : Host} {policy : Policy}

theorem treeEntries_ok {oid c : Oid} (h : host.repo.peel oid = some c) :
    host.treeEntries oid = .ok (host.repo.entries c).dedup := by
  obtain ⟨body, parents, tree, hobject⟩ := object_of_peel h
  unfold Host.treeEntries Repo.entries
  rw [h, Option.bind_some, hobject]
  exact readTree_lsTree (host.repo.tree_wellFormed c _ hobject)

theorem commitBody_ok {c : Oid} (h : (host.repo.object c).any Object.isCommit = true) :
    host.commitBody c = .ok (host.repo.body c) := by
  obtain ⟨body, parents, tree, hobject⟩ := exists_commit h
  unfold Host.commitBody Repo.body
  rw [hobject]

/-! ## New entries -/

/-- The bytes of the blob an entry names. -/
def Host.keyBody (host : Host) (key : TreeKey) : Bytes :=
  match host.repo.object (decodeAscii key.2.2) with
  | some (.blob body) => body
  | _ => []

/-- The path policy, the content patterns and the test for lone tokens let an entry out. -/
structure CleanEntry (host : Host) (policy : Policy) (key : TreeKey) : Prop where
  path : pathMatches host.lower (host.fsdecode key.1) policy.allowed = true ∨
    pathMatches host.lower (host.fsdecode key.1) policy.denied = false ∨
    reviewedNpmrc host.lower (host.fsdecode key.1) key.2.1 (host.keyBody key) policy.denied = true
  content : sensitive (host.keyBody key) = false
  token : loneToken host.lower (host.fsdecode key.1) (host.keyBody key) = false

/-- The blob of an entry is there. -/
def HasBlob (host : Host) (key : TreeKey) : Prop :=
  host.blobBody (decodeAscii key.2.2) = .ok (host.keyBody key)

theorem decodeAscii_ascii {oid : Oid} (h : isOid oid = true) : decodeAscii (ascii oid) = oid := by
  rw [isOid, Bool.and_eq_true, List.all_eq_true] at h
  unfold decodeAscii ascii
  rw [List.map_map, ← String.toList_inj, String.toList_ofList]
  conv_rhs => rw [← List.map_id oid.toList]
  apply List.map_congr_left
  intro c hc
  have hrange := hexDigit_range (h.2 c hc)
  show Char.ofNat (UInt8.ofNat c.toNat).toNat = c
  rw [toNat_byte (by omega), Char.ofNat_toNat]

theorem hasBlob_of_mem {c : Oid} {key : TreeKey} (h : key ∈ host.repo.entries c) : HasBlob host key := by
  unfold Repo.entries at h
  cases hobject : host.repo.object c with
  | none => simp [hobject, keysOf] at h
  | some o =>
    rw [hobject] at h
    obtain ⟨entry, hentry, rfl⟩ := List.mem_map.mp h
    rw [List.mem_filter, decide_eq_true_eq] at hentry
    have hwell := host.repo.tree_wellFormed c o hobject entry hentry.1
    obtain ⟨body, hblob⟩ := host.repo.tree_blob c o hobject entry hentry.1 hentry.2
    unfold HasBlob Host.blobBody Host.keyBody
    dsimp only
    rw [decodeAscii_ascii hwell.oid, hblob]

theorem checkEntry_ok_iff {key : TreeKey} (h : HasBlob host key) :
    host.checkEntry policy key = .ok () ↔ CleanEntry host policy key := by
  unfold Host.checkEntry
  dsimp only
  rw [show host.blobBody (decodeAscii key.2.2) = .ok (host.keyBody key) from h]
  show (if _ then _ else _) = _ ↔ _
  constructor
  · intro hok
    split at hok
    · cases hok
    · rename_i hpath
      split at hok
      · cases hok
      · rename_i hbody
        rw [Bool.or_eq_true, not_or, Bool.not_eq_true, Bool.not_eq_true] at hbody
        refine ⟨?_, hbody.1, hbody.2⟩
        simp only [Bool.and_eq_true, Bool.not_eq_true', not_and_or, Bool.not_eq_true,
          Bool.not_eq_false] at hpath
        tauto
  · intro hclean
    rw [if_neg, if_neg]
    · simp [hclean.content, hclean.token]
    · rcases hclean.path with hpath | hpath | hpath <;> simp [hpath]

/-- The entries of one commit pass if the new ones are clean; all of them are seen then. -/
theorem checkEntries_spec {keys seen seen' : List TreeKey} (hblob : ∀ key ∈ keys, HasBlob host key) :
    host.checkEntries policy seen keys = .ok seen' →
      (∀ key ∈ keys, key ∈ seen ∨ CleanEntry host policy key) ∧
        ∀ key, key ∈ seen' ↔ key ∈ seen ∨ key ∈ keys := by
  induction keys generalizing seen with
  | nil =>
    intro h
    obtain rfl := Except.ok.inj h
    simp
  | cons key keys ih =>
    intro h
    have hrest : ∀ key ∈ keys, HasBlob host key := fun k hk => hblob k (List.mem_cons_of_mem _ hk)
    rw [Host.checkEntries] at h
    by_cases hseen : key ∈ seen
    · rw [if_pos hseen] at h
      obtain ⟨hclean, hmem⟩ := ih hrest h
      constructor
      · intro k hk
        cases List.mem_cons.mp hk with
        | inl heq =>
          rw [heq]
          exact .inl hseen
        | inr hk => exact hclean k hk
      · intro k
        rw [hmem, List.mem_cons]
        constructor
        · tauto
        · rintro (hk | rfl | hk)
          · exact .inl hk
          · exact .inl hseen
          · exact .inr hk
    · rw [if_neg hseen] at h
      obtain ⟨_, hentry, h⟩ := except_bind_ok_iff.mp h
      have hkey := (checkEntry_ok_iff (hblob key List.mem_cons_self)).mp hentry
      obtain ⟨hclean, hmem⟩ := ih hrest h
      constructor
      · intro k hk
        cases List.mem_cons.mp hk with
        | inl heq =>
          rw [heq]
          exact .inr hkey
        | inr hk =>
          cases hclean k hk with
          | inl hk =>
            cases List.mem_cons.mp hk with
            | inl heq =>
              rw [heq]
              exact .inr hkey
            | inr hk => exact .inl hk
          | inr hk => exact .inr hk
      · intro k
        rw [hmem, List.mem_cons, List.mem_cons]
        tauto

theorem checkEntries_ok {keys seen : List TreeKey} (hblob : ∀ key ∈ keys, HasBlob host key)
    (h : ∀ key ∈ keys, key ∈ seen ∨ CleanEntry host policy key) :
    ∃ seen', host.checkEntries policy seen keys = .ok seen' := by
  induction keys generalizing seen with
  | nil => exact ⟨seen, rfl⟩
  | cons key keys ih =>
    have hrest : ∀ key ∈ keys, HasBlob host key := fun k hk => hblob k (List.mem_cons_of_mem _ hk)
    rw [Host.checkEntries]
    by_cases hseen : key ∈ seen
    · rw [if_pos hseen]
      exact ih hrest fun k hk => h k (List.mem_cons_of_mem _ hk)
    · rw [if_neg hseen]
      have hclean := (h key List.mem_cons_self).resolve_left hseen
      rw [(checkEntry_ok_iff (hblob key List.mem_cons_self)).mpr hclean]
      apply ih hrest
      intro k hk
      exact (h k (List.mem_cons_of_mem _ hk)).imp_left (List.mem_cons_of_mem _)

/-! ## Commits -/

/-- Nothing in a commit is sensitive, apart from entries that are known. -/
structure CleanCommit (host : Host) (policy : Policy) (known : TreeKey → Prop) (c : Oid) : Prop where
  metadata : sensitive (host.repo.body c) = false
  entries : ∀ key ∈ host.repo.entries c, known key ∨ CleanEntry host policy key

theorem mem_order {c : Oid} {key : TreeKey} :
    key ∈ host.setOrder.order (host.repo.entries c).dedup ↔ key ∈ host.repo.entries c := by
  rw [(host.setOrder.perm _).mem_iff, List.mem_dedup]

theorem checkCommit_spec {c : Oid} {seen seen' : List TreeKey}
    (hc : (host.repo.object c).any Object.isCommit = true)
    (h : host.checkCommit policy seen c = .ok seen') :
    CleanCommit host policy (· ∈ seen) c ∧
      ∀ key, key ∈ seen' ↔ key ∈ seen ∨ key ∈ host.repo.entries c := by
  obtain ⟨body, parents, tree, hobject⟩ := exists_commit hc
  unfold Host.checkCommit at h
  rw [commitBody_ok hc] at h
  replace h : (if sensitive (host.repo.body c) = true then _ else _) = Except.ok seen' := h
  split at h
  · cases h
  · rename_i hbody
    rw [treeEntries_ok (peel_commit hobject)] at h
    obtain ⟨hentries, hmem⟩ := checkEntries_spec
      (fun key hkey => hasBlob_of_mem (mem_order.mp hkey)) h
    constructor
    · exact ⟨Bool.not_eq_true _ ▸ hbody, fun key hkey => hentries key (mem_order.mpr hkey)⟩
    · intro key
      rw [hmem, mem_order]

theorem checkCommit_ok {c : Oid} {seen : List TreeKey}
    (hc : (host.repo.object c).any Object.isCommit = true)
    (h : CleanCommit host policy (· ∈ seen) c) : ∃ seen', host.checkCommit policy seen c = .ok seen' := by
  obtain ⟨body, parents, tree, hobject⟩ := exists_commit hc
  unfold Host.checkCommit
  rw [commitBody_ok hc]
  show ∃ seen', (if sensitive (host.repo.body c) = true then _ else _) = Except.ok seen'
  rw [if_neg (by rw [h.metadata]; decide), treeEntries_ok (peel_commit hobject)]
  exact checkEntries_ok (fun key hkey => hasBlob_of_mem (mem_order.mp hkey))
    fun key hkey => h.entries key (mem_order.mp hkey)

theorem CleanCommit.mono {known known' : TreeKey → Prop} {c : Oid} (h : CleanCommit host policy known c)
    (hknown : ∀ key, known key → known' key ∨ CleanEntry host policy key) :
    CleanCommit host policy known' c := by
  refine ⟨h.metadata, fun key hkey => ?_⟩
  cases h.entries key hkey with
  | inl hk => exact hknown key hk
  | inr hclean => exact .inr hclean

/-- The walk over the commits passes if each of them is clean: an entry seen in a commit before
    was looked at there. -/
theorem checkCommits_ok_iff {commits : List Oid} {seen : List TreeKey}
    (hcommits : ∀ c ∈ commits, (host.repo.object c).any Object.isCommit = true) :
    (∃ seen', host.checkCommits policy seen commits = .ok seen') ↔
      ∀ c ∈ commits, CleanCommit host policy (· ∈ seen) c := by
  induction commits generalizing seen with
  | nil => simp [Host.checkCommits]
  | cons c commits ih =>
    have hc := hcommits c List.mem_cons_self
    have hrest : ∀ c ∈ commits, (host.repo.object c).any Object.isCommit = true :=
      fun d hd => hcommits d (List.mem_cons_of_mem _ hd)
    rw [List.forall_mem_cons]
    constructor
    · intro h
      obtain ⟨seen', h⟩ := h
      obtain ⟨next, hfirst, h⟩ := except_bind_ok_iff.mp h
      obtain ⟨hclean, hmem⟩ := checkCommit_spec hc hfirst
      refine ⟨hclean, fun d hd => ?_⟩
      apply CleanCommit.mono ((ih hrest).mp ⟨seen', h⟩ d hd)
      intro key hkey
      cases (hmem key).mp hkey with
      | inl hseen => exact .inl hseen
      | inr hentry => exact hclean.entries key hentry
    · intro h
      obtain ⟨hclean, hothers⟩ := h
      obtain ⟨next, hfirst⟩ := checkCommit_ok hc hclean
      have hmem := (checkCommit_spec hc hfirst).2
      have hnext : ∀ d ∈ commits, CleanCommit host policy (· ∈ next) d :=
        fun d hd => (hothers d hd).mono fun key hkey => .inl ((hmem key).mpr (.inl hkey))
      obtain ⟨seen', h⟩ := (ih hrest).mpr hnext
      exact ⟨seen', except_bind_ok_iff.mpr ⟨next, hfirst, h⟩⟩

/-- The entries of the destination are those of the trees of its commits. -/
theorem knownEntries_ok {commits : List Oid} {seen : List TreeKey}
    (h : ∀ c ∈ commits, (host.repo.peel c).isSome = true) :
    ∃ seen', host.knownEntries seen commits = .ok seen' ∧
      ∀ key, key ∈ seen' ↔
        key ∈ seen ∨ ∃ c ∈ commits, ∃ b, host.repo.peel c = some b ∧ key ∈ host.repo.entries b := by
  induction commits generalizing seen with
  | nil => exact ⟨seen, rfl, by simp⟩
  | cons c commits ih =>
    obtain ⟨b, hb⟩ := Option.isSome_iff_exists.mp (h c List.mem_cons_self)
    obtain ⟨seen', hseen', hmem⟩ := @ih (seen ++ (host.repo.entries b).dedup)
      fun d hd => h d (List.mem_cons_of_mem _ hd)
    refine ⟨seen', except_bind_ok_iff.mpr ⟨_, treeEntries_ok hb, hseen'⟩, fun key => ?_⟩
    rw [hmem, List.mem_append, List.mem_dedup, List.exists_mem_cons_iff, or_assoc]
    simp [hb]

end

end SummitFlow.Outgoing
