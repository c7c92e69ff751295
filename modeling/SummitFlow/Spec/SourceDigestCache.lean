import SummitFlow.Cli.SourceDigest
import SummitFlow.ForStd.Run

/-!
# The cache of source digests

A call with the cache gives the digest a call without it gives, whatever was edited between
the calls before it, as long as an identity that is seen again has the content it had.  The
invariant is that every entry of the cache file is the digest of an entry that some earlier
call saw.  The one difference is a path that cannot be looked up, below a file for example:
it is missing to the call without the cache, and the call with the cache refuses.
-/

namespace SummitFlow.SourceDigest

open SummitFlow.Json (Value)

variable {sha : List UInt8 → String}

/-! ## Calls that agree -/

/-- A call with a state gives what the plain call gives, where the condition holds; otherwise
    it refuses. -/
structure Agrees {σ α : Type} (clear : Prop) (inv : σ → Prop) (x : Except Failure (α × σ))
    (y : Except Failure (α × Unit)) : Prop where
  ok : ∀ a s, x = .ok (a, s) → clear ∧ inv s ∧ y = .ok (a, ())
  error : ∀ failure, x = .error failure → clear → ∃ raised, y = .error raised

section

variable {σ α β : Type} {inv : σ → Prop}

theorem Agrees.pure {a : α} {s : σ} (h : inv s) :
    Agrees True inv (.ok (a, s)) (.ok (a, ())) where
  ok a' s' heq := by
    obtain ⟨rfl, rfl⟩ := Prod.mk.inj (Except.ok.inj heq)
    exact ⟨trivial, h, rfl⟩
  error failure heq := by cases heq

theorem Agrees.bind {clear : Prop} {clear' : α → Prop} {x : Except Failure (α × σ)}
    {y : Except Failure (α × Unit)} {f : α × σ → Except Failure (β × σ)}
    {g : α × Unit → Except Failure (β × Unit)} (h : Agrees clear inv x y)
    (hf : ∀ a s, inv s → Agrees (clear' a) inv (f (a, s)) (g (a, ()))) :
    Agrees (clear ∧ ∀ a, y = .ok (a, ()) → clear' a) inv (x.bind f) (y.bind g) where
  ok b s heq := by
    cases hx : x with
    | error failure =>
      rw [hx] at heq
      cases heq
    | ok read =>
      obtain ⟨a, s'⟩ := read
      obtain ⟨hclear, hinv, hy⟩ := h.ok a s' hx
      rw [hx] at heq
      obtain ⟨hclear', hinv', hg⟩ := (hf a s' hinv).ok b s heq
      subst hy
      constructor
      · constructor
        · exact hclear
        · intro a' ha'
          obtain ⟨rfl, -⟩ := Prod.mk.inj (Except.ok.inj ha')
          exact hclear'
      · exact ⟨hinv', hg⟩
  error failure heq hall := by
    cases hx : x with
    | error failure' =>
      obtain ⟨raised, hy⟩ := h.error failure' hx hall.1
      rw [hy]
      exact ⟨raised, rfl⟩
    | ok read =>
      obtain ⟨a, s'⟩ := read
      obtain ⟨-, hinv, hy⟩ := h.ok a s' hx
      rw [hx] at heq
      obtain ⟨raised, hg⟩ := (hf a s' hinv).error failure heq (hall.2 a hy)
      rw [hy]
      exact ⟨raised, hg⟩

theorem Agrees.map {clear : Prop} {x : Except Failure (α × σ)} {y : Except Failure (α × Unit)}
    (h : Agrees clear inv x y) (f : α → β) :
    Agrees clear inv (x.bind fun (a, s) => .ok (f a, s)) (y.bind fun (a, s) => .ok (f a, s)) where
  ok b s heq := by
    cases hx : x with
    | error failure =>
      rw [hx] at heq
      cases heq
    | ok read =>
      obtain ⟨a, s'⟩ := read
      obtain ⟨hclear, hinv, hy⟩ := h.ok a s' hx
      rw [hx] at heq
      obtain ⟨rfl, rfl⟩ := Prod.mk.inj (Except.ok.inj heq)
      rw [hy]
      exact ⟨hclear, hinv, rfl⟩
  error failure heq hclear := by
    cases hx : x with
    | error failure' =>
      obtain ⟨raised, hy⟩ := h.error failure' hx hclear
      rw [hy]
      exact ⟨raised, rfl⟩
    | ok read =>
      rw [hx] at heq
      cases heq

theorem Agrees.congr {clear clear' : Prop} {x : Except Failure (α × σ)}
    {y : Except Failure (α × Unit)} (h : Agrees clear inv x y) (hiff : clear ↔ clear') :
    Agrees clear' inv x y where
  ok a s heq := by
    obtain ⟨hclear, hrest⟩ := h.ok a s heq
    exact ⟨hiff.mp hclear, hrest⟩
  error failure heq hclear := h.error failure heq (hiff.mpr hclear)

end

/-! ## One file -/

/-- A path that can be looked up, or whose name is not there. -/
def Spot.Visible (spot : Spot) : Prop := ∀ errno, spot.lstat = .error errno → errno = .noent

/-- The digest of an entry, where it can be read. -/
def entryDigest (sha : List UInt8 → String) (entry : Entry) : Option String :=
  if isLink entry.identity.mode then some (linkDigest sha entry)
  else if isRegular entry.identity.mode then
    match entry.bytes with
    | .ok bytes => some (permissions entry.identity.mode ++ sha bytes)
    | .error _ => none
  else none

theorem attempts_ok {α : Type} {round : Except Failure (Option α)} {failure : Failure} {a : α}
    (h : round = .ok (some a)) : attempts round failure 3 = .ok a := by
  subst h
  rfl

theorem attempts_error {α : Type} {round : Except Failure (Option α)} {failure : Failure}
    (h : ∀ a, round ≠ .ok (some a)) (n : Nat) : ∃ raised, attempts round failure n = .error raised := by
  induction n with
  | zero => exact ⟨failure, rfl⟩
  | succ n ih =>
    unfold attempts
    split
    · exact ⟨_, rfl⟩
    · exact absurd rfl (h _)
    · exact ih

section

variable {spot : Spot} {entry : Entry}

theorem stat_of_visible_link (h : spot.lstat = .ok entry)
    (hlink : isLink entry.identity.mode = false) : spot.stat = .ok entry :=
  spot.stat_of_lstat entry h hlink

theorem stillAt_self (entry : Entry) : stillAt (.ok entry) entry.identity = true := by
  simp [stillAt]

theorem opened_of_stat (h : spot.stat = .ok entry) :
    spot.opened = entry.bytes.map fun bytes => (entry.identity, bytes) := by
  unfold Spot.opened
  rw [h]
  dsimp only
  cases entry.bytes <;> rfl

/-- Both ways of reading a file give the digest of its entry. -/
theorem digests_of_entry {value : String} (h : spot.lstat = .ok entry)
    (hvalue : entryDigest sha entry = some value) :
    fileDigest sha spot = .ok value ∧
      stableDigest sha spot = .ok (some entry.identity, value) := by
  unfold entryDigest at hvalue
  unfold fileDigest Spot.isSymlink stableDigest
  have hstill := stillAt_self entry
  by_cases hlink : isLink entry.identity.mode = true
  · rw [if_pos hlink] at hvalue
    obtain rfl := Option.some.inj hvalue
    constructor
    · rw [h]
      simp only [hlink]
    · apply attempts_ok
      unfold stableRound
      simp only [h, hlink, hstill, if_true]
  · rw [if_neg hlink] at hvalue
    simp only [Bool.not_eq_true] at hlink
    have hstat := stat_of_visible_link h hlink
    have hopened := opened_of_stat hstat
    by_cases hregular : isRegular entry.identity.mode = true
    · rw [if_pos hregular] at hvalue
      cases hbytes : entry.bytes with
      | error errno =>
        rw [hbytes] at hvalue
        cases hvalue
      | ok bytes =>
        rw [hbytes] at hvalue
        obtain rfl := Option.some.inj hvalue
        have hread : spot.opened = .ok (entry.identity, bytes) := by
          rw [hopened, hbytes]
          rfl
        constructor
        · simp [h, hlink, Spot.pathExists, Spot.isFile, hstat, hregular, hread, Except.isOk, Except.toBool]
        · apply attempts_ok
          unfold stableRound hashOpened
          simp only [h, hlink, hregular, hread, hstill, if_true, Bool.false_eq_true, if_false]
    · rw [if_neg hregular] at hvalue
      cases hvalue

/-- Both ways of reading refuse an entry that has no digest. -/
theorem refused_of_entry (h : spot.lstat = .ok entry) (hvalue : entryDigest sha entry = none) :
    (∃ raised, fileDigest sha spot = .error raised) ∧
      ∃ raised, stableDigest sha spot = .error raised := by
  unfold entryDigest at hvalue
  by_cases hlink : isLink entry.identity.mode = true
  · rw [if_pos hlink] at hvalue
    cases hvalue
  · rw [if_neg hlink] at hvalue
    simp only [Bool.not_eq_true] at hlink
    have hstat := stat_of_visible_link h hlink
    have hopened := opened_of_stat hstat
    by_cases hregular : isRegular entry.identity.mode = true
    · rw [if_pos hregular] at hvalue
      cases hbytes : entry.bytes with
      | ok bytes =>
        rw [hbytes] at hvalue
        cases hvalue
      | error errno =>
        have hread : spot.opened = .error errno := by
          rw [hopened, hbytes]
          rfl
        constructor
        · refine ⟨.osError errno, ?_⟩
          simp [fileDigest, Spot.isSymlink, h, hlink, Spot.pathExists, Spot.isFile, hstat, hregular,
            hread, Except.isOk, Except.toBool]
        · apply attempts_error
          intro a
          unfold stableRound hashOpened
          simp only [h, hlink, hregular, hread, if_true, Bool.false_eq_true, if_false]
          cases errno <;> simp
    · simp only [Bool.not_eq_true] at hregular
      constructor
      · refine ⟨notRegular spot.path, ?_⟩
        simp [fileDigest, Spot.isSymlink, h, hlink, Spot.pathExists, Spot.isFile, hstat, hregular,
          Except.isOk, Except.toBool]
      · apply attempts_error
        intro a
        unfold stableRound
        simp [h, hlink, hregular]

theorem fileDigest_missing {errno : Errno} (h : spot.lstat = .error errno) :
    fileDigest sha spot = .ok "missing" := by
  obtain ⟨errno', hstat⟩ := spot.stat_error errno h
  simp [fileDigest, Spot.isSymlink, h, Spot.pathExists, hstat, Except.isOk, Except.toBool]

theorem stableDigest_missing (h : spot.lstat = .error .noent) :
    stableDigest sha spot = .ok (none, "missing") := by
  apply attempts_ok
  simp [stableRound, h]

end

/-! ## Entries of the cache -/

/-- The stored identity is that of one entry only. -/
theorem recorded_unique {stored : Option Value} {i j : Identity} (hi : recorded stored i = true)
    (hj : recorded stored j = true) : i = j := by
  unfold recorded at hi hj
  split at hi
  · simp only [Bool.and_eq_true, decide_eq_true_eq] at hi hj
    have hparts : i.parts = j.parts := Option.some.inj (hi.2.symm.trans hj.2)
    simp only [Identity.parts, List.cons.injEq, Int.natCast_inj, and_true] at hparts
    obtain ⟨hdev, hino, hmode, hsize, hmtime, hctime⟩ := hparts
    cases i
    cases j
    simp_all
  · cases hi

theorem mapM_asInt (ns : List Int) : (ns.map Value.int).mapM asInt = some ns := by
  induction ns with
  | nil => rfl
  | cons n ns ih =>
    rw [List.map_cons, List.mapM_cons, ih]
    rfl

theorem recorded_cacheEntry (i : Identity) (key : String) (value : Value) {fields : List (String × Value)}
    (h : cacheEntry i key value = .obj fields) (hkey : key ≠ "identity") :
    recorded (field "identity" fields) i = true := by
  unfold cacheEntry at h
  obtain rfl := Value.obj.inj h
  have hfield : field "identity" [("identity", Value.arr (i.parts.map .int)), (key, value)] =
      some (.arr (i.parts.map .int)) := by
    show [(key, value), ("identity", Value.arr (i.parts.map .int))].lookup "identity" = _
    rw [Dict.lookup_cons_if, if_neg (Ne.symm hkey), Dict.lookup_cons_if, if_pos rfl]
  rw [hfield]
  unfold recorded
  dsimp only
  rw [mapM_asInt]
  simp [Identity.parts]

theorem field_cacheEntry (i : Identity) (key : String) (value : Value) {fields : List (String × Value)}
    (h : cacheEntry i key value = .obj fields) : field key fields = some value := by
  unfold cacheEntry at h
  obtain rfl := Value.obj.inj h
  simp [field]

section

variable (sha) (seen : Entry → Prop)

/-- The digest of an entry of the cache is that of a file that was seen. -/
def HonestFile (stored : Value) : Prop :=
  ∀ fields before digest, stored = .obj fields → recorded (field "identity" fields) before = true →
    field "digest" fields = some (.str digest) →
      ∃ entry, seen entry ∧ entry.identity = before ∧ entryDigest sha entry = some digest

/-- The stored rules are those of a file that was seen. -/
def HonestRules (stored : Value) : Prop :=
  ∀ fields before rules, stored = .obj fields → recorded (field "identity" fields) before = true →
    field "rules" fields = some (.obj rules) →
      ∃ entry bytes storage, seen entry ∧ entry.identity = before ∧ entry.bytes = .ok bytes ∧
        storageField bytes = .ok (.obj storage) ∧ rules = Cache.keptRules storage

end

/-- Every entry of the cache is of a file that was seen. -/
structure Honest (sha : List UInt8 → String) (seen : Entry → Prop) (cache : Cache) : Prop where
  previous : ∀ key stored, (key, stored) ∈ cache.previous → HonestFile sha seen stored
  current : ∀ key stored, (key, stored) ∈ cache.current → HonestFile sha seen stored
  previousStorage : ∀ fields, cache.previousStorage = some fields → HonestRules seen (.obj fields)
  currentStorage : ∀ stored, cache.currentStorage = some stored → HonestRules seen stored

theorem mem_of_field {key : String} {entries : List (String × Value)} {value : Value}
    (h : field key entries = some value) : (key, value) ∈ entries :=
  List.mem_reverse.mp (Dict.mem_of_lookup h)

theorem mem_set {key key' : String} {value value' : Value} {entries : List (String × Value)}
    (h : (key', value') ∈ Dict.set key value entries) :
    value' = value ∨ (key', value') ∈ entries := by
  induction entries with
  | nil =>
    rw [Dict.set, List.mem_singleton] at h
    exact .inl (Prod.mk.inj h).2
  | cons e entries ih =>
    obtain ⟨k, v⟩ := e
    unfold Dict.set at h
    split at h
    · rcases List.mem_cons.mp h with heq | hmem
      · exact .inl (Prod.mk.inj heq).2
      · exact .inr (List.mem_cons_of_mem _ hmem)
    · rcases List.mem_cons.mp h with heq | hmem
      · exact .inr (heq ▸ List.mem_cons_self)
      · exact (ih hmem).imp_right (List.mem_cons_of_mem _)

section

variable {seen : Entry → Prop} {cache : Cache}

theorem Honest.record (h : Honest sha seen cache) {stored : Value}
    (hstored : HonestFile sha seen stored) (key : String) :
    Honest sha seen { cache with current := Dict.set key stored cache.current } where
  previous := h.previous
  current key' stored' hmem := by
    rcases mem_set hmem with rfl | hold
    · exact hstored
    · exact h.current key' stored' hold
  previousStorage := h.previousStorage
  currentStorage := h.currentStorage

theorem honestFile_cacheEntry {entry : Entry} {value : String} (hseen : seen entry)
    (hvalue : entryDigest sha entry = some value) :
    HonestFile sha seen (cacheEntry entry.identity "digest" (.str value)) := by
  intro fields before digest hfields hrecorded hdigest
  have hself := recorded_cacheEntry _ _ _ hfields (by decide)
  obtain rfl := recorded_unique hrecorded hself
  rw [field_cacheEntry _ _ _ hfields] at hdigest
  obtain rfl := Value.str.inj (Option.some.inj hdigest)
  exact ⟨entry, hseen, rfl, hvalue⟩

theorem honestRules_cacheEntry {entry : Entry} {bytes : List UInt8} {storage : List (String × Value)}
    (hseen : seen entry) (hbytes : entry.bytes = .ok bytes)
    (hstorage : storageField bytes = .ok (.obj storage)) :
    HonestRules seen (cacheEntry entry.identity "rules" (.obj (Cache.keptRules storage))) := by
  intro fields before rules hfields hrecorded hrules
  have hself := recorded_cacheEntry _ _ _ hfields (by decide)
  obtain rfl := recorded_unique hrecorded hself
  rw [field_cacheEntry _ _ _ hfields] at hrules
  obtain rfl := Value.obj.inj (Option.some.inj hrules)
  exact ⟨entry, bytes, storage, hseen, rfl, hbytes, hstorage, rfl⟩

/-- What is saved is read back by the same root, and is nothing to another one. -/
theorem Honest.load_document (h : Honest sha seen cache) (root : String) :
    Honest sha seen (Cache.load root (some cache.document)) := by
  have hversion : field "version" [("version", Value.int version), ("root", .str cache.root),
      ("files", .obj cache.current), ("storage", cache.currentStorage.getD .null)] =
        some (.int version) := rfl
  have hroot : field "root" [("version", Value.int version), ("root", .str cache.root),
      ("files", .obj cache.current), ("storage", cache.currentStorage.getD .null)] =
        some (.str cache.root) := rfl
  have hfiles : field "files" [("version", Value.int version), ("root", .str cache.root),
      ("files", .obj cache.current), ("storage", cache.currentStorage.getD .null)] =
        some (.obj cache.current) := rfl
  have hstorage : field "storage" [("version", Value.int version), ("root", .str cache.root),
      ("files", .obj cache.current), ("storage", cache.currentStorage.getD .null)] =
        some (cache.currentStorage.getD .null) := rfl
  have hblank : Honest sha seen ⟨root, [], [], none, none⟩ :=
    ⟨by intros; contradiction, by intros; contradiction, by intros; contradiction,
    by intros; contradiction⟩
  unfold Cache.load Cache.document
  dsimp only
  rw [hversion, hroot, hfiles, hstorage]
  dsimp only
  split
  · constructor
    · exact h.current
    · intros; contradiction
    · intro fields hfields
      cases hcurrent : cache.currentStorage with
      | none =>
        rw [hcurrent] at hfields
        cases hfields
      | some stored =>
        rw [hcurrent] at hfields
        dsimp only [Option.getD_some] at hfields
        split at hfields
        · rename_i hobj
          obtain rfl := Option.some.inj hfields
          rw [← Option.some.inj hobj]
          exact h.currentStorage _ hcurrent
        · cases hfields
    · intros; contradiction
  · exact hblank

/-- An object of rules is read in one round. -/
theorem storageRound_ok {spot : Spot} {link entry : Entry} {bytes : List UInt8}
    {storage : List (String × Value)} (hlink : spot.lstat = .ok link) (hstat : spot.stat = .ok entry)
    (hbytes : entry.bytes = .ok bytes) (hstorage : storageField bytes = .ok (.obj storage)) :
    cache.storageRound spot =
      .ok (some (storage,
        if isRegular link.identity.mode then
          { cache with
            currentStorage := some (cacheEntry link.identity "rules" (.obj (Cache.keptRules storage))) }
        else cache)) := by
  unfold Cache.storageRound
  rw [opened_of_stat hstat, hlink, hstat, hbytes]
  simp [identityOf, Except.bind, Except.map, stillAt_self, hstorage]

/-- Anything else is read in no round. -/
theorem storageRound_refused {spot : Spot} {link entry : Entry} (hlink : spot.lstat = .ok link)
    (hstat : spot.stat = .ok entry)
    (h : ∀ bytes storage, entry.bytes = .ok bytes → storageField bytes ≠ .ok (.obj storage))
    (read : List (String × Value) × Cache) : cache.storageRound spot ≠ .ok (some read) := by
  unfold Cache.storageRound
  rw [opened_of_stat hstat, hlink, hstat]
  cases hbytes : entry.bytes with
  | error errno => cases errno <;> simp [identityOf, Except.bind, Except.map]
  | ok bytes =>
    cases hstorage : storageField bytes with
    | error failure => simp [identityOf, Except.bind, Except.map, stillAt_self, hstorage]
    | ok value =>
      have hobject := h bytes
      cases value <;> simp [identityOf, Except.bind, Except.map, stillAt_self, hstorage]
      exact absurd hstorage (hobject _ hbytes)

/-! ## One reading -/

variable {spot : Spot} (hcache : Honest sha seen cache)
  (hfix : ∀ entry entry', seen entry → seen entry' → entry.identity = entry'.identity → entry = entry')
  (hlstat : ∀ entry, spot.lstat = .ok entry → seen entry)

include hcache hlstat

theorem freshDigest_agrees (key : String) (hvisible : spot.Visible) :
    Agrees spot.Visible (Honest sha seen) (cache.freshDigest sha key spot)
      ((plainReader sha).digest key spot ()) := by
  have hplain : (plainReader sha).digest key spot () =
      (fileDigest sha spot).map fun value => (value, ()) := rfl
  rw [hplain]
  unfold Cache.freshDigest
  cases hspot : spot.lstat with
  | error errno =>
    obtain rfl := hvisible errno hspot
    rw [stableDigest_missing hspot, fileDigest_missing hspot]
    exact (Agrees.pure hcache).congr (iff_of_true trivial hvisible)
  | ok entry =>
    cases hvalue : entryDigest sha entry with
    | some value =>
      obtain ⟨hfile, hstable⟩ := digests_of_entry hspot hvalue
      rw [hfile, hstable]
      have hentry := honestFile_cacheEntry (hlstat entry hspot) hvalue
      exact (Agrees.pure (hcache.record hentry key)).congr (iff_of_true trivial hvisible)
    | none =>
      obtain ⟨⟨raised, hfile⟩, failure, hstable⟩ := refused_of_entry hspot hvalue
      rw [hfile, hstable]
      exact ⟨(by intros; contradiction), fun _ _ _ => ⟨raised, rfl⟩⟩

include hfix

/-- A digest from the cache is the one that is computed. -/
theorem digest_agrees (key : String) :
    Agrees spot.Visible (Honest sha seen) (cache.digest sha key spot)
      ((plainReader sha).digest key spot ()) := by
  unfold Cache.digest identityOf
  cases hspot : spot.lstat with
  | error errno =>
    cases errno with
    | noent =>
      have hvisible : spot.Visible := fun errno herrno =>
        (Except.error.inj (hspot.symm.trans herrno)).symm
      exact freshDigest_agrees hcache hlstat key hvisible
    | other code =>
      constructor
      · intros; contradiction
      · intro failure _ hvisible
        exact absurd (hvisible _ hspot) (by intro h; cases h)
  | ok entry =>
    have hvisible : spot.Visible := by
      intro errno herrno
      rw [hspot] at herrno
      cases herrno
    dsimp only
    cases hhit : cache.hit key spot entry.identity with
    | none => exact freshDigest_agrees hcache hlstat key hvisible
    | some read =>
      obtain ⟨stored, value⟩ := read
      unfold Cache.hit at hhit
      split at hhit
      case isFalse => cases hhit
      split at hhit
      case h_2 => cases hhit
      rename_i hfield
      split at hhit
      case h_2 => cases hhit
      rename_i digest hdigest
      split at hhit
      case isFalse => cases hhit
      rename_i hconditions
      obtain ⟨rfl, rfl⟩ := Prod.mk.inj (Option.some.inj hhit)
      simp only [Bool.and_eq_true] at hconditions
      have hhonest := hcache.previous key _ (mem_of_field hfield)
      -- the file that was seen with this identity is the one that is there
      obtain ⟨entry', hseen', hidentity, hvalue⟩ := hhonest _ _ _ rfl hconditions.1.1 hdigest
      obtain rfl := hfix entry' entry hseen' (hlstat entry hspot) hidentity
      have hfile := (digests_of_entry hspot hvalue).1
      have hplain : (plainReader sha).digest key spot () = .ok (digest, ()) := by
        show (fileDigest sha spot).map _ = _
        rw [hfile]
        rfl
      dsimp only
      rw [hplain]
      exact (Agrees.pure (hcache.record hhonest key)).congr (iff_of_true trivial hvisible)

/-- The rules from the cache, or the storage section, have the two kinds of the section that
    is read without a cache. -/
theorem storage_agrees :
    (∀ rules cache', cache.storage spot = .ok (rules, cache') → Honest sha seen cache' ∧
      ∃ storage, readStorage spot = .ok storage ∧
        (field "durable_data" rules).getD (.arr []) = (field "durable_data" storage).getD (.arr []) ∧
        (field "disposable_outputs" rules).getD (.arr []) =
          (field "disposable_outputs" storage).getD (.arr [])) ∧
      ∀ failure, cache.storage spot = .error failure →
        ∃ raised, readStorage spot = .error raised := by
  unfold Cache.storage readStorage
  by_cases hfile : spot.isFile = true
  case neg =>
    rw [if_neg hfile, if_neg hfile]
    constructor
    · intro rules cache' heq
      obtain ⟨rfl, rfl⟩ := Prod.mk.inj (Except.ok.inj heq)
      exact ⟨hcache, [], rfl, rfl, rfl⟩
    · intros; contradiction
  rw [if_pos hfile, if_pos hfile]
  -- a file that is there has an entry of its own
  obtain ⟨entry, hentry⟩ : ∃ entry, spot.stat = .ok entry := by
    unfold Spot.isFile at hfile
    split at hfile
    · exact ⟨_, ‹_›⟩
    · cases hfile
  obtain ⟨link, hlink⟩ : ∃ link, spot.lstat = .ok link := by
    cases hspot : spot.lstat with
    | ok link => exact ⟨link, rfl⟩
    | error errno =>
      obtain ⟨errno', herror⟩ := spot.stat_error errno hspot
      rw [hentry] at herror
      cases herror
  have hidentity : identityOf spot.lstat = .ok (some link.identity) := by
    rw [hlink]
    rfl
  rw [hidentity, opened_of_stat hentry]
  dsimp only [Except.bind, Option.bind_some]
  cases hhit : cache.storageHit spot link.identity with
  | some read =>
    obtain ⟨stored, rules⟩ := read
    unfold Cache.storageHit at hhit
    split at hhit
    case isFalse => cases hhit
    rename_i hregular
    split at hhit
    case h_2 => cases hhit
    rename_i hprevious
    split at hhit
    case h_2 => cases hhit
    rename_i hrules
    split at hhit
    case isFalse => cases hhit
    rename_i hconditions
    obtain ⟨rfl, rfl⟩ := Prod.mk.inj (Option.some.inj hhit)
    simp only [Bool.and_eq_true] at hconditions
    have hhonest := hcache.previousStorage _ hprevious
    obtain ⟨entry', bytes, storage, hseen', hsame, hbytes, hstorage, hkept⟩ :=
      hhonest _ _ _ rfl hconditions.1.1 hrules
    obtain rfl := hfix entry' link hseen' (hlstat link hlink) hsame
    have hplainFile : isLink entry'.identity.mode = false := by
      simp only [isRegular, beq_iff_eq] at hregular
      simp [isLink, hregular]
    have hthere := spot.stat_of_lstat entry' hlink hplainFile
    obtain rfl : entry = entry' := Except.ok.inj (hentry.symm.trans hthere)
    rw [hbytes]
    dsimp only [Except.map]
    rw [hstorage]
    constructor
    · intro rules' cache' heq
      obtain ⟨rfl, rfl⟩ := Prod.mk.inj (Except.ok.inj heq)
      constructor
      · exact ⟨hcache.previous, hcache.current, hcache.previousStorage,
          fun stored hstored => Option.some.inj hstored ▸ hhonest⟩
      · rw [hkept]
        exact ⟨storage, rfl, rfl, rfl⟩
    · intros; contradiction
  | none =>
    have hrefused : (∀ bytes storage, entry.bytes = .ok bytes → storageField bytes ≠ .ok (.obj storage)) →
        ∃ raised, attempts (cache.storageRound spot) (changedDuring spot.path) 3 = .error raised :=
      fun hnone => attempts_error (storageRound_refused hlink hentry hnone) 3
    cases hbytes : entry.bytes with
    | error errno =>
      rw [hbytes] at hrefused
      obtain ⟨raised, hraised⟩ := hrefused (by intros; contradiction)
      dsimp only
      rw [hraised]
      exact ⟨(by intros; contradiction), fun _ _ => ⟨_, rfl⟩⟩
    | ok bytes =>
      dsimp only [Except.map]
      cases hstorage : storageField bytes with
      | error failure =>
        obtain ⟨raised, hraised⟩ := hrefused fun bytes' storage hbytes' hstorage' => by
          obtain rfl := Except.ok.inj (hbytes.symm.trans hbytes')
          rw [hstorage] at hstorage'
          cases hstorage'
        rw [hraised]
        exact ⟨(by intros; contradiction), fun _ _ => ⟨_, rfl⟩⟩
      | ok value =>
        by_cases hobject : ∃ storage, value = .obj storage
        · obtain ⟨storage, rfl⟩ := hobject
          rw [attempts_ok (storageRound_ok hlink hentry hbytes hstorage)]
          constructor
          · intro rules cache' heq
            obtain ⟨rfl, rfl⟩ := Prod.mk.inj (Except.ok.inj heq)
            refine ⟨?_, storage, rfl, rfl, rfl⟩
            split
            · rename_i hregular
              have hplainFile : isLink link.identity.mode = false := by
                simp only [isRegular, beq_iff_eq] at hregular
                simp [isLink, hregular]
              have hthere := spot.stat_of_lstat link hlink hplainFile
              obtain rfl : entry = link := Except.ok.inj (hentry.symm.trans hthere)
              have hhonest := honestRules_cacheEntry (hlstat entry hlink) hbytes hstorage
              exact ⟨hcache.previous, hcache.current, hcache.previousStorage,
                fun stored hstored => Option.some.inj hstored ▸ hhonest⟩
            · exact hcache
          · intros; contradiction
        · obtain ⟨raised, hraised⟩ := hrefused fun bytes' storage hbytes' hstorage' => by
            obtain rfl := Except.ok.inj (hbytes.symm.trans hbytes')
            exact hobject ⟨storage, Except.ok.inj (hstorage.symm.trans hstorage')⟩
          rw [hraised]
          refine ⟨(by intros; contradiction), fun _ _ => ?_⟩
          cases value <;> simp at hobject ⊢

end

/-! ## One call -/

theorem relativePaths_congr {kind : String} {storage storage' : List (String × Value)}
    (h : (field kind storage).getD (.arr []) = (field kind storage').getD (.arr [])) :
    relativePaths kind storage = relativePaths kind storage' := by
  unfold relativePaths
  rw [h]

section

variable {seen : Entry → Prop} {cache : Cache} (w : Worktree)

/-- The files a call hashes, in order. -/
def hashedPieces (sha : List UInt8 → String) (w : Worktree) : Except Failure (List Piece) :=
  w.lsFiles.bind fun output =>
    w.gitDir.bind fun gitSpot =>
      (classifications (plainReader sha) w ()).bind fun (rules, _) =>
        .ok (piecesOf w gitSpot (hashedPaths w (trackedOf output) rules))

/-- Every file a call hashes can be looked up, or is not there. -/
def Worktree.Visible (sha : List UInt8 → String) (w : Worktree) : Prop :=
  ∀ pieces, hashedPieces sha w = .ok pieces → ∀ piece ∈ pieces, piece.spot.Visible

/-- A path of the tree or of the git directory. -/
def Worktree.Holds (w : Worktree) (spot : Spot) : Prop :=
  (∃ item, spot = w.spot item) ∨ ∃ gitSpot name, w.gitDir = .ok gitSpot ∧ spot = gitSpot name

/-- An entry of the tree or of the git directory. -/
def Worktree.Shows (w : Worktree) (entry : Entry) : Prop :=
  ∃ spot, w.Holds spot ∧ spot.lstat = .ok entry

variable {w}

theorem holds_piecesOf {gitSpot : String → Spot} (hgit : w.gitDir = .ok gitSpot)
    {items : List String} {piece : Piece} (h : piece ∈ piecesOf w gitSpot items) :
    w.Holds piece.spot := by
  rcases List.mem_append.mp h with htree | hindex
  · obtain ⟨item, -, rfl⟩ := List.mem_map.mp htree
    exact .inl ⟨item, rfl⟩
  · obtain ⟨name, -, rfl⟩ := List.mem_map.mp hindex
    exact .inr ⟨gitSpot, name, hgit, rfl⟩

theorem visible_of_holds (h : ∀ spot, w.Holds spot → spot.Visible) : w.Visible sha := by
  intro pieces hpieces piece hpiece
  obtain ⟨output, -, hpieces⟩ := bind_ok hpieces
  obtain ⟨gitSpot, hgit, hpieces⟩ := bind_ok hpieces
  obtain ⟨rules, -, hpieces⟩ := bind_ok hpieces
  obtain rfl := Except.ok.inj hpieces
  exact h _ (holds_piecesOf hgit hpiece)

variable (hcache : Honest sha seen cache)
  (hfix : ∀ entry entry', seen entry → seen entry' → entry.identity = entry'.identity → entry = entry')
  (hshows : ∀ entry, w.Shows entry → seen entry)

include hcache hfix

theorem readPieces_agrees {pieces : List Piece}
    (hlstat : ∀ piece ∈ pieces, ∀ entry, piece.spot.lstat = .ok entry → seen entry) :
    Agrees (∀ piece ∈ pieces, piece.spot.Visible) (Honest sha seen)
      (readPieces (cachedReader sha) pieces cache) (readPieces (plainReader sha) pieces ()) := by
  induction pieces generalizing cache with
  | nil => exact (Agrees.pure hcache).congr (iff_of_true trivial (by intros; contradiction))
  | cons piece pieces ih =>
    have hfirst := digest_agrees hcache hfix (hlstat piece List.mem_cons_self) piece.key
    have hrest : ∀ value cache', Honest sha seen cache' →
        Agrees (∀ piece ∈ pieces, piece.spot.Visible) (Honest sha seen)
          ((readPieces (cachedReader sha) pieces cache').bind fun (rest, s) =>
            .ok (encode piece.name ++ 0 :: (encode value ++ piece.stop ++ rest), s))
          ((readPieces (plainReader sha) pieces ()).bind fun (rest, s) =>
            .ok (encode piece.name ++ 0 :: (encode value ++ piece.stop ++ rest), s)) := by
      intro value cache' hcache'
      have hpieces := ih hcache' fun piece hmem => hlstat piece (List.mem_cons_of_mem _ hmem)
      exact hpieces.map fun rest => encode piece.name ++ 0 :: (encode value ++ piece.stop ++ rest)
    have hboth : Agrees (piece.spot.Visible ∧ ∀ value,
        (plainReader sha).digest piece.key piece.spot () = .ok (value, ()) →
          ∀ piece ∈ pieces, piece.spot.Visible) (Honest sha seen)
        (readPieces (cachedReader sha) (piece :: pieces) cache)
        (readPieces (plainReader sha) (piece :: pieces) ()) := hfirst.bind hrest
    constructor
    · intro bytes cache' heq
      obtain ⟨⟨hvisible, hall⟩, hinv, hplain⟩ := hboth.ok bytes cache' heq
      obtain ⟨value, hvalue⟩ : ∃ value, (plainReader sha).digest piece.key piece.spot () = .ok (value, ()) := by
        cases hdigest : (plainReader sha).digest piece.key piece.spot () with
        | ok read => exact ⟨read.1, rfl⟩
        | error failure =>
          rw [readPieces, hdigest] at hplain
          cases hplain
      exact ⟨List.forall_mem_cons.mpr ⟨hvisible, hall value hvalue⟩, hinv, hplain⟩
    · intro failure heq hclear
      obtain ⟨hvisible, hall⟩ := List.forall_mem_cons.mp hclear
      exact hboth.error failure heq ⟨hvisible, fun _ _ => hall⟩

include hshows

theorem classifications_agrees :
    Agrees True (Honest sha seen) (classifications (cachedReader sha) w cache)
      (classifications (plainReader sha) w ()) := by
  have hspot : ∀ entry, (w.spot "project.identity.json").lstat = .ok entry → seen entry :=
    fun entry h => hshows entry ⟨_, .inl ⟨_, rfl⟩, h⟩
  obtain ⟨hok, herror⟩ := storage_agrees hcache hfix hspot
  unfold classifications
  have hcached : (cachedReader sha).storage (w.spot "project.identity.json") cache =
      cache.storage (w.spot "project.identity.json") := rfl
  have hplain : (plainReader sha).storage (w.spot "project.identity.json") () =
      (readStorage (w.spot "project.identity.json")).map fun storage => (storage, ()) := rfl
  rw [hcached, hplain]
  cases hstorage : cache.storage (w.spot "project.identity.json") with
  | error failure =>
    obtain ⟨raised, hraised⟩ := herror failure hstorage
    rw [hraised]
    exact ⟨(by intros; contradiction), fun _ _ _ => ⟨raised, rfl⟩⟩
  | ok read =>
    obtain ⟨rules, cache'⟩ := read
    obtain ⟨hcache', storage, hread, hdurable, hdisposable⟩ := hok rules cache' hstorage
    rw [hread]
    dsimp only [Except.bind, Except.map]
    rw [relativePaths_congr hdurable, relativePaths_congr hdisposable]
    cases relativePaths "durable_data" storage with
    | error failure => exact ⟨(by intros; contradiction), fun _ _ _ => ⟨failure, rfl⟩⟩
    | ok durable =>
      dsimp only
      cases relativePaths "disposable_outputs" storage with
      | error failure => exact ⟨(by intros; contradiction), fun _ _ _ => ⟨failure, rfl⟩⟩
      | ok disposable => exact Agrees.pure hcache'

theorem sourceDigest_agrees :
    Agrees (w.Visible sha) (Honest sha seen) (sourceDigest (cachedReader sha) w sha cache)
      (sourceDigest (plainReader sha) w sha ()) := by
  unfold sourceDigest Worktree.Visible hashedPieces
  cases w.lsFiles with
  | error failure => exact ⟨(by intros; contradiction), fun _ _ _ => ⟨failure, rfl⟩⟩
  | ok output =>
    cases hgit : w.gitDir with
    | error failure => exact ⟨(by intros; contradiction), fun _ _ _ => ⟨failure, rfl⟩⟩
    | ok gitSpot =>
      dsimp only [Except.bind]
      have hclassified : Agrees True (Honest sha seen) (classifications (cachedReader sha) w cache)
          (classifications (plainReader sha) w ()) := classifications_agrees hcache hfix hshows
      cases hrules : classifications (cachedReader sha) w cache with
      | error failure =>
        obtain ⟨raised, hraised⟩ := hclassified.error failure hrules trivial
        rw [hraised]
        exact ⟨(by intros; contradiction), fun _ _ _ => ⟨raised, rfl⟩⟩
      | ok read =>
        obtain ⟨rules, cache'⟩ := read
        obtain ⟨-, hcache', hplain⟩ := hclassified.ok rules cache' hrules
        rw [hplain]
        dsimp only
        have hlstat : ∀ piece ∈ piecesOf w gitSpot (hashedPaths w (trackedOf output) rules),
            ∀ entry, piece.spot.lstat = .ok entry → seen entry := by
          intro piece hpiece entry hentry
          exact hshows entry ⟨piece.spot, holds_piecesOf hgit hpiece, hentry⟩
        have hpieces := readPieces_agrees hcache' hfix hlstat
        apply (hpieces.map sha).congr
        constructor
        · intro h pieces heq
          obtain rfl := Except.ok.inj heq
          exact h
        · intro h
          exact h _ rfl

end

/-! ## Calls one after the other -/

/-- The cache file is missing, or it is of another root. -/
def Blank (file : Option Value) (root : String) : Prop :=
  Cache.load root file = ⟨root, [], [], none, none⟩

/-- An identity that is seen again has the content it had. -/
def Recurs (calls : List Call) : Prop :=
  ∀ call ∈ calls, ∀ call' ∈ calls, ∀ entry entry', call.worktree.Shows entry →
    call'.worktree.Shows entry' → entry.identity = entry'.identity → entry = entry'

theorem Blank.honest {file : Option Value} {root : String} (h : Blank file root)
    (seen : Entry → Prop) : Honest sha seen (Cache.load root file) := by
  rw [h]
  exact ⟨by intros; contradiction, by intros; contradiction, by intros; contradiction,
    by intros; contradiction⟩

/-- The cache file after some calls is honest to each of the roots. -/
theorem honest_run {file : Option Value} {calls : List Call} {seen : Entry → Prop}
    {roots : List String} (hstart : ∀ root ∈ roots, Blank file root)
    (hroots : ∀ call ∈ calls, call.worktree.root ∈ roots)
    (hfix : ∀ entry entry', seen entry → seen entry' → entry.identity = entry'.identity → entry = entry')
    (hshows : ∀ call ∈ calls, ∀ entry, call.worktree.Shows entry → seen entry) :
    ∀ root ∈ roots, Honest sha seen (Cache.load root (run (cacheAfter sha) file calls)) := by
  apply @run_invariant _ _ (cacheAfter sha)
    (fun file => ∀ root ∈ roots, Honest sha seen (Cache.load root file))
  · intro file' call hcall hfile root hroot
    have hloaded := hfile _ (hroots call hcall)
    have hagrees := sourceDigest_agrees hloaded hfix (hshows call hcall)
    unfold cacheAfter cachedDigest
    cases hdigest : sourceDigest (cachedReader sha) call.worktree sha
        (Cache.load call.worktree.root file') with
    | error failure => exact hfile root hroot
    | ok read =>
      obtain ⟨digest, cache'⟩ := read
      have hhonest := (hagrees.ok digest cache' hdigest).2.1
      dsimp only [Except.map]
      split
      · exact hhonest.load_document root
      · exact hfile root hroot
  · exact fun root hroot => (hstart root hroot).honest seen

/-- A call with the cache gives the digest a call without it gives on the same tree, after any
    calls and edits, and refuses besides where a file it hashes cannot be looked up. -/
theorem cached_digest_exact (sha : List UInt8 → String) (file : Option Value) (earlier : List Call)
    (call : Call) (hstart : ∀ c ∈ earlier ++ [call], Blank file c.worktree.root)
    (hrecurs : Recurs (earlier ++ [call])) (digest : String) :
    (∃ document, cachedDigest sha call.worktree (run (cacheAfter sha) file earlier) =
        .ok (digest, document)) ↔
      plainDigest sha call.worktree = .ok digest ∧ call.worktree.Visible sha := by
  have hfix : ∀ entry entry', (∃ c ∈ earlier ++ [call], c.worktree.Shows entry) →
      (∃ c ∈ earlier ++ [call], c.worktree.Shows entry') → entry.identity = entry'.identity →
        entry = entry' := by
    intro entry entry' ⟨c, hc, hentry⟩ ⟨c', hc', hentry'⟩
    exact hrecurs c hc c' hc' entry entry' hentry hentry'
  have hhonest : Honest sha (fun entry => ∃ c ∈ earlier ++ [call], c.worktree.Shows entry)
      (Cache.load call.worktree.root (run (cacheAfter sha) file earlier)) := by
    apply @honest_run sha file earlier _ ((earlier ++ [call]).map fun c => c.worktree.root)
    · intro root hroot
      obtain ⟨c, hc, rfl⟩ := List.mem_map.mp hroot
      exact hstart c hc
    · intro c hc
      exact List.mem_map.mpr ⟨c, List.mem_append_left _ hc, rfl⟩
    · exact hfix
    · exact fun c hc entry hentry => ⟨c, List.mem_append_left _ hc, hentry⟩
    · simp
  have hcall : call ∈ earlier ++ [call] := by simp
  have hagrees := sourceDigest_agrees hhonest hfix fun entry hentry => ⟨call, hcall, hentry⟩
  unfold cachedDigest plainDigest
  cases hcached : sourceDigest (cachedReader sha) call.worktree sha
      (Cache.load call.worktree.root (run (cacheAfter sha) file earlier)) with
  | ok read =>
    obtain ⟨value, cache⟩ := read
    obtain ⟨hvisible, -, hplain⟩ := hagrees.ok value cache hcached
    rw [hplain]
    simp [Except.map, hvisible]
  | error failure =>
    constructor
    · intro h
      obtain ⟨document, heq⟩ := h
      cases heq
    · intro h
      obtain ⟨heq, hvisible⟩ := h
      obtain ⟨raised, hplain⟩ := hagrees.error failure hcached hvisible
      rw [hplain] at heq
      cases heq

/-! ### A cache that is used -/

/-- A hash of 64 digits for the example. -/
def exampleSha (bytes : List UInt8) : String :=
  let digits := Nat.toDigits 10 (bytes.foldl (fun n b => (n * 257 + b.toNat + 1) % 10 ^ 64) 0)
  String.ofList (List.replicate (64 - digits.length) '0' ++ digits)

def exampleFile (ino : Nat) (bytes : List UInt8) : Entry :=
  ⟨⟨1, ino, 0o100644, bytes.length, ino, ino⟩, "", .ok bytes⟩

def fileSpot (path : String) (entry : Entry) : Spot :=
  ⟨path, .ok entry, .ok entry, fun _ h _ => h, (by intros; contradiction)⟩

def absentSpot (path : String) : Spot :=
  ⟨path, .error .noent, .error .noent, (by intros; contradiction), fun _ _ => ⟨.noent, rfl⟩⟩

/-- A tree with one tracked file. -/
def exampleTree (entry : Entry) (hregular : isDirectory entry.identity.mode = false) : Worktree where
  root := "/r"
  lsFiles := .ok "a\x00"
  gitDir := .ok fun name => if name = "index" then fileSpot name (exampleFile 2 [7]) else absentSpot name
  spot item := if item = "a" then fileSpot "/r/a" entry else absentSpot item
  listing rel := if rel = "" then ["a"] else []
  named rel name h := by
    split at h
    · obtain rfl := List.mem_singleton.mp h
      decide
    · cases h
  height _ := 0
  nested rel name h hdir _ := by
    split at h
    · rename_i hrel
      obtain rfl := List.mem_singleton.mp h
      subst hrel
      simp [child, Spot.isDir, fileSpot, hregular] at hdir
    · cases h

/-- The file before and after an edit. -/
def exampleBefore : Worktree := exampleTree (exampleFile 3 [1, 2]) (by decide)

def exampleAfter : Worktree := exampleTree (exampleFile 4 [1, 2, 3]) (by decide)

theorem holds_exampleTree {file : Entry} (hregular : isDirectory file.identity.mode = false)
    {spot : Spot} (h : (exampleTree file hregular).Holds spot) :
    (∃ path, spot = fileSpot path file) ∨ (∃ path, spot = fileSpot path (exampleFile 2 [7])) ∨
      ∃ path, spot = absentSpot path := by
  rcases h with ⟨item, rfl⟩ | ⟨gitSpot, name, hgit, rfl⟩
  · unfold exampleTree
    dsimp only
    split
    · exact .inl ⟨_, rfl⟩
    · exact .inr (.inr ⟨_, rfl⟩)
  · obtain rfl := Except.ok.inj hgit
    dsimp only
    split
    · exact .inr (.inl ⟨_, rfl⟩)
    · exact .inr (.inr ⟨_, rfl⟩)

theorem shows_exampleTree {file entry : Entry} (hregular : isDirectory file.identity.mode = false)
    (h : (exampleTree file hregular).Shows entry) : entry = file ∨ entry = exampleFile 2 [7] := by
  obtain ⟨spot, hspot, hentry⟩ := h
  rcases holds_exampleTree hregular hspot with ⟨path, rfl⟩ | ⟨path, rfl⟩ | ⟨path, rfl⟩
  · exact .inl (Except.ok.inj hentry).symm
  · exact .inr (Except.ok.inj hentry).symm
  · cases hentry

/-- After a saved call and an edit the cache gives the digest of the edited tree. -/
theorem cached_after_edit :
    ∃ document, cachedDigest exampleSha exampleAfter
      (run (cacheAfter exampleSha) none [⟨exampleBefore, true⟩]) =
        .ok ("4633572253856103501798269055416389912671515370756505531381035762", document) := by
  have hstart : ∀ c ∈ [(⟨exampleBefore, true⟩ : Call)] ++ [⟨exampleAfter, true⟩],
      Blank none c.worktree.root := by
    intro c _
    rfl
  have hrecurs : Recurs ([⟨exampleBefore, true⟩] ++ [⟨exampleAfter, true⟩]) := by
    have hshown : ∀ c ∈ [(⟨exampleBefore, true⟩ : Call)] ++ [⟨exampleAfter, true⟩], ∀ entry,
        c.worktree.Shows entry →
          entry ∈ [exampleFile 2 [7], exampleFile 3 [1, 2], exampleFile 4 [1, 2, 3]] := by
      intro c hc entry hentry
      rw [List.cons_append, List.nil_append, List.mem_pair] at hc
      rcases hc with rfl | rfl
      · rcases shows_exampleTree (by decide) hentry with rfl | rfl <;> simp
      · rcases shows_exampleTree (by decide) hentry with rfl | rfl <;> simp
    intro c hc c' hc' entry entry' hentry hentry' hsame
    have hmem := hshown c hc entry hentry
    have hmem' := hshown c' hc' entry' hentry'
    simp only [List.mem_cons, List.not_mem_nil, or_false] at hmem hmem'
    -- the three identities differ
    rcases hmem with rfl | rfl | rfl <;> rcases hmem' with rfl | rfl | rfl <;>
      first | rfl | exact absurd hsame (by decide)
  have hvisible : exampleAfter.Visible exampleSha := by
    apply visible_of_holds
    intro spot hspot errno herrno
    rcases holds_exampleTree (by decide) hspot with ⟨path, rfl⟩ | ⟨path, rfl⟩ | ⟨path, rfl⟩
    · cases herrno
    · cases herrno
    · exact (Except.error.inj herrno).symm
  exact (cached_digest_exact exampleSha none [⟨exampleBefore, true⟩] ⟨exampleAfter, true⟩ hstart hrecurs
    _).mpr ⟨by decide +kernel, hvisible⟩

end SummitFlow.SourceDigest
