import Mathlib
import SummitFlow.Spec.OutgoingAdmission

/-!
# What a destination holds after any pushes

The verification depends on no order.  Clones of one history push to one destination, each
after its own verification and against what the destination had.  After any such run nothing
the destination has gained is sensitive, and no branch has lost a commit.
-/

namespace SummitFlow.Outgoing

/-! ## A commit and its tag -/

def oidOf (c : Char) : Oid := String.ofList (List.replicate 40 c)

def readme : TreeEntry := ⟨ascii "README", ascii "100644", .blob, oidOf 'c'⟩

def sourceFile : TreeEntry := ⟨ascii "src/main.py", ascii "100644", .blob, oidOf 'd'⟩

/-- Two commits, the second with a new file and a tag. -/
def shelf : Repo := .ofObjects
  [(oidOf 'c', .blob (ascii "A tool.")), (oidOf 'd', .blob (ascii "x = 1")),
   (oidOf 'a', .commit (ascii "first") [] [readme]),
   (oidOf 'b', .commit (ascii "second") [oidOf 'a'] [readme, sourceFile]),
   (oidOf 'e', .tag (ascii "v1") (oidOf 'b'))] (by decide +kernel)

/-- A host whose policy denies `.env` files and whose scanner finds nothing. -/
def quietHost : Host where
  repo := shelf
  isShallow := false
  hasGrafts := false
  policyFile name := if name = "denylist.txt" then .text ".env" else .text ""
  hasScanner := true
  scan _ := ⟨0, none⟩
  destination _ := none
  checkRefFormat _ := true
  lower := Str.lower
  fsdecode := decodeAscii
  setOrder := ⟨id, fun _ => .refl _⟩
  publicManifestKey _ := false

def moveMain : PushUpdate := ⟨"HEAD", oidOf 'b', "refs/heads/main", oidOf 'a'⟩

def newTag : PushUpdate := ⟨"v1", oidOf 'e', "refs/tags/v1", oidOf '0'⟩

theorem quietHost_verifies :
    quietHost.verifyOutgoing "git" [moveMain, newTag] [oidOf 'a'] = .ok ⟨1, 2⟩ := by decide +kernel

/-! ## No order matters -/

section

variable {host : Host} {bases bases' : List Oid} {updates updates' : List PushUpdate} {policy : Policy}

theorem mem_destinationsOf_congr (hbases : ∀ base, base ∈ bases ↔ base ∈ bases') (update : PushUpdate)
    (c : Oid) : c ∈ destinationsOf host bases update ↔ c ∈ destinationsOf host bases' update := by
  unfold destinationsOf Host.applicable
  split
  · rw [List.mem_filter, List.mem_filter, hbases]
  · rfl

/-- The scanner reports on the commits of a revision, however its bases are listed. -/
def ScansRevisions (host : Host) : Prop :=
  ∀ new bases bases', (∀ base, base ∈ bases ↔ base ∈ bases') →
    host.scan (Revision.without new bases).text = host.scan (Revision.without new bases').text

theorem scanPasses_congr (hscan : ScansRevisions host) (hbases : ∀ base, base ∈ bases ↔ base ∈ bases')
    (update : PushUpdate) :
    host.scanPasses (revisionOf host bases update) = host.scanPasses (revisionOf host bases' update) := by
  unfold revisionOf
  split
  · unfold Host.scanPasses
    rw [hscan _ _ (host.applicable bases' update.localOid) (by
      intro base
      unfold Host.applicable
      rw [List.mem_filter, List.mem_filter, hbases])]
  · rfl

theorem atDestination_congr (hbases : ∀ base, base ∈ bases ↔ base ∈ bases') (update : PushUpdate)
    (c : Oid) : AtDestination host bases update c ↔ AtDestination host bases' update c := by
  unfold AtDestination
  simp only [mem_destinationsOf_congr hbases]

theorem published_congr (hupdates : updates.Perm updates') (hbases : ∀ base, base ∈ bases ↔ base ∈ bases')
    (c : Oid) : Published host bases updates c ↔ Published host bases' updates' c := by
  unfold Published Publishes
  simp only [hupdates.mem_iff, atDestination_congr hbases]

theorem known_congr (hupdates : updates.Perm updates') (hbases : ∀ base, base ∈ bases ↔ base ∈ bases')
    (key : TreeKey) : Known host bases updates key ↔ Known host bases' updates' key := by
  unfold Known
  simp only [hupdates.mem_iff, mem_destinationsOf_congr hbases]

theorem Admissible.perm (h : Admissible host bases policy updates) (hscan : ScansRevisions host)
    (hupdates : updates.Perm updates') (hbases : ∀ base, base ∈ bases ↔ base ∈ bases') :
    Admissible host bases' policy updates' where
  base_ok base hbase := h.base_ok base ((hbases base).mpr hbase)
  update_ok update hupdate := h.update_ok update (hupdates.mem_iff.mpr hupdate)
  refs_nodup := (hupdates.map _).nodup_iff.mp h.refs_nodup
  commit_clean c hc := (h.commit_clean c ((published_congr hupdates hbases c).mpr hc)).mono
    fun key hkey => .inl ((known_congr hupdates hbases key).mp hkey)
  scan_passes update hupdate hzero := by
    rw [← scanPasses_congr hscan hbases]
    exact h.scan_passes update (hupdates.mem_iff.mpr hupdate) hzero

/-- The order in which the entries of a commit are walked is in none of the conditions. -/
theorem Admissible.withOrder (h : Admissible host bases policy updates) (order : SetOrder) :
    Admissible { host with setOrder := order } bases policy updates where
  base_ok := h.base_ok
  update_ok update hupdate := by
    have hnames := (h.update_ok update hupdate).names
    refine ⟨⟨hnames.oids, hnames.label, hnames.ref⟩, fun hzero => ?_⟩
    have hobjects := (h.update_ok update hupdate).objects hzero
    exact ⟨hobjects.localCommit, hobjects.tag, hobjects.remoteCommit, hobjects.forward⟩
  refs_nodup := h.refs_nodup
  commit_clean c hc := by
    have hclean := h.commit_clean c hc
    refine ⟨hclean.metadata, fun key hkey => (hclean.entries key hkey).imp_right fun hentry => ?_⟩
    exact ⟨hentry.path, hentry.content, hentry.token⟩
  scan_passes := h.scan_passes

theorem Ready.withOrder {remoteUrl : String} (h : Ready host remoteUrl policy) (order : SetOrder) :
    Ready { host with setOrder := order } remoteUrl policy :=
  ⟨h.destination, h.complete, h.denied, h.allowed, h.denied_ne, h.scanner⟩

theorem verifyOutgoing_withOrder {remoteUrl : String} {result : OutgoingVerification} (order : SetOrder)
    (h : host.verifyOutgoing remoteUrl updates bases = .ok result) :
    { host with setOrder := order }.verifyOutgoing remoteUrl updates bases = .ok result := by
  obtain ⟨hne, ⟨policy, hready, hadmissible⟩, hcounts⟩ := (verifyOutgoing_ok_iff ..).mp h
  exact (verifyOutgoing_ok_iff ..).mpr
    ⟨hne, ⟨policy, hready.withOrder order, hadmissible.withOrder order⟩, hcounts⟩

theorem verifyOutgoing_congr {remoteUrl : String} {result : OutgoingVerification} (hscan : ScansRevisions host)
    (hupdates : updates.Perm updates') (hbases : ∀ base, base ∈ bases ↔ base ∈ bases')
    (h : host.verifyOutgoing remoteUrl updates bases = .ok result) :
    host.verifyOutgoing remoteUrl updates' bases' = .ok result := by
  obtain ⟨hne, ⟨policy, hready, hadmissible⟩, hscanned, hchecked⟩ := (verifyOutgoing_ok_iff ..).mp h
  have hpublished : {c | Published host bases updates c} = {c | Published host bases' updates' c} := by
    ext c
    exact published_congr hupdates hbases c
  refine (verifyOutgoing_ok_iff ..).mpr
    ⟨fun hnil => hne ?_, ⟨policy, hready, hadmissible.perm hscan hupdates hbases⟩, ?_, ?_⟩
  · rw [hnil] at hupdates
    exact hupdates.eq_nil
  · rw [hscanned, hpublished]
  · rw [hchecked, hupdates.length_eq]

end

/-- Whether a push is certified, and with which counts, depends neither on the order of its
    updates nor on how the bases are listed nor on the order in which entries are walked. -/
theorem verifyOutgoing_perm (host : Host) (order : SetOrder) (remoteUrl : String)
    {updates updates' : List PushUpdate} {bases bases' : List Oid} (result : OutgoingVerification)
    (hscan : ScansRevisions host) (hupdates : updates.Perm updates')
    (hbases : ∀ base, base ∈ bases ↔ base ∈ bases') :
    host.verifyOutgoing remoteUrl updates bases = .ok result ↔
      { host with setOrder := order }.verifyOutgoing remoteUrl updates' bases' = .ok result := by
  constructor
  · intro h
    exact verifyOutgoing_withOrder order (verifyOutgoing_congr hscan hupdates hbases h)
  · intro h
    have hback := verifyOutgoing_withOrder host.setOrder h
    exact verifyOutgoing_congr hscan hupdates.symm (fun base => (hbases base).symm) hback

/-- The tag before the branch, and the entries from the last to the first. -/
theorem quietHost_verifies_reversed :
    { quietHost with setOrder := ⟨List.reverse, List.reverse_perm⟩ }.verifyOutgoing "git"
      [newTag, moveMain] [oidOf 'a'] = .ok ⟨1, 2⟩ :=
  (verifyOutgoing_perm quietHost ⟨List.reverse, List.reverse_perm⟩ "git" ⟨1, 2⟩
    (fun _ _ _ _ => rfl) (.swap newTag moveMain []) (fun _ => Iff.rfl)).mp quietHost_verifies

/-! ## Clones -/

/-- What the tags from an object on name in the end. -/
inductive Repo.Peels (repo : Repo) : Oid → Oid → Prop
  | commit {oid : Oid} {body : Bytes} {parents : List Oid} {tree : List TreeEntry}
      (h : repo.object oid = some (.commit body parents tree)) : Peels repo oid oid
  | tag {oid target c : Oid} {body : Bytes} (h : repo.object oid = some (.tag body target))
      (htarget : Peels repo target c) : Peels repo oid c

section

variable {repo world : Repo} {oid c : Oid}

theorem peels_of_peelFrom {depth : Nat} (h : repo.peelFrom depth oid = some c) : repo.Peels oid c := by
  induction depth generalizing oid with
  | zero => cases h
  | succ depth ih =>
    rw [Repo.peelFrom] at h
    cases hobject : repo.object oid with
    | none =>
      rw [hobject] at h
      cases h
    | some o =>
      rw [hobject] at h
      cases o with
      | blob body => cases h
      | commit body parents tree =>
        obtain rfl := Option.some.inj h
        exact .commit hobject
      | tag body target => exact .tag hobject (ih h)

/-- A chain of tags is no longer than the rank of its start. -/
theorem peelFrom_of_peels (h : repo.Peels oid c) {depth : Nat} (hdepth : repo.rank oid < depth) :
    repo.peelFrom depth oid = some c := by
  induction h generalizing depth with
  | commit hobject =>
    obtain ⟨rest, rfl⟩ : ∃ rest, depth = rest + 1 := ⟨depth - 1, by omega⟩
    rw [Repo.peelFrom, hobject]
  | tag hobject _ ih =>
    have hdown := repo.target_rank _ _ _ hobject
    obtain ⟨rest, rfl⟩ : ∃ rest, depth = rest + 1 := ⟨depth - 1, by omega⟩
    rw [Repo.peelFrom, hobject]
    exact ih (by omega)

theorem peel_eq_some_iff : repo.peel oid = some c ↔ repo.Peels oid c :=
  ⟨peels_of_peelFrom, fun h => peelFrom_of_peels h (Nat.lt_succ_self _)⟩

/-- The objects of a clone are objects of the world, which are named by what they are. -/
def CloneOf (repo world : Repo) : Prop :=
  ∀ oid o, repo.object oid = some o → world.object oid = some o

theorem CloneOf.peel (h : CloneOf repo world) (hpeel : repo.peel oid = some c) :
    world.peel oid = some c := by
  rw [peel_eq_some_iff] at hpeel ⊢
  induction hpeel with
  | commit hobject => exact .commit (h _ _ hobject)
  | tag hobject _ ih => exact .tag (h _ _ hobject) ih

theorem CloneOf.parents (h : CloneOf repo world) {o : Object} (hobject : repo.object oid = some o) :
    world.parents oid = repo.parents oid := by
  unfold Repo.parents
  rw [hobject, h oid o hobject]

/-- From a commit of the clone, the world leads where the clone leads. -/
theorem CloneOf.leads (h : CloneOf repo world) (hcommit : (repo.object oid).any Object.isCommit = true)
    (hleads : world.history.Leads oid c) : repo.history.Leads oid c := by
  induction hleads with
  | refl => exact .refl oid
  | @tail mid last _ hedge ih =>
    obtain ⟨body, parents, tree, hmid⟩ := exists_commit (commit_of_leads ih hcommit)
    have hparent : last ∈ world.parents mid := hedge
    rw [h.parents hmid] at hparent
    exact Relation.ReflTransGen.tail ih hparent

theorem CloneOf.leads_world (h : CloneOf repo world) (hcommit : (repo.object oid).any Object.isCommit = true)
    (hleads : repo.history.Leads oid c) : world.history.Leads oid c := by
  induction hleads with
  | refl => exact .refl oid
  | @tail mid last hmid hedge ih =>
    obtain ⟨body, parents, tree, hobject⟩ := exists_commit (commit_of_leads hmid hcommit)
    have hparent : last ∈ repo.parents mid := hedge
    rw [← h.parents hobject] at hparent
    exact Relation.ReflTransGen.tail ih hparent

theorem CloneOf.entries (h : CloneOf repo world) (hcommit : (repo.object c).any Object.isCommit = true) :
    world.entries c = repo.entries c := by
  obtain ⟨body, parents, tree, hobject⟩ := exists_commit hcommit
  unfold Repo.entries
  rw [hobject, h c _ hobject]

theorem CloneOf.body (h : CloneOf repo world) (hcommit : (repo.object c).any Object.isCommit = true) :
    world.body c = repo.body c := by
  obtain ⟨body, parents, tree, hobject⟩ := exists_commit hcommit
  unfold Repo.body
  rw [hobject, h c _ hobject]

end

/-! ## Pushes -/

/-- The refs of a destination and what they name. -/
abbrev Refs := String → Option Oid

structure Push where
  host : Host
  remoteUrl : String
  updates : List PushUpdate
  bases : List Oid

/-- The destination carries out one update. -/
def setRef (refs : Refs) (update : PushUpdate) : Refs := fun ref =>
  if ref = update.remoteRef then
    if isZero update.localOid then none else some update.localOid
  else refs ref

def Push.apply (refs : Refs) (push : Push) : Refs := push.updates.foldl setRef refs

/-- A push from a clone of the world, certified against what the destination has: git carries an
    update out only if its ref is still where the update says, and the bases are live refs. -/
structure Goes (world : Host) (refs : Refs) (push : Push) : Prop where
  clone : CloneOf push.host.repo world.repo
  lower : push.host.lower = world.lower
  fsdecode : push.host.fsdecode = world.fsdecode
  policyFile : push.host.policyFile = world.policyFile
  live : ∀ update ∈ push.updates,
    refs update.remoteRef = if isZero update.remoteOid then none else some update.remoteOid
  base : ∀ base ∈ push.bases, ∃ ref, refs ref = some base
  verified : ∃ result, push.host.verifyOutgoing push.remoteUrl push.updates push.bases = .ok result

/-- A commit that the object leads to. -/
def LeadsFrom (world : Host) (oid c : Oid) : Prop :=
  ∃ b, world.repo.peel oid = some b ∧ world.repo.history.Leads b c

/-- A commit that one of the refs leads to. -/
def Held (world : Host) (refs : Refs) (c : Oid) : Prop := ∃ ref oid, refs ref = some oid ∧ LeadsFrom world oid c

section

variable {world : Host} {refs : Refs} {push : Push} {policy : Policy}

/-- What a ref names after a push is what it named, or what an update of it brought. -/
theorem apply_cases {ref : String} {value : Option Oid} (h : push.apply refs ref = value) :
    refs ref = value ∨ ∃ update ∈ push.updates, update.remoteRef = ref ∧
      value = if isZero update.localOid then none else some update.localOid := by
  unfold Push.apply at h
  generalize push.updates = updates at h ⊢
  induction updates generalizing refs with
  | nil => exact .inl h
  | cons update updates ih =>
    rw [List.foldl_cons] at h
    cases ih h with
    | inl hfirst =>
      unfold setRef at hfirst
      by_cases href : ref = update.remoteRef
      · rw [if_pos href] at hfirst
        exact .inr ⟨update, List.mem_cons_self, href.symm, hfirst.symm⟩
      · rw [if_neg href] at hfirst
        exact .inl hfirst
    | inr hlater =>
      obtain ⟨other, hother, hsame⟩ := hlater
      exact .inr ⟨other, List.mem_cons_of_mem _ hother, hsame⟩

theorem commit_of_peel {repo : Repo} {oid c : Oid} (h : repo.peel oid = some c) :
    (repo.object c).any Object.isCommit = true := by
  obtain ⟨body, parents, tree, hobject⟩ := object_of_peel h
  exact any_commit hobject

/-- The policy of the clone is that of the world, and the push may leave under it. -/
theorem Goes.admissible (h : Goes world refs push) (hpolicy : world.readPolicy = .ok policy) :
    Admissible push.host push.bases policy push.updates := by
  obtain ⟨result, hverified⟩ := h.verified
  obtain ⟨_, ⟨found, hready, hadmissible⟩, _⟩ := (verifyOutgoing_ok_iff ..).mp hverified
  have hread : push.host.readPolicy = world.readPolicy := by
    unfold Host.readPolicy Host.readPatterns
    rw [h.policyFile, h.lower]
  rw [hready.readPolicy, hpolicy] at hread
  obtain rfl := Except.ok.inj hread
  exact hadmissible

theorem Goes.cleanEntry (h : Goes world refs push) {c : Oid} {key : TreeKey}
    (hkey : key ∈ push.host.repo.entries c) (hclean : CleanEntry push.host policy key) :
    CleanEntry world policy key := by
  have hbody : world.keyBody key = push.host.keyBody key := by
    have hblob := hasBlob_of_mem hkey
    unfold HasBlob Host.blobBody at hblob
    unfold Host.keyBody
    cases hobject : push.host.repo.object (decodeAscii key.2.2) with
    | none =>
      rw [hobject] at hblob
      cases hblob
    | some o =>
      rw [h.clone _ o hobject]
  obtain ⟨hpath, hcontent, htoken⟩ := hclean
  rw [h.lower, h.fsdecode, ← hbody] at hpath htoken
  rw [← hbody] at hcontent
  exact ⟨hpath, hcontent, htoken⟩

/-- What an update is told the destination has is held there. -/
theorem Goes.held_of_destination (h : Goes world refs push) {update : PushUpdate}
    (hupdate : update ∈ push.updates) {base : Oid}
    (hbase : base ∈ destinationsOf push.host push.bases update) : ∃ ref, refs ref = some base := by
  unfold destinationsOf at hbase
  split at hbase
  · exact h.base base (List.mem_filter.mp hbase).1
  · rename_i hremote
    have hlive := h.live update hupdate
    rw [if_neg hremote] at hlive
    rw [List.mem_singleton.mp hbase]
    exact ⟨update.remoteRef, hlive⟩

/-- A commit after a push was there, or the push published it. -/
theorem Goes.held_cases (h : Goes world refs push) (hpolicy : world.readPolicy = .ok policy) {c : Oid}
    (hc : Held world (push.apply refs) c) :
    Held world refs c ∨ Published push.host push.bases push.updates c := by
  obtain ⟨ref, oid, hoid, b, hpeel, hleads⟩ := hc
  cases apply_cases hoid with
  | inl hold => exact .inl ⟨ref, oid, hold, b, hpeel, hleads⟩
  | inr hnew =>
    obtain ⟨update, hupdate, _, hvalue⟩ := hnew
    split at hvalue
    · cases hvalue
    · rename_i hzero
      obtain rfl := Option.some.inj hvalue
      rw [Bool.not_eq_true] at hzero
      have hobjects := ((h.admissible hpolicy).update_ok update hupdate).objects hzero
      obtain ⟨tip, htip⟩ := Option.isSome_iff_exists.mp hobjects.localCommit
      obtain rfl : tip = b := Option.some.inj ((h.clone.peel htip).symm.trans hpeel)
      have htipLeads := h.clone.leads (commit_of_peel htip) hleads
      by_cases hthere : AtDestination push.host push.bases update c
      · obtain ⟨base, hbase, b, hb, hbleads⟩ := hthere
        obtain ⟨ref, href⟩ := h.held_of_destination hupdate hbase
        exact .inl ⟨ref, base, href, b, h.clone.peel hb, h.clone.leads_world (commit_of_peel hb) hbleads⟩
      · exact .inr ⟨update, hupdate, hzero, ⟨tip, htip, htipLeads⟩, hthere⟩

/-- The entries of the trees a destination holds. -/
def HeldEntry (world : Host) (refs : Refs) (key : TreeKey) : Prop :=
  ∃ c, Held world refs c ∧ key ∈ world.repo.entries c

/-- Everything at the destination was there at the start or is clean. -/
structure OnlyClean (world : Host) (policy : Policy) (start refs : Refs) : Prop where
  commits : ∀ c, Held world refs c →
    Held world start c ∨ CleanCommit world policy (HeldEntry world start) c
  tags : ∀ ref oid, refs ref = some oid → (∃ ref', start ref' = some oid) ∨
    ∀ body target, world.repo.object oid = some (.tag body target) → sensitive body = false

/-- An entry that was there is clean, or was there at the start. -/
theorem OnlyClean.entry {start : Refs} (h : OnlyClean world policy start refs) {key : TreeKey}
    (hkey : HeldEntry world refs key) : HeldEntry world start key ∨ CleanEntry world policy key := by
  obtain ⟨c, hc, hentry⟩ := hkey
  cases h.commits c hc with
  | inl hstart => exact .inl ⟨c, hstart, hentry⟩
  | inr hclean => exact hclean.entries key hentry

/-- A push keeps it so. -/
theorem OnlyClean.step {start : Refs} (h : OnlyClean world policy start refs)
    (hgoes : Goes world refs push) (hpolicy : world.readPolicy = .ok policy) :
    OnlyClean world policy start (push.apply refs) where
  commits c hc := by
    cases hgoes.held_cases hpolicy hc with
    | inl hold => exact h.commits c hold
    | inr hnew =>
      right
      have hcommit := commit_of_published hnew
      obtain ⟨hmetadata, hentries⟩ := (hgoes.admissible hpolicy).commit_clean c hnew
      refine ⟨by rwa [hgoes.clone.body hcommit], fun key hkey => ?_⟩
      rw [hgoes.clone.entries hcommit] at hkey
      cases hentries key hkey with
      | inr hclean => exact .inr (hgoes.cleanEntry hkey hclean)
      | inl hknown =>
        -- the entry is in a tree the destination had before this push
        obtain ⟨update, hupdate, _, base, hbase, b, hb, hentry⟩ := hknown
        obtain ⟨ref, href⟩ := hgoes.held_of_destination hupdate hbase
        refine h.entry ⟨b, ⟨ref, base, href, b, hgoes.clone.peel hb, .refl b⟩, ?_⟩
        rwa [hgoes.clone.entries (commit_of_peel hb)]
  tags ref oid hoid := by
    cases apply_cases hoid with
    | inl hold => exact h.tags ref oid hold
    | inr hnew =>
      obtain ⟨update, hupdate, _, hvalue⟩ := hnew
      split at hvalue
      · cases hvalue
      · rename_i hzero
        obtain rfl := Option.some.inj hvalue
        rw [Bool.not_eq_true] at hzero
        right
        intro body target hobject
        have hobjects := ((hgoes.admissible hpolicy).update_ok update hupdate).objects hzero
        -- the clone has the object the update sends
        cases hlocal : push.host.repo.object update.localOid with
        | none =>
          have hpeel := hobjects.localCommit
          unfold Repo.peel Repo.peelFrom at hpeel
          simp [hlocal] at hpeel
        | some o =>
          have hworld := hgoes.clone _ o hlocal
          rw [hobject] at hworld
          obtain rfl := Option.some.inj hworld
          exact hobjects.tag body target hlocal

def startRefs : Refs := fun ref =>
  if ref = "HEAD" ∨ ref = "refs/heads/main" then some (oidOf 'a') else none

def firstPush : Push := ⟨quietHost, "git", [moveMain, newTag], [oidOf 'a']⟩

theorem firstPush_goes : Goes quietHost startRefs firstPush where
  clone := fun _ _ h => h
  lower := rfl
  fsdecode := rfl
  policyFile := rfl
  live := by decide +kernel
  base := by
    intro base hbase
    obtain rfl := List.mem_singleton.mp hbase
    exact ⟨"HEAD", rfl⟩
  verified := ⟨⟨1, 2⟩, quietHost_verifies⟩

/-- A ref of a branch has not lost a commit, and any other ref names what it named. -/
def Keeps (world : Host) (ref : String) (before after : Oid) : Prop :=
  if Str.startswith ref "refs/heads/" then ∀ c, LeadsFrom world before c → LeadsFrom world after c
  else before = after

theorem Keeps.refl (ref : String) (oid : Oid) : Keeps world ref oid oid := by
  unfold Keeps
  split
  · exact fun c hc => hc
  · rfl

theorem Keeps.trans {ref : String} {a b c : Oid} (h : Keeps world ref a b) (h' : Keeps world ref b c) :
    Keeps world ref a c := by
  unfold Keeps at h h' ⊢
  split at h
  · rename_i hhead
    rw [if_pos hhead] at h' ⊢
    exact fun d hd => h' d (h d hd)
  · rename_i hhead
    rw [if_neg hhead] at h' ⊢
    exact h.trans h'

/-- A push that does not delete a ref moves it forward, or leaves it. -/
theorem Goes.keeps (h : Goes world refs push) {ref : String} {oid : Oid} (href : refs ref = some oid)
    (hkept : ∀ update ∈ push.updates, update.remoteRef = ref → isZero update.localOid = false) :
    ∃ after, push.apply refs ref = some after ∧ Keeps world ref oid after := by
  obtain ⟨result, hverified⟩ := h.verified
  obtain ⟨_, ⟨policy, _, hadmissible⟩, _⟩ := (verifyOutgoing_ok_iff ..).mp hverified
  cases apply_cases (show push.apply refs ref = _ from rfl) with
  | inl hold =>
    rw [← hold]
    exact ⟨oid, href, .refl ref oid⟩
  | inr hnew =>
    obtain ⟨update, hupdate, hsame, hvalue⟩ := hnew
    have hzero := hkept update hupdate hsame
    rw [hzero] at hvalue
    refine ⟨update.localOid, hvalue, ?_⟩
    -- the ref exists, so the update names what it has
    have hlive := h.live update hupdate
    rw [hsame, href] at hlive
    split at hlive
    · cases hlive
    · rename_i hremote
      obtain rfl := Option.some.inj hlive
      have hforward := ((hadmissible.update_ok update hupdate).objects hzero).forward
        (Bool.not_eq_true _ ▸ hremote)
      rw [hsame] at hforward
      unfold Keeps
      split
      · rename_i hhead
        rw [if_pos hhead] at hforward
        unfold Host.isAncestor at hforward
        cases hb : push.host.repo.peel update.remoteOid with
        | none => simp [hb] at hforward
        | some b =>
          cases hc : push.host.repo.peel update.localOid with
          | none => simp [hb, hc] at hforward
          | some c =>
            simp only [hb, hc, decide_eq_true_eq] at hforward
            intro d hd
            obtain ⟨b', hb', hleads⟩ := hd
            obtain rfl := Option.some.inj ((h.clone.peel hb).symm.trans hb')
            exact ⟨c, h.clone.peel hc, (h.clone.leads_world (commit_of_peel hc) hforward).trans hleads⟩
      · rename_i hhead
        rw [if_neg hhead] at hforward
        exact hforward

/-- Over a run of certified pushes none of which deletes a ref, a branch keeps every commit it
    had and any other ref what it named. -/
theorem run_keeps (world : Host) (start : Refs) (pushes : List Push)
    (h : Along Push.apply (Goes world) start pushes) {ref : String} {oid : Oid}
    (href : start ref = some oid)
    (hkept : ∀ push ∈ pushes, ∀ update ∈ push.updates, update.remoteRef = ref →
      isZero update.localOid = false) :
    ∃ after, run Push.apply start pushes ref = some after ∧ Keeps world ref oid after := by
  induction pushes generalizing start oid with
  | nil => exact ⟨oid, href, .refl ref oid⟩
  | cons push pushes ih =>
    obtain ⟨mid, hmid, hfirst⟩ := h.1.keeps href (hkept push List.mem_cons_self)
    obtain ⟨after, hafter, hrest⟩ := ih _ h.2 hmid fun p hp => hkept p (List.mem_cons_of_mem _ hp)
    exact ⟨after, hafter, hfirst.trans hrest⟩

theorem firstPush_keeps : ∃ after, run Push.apply startRefs [firstPush] "refs/heads/main" = some after ∧
    Keeps quietHost "refs/heads/main" (oidOf 'a') after :=
  run_keeps quietHost startRefs [firstPush] ⟨firstPush_goes, trivial⟩ (by decide +kernel)
    (by decide +kernel)

end

end SummitFlow.Outgoing
