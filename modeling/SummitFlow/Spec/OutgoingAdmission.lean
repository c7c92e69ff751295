import Mathlib
import SummitFlow.Spec.OutgoingEntries

/-!
# Which pushes are admitted

What the verification looks at is gathered update by update and walked commit by commit, in the
order of the updates, of the bases and of a set.  Whether it passes is nevertheless a condition
on the updates and on the commits between them and the destination, in no order.
-/

namespace SummitFlow.Outgoing

section

variable (host : Host) (bases : List Oid)

/-! ## One update -/

/-- What the destination has, for an update that sends objects. -/
def destinationsOf (update : PushUpdate) : List Oid :=
  if isZero update.remoteOid then host.applicable bases update.localOid else [update.remoteOid]

def revisionOf (update : PushUpdate) : Revision :=
  if isZero update.remoteOid then
    .without update.localOid (host.applicable bases update.localOid)
  else .range update.remoteOid update.localOid

/-- The names of an update are in order. -/
structure NamesOk (update : PushUpdate) : Prop where
  oids : isOid update.localOid = true ∧ isOid update.remoteOid = true
  label : update.localRef ≠ "" ∧ Host.hasControl update.localRef = false
  ref : Str.startswith update.remoteRef "refs/" = true ∧ Host.hasControl update.remoteRef = false ∧
    host.checkRefFormat update.remoteRef = true

/-- The commit is there, the message of the tag that is sent is clean, and what the destination
    has under the name is there and is not lost: a branch goes forward, anything else stays. -/
structure ObjectsOk (update : PushUpdate) : Prop where
  localCommit : (host.repo.peel update.localOid).isSome = true
  tag : ∀ body target, host.repo.object update.localOid = some (.tag body target) →
    sensitive body = false
  remoteCommit : isZero update.remoteOid = false → (host.repo.peel update.remoteOid).isSome = true
  forward : isZero update.remoteOid = false →
    if Str.startswith update.remoteRef "refs/heads/" then
      host.isAncestor update.remoteOid update.localOid = true
    else update.remoteOid = update.localOid

structure UpdateOk (update : PushUpdate) : Prop where
  names : NamesOk host update
  objects : isZero update.localOid = false → ObjectsOk host update

/-- The plan after an update. -/
def planWith (plan : Plan) (update : PushUpdate) : Plan :=
  if isZero update.localOid then { plan with refs := update.remoteRef :: plan.refs }
  else {
    revisions := plan.revisions ++ [revisionOf host bases update]
    commits := (plan.commits ++ host.revList (revisionOf host bases update)).dedup
    destinationCommits := (plan.destinationCommits ++ destinationsOf host bases update).dedup
    refs := update.remoteRef :: plan.refs }

end

section

variable {host : Host} {bases : List Oid} {update : PushUpdate}

theorem checkNames_ok_iff {refs : List String} :
    host.checkNames refs update = .ok () ↔ NamesOk host update ∧ update.remoteRef ∉ refs := by
  unfold Host.checkNames
  constructor
  · intro h
    split at h
    · cases h
    · rename_i hoids
      split at h
      · cases h
      · rename_i hlabel
        split at h
        · cases h
        · rename_i href
          split at h
          · cases h
          · rename_i hformat
            split at h
            · cases h
            · rename_i hnew
              simp only [Bool.or_eq_true, Bool.not_eq_true', not_or, Bool.not_eq_false,
                decide_eq_true_eq] at hoids hlabel href hformat hnew
              exact ⟨⟨hoids, ⟨hlabel.1, Bool.not_eq_true _ ▸ hlabel.2⟩,
                href.1, Bool.not_eq_true _ ▸ href.2, hformat⟩, hnew.2⟩
  · intro h
    obtain ⟨hnames, hnew⟩ := h
    have hdelete : update.remoteRef ≠ "(delete)" := by
      intro heq
      have href := hnames.ref.1
      rw [heq] at href
      exact absurd href (by decide)
    simp [hnames.oids, hnames.label, hnames.ref, hdelete, hnew]

theorem checkTag_ok_iff {oid : Oid} : host.checkTag oid = .ok () ↔
    ∀ body target, host.repo.object oid = some (.tag body target) → sensitive body = false := by
  unfold Host.checkTag
  cases hobject : host.repo.object oid with
  | none => simp
  | some o =>
    cases o with
    | blob body => simp
    | commit body parents tree => simp
    | tag body target => cases hbody : sensitive body <;> simp [hbody]

theorem catFileCommit_ok_iff {oid : Oid} :
    host.catFileCommit oid = .ok () ↔ (host.repo.peel oid).isSome = true := by
  unfold Host.catFileCommit
  by_cases h : (host.repo.peel oid).isSome = true <;> simp [h]

theorem selectRevision_ok_iff {selected : Revision × List Oid} :
    host.selectRevision bases update = .ok selected ↔
      (isZero update.remoteOid = false → (host.repo.peel update.remoteOid).isSome = true ∧
        if Str.startswith update.remoteRef "refs/heads/" then
          host.isAncestor update.remoteOid update.localOid = true
        else update.remoteOid = update.localOid) ∧
      selected = (revisionOf host bases update, destinationsOf host bases update) := by
  unfold Host.selectRevision revisionOf destinationsOf
  cases hzero : isZero update.remoteOid with
  | true =>
    simp only [Bool.not_true, Bool.false_eq_true, if_false, if_true, Bool.true_eq_false,
      false_implies, true_and]
    exact ⟨fun h => (Except.ok.inj h).symm, fun h => congrArg Except.ok h.symm⟩
  | false =>
    simp only [Bool.not_false, if_true, Bool.false_eq_true, if_false, true_implies]
    rw [except_bind_ok_iff]
    constructor
    · intro h
      obtain ⟨_, hcommit, h⟩ := h
      have hcommit := catFileCommit_ok_iff.mp hcommit
      split at h
      · rename_i hhead
        rw [if_pos hhead]
        split at h
        · rename_i hforward
          exact ⟨⟨hcommit, hforward⟩, (Except.ok.inj h).symm⟩
        · cases h
      · rename_i hhead
        rw [if_neg hhead]
        split at h
        · cases h
        · rename_i hsame
          exact ⟨⟨hcommit, not_not.mp hsame⟩, (Except.ok.inj h).symm⟩
    · intro h
      obtain ⟨⟨hcommit, hforward⟩, rfl⟩ := h
      refine ⟨(), catFileCommit_ok_iff.mpr hcommit, ?_⟩
      split at hforward
      · rename_i hhead
        rw [if_pos hhead, if_pos hforward]
      · rename_i hhead
        rw [if_neg hhead, if_neg (not_not.mpr hforward)]

/-! ## All updates -/

/-- An update is added to the plan if it is in order and its ref is new. -/
theorem addUpdate_ok_iff {plan plan' : Plan} :
    host.addUpdate bases plan update = .ok plan' ↔
      UpdateOk host update ∧ update.remoteRef ∉ plan.refs ∧ plan' = planWith host bases plan update := by
  unfold Host.addUpdate planWith
  rw [except_bind_ok_iff]
  constructor
  · intro h
    obtain ⟨_, hnames, h⟩ := h
    obtain ⟨hnames, hnew⟩ := checkNames_ok_iff.mp hnames
    cases hzero : isZero update.localOid with
    | true =>
      rw [hzero] at h
      exact ⟨⟨hnames, fun hz => by simp [hzero] at hz⟩, hnew, (Except.ok.inj h).symm⟩
    | false =>
      rw [hzero] at h
      obtain ⟨_, hlocal, h⟩ := except_bind_ok_iff.mp h
      obtain ⟨_, htag, h⟩ := except_bind_ok_iff.mp h
      obtain ⟨selected, hselected, h⟩ := except_bind_ok_iff.mp h
      obtain ⟨hremote, rfl⟩ := selectRevision_ok_iff.mp hselected
      refine ⟨⟨hnames, fun _ => ?_⟩, hnew, (Except.ok.inj h).symm⟩
      exact ⟨catFileCommit_ok_iff.mp hlocal, checkTag_ok_iff.mp htag, fun hz => (hremote hz).1,
        fun hz => (hremote hz).2⟩
  · intro h
    obtain ⟨hupdate, hnew, rfl⟩ := h
    refine ⟨(), checkNames_ok_iff.mpr ⟨hupdate.names, hnew⟩, ?_⟩
    cases hzero : isZero update.localOid with
    | true => rfl
    | false =>
      have hobjects := hupdate.objects hzero
      refine except_bind_ok_iff.mpr ⟨(), catFileCommit_ok_iff.mpr hobjects.localCommit, ?_⟩
      refine except_bind_ok_iff.mpr ⟨(), checkTag_ok_iff.mpr hobjects.tag, ?_⟩
      refine except_bind_ok_iff.mpr ⟨_, selectRevision_ok_iff.mpr ⟨fun hz => ?_, rfl⟩, rfl⟩
      exact ⟨hobjects.remoteCommit hz, hobjects.forward hz⟩

theorem refs_planWith (plan : Plan) : (planWith host bases plan update).refs = update.remoteRef :: plan.refs := by
  unfold planWith
  split <;> rfl

/-- The updates are gathered if each is in order and no two have one ref. -/
theorem gather_ok_iff {updates : List PushUpdate} {plan plan' : Plan} :
    host.gather bases plan updates = .ok plan' ↔
      (∀ update ∈ updates, UpdateOk host update ∧ update.remoteRef ∉ plan.refs) ∧
        (updates.map PushUpdate.remoteRef).Nodup ∧
        plan' = updates.foldl (planWith host bases) plan := by
  induction updates generalizing plan with
  | nil =>
    show Except.ok plan = Except.ok plan' ↔ _
    simp [eq_comm]
  | cons update updates ih =>
    rw [Host.gather, except_bind_ok_iff, List.forall_mem_cons, List.map_cons, List.nodup_cons,
      List.foldl_cons]
    constructor
    · intro h
      obtain ⟨next, hfirst, h⟩ := h
      obtain ⟨hupdate, hnew, rfl⟩ := addUpdate_ok_iff.mp hfirst
      obtain ⟨hothers, hnodup, rfl⟩ := ih.mp h
      refine ⟨⟨⟨hupdate, hnew⟩, fun other hother => ?_⟩, ⟨fun hmem => ?_, hnodup⟩, rfl⟩
      · have hrefs := (hothers other hother).2
        rw [refs_planWith, List.mem_cons, not_or] at hrefs
        exact ⟨(hothers other hother).1, hrefs.2⟩
      · obtain ⟨other, hother, hsame⟩ := List.mem_map.mp hmem
        have hrefs := (hothers other hother).2
        rw [refs_planWith, hsame] at hrefs
        exact hrefs List.mem_cons_self
    · intro h
      obtain ⟨⟨hupdate, hothers⟩, ⟨hfresh, hnodup⟩, rfl⟩ := h
      refine ⟨_, addUpdate_ok_iff.mpr ⟨hupdate.1, hupdate.2, rfl⟩, ih.mpr ⟨?_, hnodup, rfl⟩⟩
      intro other hother
      refine ⟨(hothers other hother).1, ?_⟩
      rw [refs_planWith, List.mem_cons, not_or]
      refine ⟨fun heq => hfresh ?_, (hothers other hother).2⟩
      exact heq ▸ List.mem_map_of_mem hother

/-- What the plan of all updates holds. -/
structure Gathered (host : Host) (bases : List Oid) (updates : List PushUpdate) (plan : Plan) : Prop where
  revisions : plan.revisions =
    (updates.filter fun update => !isZero update.localOid).map (revisionOf host bases)
  commits : ∀ c, c ∈ plan.commits ↔
    ∃ update ∈ updates, isZero update.localOid = false ∧ c ∈ host.revList (revisionOf host bases update)
  nodup : plan.commits.Nodup
  destination : ∀ c, c ∈ plan.destinationCommits ↔
    ∃ update ∈ updates, isZero update.localOid = false ∧ c ∈ destinationsOf host bases update

theorem Gathered.planWith {updates : List PushUpdate} {plan : Plan}
    (h : Gathered host bases updates plan) (update : PushUpdate) :
    Gathered host bases (updates ++ [update]) (planWith host bases plan update) := by
  unfold Outgoing.planWith
  cases hzero : isZero update.localOid with
  | true =>
    refine ⟨?_, fun c => ?_, h.nodup, fun c => ?_⟩
    · simp [h.revisions, hzero]
    · simp [h.commits, hzero, or_and_right, exists_or]
    · simp [h.destination, hzero, or_and_right, exists_or]
  | false =>
    refine ⟨?_, fun c => ?_, List.nodup_dedup _, fun c => ?_⟩
    · simp [h.revisions, hzero]
    · simp [h.commits, hzero, or_and_right, exists_or]
    · simp [h.destination, hzero, or_and_right, exists_or]

theorem gathered_foldl (updates : List PushUpdate) :
    Gathered host bases updates (updates.foldl (planWith host bases) ⟨[], [], [], []⟩) := by
  induction updates using List.reverseRecOn with
  | nil => exact ⟨rfl, by simp, List.nodup_nil, by simp⟩
  | append_singleton updates update ih =>
    rw [List.foldl_concat]
    exact ih.planWith update

end

/-! ## What a push publishes -/

section

variable (host : Host) (bases : List Oid)

/-- A commit the destination has: one that something it is known to hold leads to. -/
def AtDestination (update : PushUpdate) (c : Oid) : Prop :=
  ∃ base ∈ destinationsOf host bases update, ∃ b, host.repo.peel base = some b ∧ host.repo.history.Leads b c

/-- An update publishes a commit: its object leads there, and nothing the destination has does. -/
def Publishes (update : PushUpdate) (c : Oid) : Prop :=
  (∃ tip, host.repo.peel update.localOid = some tip ∧ host.repo.history.Leads tip c) ∧
    ¬ AtDestination host bases update c

/-- One of the updates publishes a commit. -/
def Published (updates : List PushUpdate) (c : Oid) : Prop :=
  ∃ update ∈ updates, isZero update.localOid = false ∧ Publishes host bases update c

/-- An entry in the own tree of a commit the destination is known to hold. -/
def Known (updates : List PushUpdate) (key : TreeKey) : Prop :=
  ∃ update ∈ updates, isZero update.localOid = false ∧ ∃ base ∈ destinationsOf host bases update,
    ∃ b, host.repo.peel base = some b ∧ key ∈ host.repo.entries b

/-- What makes a push one that may leave. -/
structure Admissible (policy : Policy) (updates : List PushUpdate) : Prop where
  base_ok : ∀ base ∈ bases, isOid base = true ∧ (host.repo.peel base).isSome = true
  update_ok : ∀ update ∈ updates, UpdateOk host update
  refs_nodup : (updates.map PushUpdate.remoteRef).Nodup
  commit_clean : ∀ c, Published host bases updates c →
    CleanCommit host policy (Known host bases updates) c
  scan_passes : ∀ update ∈ updates, isZero update.localOid = false →
    host.scanPasses (revisionOf host bases update) = true

/-- What the call needs before it looks at a push, and the policy it finds. -/
structure Ready (remoteUrl : String) (policy : Policy) : Prop where
  destination : host.destination remoteUrl = none
  complete : host.isShallow = false ∧ host.hasGrafts = false
  denied : ∃ text, host.policyFile "denylist.txt" = .text text ∧ policy.denied = patternsOf host.lower text
  allowed : ∃ text, host.policyFile "allowlist.txt" = .text text ∧ policy.allowed = patternsOf host.lower text
  denied_ne : policy.denied ≠ []
  scanner : host.hasScanner = true

end

section

variable {host : Host} {bases : List Oid} {policy : Policy} {updates : List PushUpdate}

theorem excluded_revisionOf (update : PushUpdate) :
    (revisionOf host bases update).excluded = destinationsOf host bases update := by
  unfold revisionOf destinationsOf
  split <;> rfl

theorem tip_revisionOf (update : PushUpdate) : (revisionOf host bases update).tip = update.localOid := by
  unfold revisionOf
  split <;> rfl

theorem mem_revList (update : PushUpdate) (c : Oid) :
    c ∈ host.revList (revisionOf host bases update) ↔ Publishes host bases update c := by
  unfold Host.revList Publishes AtDestination
  rw [tip_revisionOf, excluded_revisionOf]
  cases host.repo.peel update.localOid with
  | none => simp
  | some tip =>
    have hheld : ∀ base, ((host.repo.peel base).any fun b => decide (host.repo.history.Leads b c)) = true ↔
        ∃ b, host.repo.peel base = some b ∧ host.repo.history.Leads b c := by
      intro base
      cases host.repo.peel base <;> simp
    rw [List.mem_filter, RankedGraph.mem_reached, Bool.not_eq_true', ← Bool.not_eq_true, List.any_eq_true]
    simp only [hheld, Option.some.injEq, exists_eq_left']

theorem commit_of_published {c : Oid} (h : Published host bases updates c) :
    (host.repo.object c).any Object.isCommit = true := by
  obtain ⟨update, _, _, ⟨tip, htip, hleads⟩, _⟩ := h
  obtain ⟨body, parents, tree, hobject⟩ := object_of_peel htip
  exact commit_of_leads hleads (any_commit hobject)

theorem readPatterns_ok_iff {filename : String} {patterns : List String} :
    host.readPatterns filename = .ok patterns ↔
      ∃ text, host.policyFile filename = .text text ∧ patterns = patternsOf host.lower text := by
  unfold Host.readPatterns
  cases host.policyFile filename with
  | text s =>
    constructor
    · intro h
      exact ⟨s, rfl, (Except.ok.inj h).symm⟩
    · intro h
      obtain ⟨_, hs, rfl⟩ := h
      rw [PolicyText.text.inj hs]
  | missing => simp
  | unreadable => simp

theorem readPolicy_ok_iff : host.readPolicy = .ok policy ↔
    (∃ text, host.policyFile "denylist.txt" = .text text ∧ policy.denied = patternsOf host.lower text) ∧
      (∃ text, host.policyFile "allowlist.txt" = .text text ∧ policy.allowed = patternsOf host.lower text) ∧
      policy.denied ≠ [] := by
  unfold Host.readPolicy
  constructor
  · intro h
    obtain ⟨denied, hdenied, h⟩ := except_bind_ok_iff.mp h
    obtain ⟨allowed, hallowed, h⟩ := except_bind_ok_iff.mp h
    split at h
    · cases h
    · rename_i hne
      obtain rfl := Except.ok.inj h
      exact ⟨readPatterns_ok_iff.mp hdenied, readPatterns_ok_iff.mp hallowed, by simpa using hne⟩
  · intro h
    obtain ⟨hdenied, hallowed, hne⟩ := h
    refine except_bind_ok_iff.mpr ⟨policy.denied, readPatterns_ok_iff.mpr hdenied, ?_⟩
    refine except_bind_ok_iff.mpr ⟨policy.allowed, readPatterns_ok_iff.mpr hallowed, ?_⟩
    rw [if_neg (by simpa using hne)]

theorem Ready.readPolicy {remoteUrl : String} (h : Ready host remoteUrl policy) :
    host.readPolicy = .ok policy :=
  readPolicy_ok_iff.mpr ⟨h.denied, h.allowed, h.denied_ne⟩

theorem prepare_ok_iff {remoteUrl : String} :
    host.prepare remoteUrl updates = .ok policy ↔ updates ≠ [] ∧ Ready host remoteUrl policy := by
  unfold Host.prepare
  cases hdestination : host.destination remoteUrl with
  | some text =>
    constructor
    · intro h
      cases h
    · intro h
      simp [h.2.destination] at hdestination
  | none =>
    dsimp only
    constructor
    · intro h
      split at h
      · cases h
      · rename_i hupdates
        split at h
        · cases h
        · rename_i hshallow
          split at h
          · cases h
          · rename_i hgrafts
            obtain ⟨found, hread, h⟩ := except_bind_ok_iff.mp h
            split at h
            · cases h
            · rename_i hscanner
              obtain rfl := Except.ok.inj h
              obtain ⟨hdenied, hallowed, hne⟩ := readPolicy_ok_iff.mp hread
              exact ⟨by simpa using hupdates, hdestination, ⟨by simpa using hshallow, by simpa using hgrafts⟩,
                hdenied, hallowed, hne, by simpa using hscanner⟩
    · intro h
      obtain ⟨hupdates, hready⟩ := h
      rw [if_neg (by simpa using hupdates), if_neg (by simp [hready.complete]),
        if_neg (by simp [hready.complete])]
      exact except_bind_ok_iff.mpr ⟨policy, hready.readPolicy, by simp [hready.scanner]⟩

theorem checkBases_ok_iff : host.checkBases bases = .ok () ↔
    ∀ base ∈ bases, isOid base = true ∧ (host.repo.peel base).isSome = true := by
  induction bases with
  | nil => simp [Host.checkBases]
  | cons base bases ih =>
    rw [Host.checkBases, except_bind_ok_iff, List.forall_mem_cons, ← ih, ← catFileCommit_ok_iff]
    unfold Host.checkBase
    cases hoid : isOid base
    · simp
    · simp only [Bool.not_true, Bool.false_eq_true, if_false, true_and]
      constructor
      · intro h
        obtain ⟨_, hbase, hbases⟩ := h
        exact ⟨hbase, hbases⟩
      · intro h
        exact ⟨(), h.1, h.2⟩

theorem isSome_of_isAncestor {base oid : Oid} (h : host.isAncestor base oid = true) :
    (host.repo.peel base).isSome = true := by
  unfold Host.isAncestor at h
  cases hbase : host.repo.peel base with
  | none => simp [hbase] at h
  | some b => rfl

theorem isSome_of_destination {update : PushUpdate} (hupdate : UpdateOk host update)
    (hzero : isZero update.localOid = false) {c : Oid} (h : c ∈ destinationsOf host bases update) :
    (host.repo.peel c).isSome = true := by
  unfold destinationsOf at h
  split at h
  · exact isSome_of_isAncestor (List.mem_filter.mp h).2
  · rename_i hremote
    rw [List.mem_singleton.mp h]
    exact (hupdate.objects hzero).remoteCommit (Bool.not_eq_true _ ▸ hremote)

/-- The verification passes exactly for the pushes that may leave, and counts the commits they
    publish. -/
theorem verifyOutgoing_ok_iff (host : Host) (remoteUrl : String) (updates : List PushUpdate)
    (bases : List Oid) (result : OutgoingVerification) :
    host.verifyOutgoing remoteUrl updates bases = .ok result ↔
      updates ≠ [] ∧ (∃ policy, Ready host remoteUrl policy ∧ Admissible host bases policy updates) ∧
        result.commitsScanned = Set.ncard {c | Published host bases updates c} ∧
        result.refsChecked = updates.length := by
  have hgathered : Gathered host bases updates (updates.foldl (planWith host bases) ⟨[], [], [], []⟩) :=
    gathered_foldl updates
  generalize hplan : updates.foldl (planWith host bases) ⟨[], [], [], []⟩ = plan at hgathered
  have hmem : ∀ c, c ∈ plan.commits ↔ Published host bases updates c := by
    intro c
    rw [hgathered.commits]
    unfold Published
    simp only [mem_revList]
  have hcount : plan.commits.length = Set.ncard {c | Published host bases updates c} := by
    rw [show {c | Published host bases updates c} = (plan.commits.toFinset : Set Oid) by
      ext c
      simp [hmem], Set.ncard_coe_finset, List.toFinset_card_of_nodup hgathered.nodup]
  have hscans : plan.revisions.all host.scanPasses = true ↔ ∀ update ∈ updates,
      isZero update.localOid = false → host.scanPasses (revisionOf host bases update) = true := by
    rw [hgathered.revisions, List.all_map, List.all_eq_true]
    simp only [List.mem_filter, Bool.not_eq_true', and_imp, Function.comp_apply]
  -- the walk over the commits, from what the destination has
  have hwalk : ∀ policy, (∀ update ∈ updates, UpdateOk host update) →
      ∃ seen, host.knownEntries [] (sortBy id plan.destinationCommits) = .ok seen ∧
        ((∃ seen', host.checkCommits policy seen (sortBy id plan.commits) = .ok seen') ↔
          ∀ c, Published host bases updates c → CleanCommit host policy (Known host bases updates) c) := by
    intro policy hupdates
    have hpeels : ∀ c ∈ sortBy id plan.destinationCommits, (host.repo.peel c).isSome = true := by
      intro c hc
      rw [mem_sortBy, hgathered.destination] at hc
      obtain ⟨update, hupdate, hzero, hdestination⟩ := hc
      exact isSome_of_destination (hupdates update hupdate) hzero hdestination
    obtain ⟨seen, hseen, hknown⟩ := @knownEntries_ok host _ [] hpeels
    have hkey : ∀ key, key ∈ seen ↔ Known host bases updates key := by
      intro key
      rw [hknown]
      unfold Known
      simp only [List.not_mem_nil, false_or, mem_sortBy, hgathered.destination]
      constructor
      · intro h
        obtain ⟨c, ⟨update, hupdate, hzero, hc⟩, b, hb, hentry⟩ := h
        exact ⟨update, hupdate, hzero, c, hc, b, hb, hentry⟩
      · intro h
        obtain ⟨update, hupdate, hzero, c, hc, b, hb, hentry⟩ := h
        exact ⟨c, ⟨update, hupdate, hzero, hc⟩, b, hb, hentry⟩
    refine ⟨seen, hseen, ?_⟩
    rw [checkCommits_ok_iff (by
      intro c hc
      exact commit_of_published ((hmem c).mp (mem_sortBy.mp hc)))]
    simp only [mem_sortBy, hmem, hkey]
  unfold Host.verifyOutgoing
  rw [except_bind_ok_iff]
  constructor
  · intro h
    obtain ⟨policy, hprepare, h⟩ := h
    obtain ⟨hne, hready⟩ := prepare_ok_iff.mp hprepare
    obtain ⟨_, hbases, h⟩ := except_bind_ok_iff.mp h
    obtain ⟨_, hgather, h⟩ := except_bind_ok_iff.mp h
    obtain ⟨hupdates, hrefs, rfl⟩ := gather_ok_iff.mp hgather
    rw [hplan] at h
    obtain ⟨seen, hseen, hcommits⟩ := hwalk policy fun update hupdate => (hupdates update hupdate).1
    obtain ⟨found, hfound, h⟩ := except_bind_ok_iff.mp h
    obtain rfl := Except.ok.inj (hseen.symm.trans hfound)
    obtain ⟨seen', hseen', h⟩ := except_bind_ok_iff.mp h
    split at h
    · rename_i hscan
      obtain rfl := Except.ok.inj h
      refine ⟨hne, ⟨policy, hready, checkBases_ok_iff.mp hbases, fun u hu => (hupdates u hu).1, hrefs,
        hcommits.mp ⟨seen', hseen'⟩, hscans.mp hscan⟩, hcount, rfl⟩
    · cases h
  · intro h
    obtain ⟨hne, ⟨policy, hready, hadmissible⟩, hcommitsScanned, hrefsChecked⟩ := h
    refine ⟨policy, prepare_ok_iff.mpr ⟨hne, hready⟩, ?_⟩
    refine except_bind_ok_iff.mpr ⟨(), checkBases_ok_iff.mpr hadmissible.base_ok, ?_⟩
    refine except_bind_ok_iff.mpr ⟨plan, gather_ok_iff.mpr ⟨fun update hupdate => ?_, hadmissible.refs_nodup,
      hplan.symm⟩, ?_⟩
    · exact ⟨hadmissible.update_ok update hupdate, List.not_mem_nil⟩
    · obtain ⟨seen, hseen, hcommits⟩ := hwalk policy hadmissible.update_ok
      obtain ⟨seen', hseen'⟩ := hcommits.mpr hadmissible.commit_clean
      refine except_bind_ok_iff.mpr ⟨seen, hseen, ?_⟩
      refine except_bind_ok_iff.mpr ⟨seen', hseen', ?_⟩
      rw [if_pos (hscans.mpr hadmissible.scan_passes), hcount, ← hcommitsScanned, ← hrefsChecked]

end

end SummitFlow.Outgoing
