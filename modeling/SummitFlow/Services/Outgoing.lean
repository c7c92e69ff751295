import SummitFlow.ForStd.Json
import SummitFlow.ForStd.RankedGraph
import SummitFlow.ForStd.SortedBy
import SummitFlow.Services.OutgoingContent

/-!
# Outgoing verification

Model of `backend/app/services/git/outgoing.py`: a push is certified by reading every commit it
would publish, before anything is sent.

The repository is its objects, with commits that hold their whole trees; git itself is a
few functions of it.  The scanner, the policy files and the address of the destination are what
the call finds in its surroundings.
-/

namespace SummitFlow.Outgoing

open Json (Value)

abbrev Oid := String

def isHexDigit (c : Char) : Bool := ('0' ≤ c && c ≤ '9') || ('a' ≤ c && c ≤ 'f')

/-- `_OID.fullmatch`. -/
def isOid (text : String) : Bool :=
  (text.toList.length = 40 || text.toList.length = 64) && text.toList.all isHexDigit

/-- `set(oid) == {"0"}`. -/
def isZero (oid : Oid) : Bool := oid != "" && oid.toList.all (· = '0')

/-! ## Objects -/

/-- What a recursive listing of a tree names: files and links, and commits of submodules. -/
inductive Kind where
  | blob
  | commit
deriving DecidableEq, Repr

def Kind.text : Kind → Bytes
  | blob => ascii "blob"
  | commit => ascii "commit"

structure TreeEntry where
  path : Bytes
  mode : Bytes
  kind : Kind
  oid : Oid
deriving DecidableEq, Repr

/-- A path has no NUL, a mode is a word, and what is named is an object. -/
structure TreeEntry.WellFormed (entry : TreeEntry) : Prop where
  path : 0 ∉ entry.path
  mode : entry.mode ≠ []
  modeWord : ∀ b ∈ entry.mode, isSpaceByte b = false ∧ b ≠ 0
  oid : isOid entry.oid = true

/-- `git ls-tree -rz --full-tree`. -/
def lsTree (tree : List TreeEntry) : Bytes :=
  tree.flatMap fun entry =>
    entry.mode ++ 32 :: (entry.kind.text ++ 32 :: (ascii entry.oid ++ 9 :: (entry.path ++ [0])))

inductive Object where
  | blob (body : Bytes)
  | commit (body : Bytes) (parents : List Oid) (tree : List TreeEntry)
  | tag (body : Bytes) (target : Oid)
deriving DecidableEq, Repr

def Object.parents : Object → List Oid
  | commit _ parents _ => parents
  | _ => []

def Object.tree : Object → List TreeEntry
  | commit _ _ tree => tree
  | _ => []

def Object.isCommit : Object → Bool
  | commit _ _ _ => true
  | _ => false

def Object.isBlob : Object → Bool
  | blob _ => true
  | _ => false

/-- The objects of a repository with complete history: a commit is made after its parents and a
    tag after its target, and what a commit refers to is there. -/
structure Repo where
  object : Oid → Option Object
  rank : Oid → Nat
  parents_rank : ∀ oid o, object oid = some o → ∀ p ∈ o.parents, rank p < rank oid
  parents_commit : ∀ oid o, object oid = some o → ∀ p ∈ o.parents, (object p).any Object.isCommit = true
  target_rank : ∀ oid body target, object oid = some (.tag body target) → rank target < rank oid
  tree_wellFormed : ∀ oid o, object oid = some o → ∀ entry ∈ o.tree, entry.WellFormed
  tree_blob : ∀ oid o, object oid = some o → ∀ entry ∈ o.tree, entry.kind = .blob →
    ∃ body, object entry.oid = some (.blob body)

/-- A list of objects in which each refers to others as a repository has it. -/
def consistent (objects : List (Oid × Object)) : Bool :=
  let rank oid := (objects.map Prod.fst).idxOf oid
  objects.all fun (oid, o) =>
    (o.parents.all fun p => rank p < rank oid && (objects.lookup p).any Object.isCommit) &&
    (match o with
      | .tag _ target => decide (rank target < rank oid)
      | _ => true) &&
    o.tree.all fun entry =>
      entry.path.all (· != 0) && (entry.mode != [] && entry.mode.all fun b => !isSpaceByte b && b != 0) &&
        isOid entry.oid && (entry.kind == .commit || (objects.lookup entry.oid).any Object.isBlob)

theorem mem_of_lookup {objects : List (Oid × Object)} {oid : Oid} {o : Object}
    (h : objects.lookup oid = some o) : (oid, o) ∈ objects := by
  obtain ⟨before, after, heq, _⟩ := List.lookup_eq_some_iff.mp h
  rw [heq]
  simp

/-- The repository with the objects of such a list. -/
def Repo.ofObjects (objects : List (Oid × Object)) (h : consistent objects = true) : Repo where
  object oid := objects.lookup oid
  rank oid := (objects.map Prod.fst).idxOf oid
  parents_rank oid o ho p hp := by
    have hall := List.all_eq_true.mp h _ (mem_of_lookup ho)
    simp only [Bool.and_eq_true, List.all_eq_true, decide_eq_true_eq] at hall
    exact (hall.1.1 p hp).1
  parents_commit oid o ho p hp := by
    have hall := List.all_eq_true.mp h _ (mem_of_lookup ho)
    simp only [Bool.and_eq_true, List.all_eq_true, decide_eq_true_eq] at hall
    exact (hall.1.1 p hp).2
  target_rank oid body target ho := by
    have hall := List.all_eq_true.mp h _ (mem_of_lookup ho)
    simp only [Bool.and_eq_true, List.all_eq_true, decide_eq_true_eq] at hall
    exact hall.1.2
  tree_wellFormed oid o ho entry hentry := by
    have hall := List.all_eq_true.mp h _ (mem_of_lookup ho)
    simp only [Bool.and_eq_true, List.all_eq_true, bne_iff_ne, Bool.not_eq_true'] at hall
    obtain ⟨⟨⟨hpath, hmode, hword⟩, hoid⟩, _⟩ := hall.2 entry hentry
    exact ⟨fun hmem => hpath 0 hmem rfl, hmode, hword, hoid⟩
  tree_blob oid o ho entry hentry hkind := by
    have hall := List.all_eq_true.mp h _ (mem_of_lookup ho)
    simp only [Bool.and_eq_true, List.all_eq_true] at hall
    have hblob := (hall.2 entry hentry).2
    rw [hkind] at hblob
    cases hobject : objects.lookup entry.oid with
    | none => simp [hobject] at hblob
    | some o =>
      cases o with
      | blob body => exact ⟨body, rfl⟩
      | commit body parents tree => simp [hobject, Object.isBlob] at hblob
      | tag body target => simp [hobject, Object.isBlob] at hblob

namespace Repo

variable (repo : Repo)

def parents (oid : Oid) : List Oid := ((repo.object oid).map Object.parents).getD []

/-- The commits and their parents. -/
def history : RankedGraph Oid where
  next := repo.parents
  rank := repo.rank
  down oid p hp := by
    unfold parents at hp
    cases hobject : repo.object oid with
    | none => simp [hobject] at hp
    | some o =>
      rw [hobject] at hp
      exact repo.parents_rank oid o hobject p hp

/-- What the tags from `oid` on name in the end, if that is a commit. -/
def peelFrom : Nat → Oid → Option Oid
  | 0, _ => none
  | depth + 1, oid =>
    match repo.object oid with
    | some (.commit _ _ _) => some oid
    | some (.tag _ target) => peelFrom depth target
    | _ => none

/-- `oid^{commit}`. -/
def peel (oid : Oid) : Option Oid := repo.peelFrom (repo.rank oid + 1) oid

end Repo

/-! ## The surroundings of a call -/

/-- What reading a policy file gives. -/
inductive PolicyText where
  | text (s : String)
  | missing
  | unreadable
deriving DecidableEq, Repr

/-- What a run of the scanner leaves: its exit status, and its report where it can be read. -/
structure ScanResult where
  returncode : Int
  report : Option Value

/-- A path, its mode and its object, in the listing of a commit. -/
abbrev TreeKey := Bytes × Bytes × Bytes

/-- An order in which a set of entries is walked. -/
structure SetOrder where
  order : List TreeKey → List TreeKey
  perm : ∀ keys, (order keys).Perm keys

structure Host where
  repo : Repo
  isShallow : Bool
  /-- there is a grafts file with something in it -/
  hasGrafts : Bool
  policyFile : String → PolicyText
  hasScanner : Bool
  /-- `gitleaks git --log-opts=…` -/
  scan : String → ScanResult
  /-- `_destination`: what is wrong with the address -/
  destination : String → Option String
  /-- `git check-ref-format` -/
  checkRefFormat : String → Bool
  /-- `str.lower` -/
  lower : String → String
  /-- `os.fsdecode` -/
  fsdecode : Bytes → String
  setOrder : SetOrder
  /-- `_public_manifest_key` -/
  publicManifestKey : Value → Bool

/-! ## Verification -/

inductive Failure where
  /-- `OutgoingVerificationError` -/
  | refused (text : String)
  | valueError
deriving DecidableEq, Repr

structure PushUpdate where
  localRef : String
  localOid : Oid
  remoteRef : String
  remoteOid : Oid
deriving DecidableEq, Repr

structure OutgoingVerification where
  commitsScanned : Nat
  refsChecked : Nat
deriving DecidableEq, Repr

/-- What `_git` raises when git fails. -/
def unavailable : Failure := .refused "Outgoing history or objects are unavailable."

/-- The commits a revision stands for. -/
inductive Revision where
  /-- `old..new` -/
  | range (old new : Oid)
  /-- `new ^base …` -/
  | without (new : Oid) (bases : List Oid)
deriving DecidableEq, Repr

def Revision.text : Revision → String
  | range old new => old ++ ".." ++ new
  | without new bases => " ".intercalate (new :: bases.map ("^" ++ ·))

def Revision.tip : Revision → Oid
  | range _ new => new
  | without new _ => new

def Revision.excluded : Revision → List Oid
  | range old _ => [old]
  | without _ bases => bases

/-- What the checks of the updates have gathered. -/
structure Plan where
  revisions : List Revision
  commits : List Oid
  destinationCommits : List Oid
  refs : List String
deriving DecidableEq, Repr

def words (bs : Bytes) : List Bytes := (bs.splitOnP isSpaceByte).filter (· ≠ [])

/-- An entry of a listing, if it is that of a blob. -/
def readEntry (entry : Bytes) : Except Failure (Option TreeKey) :=
  match Framing.cut 9 entry with
  | none => .error .valueError
  | some (metadata, path) =>
    match words metadata with
    | [mode, kind, oid] => .ok (if kind = ascii "blob" then some (path, mode, oid) else none)
    | _ => .error .valueError

/-- The blobs in the output of a listing. -/
def readTree (output : Bytes) : Except Failure (List TreeKey) :=
  (((output.splitOn 0).filter (· ≠ [])).mapM readEntry).map fun keys => keys.reduceOption.dedup

def decodeAscii (bs : Bytes) : String := String.ofList (bs.map fun b => Char.ofNat b.toNat)

/-- The patterns that deny a path and those that allow it. -/
structure Policy where
  denied : List String
  allowed : List String
deriving DecidableEq, Repr

namespace Host

variable (host : Host)

/-! ### git -/

/-- `git cat-file -e oid^{commit}`. -/
def catFileCommit (oid : Oid) : Except Failure Unit :=
  if (host.repo.peel oid).isSome then .ok () else .error unavailable

/-- `git merge-base --is-ancestor`, of objects that name commits. -/
def isAncestor (base oid : Oid) : Bool :=
  match host.repo.peel base, host.repo.peel oid with
  | some b, some c => decide (host.repo.history.Leads c b)
  | _, _ => false

/-- `git rev-list`. -/
def revList (revision : Revision) : List Oid :=
  match host.repo.peel revision.tip with
  | none => []
  | some tip =>
    (host.repo.history.reached tip).filter fun c =>
      !revision.excluded.any fun base =>
        (host.repo.peel base).any fun b => decide (host.repo.history.Leads b c)

/-- `_tree_entries`. -/
def treeEntries (commit : Oid) : Except Failure (List TreeKey) :=
  match (host.repo.peel commit).bind host.repo.object with
  | some o => readTree (lsTree o.tree)
  | none => .error unavailable

/-- `git cat-file commit`. -/
def commitBody (commit : Oid) : Except Failure Bytes :=
  match host.repo.object commit with
  | some (.commit body _ _) => .ok body
  | _ => .error unavailable

/-- `git cat-file blob`. -/
def blobBody (oid : Oid) : Except Failure Bytes :=
  match host.repo.object oid with
  | some (.blob body) => .ok body
  | _ => .error unavailable

/-! ### The updates -/

def checkBase (base : Oid) : Except Failure Unit :=
  if !isOid base then .error (.refused "Invalid live destination base object.")
  else host.catFileCommit base

def hasControl (label : String) : Bool := label.toList.any fun c => c.toNat < 33

/-- The names in an update, with the refs of the updates before. -/
def checkNames (refs : List String) (update : PushUpdate) : Except Failure Unit :=
  if !isOid update.localOid || !isOid update.remoteOid then
    .error (.refused "Invalid outgoing object identifier.")
  else if update.localRef = "" || hasControl update.localRef then
    .error (.refused "Invalid outgoing source label.")
  else if !Str.startswith update.remoteRef "refs/" || hasControl update.remoteRef then
    .error (.refused "Invalid outgoing destination ref.")
  else if !host.checkRefFormat update.remoteRef then .error unavailable
  else if update.remoteRef = "(delete)" || update.remoteRef ∈ refs then
    .error (.refused "Invalid or duplicate destination ref.")
  else .ok ()

/-- The message of an annotated tag goes out with its commits. -/
def checkTag (oid : Oid) : Except Failure Unit :=
  match host.repo.object oid with
  | some (.tag body _) =>
    if sensitive body then .error (.refused "Outgoing tag contains sensitive content (redacted).")
    else .ok ()
  | _ => .ok ()

/-- The bases that a new ref contains. -/
def applicable (bases : List Oid) (oid : Oid) : List Oid := bases.filter fun base => host.isAncestor base oid

/-- The commits of an update, and those the destination has. -/
def selectRevision (bases : List Oid) (update : PushUpdate) : Except Failure (Revision × List Oid) :=
  if !isZero update.remoteOid then
    (host.catFileCommit update.remoteOid).bind fun _ =>
    let selected := (.range update.remoteOid update.localOid, [update.remoteOid])
    if Str.startswith update.remoteRef "refs/heads/" then
      if host.isAncestor update.remoteOid update.localOid then .ok selected else .error unavailable
    else if update.remoteOid ≠ update.localOid then
      .error (.refused "Replacing existing publication tags is refused.")
    else .ok selected
  else
    let bases := host.applicable bases update.localOid
    .ok (.without update.localOid bases, bases)

/-- One round of the loop over the updates. -/
def addUpdate (bases : List Oid) (plan : Plan) (update : PushUpdate) : Except Failure Plan :=
  (host.checkNames plan.refs update).bind fun _ =>
  let plan := { plan with refs := update.remoteRef :: plan.refs }
  -- a deletion carries no objects
  if isZero update.localOid then .ok plan
  else
    (host.catFileCommit update.localOid).bind fun _ =>
    (host.checkTag update.localOid).bind fun _ =>
    (host.selectRevision bases update).bind fun (revision, destinations) =>
    .ok { plan with
      revisions := plan.revisions ++ [revision]
      commits := (plan.commits ++ host.revList revision).dedup
      destinationCommits := (plan.destinationCommits ++ destinations).dedup }

def gather (bases : List Oid) (plan : Plan) : List PushUpdate → Except Failure Plan
  | [] => .ok plan
  | update :: updates => (host.addUpdate bases plan update).bind fun plan => gather bases plan updates

/-! ### The commits -/

/-- The entries the destination has already, in one of its own trees. -/
def knownEntries : List TreeKey → List Oid → Except Failure (List TreeKey)
  | seen, [] => .ok seen
  | seen, commit :: commits =>
    (host.treeEntries commit).bind fun keys => knownEntries (seen ++ keys) commits

/-- What is asked of an entry that is new. -/
def checkEntry (policy : Policy) (key : TreeKey) : Except Failure Unit :=
  let path := host.fsdecode key.1
  (host.blobBody (decodeAscii key.2.2)).bind fun body =>
  if !pathMatches host.lower path policy.allowed && pathMatches host.lower path policy.denied &&
      !reviewedNpmrc host.lower path key.2.1 body policy.denied then
    .error (.refused "Outgoing history contains a secret-sensitive path (content redacted).")
  else if sensitive body || loneToken host.lower path body then
    .error (.refused "Outgoing history contains sensitive content (redacted).")
  else .ok ()

/-- The entries of a commit that were not seen before. -/
def checkEntries (policy : Policy) : List TreeKey → List TreeKey → Except Failure (List TreeKey)
  | seen, [] => .ok seen
  | seen, key :: keys =>
    if key ∈ seen then checkEntries policy seen keys
    else (host.checkEntry policy key).bind fun _ => checkEntries policy (key :: seen) keys

def checkCommit (policy : Policy) (seen : List TreeKey) (commit : Oid) :
    Except Failure (List TreeKey) :=
  (host.commitBody commit).bind fun body =>
  if sensitive body then
    .error (.refused "Outgoing commit metadata contains sensitive content (redacted).")
  else
    (host.treeEntries commit).bind fun keys => host.checkEntries policy seen (host.setOrder.order keys)

def checkCommits (policy : Policy) : List TreeKey → List Oid → Except Failure (List TreeKey)
  | seen, [] => .ok seen
  | seen, commit :: commits =>
    (host.checkCommit policy seen commit).bind fun seen => checkCommits policy seen commits

/-! ### The scanner -/

/-- The lines of the file of reviewed fingerprints. -/
def reviewedLines (text : String) : List String :=
  ((Str.splitlines text).filter fun line =>
    Str.strip line != "" && !Str.startswith (Str.lstripBy Str.isSpace line) "#").map Str.strip

/-- `d.get(key)` of a dictionary read from JSON. -/
def getField (key : String) (entries : List (String × Value)) : Option Value := entries.reverse.lookup key

/-- A finding that is named exactly in the file of reviewed fingerprints. -/
def reviewedFingerprint (reviewed : List String) : Value → Bool
  | .obj entries =>
    match getField "Commit" entries, getField "File" entries, getField "RuleID" entries,
      getField "StartLine" entries with
    | some (.str commit), some (.str path), some (.str rule), some (.int line) =>
      isOid commit && decide (1 ≤ line) &&
        decide (commit ++ ":" ++ path ++ ":" ++ rule ++ ":" ++ toString line ∈ reviewed)
    | _, _, _, _ => false
  | _ => false

/-- `_only_reviewed_findings`. -/
def onlyReviewedFindings (report : Option Value) : Bool :=
  match report with
  | some (.arr findings) =>
    match host.policyFile "publication-fingerprints.txt" with
    | .unreadable => false
    | .missing => accept [] findings
    | .text s => accept (reviewedLines s) findings
  | _ => false
where
  accept (reviewed : List String) (findings : List Value) : Bool :=
    !findings.isEmpty &&
      findings.all fun finding => host.publicManifestKey finding || reviewedFingerprint reviewed finding

def scanPasses (revision : Revision) : Bool :=
  let result := host.scan revision.text
  result.returncode = 0 || host.onlyReviewedFindings result.report

/-! ### The whole -/

def readPatterns (filename : String) : Except Failure (List String) :=
  match host.policyFile filename with
  | .text s => .ok (patternsOf host.lower s)
  | _ => .error (.refused "Secret path policy is unavailable.")

def readPolicy : Except Failure Policy :=
  (host.readPatterns "denylist.txt").bind fun denied =>
  (host.readPatterns "allowlist.txt").bind fun allowed =>
  if denied.isEmpty then .error (.refused "Empty secret path policy refused.")
  else .ok ⟨denied, allowed⟩

def checkBases : List Oid → Except Failure Unit
  | [] => .ok ()
  | base :: bases => (host.checkBase base).bind fun _ => checkBases bases

/-- What is asked before the updates are looked at. -/
def prepare (remoteUrl : String) (updates : List PushUpdate) : Except Failure Policy :=
  match host.destination remoteUrl with
  | some text => .error (.refused text)
  | none =>
    if updates.isEmpty then .error (.refused "No publication updates supplied.")
    else if host.isShallow then
      .error (.refused "Complete outgoing history is required; shallow repository refused.")
    else if host.hasGrafts then
      .error (.refused "Grafted history cannot certify outgoing objects.")
    else
      host.readPolicy.bind fun policy =>
      if !host.hasScanner then
        .error (.refused "Required outgoing secret scanner is unavailable.")
      else .ok policy

/-- `_verify_outgoing`. -/
def verifyOutgoing (remoteUrl : String) (updates : List PushUpdate) (publishedBases : List Oid) :
    Except Failure OutgoingVerification :=
  (host.prepare remoteUrl updates).bind fun policy =>
  (host.checkBases publishedBases).bind fun _ =>
  (host.gather publishedBases ⟨[], [], [], []⟩ updates).bind fun plan =>
  (host.knownEntries [] (sortBy id plan.destinationCommits)).bind fun seen =>
  (host.checkCommits policy seen (sortBy id plan.commits)).bind fun _ =>
  if plan.revisions.all host.scanPasses then .ok ⟨plan.commits.length, updates.length⟩
  else .error (.refused "Outgoing secret scan refused history or failed (details redacted).")

end Host

/-- `parse_updates`. -/
def parseUpdates (data : String) : Except Failure (List PushUpdate) :=
  ((Str.splitlines data).filter fun line => Str.strip line != "").mapM fun line =>
    match (Str.wordsAux [] line.toList).map String.ofList with
    | [localRef, localOid, remoteRef, remoteOid] => .ok ⟨localRef, localOid, remoteRef, remoteOid⟩
    | _ => .error (.refused "Malformed pre-push input.")

end SummitFlow.Outgoing
