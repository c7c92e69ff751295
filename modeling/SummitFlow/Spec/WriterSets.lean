import SummitFlow.Cli.Leases

/-!
# Writer sets never forget a session

A session that recorded a write of a path stays visible to every session apart from
it: `Remembered` says that the path's writer set has an entry under the recorder's
key, or an unknown one, that is not the other session's.  Every operation saves the
whole document, so each one has to keep it (`Remembered.serveStep`); the ones that may
not are the takeover of the path and a prune that finds it clean.

One more recording can hide the entry: entries are replaced by key, so a process that
records under the recorder's identity on the other session's harness turns the entry
into that session's own.  `Keeps` excludes it, and the last section shows that it is
needed.
-/

namespace SummitFlow.Leases

open Coord (Caller)

/-! ## The entry -/

/-- Two sessions without a common identity or anchor. -/
structure Apart (a b : Caller) : Prop where
  ids : ∀ id ∈ a.sessionIds, id ∉ b.sessionIds
  anchor : ∀ anchor, a.sessionAnchor = some anchor → b.sessionAnchor ≠ some anchor

/-- The path's writer set has an entry under `a`'s key, or an unknown one, that `b`
    does not take for its own. -/
def RememberedIn (a b : Caller) (path : String) (writers : Writers) : Prop :=
  ∃ entries, writers.lookup path = some entries ∧ ∃ e ∈ entries,
    (e.agentId = unknownWriter ∨ e.agentId = a.rootKey) ∧
      isOwnWriter b.sessionIds b.sessionAnchor e = false

/-- An entry made by a session that shares neither identity nor anchor is not own. -/
theorem isOwnWriter_of_apart {b : Caller} {e : Writer}
    (hid : e.agentId ≠ unknownWriter → e.agentId ∉ b.sessionIds)
    (hanchor : e.agentId ≠ unknownWriter →
      ∀ anchor, b.sessionAnchor = some anchor → e.anchor ≠ some anchor) :
    isOwnWriter b.sessionIds b.sessionAnchor e = false := by
  unfold isOwnWriter
  split
  · rfl
  · next hknown =>
    have hid' := hid hknown
    cases hb : b.sessionAnchor with
    | none => simpa using hid'
    | some anchor =>
      have hne := hanchor hknown anchor hb
      simp [hid', hne]

/-- The entry of an unknown writer is nobody's own. -/
theorem isOwnWriter_unknown {mine : List String} {anchor : Option String} {e : Writer}
    (h : e.agentId = unknownWriter) : isOwnWriter mine anchor e = false := by
  simp [isOwnWriter, h]

/-- Whichever entry a session makes, it is under its key or unknown, on its anchor. -/
theorem writerEntry_cases (env : Env) (unknown : Option String) (sensitive : Option Bool) :
    (writerEntry env unknown sensitive).anchor = env.caller.sessionAnchor ∧
      ((writerEntry env unknown sensitive).agentId = unknownWriter ∨
        (writerEntry env unknown sensitive).agentId = env.caller.rootKey) := by
  refine ⟨rfl, ?_⟩
  unfold writerEntry
  dsimp only
  split
  · exact .inl rfl
  · exact .inr rfl

theorem writeEntry_cases (env : Env) (args : WriteArgs) (leases : List Lease) (path : String)
    (writers : Writers) :
    (writeEntry env args leases path writers).anchor = env.caller.sessionAnchor ∧
      ((writeEntry env args leases path writers).agentId = unknownWriter ∨
        (writeEntry env args leases path writers).agentId = env.caller.rootKey) := by
  unfold writeEntry
  dsimp only
  split
  · split
    · exact writerEntry_cases env _ none
    · exact writerEntry_cases env _ none
  · exact writerEntry_cases env _ none

/-! ## One change of the writer sets -/

variable {a b : Caller} {path : String} {writers : Writers}

/-- Loading a document without legacy touches keeps the entry: its key is not empty. -/
theorem RememberedIn.load {doc : Doc} (h : RememberedIn a b path doc.writers)
    (htouches : doc.touches = none) (now : Int) : RememberedIn a b path (loadWriters now doc) := by
  obtain ⟨entries, hlookup, e, he, hkey, hforeign⟩ := h
  have hne : e.agentId ≠ "" := by
    rcases hkey with hkey | hkey
    · rw [hkey]
      decide
    · rw [hkey]
      exact a.rootKey_ne_empty
  have hkept : e ∈ entries.filter fun e => e.agentId != "" := by
    rw [List.mem_filter]
    exact ⟨he, by simpa using hne⟩
  refine ⟨entries.filter fun e => e.agentId != "", ?_, e, hkept, hkey, hforeign⟩
  simp only [loadWriters, htouches, Option.getD_none, List.foldl_nil]
  apply Dict.lookup_filter_of_pos
  · rw [Dict.lookup_map_value, hlookup]
    rfl
  · have : (entries.filter fun e => e.agentId != "") ≠ [] := List.ne_nil_of_mem hkept
    simpa using this

/-- Adding an entry elsewhere, or under another key, or one that is not `b`'s own,
    keeps it. -/
theorem RememberedIn.addWriter (h : RememberedIn a b path writers) {path' : String}
    {entry : Writer} (hentry : path' = path → entry.agentId = a.rootKey →
      isOwnWriter b.sessionIds b.sessionAnchor entry = false) :
    RememberedIn a b path (addWriter path' entry writers) := by
  obtain ⟨entries, hlookup, e, he, hkey, hforeign⟩ := h
  unfold Leases.addWriter
  by_cases hpath : path' = path
  · subst hpath
    refine ⟨_, Dict.lookup_set_self _ _ _, ?_⟩
    by_cases hsame : e.agentId = entry.agentId
    · -- the new entry takes the place of the old one
      refine ⟨entry, by simp, hsame ▸ hkey, ?_⟩
      rcases hkey with hkey | hkey
      · exact isOwnWriter_unknown (hsame ▸ hkey)
      · exact hentry rfl (hsame ▸ hkey)
    · refine ⟨e, ?_, hkey, hforeign⟩
      rw [hlookup, List.mem_append, List.mem_filter]
      exact .inl ⟨he, by simpa using hsame⟩
  · exact ⟨entries, by rw [Dict.lookup_set_of_ne (Ne.symm hpath), hlookup], e, he, hkey, hforeign⟩

/-- The entry a session apart from `b` makes is remembered. -/
theorem rememberedIn_addWriter {entry : Writer}
    (hkey : entry.agentId = unknownWriter ∨ entry.agentId = a.rootKey)
    (hforeign : isOwnWriter b.sessionIds b.sessionAnchor entry = false) :
    RememberedIn a b path (addWriter path entry writers) :=
  ⟨_, Dict.lookup_set_self _ _ _, entry, by simp, hkey, hforeign⟩

/-- Pruning keeps the entry of a path that is dirty or not below the root. -/
theorem RememberedIn.prune (h : RememberedIn a b path writers) {root : String}
    {dirty : List String}
    (hdirty : Str.startswith path (Str.rstripSlash root ++ "/") = true → path ∈ dirty) :
    RememberedIn a b path (prune root dirty writers) := by
  obtain ⟨entries, hlookup, e, he, hkey, hforeign⟩ := h
  refine ⟨entries, ?_, e, he, hkey, hforeign⟩
  apply Dict.lookup_filter_of_pos hlookup
  cases hprefix : Str.startswith path (Str.rstripSlash root ++ "/") with
  | false => simp
  | true => simp [hdirty hprefix]

/-- Recording other writes keeps the entry as long as none of them makes it `b`'s. -/
theorem RememberedIn.foldl (h : RememberedIn a b path writers)
    (entry : String → Writers → Writer) {paths : List String}
    (hentry : path ∈ paths → ∀ writers, (entry path writers).agentId = a.rootKey →
      isOwnWriter b.sessionIds b.sessionAnchor (entry path writers) = false) :
    RememberedIn a b path
      (paths.foldl (fun writers p => Leases.addWriter p (entry p writers) writers) writers) := by
  induction paths generalizing writers with
  | nil => exact h
  | cons p paths ih =>
    rw [List.foldl_cons]
    apply ih
    · apply h.addWriter
      intro hp hkey
      subst hp
      exact hentry List.mem_cons_self writers hkey
    · intro hmem
      exact hentry (List.mem_cons_of_mem _ hmem)

/-- Recording writes of a path remembers it, when every entry is the recorder's. -/
theorem rememberedIn_foldl (entry : String → Writers → Writer) {paths : List String}
    (hmem : path ∈ paths)
    (hentry : ∀ writers, ((entry path writers).agentId = unknownWriter ∨
        (entry path writers).agentId = a.rootKey) ∧
      isOwnWriter b.sessionIds b.sessionAnchor (entry path writers) = false) :
    RememberedIn a b path
      (paths.foldl (fun writers p => addWriter p (entry p writers) writers) writers) := by
  induction paths generalizing writers with
  | nil => simp at hmem
  | cons p paths ih =>
    rw [List.foldl_cons]
    by_cases hp : p = path
    · subst hp
      apply RememberedIn.foldl
      · exact rememberedIn_addWriter (hentry writers).1 (hentry writers).2
      · intro _ writers' _
        exact (hentry writers').2
    · exact ih ((List.mem_cons.mp hmem).resolve_left (Ne.symm hp))

/-! ## Calls -/

/-- The document remembers `a`'s write of the path for `b`. -/
structure Remembered (a b : Caller) (path : String) (doc : Doc) : Prop where
  folded : doc.touches = none
  entry : RememberedIn a b path doc.writers

/-- A claim of the path, or a record of it among the written ones. -/
def Records (path : String) (op : Op) : Prop :=
  (∃ path' projectRoot, op = .claim path' projectRoot ∧ projectPath path' projectRoot = path) ∨
    ∃ args, op = .recordWrites args ∧ path ∈ args.paths

/-- What a later call must not do: take the path, find it clean below a root that is
    above it, or record it under `a`'s key on `b`'s anchor. -/
structure Keeps (a b : Caller) (path : String) (call : Env × Op) : Prop where
  untaken : ∀ path' leaseId projectRoot, call.2 = .takeAdopt path' leaseId projectRoot →
    projectPath path' projectRoot ≠ path
  dirtyRecord : ∀ args dirty root, call.2 = .recordWrites args → args.dirty = some dirty →
    args.root = some root → root ≠ "" →
    Str.startswith path (Str.rstripSlash root ++ "/") = true → path ∈ dirty
  dirtyPrune : ∀ root dirty, call.2 = .pruneWriters root dirty →
    Str.startswith path (Str.rstripSlash root ++ "/") = true → path ∈ dirty
  elsewhere : Records path call.2 → call.1.caller.rootKey = a.rootKey →
    ∀ anchor, b.sessionAnchor = some anchor → call.1.caller.sessionAnchor ≠ some anchor

/-- Saving the loaded writer sets remembers what the document did. -/
theorem Remembered.save {doc : Doc} (h : Remembered a b path doc) (now : Int)
    (leases : List Lease) : Remembered a b path (save leases (loadWriters now doc)) :=
  ⟨rfl, h.entry.load h.folded now⟩

/-- An entry under `a`'s key made away from `b`'s anchor is not `b`'s own. -/
theorem isOwnWriter_elsewhere (hapart : Apart a b) (env : Env) {e : Writer}
    (hanchor : e.anchor = env.caller.sessionAnchor)
    (helsewhere : ∀ anchor, b.sessionAnchor = some anchor →
      env.caller.sessionAnchor ≠ some anchor)
    (hkey : e.agentId = a.rootKey) : isOwnWriter b.sessionIds b.sessionAnchor e = false := by
  apply isOwnWriter_of_apart
  · intro _
    rw [hkey]
    exact hapart.ids _ a.rootKey_mem_sessionIds
  · intro _ anchor hb
    rw [hanchor]
    exact helsewhere anchor hb

/-- Every call that `Keeps` allows remembers the write. -/
theorem Remembered.serveStep {doc : Doc} (h : Remembered a b path doc) (hapart : Apart a b)
    {call : Env × Op} (hkeeps : Keeps a b path call) :
    Remembered a b path (serveStep doc call) := by
  obtain ⟨env, op⟩ := call
  have hload := h.entry.load h.folded env.loaded
  cases op with
  | acquire globs taskId projectRoot =>
    simp only [Leases.serveStep, acquire]
    split
    · exact h.save _ _
    · exact h.save _ _
  | listActive kinds =>
    simp only [Leases.serveStep, listActive]
    split
    · exact h
    · exact h.save _ _
  | heartbeat => exact h.save _ _
  | release glob projectRoot =>
    cases glob with
    | none => exact h.save _ _
    | some glob =>
      simp only [Leases.serveStep, release]
      split
      · exact h.save _ _
      · exact h.save _ _
  | releaseTask taskId =>
    simp only [Leases.serveStep, releaseTask]
    split
    · exact h
    · exact h.save _ _
  | takeDrop path' projectRoot => exact h.save _ _
  | takeAdopt path' leaseId projectRoot =>
    have hne := hkeeps.untaken path' leaseId projectRoot rfl
    obtain ⟨entries, hlookup, hentries⟩ := hload
    refine ⟨rfl, entries, ?_, hentries⟩
    simp only [Leases.serveStep, takeAdopt, Leases.save]
    rw [Dict.lookup_set_of_ne (Ne.symm hne), hlookup]
  | claim path' projectRoot =>
    refine ⟨rfl, ?_⟩
    simp only [Leases.serveStep, claim, Leases.save]
    apply hload.addWriter
    intro hpath hkey
    have hrecords : Records path (.claim path' projectRoot) := .inl ⟨_, _, rfl, hpath⟩
    exact isOwnWriter_elsewhere hapart env rfl (hkeeps.elsewhere hrecords hkey) hkey
  | recordWrites args =>
    refine ⟨rfl, ?_⟩
    simp only [Leases.serveStep, recordWrites, Leases.save]
    refine RememberedIn.foldl ?_ (fun p w => writeEntry env args (purgeStale env doc.leases) p w) ?_
    · split
      · next dirty root hdirty hroot =>
        split
        · exact hload
        · next hne =>
          apply hload.prune
          exact hkeeps.dirtyRecord args dirty root rfl hdirty hroot hne
      · exact hload
    · intro hmem w hkey
      obtain ⟨hanchor, hcases⟩ := writeEntry_cases env args (purgeStale env doc.leases) path w
      rcases hcases with hunknown | hroot
      · exact isOwnWriter_unknown hunknown
      · have hrecords : Records path (.recordWrites args) := .inr ⟨_, rfl, hmem⟩
        have hsame : env.caller.rootKey = a.rootKey := hroot.symm.trans hkey
        exact isOwnWriter_elsewhere hapart env hanchor (hkeeps.elsewhere hrecords hsame) hkey
  | pruneWriters root dirty =>
    simp only [Leases.serveStep, pruneWriters]
    split
    · exact ⟨rfl, hload.prune (hkeeps.dirtyPrune root dirty rfl)⟩
    · exact h
  | releasePaths paths projectRoot => exact h.save _ _
  | acquireMark root kind purpose => exact h.save _ _
  | releaseMark leaseId => exact h.save _ _

/-- A recording by a session apart from `b` is remembered, whatever the document. -/
theorem remembered_of_records (doc : Doc) {call : Env × Op} (hapart : Apart call.1.caller b)
    (h : Records path call.2) : Remembered call.1.caller b path (serveStep doc call) := by
  obtain ⟨env, op⟩ := call
  have hown : ∀ e : Writer, e.anchor = env.caller.sessionAnchor →
      (e.agentId = unknownWriter ∨ e.agentId = env.caller.rootKey) →
      isOwnWriter b.sessionIds b.sessionAnchor e = false := by
    intro e hanchor hkey
    rcases hkey with hkey | hkey
    · exact isOwnWriter_unknown hkey
    · apply isOwnWriter_elsewhere hapart env hanchor _ hkey
      intro anchor hb ha
      exact hapart.anchor anchor ha hb
  rcases h with ⟨path', projectRoot, hop, hpath⟩ | ⟨args, hop, hmem⟩
  · obtain rfl : op = .claim path' projectRoot := hop
    refine ⟨rfl, ?_⟩
    simp only [Leases.serveStep, claim, save, hpath]
    exact rememberedIn_addWriter (.inr rfl) (hown _ rfl (.inr rfl))
  · obtain rfl : op = .recordWrites args := hop
    refine ⟨rfl, ?_⟩
    simp only [Leases.serveStep, recordWrites, save]
    apply rememberedIn_foldl
      (fun p w => writeEntry env args (purgeStale env doc.leases) p w) hmem
    intro w
    obtain ⟨hanchor, hkey⟩ := writeEntry_cases env args (purgeStale env doc.leases) path w
    exact ⟨hkey, hown _ hanchor hkey⟩

/-- What is remembered, `foreign_writers` shows to `b`. -/
theorem foreignWriters_of_remembered {doc : Doc} (h : Remembered a b path doc) {env : Env}
    (henv : env.caller = b) {realpath : String → String} {root rel : String}
    {rels : List String} (hrel : rel ∈ rels) (hpath : realpath (PosixPath.join root rel) = path) :
    ∃ foreign, (rel, foreign) ∈ foreignWriters env realpath root rels doc ∧ foreign ≠ [] := by
  obtain ⟨entries, hlookup, e, he, -, hforeign⟩ := h.entry.load h.folded env.loaded
  have hmem : e ∈ entries.filter fun e =>
      !isOwnWriter env.caller.sessionIds env.caller.sessionAnchor e := by
    rw [List.mem_filter, henv, hforeign]
    exact ⟨he, rfl⟩
  have hne := List.ne_nil_of_mem hmem
  refine ⟨_, List.mem_filterMap.mpr ⟨rel, hrel, ?_⟩, hne⟩
  dsimp only
  rw [hpath, hlookup]
  cases entries with
  | nil => simp at he
  | cons e' es =>
    dsimp only
    rw [if_neg (by simpa using hne)]

/-- Along a run of calls that `Keeps` allows, the write stays remembered. -/
theorem run_remembered {doc : Doc} (h : Remembered a b path doc) (hapart : Apart a b)
    {calls : List (Env × Op)} (hcalls : ∀ call ∈ calls, Keeps a b path call) :
    Remembered a b path (run serveStep doc calls) := by
  apply run_invariant (P := Remembered a b path) _ h
  intro t call hmem ht
  exact ht.serveStep hapart (hcalls call hmem)

/-! ## Whole runs -/

/-- Evaluated as `b`, `foreign_writers` shows some other writer of the path. -/
def SeesForeign (b : Caller) (path : String) (doc : Doc) : Prop :=
  ∀ (env : Env) (realpath : String → String) (root rel : String) (rels : List String),
    env.caller = b → rel ∈ rels → realpath (PosixPath.join root rel) = path →
    ∃ foreign, (rel, foreign) ∈ foreignWriters env realpath root rels doc ∧ foreign ≠ []

theorem Remembered.seesForeign {doc : Doc} (h : Remembered a b path doc) :
    SeesForeign b path doc :=
  fun _ _ _ _ _ henv hrel hpath => foreignWriters_of_remembered h henv hrel hpath

/-- Writer sets never forget a session.  After a recording of the path by one session,
    on any document and through any later calls that do not take the path, find it clean
    or record it under that session's key on `b`'s anchor, the path has a foreign writer
    for every session `b` apart from the recorder; and once `b` has recorded it too, it
    has one for each of them. -/
theorem writer_sets_remember (doc : Doc) (path : String) (first : Env × Op)
    (hfirst : Records path first.2) (b : Caller) (hapart : Apart first.1.caller b)
    (more : List (Env × Op)) (hmore : ∀ call ∈ more, Keeps first.1.caller b path call) :
    SeesForeign b path (run serveStep (serveStep doc first) more) ∧
    ∀ mid second post, more = mid ++ second :: post → Records path second.2 →
      second.1.caller = b → (∀ call ∈ post, Keeps b first.1.caller path call) →
      SeesForeign first.1.caller path (run serveStep (serveStep doc first) more) := by
  constructor
  · have hstart := remembered_of_records doc hapart hfirst
    exact (run_remembered hstart hapart hmore).seesForeign
  · intro mid second post hsplit hsecond hcaller hpost
    have hapart' : Apart second.1.caller first.1.caller := by
      rw [hcaller]
      constructor
      · intro id hb ha
        exact hapart.ids id ha hb
      · intro anchor hb ha
        exact hapart.anchor anchor ha hb
    have hstart := remembered_of_records
      (run serveStep (serveStep doc first) mid) hapart' hsecond
    rw [← hcaller] at hpost
    rw [hsplit, run_append, run_cons]
    exact (run_remembered hstart hapart' hpost).seesForeign

/-- A session on the harness process `anchor`, on a host with two of them: identity `a`
    is registered on the first, identity `b` on the second. -/
def harnessEnv (session anchor newId : String) (now : Int) : Env where
  caller := {
    agentId := "cc:" ++ session, agentSlug := "claude-code", sessionId := session,
    provider := "claude_code", harness := some anchor,
    identities := [("cc:a", ⟨some "1:10", "a", false, "t"⟩), ("cc:b", ⟨some "2:20", "b", false, "t"⟩)],
    processStart := fun pid => if pid = 1 then some "10" else if pid = 2 then some "20" else none
    pid := 3, tmuxPane := none, sensitive := false
    ids_nonempty := by simp }
  started := now
  loaded := now
  stamped := now
  newId := newId

theorem apart_harness :
    Apart (harnessEnv "a" "1:10" "id1" 0).caller (harnessEnv "b" "2:20" "id2" 1).caller := by
  constructor
  · decide
  · intro anchor ha hb
    have h₁ : some "1:10" = some anchor := ha
    have h₂ : some "2:20" = some anchor := hb
    rw [← h₂] at h₁
    exact absurd h₁ (by decide)

/-- Both sessions claim a file, and each sees the other's write. -/
theorem writer_sets_remember_both :
    let doc := run serveStep ⟨[], [], none⟩
      [(harnessEnv "a" "1:10" "id1" 0, .claim "/r/x.py" none),
        (harnessEnv "b" "2:20" "id2" 1, .claim "/r/x.py" none)]
    SeesForeign (harnessEnv "b" "2:20" "id2" 1).caller "/r/x.py" doc ∧
      SeesForeign (harnessEnv "a" "1:10" "id1" 0).caller "/r/x.py" doc := by
  have hrec : ∀ env : Env, Records "/r/x.py" (env, Op.claim "/r/x.py" none).2 :=
    fun env => .inl ⟨_, _, rfl, by decide⟩
  have h := writer_sets_remember ⟨[], [], none⟩ "/r/x.py"
    (harnessEnv "a" "1:10" "id1" 0, .claim "/r/x.py" none) (hrec _)
    (harnessEnv "b" "2:20" "id2" 1).caller apart_harness
    [(harnessEnv "b" "2:20" "id2" 1, .claim "/r/x.py" none)] ?_
  · exact ⟨h.1, h.2 [] _ [] rfl (hrec _) rfl (by simp)⟩
  · intro call hcall
    obtain rfl := List.mem_singleton.mp hcall
    constructor
    · intro _ _ _ hop
      cases hop
    · intro _ _ _ hop
      cases hop
    · intro _ _ hop
      cases hop
    · intro _ hkey
      exact absurd hkey (by decide)

/-- Without the last condition of `Keeps` the entry can be lost: identity `a`, resumed on
    `b`'s process, claims the file again, and `b` no longer sees `a`'s write. -/
theorem writer_sets_resumed_identity :
    Records "/r/x.py" (.claim "/r/x.py" none) ∧
      Apart (harnessEnv "a" "1:10" "id1" 0).caller (harnessEnv "b" "2:20" "id3" 2).caller ∧
      foreignWriters (harnessEnv "b" "2:20" "id3" 2) id "/r" ["x.py"]
        (run serveStep ⟨[], [], none⟩
          [(harnessEnv "a" "1:10" "id1" 0, .claim "/r/x.py" none),
            (harnessEnv "a" "2:20" "id2" 1, .claim "/r/x.py" none)]) = [] :=
  ⟨.inl ⟨_, _, rfl, by decide⟩, apart_harness, by decide⟩

end SummitFlow.Leases
