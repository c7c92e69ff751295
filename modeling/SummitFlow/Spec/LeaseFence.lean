import SummitFlow.Cli.Leases

/-!
# What happens to a lease

Every operation loads the whole document and writes it back, so each one could lose
any lease.  `drops` says, operation by operation, which leases it removes or narrows;
`serveStep_carries` shows that it leaves every other lease in the document with its
id, owner, kind, globs, process and anchor.

The last section applies this to op leases: along a run they stay in place until
`release_mark`, except through a `release` that reaches them.
-/

namespace SummitFlow.Leases

/-- The later lease is the earlier one: only its heartbeat, its takeover mark and,
    for a file lease, its task may differ. -/
structure Carries (l l' : Lease) : Prop where
  leaseId : l'.leaseId = l.leaseId
  agentId : l'.agentId = l.agentId
  kind : l'.kind = l.kind
  globs : l'.globs = l.globs
  pid : l'.pid = l.pid
  pidStart : l'.pidStart = l.pidStart
  anchor : l'.anchor = l.anchor
  taskId : l.kind ≠ .file → l'.taskId = l.taskId

theorem Carries.refl (l : Lease) : Carries l l :=
  ⟨rfl, rfl, rfl, rfl, rfl, rfl, rfl, fun _ => rfl⟩

theorem Carries.trans {l₁ l₂ l₃ : Lease} (h : Carries l₁ l₂) (h' : Carries l₂ l₃) :
    Carries l₁ l₃ where
  leaseId := h'.leaseId.trans h.leaseId
  agentId := h'.agentId.trans h.agentId
  kind := h'.kind.trans h.kind
  globs := h'.globs.trans h.globs
  pid := h'.pid.trans h.pid
  pidStart := h'.pidStart.trans h.pidStart
  anchor := h'.anchor.trans h.anchor
  taskId hkind := by
    have hkind' : l₂.kind ≠ .file := by
      rw [h.kind]
      exact hkind
    exact (h'.taskId hkind').trans (h.taskId hkind)

theorem Carries.touch (env : Env) (l : Lease) : Carries l (touch env l) :=
  ⟨rfl, rfl, rfl, rfl, rfl, rfl, rfl, fun _ => rfl⟩

theorem Carries.owns {l l' : Lease} (h : Carries l l') (env : Env) : env.owns l' = env.owns l := by
  simp only [Env.owns, isMine, h.agentId, h.anchor]

theorem Carries.matchesPath {l l' : Lease} (h : Carries l l') (path : String) :
    l'.matchesPath path = l.matchesPath path := by
  simp only [Lease.matchesPath, h.globs]

/-- Whether `release` with this argument drops or narrows a live lease. -/
def releaseHits (env : Env) (glob projectRoot : Option String) (leases : List Lease)
    (l : Lease) : Bool :=
  match glob with
  | none => l.kind != .op && env.owns l
  | some glob =>
    if releasesById env glob leases then l.leaseId == glob
    else env.owns l && l.globs.contains (projectPath glob projectRoot)

/-- The leases a call removes or narrows. -/
def drops (doc : Doc) (call : Env × Op) (l : Lease) : Bool :=
  let env := call.1
  match call.2 with
  | .acquire .. | .listActive _ | .heartbeat | .claim .. | .recordWrites _ => l.isStale env
  | .release glob projectRoot =>
    l.isStale env || releaseHits env glob projectRoot (purgeStale env doc.leases) l
  | .releaseTask taskId => taskId != "" && (l.isStale env || l.taskId == some taskId)
  | .takeDrop path projectRoot =>
    l.isStale env ||
      (l.kind != .op && l.matchesPath (projectPath path projectRoot) && !env.owns l)
  | .takeAdopt .. | .pruneWriters .. => false
  | .releasePaths paths projectRoot =>
    l.isStale env || (l.kind == .file && env.owns l &&
      l.globs.all (paths.map fun p => projectPath p projectRoot).contains)
  | .acquireMark _ kind _ => l.isStale env || (kind == .hold && l.kind == .hold && env.owns l)
  | .releaseMark leaseId => l.leaseId == leaseId

theorem mem_purgeStale {env : Env} {leases : List Lease} {l : Lease} :
    l ∈ purgeStale env leases ↔ l ∈ leases ∧ l.isStale env = false := by
  simp [purgeStale]

/-- Rewriting leases carries each of them when the rewriting does. -/
theorem exists_carries_map {f : Lease → Lease} {leases : List Lease} {l : Lease}
    (hf : Carries l (f l)) (h : l ∈ leases) : ∃ l' ∈ leases.map f, Carries l l' :=
  ⟨f l, List.mem_map_of_mem h, hf⟩

theorem Carries.ite {l : Lease} {c : Prop} [Decidable c] {l' : Lease} (h : Carries l l') :
    Carries l (if c then l' else l) := by
  split
  · exact h
  · exact Carries.refl l

/-- `claim` keeps the leases it heartbeated. -/
theorem mem_claimOwn {env : Env} {path : String} {leases : List Lease} {l : Lease}
    (h : l ∈ touchOwn env leases) : l ∈ (claimOwn env path leases).1 := by
  unfold claimOwn
  split
  · exact h
  · exact List.mem_append_left _ h

/-- What a call does not drop, it carries over. -/
theorem serveStep_carries {doc : Doc} {call : Env × Op} {l : Lease} (h : l ∈ doc.leases)
    (hdrops : drops doc call l = false) : ∃ l' ∈ (serveStep doc call).leases, Carries l l' := by
  obtain ⟨env, op⟩ := call
  cases op with
  | acquire globs taskId projectRoot =>
    have hlive : l ∈ purgeStale env doc.leases := mem_purgeStale.mpr ⟨h, hdrops⟩
    simp only [serveStep, acquire]
    split
    · rcases mem_updateFirst_of_mem (f := refreshLease env taskId) hlive with hmem | ⟨hp, hmem⟩
      · exact ⟨l, hmem, Carries.refl l⟩
      · refine ⟨_, hmem, rfl, rfl, rfl, rfl, rfl, rfl, rfl, ?_⟩
        intro hkind
        -- only a file lease is refreshed
        simp [sameScope, hkind] at hp
    · exact ⟨l, List.mem_append_left _ hlive, Carries.refl l⟩
  | listActive kinds =>
    simp only [serveStep, listActive]
    split
    · exact ⟨l, h, Carries.refl l⟩
    · exact ⟨l, mem_purgeStale.mpr ⟨h, hdrops⟩, Carries.refl l⟩
  | heartbeat =>
    exact exists_carries_map (Carries.touch env l).ite (mem_purgeStale.mpr ⟨h, hdrops⟩)
  | release glob projectRoot =>
    simp only [drops, Bool.or_eq_false_iff] at hdrops
    have hlive : l ∈ purgeStale env doc.leases := mem_purgeStale.mpr ⟨h, hdrops.1⟩
    have hhits := hdrops.2
    cases glob with
    | none =>
      refine ⟨l, List.mem_filter.mpr ⟨hlive, ?_⟩, Carries.refl l⟩
      have hhits' : (l.kind != .op && env.owns l) = false := hhits
      rw [hhits']
      rfl
    | some glob =>
      simp only [releaseHits] at hhits
      simp only [serveStep, release]
      split at hhits
      · next hid =>
        rw [if_pos hid]
        refine ⟨l, List.mem_filter.mpr ⟨hlive, ?_⟩, Carries.refl l⟩
        simpa using hhits
      · next hid =>
        rw [if_neg hid]
        refine ⟨l, List.mem_filterMap.mpr ⟨l, hlive, ?_⟩, Carries.refl l⟩
        unfold releaseGlob
        rw [hhits]
        rfl
  | releaseTask taskId =>
    simp only [serveStep, releaseTask]
    split
    · exact ⟨l, h, Carries.refl l⟩
    · next htask =>
      have hdrops' : l.isStale env = false ∧ l.taskId ≠ some taskId := by
        simpa [drops, htask] using hdrops
      refine ⟨l, List.mem_filter.mpr ⟨mem_purgeStale.mpr ⟨h, hdrops'.1⟩, ?_⟩, Carries.refl l⟩
      simpa using hdrops'.2
  | takeDrop path projectRoot =>
    simp only [drops, Bool.or_eq_false_iff] at hdrops
    refine ⟨l, List.mem_filter.mpr ⟨mem_purgeStale.mpr ⟨h, hdrops.1⟩, ?_⟩, Carries.refl l⟩
    rw [hdrops.2]
    rfl
  | takeAdopt path leaseId projectRoot =>
    apply exists_carries_map _ h
    apply Carries.ite
    exact ⟨rfl, rfl, rfl, rfl, rfl, rfl, rfl, fun _ => rfl⟩
  | claim path projectRoot =>
    have hlive : l ∈ purgeStale env doc.leases := mem_purgeStale.mpr ⟨h, hdrops⟩
    obtain ⟨l', hl', hcarries⟩ : ∃ l' ∈ touchOwn env (purgeStale env doc.leases), Carries l l' :=
      exists_carries_map (Carries.touch env l).ite hlive
    exact ⟨l', mem_claimOwn hl', hcarries⟩
  | recordWrites args => exact ⟨l, mem_purgeStale.mpr ⟨h, hdrops⟩, Carries.refl l⟩
  | pruneWriters root dirty =>
    simp only [serveStep, pruneWriters]
    split
    · exact ⟨l, h, Carries.refl l⟩
    · exact ⟨l, h, Carries.refl l⟩
  | releasePaths paths projectRoot =>
    simp only [drops, Bool.or_eq_false_iff] at hdrops
    refine ⟨l, List.mem_filter.mpr ⟨mem_purgeStale.mpr ⟨h, hdrops.1⟩, ?_⟩, Carries.refl l⟩
    rw [hdrops.2]
    rfl
  | acquireMark root kind purpose =>
    simp only [drops, Bool.or_eq_false_iff] at hdrops
    refine ⟨l, List.mem_append_left _ (List.mem_filter.mpr
      ⟨mem_purgeStale.mpr ⟨h, hdrops.1⟩, ?_⟩), Carries.refl l⟩
    have howns : isMine env.caller.selfIds (newMark env root kind purpose).anchor l =
      env.owns l := rfl
    rw [howns, hdrops.2]
    rfl
  | releaseMark leaseId =>
    refine ⟨l, List.mem_filter.mpr ⟨h, ?_⟩, Carries.refl l⟩
    have hid : (l.leaseId == leaseId) = false := hdrops
    simpa using hid

/-! ## Op leases -/

/-- No op lease belongs to a task, so that `release_task` never reaches one. -/
def Untasked (leases : List Lease) : Prop := ∀ l ∈ leases, l.kind = .op → l.taskId = none

theorem Untasked.sublist {leases leases' : List Lease} (h : Untasked leases)
    (hsub : leases'.Sublist leases) : Untasked leases' :=
  fun l hl => h l (hsub.subset hl)

theorem Untasked.purgeStale {leases : List Lease} (h : Untasked leases) (env : Env) :
    Untasked (purgeStale env leases) :=
  h.sublist List.filter_sublist

/-- Rewriting leases keeps op leases untasked when it touches neither kind nor task. -/
theorem Untasked.map {leases : List Lease} (h : Untasked leases) {f : Lease → Lease}
    (hf : ∀ l, (f l).kind = l.kind ∧ (f l).taskId = l.taskId) : Untasked (leases.map f) := by
  intro l hl hkind
  obtain ⟨l₀, hl₀, rfl⟩ := List.mem_map.mp hl
  rw [(hf l₀).1] at hkind
  rw [(hf l₀).2]
  exact h l₀ hl₀ hkind

theorem Untasked.append {leases : List Lease} (h : Untasked leases) {l : Lease}
    (hl : l.kind = .op → l.taskId = none) : Untasked (leases ++ [l]) := by
  intro l' hl' hkind
  rcases List.mem_append.mp hl' with hl' | hl'
  · exact h l' hl' hkind
  · rw [List.mem_singleton.mp hl'] at hkind ⊢
    exact hl hkind

theorem Untasked.touchOwn {leases : List Lease} (h : Untasked leases) (env : Env) :
    Untasked (touchOwn env leases) := by
  apply h.map
  intro l
  split
  · exact ⟨rfl, rfl⟩
  · exact ⟨rfl, rfl⟩

/-- Every call keeps op leases untasked. -/
theorem Untasked.serveStep {doc : Doc} (h : Untasked doc.leases) (call : Env × Op) :
    Untasked (serveStep doc call).leases := by
  obtain ⟨env, op⟩ := call
  have hlive := h.purgeStale env
  cases op with
  | acquire globs taskId projectRoot =>
    simp only [Leases.serveStep, acquire]
    split
    · next l hfind =>
      obtain ⟨pre, post, hsplit, hp, -, hupd⟩ :=
        updateFirst_of_find (refreshLease env taskId) hfind
      intro l' hl' hkind
      simp only [save, hupd, List.mem_append, List.mem_cons] at hl'
      rw [hsplit] at hlive
      rcases hl' with hl' | rfl | hl'
      · exact hlive l' (List.mem_append_left _ hl') hkind
      · -- the refreshed lease is a file lease
        have hfile : l.kind = .op := hkind
        simp [sameScope, hfile] at hp
      · exact hlive l' (List.mem_append_right _ (List.mem_cons_of_mem _ hl')) hkind
    · apply hlive.append
      intro hkind
      cases hkind
  | listActive kinds =>
    simp only [Leases.serveStep, listActive]
    split
    · exact h
    · exact hlive
  | heartbeat =>
    apply hlive.map
    intro l
    split
    · exact ⟨rfl, rfl⟩
    · exact ⟨rfl, rfl⟩
  | release glob projectRoot =>
    cases glob with
    | none => exact hlive.sublist List.filter_sublist
    | some glob =>
      simp only [Leases.serveStep, release]
      split
      · exact hlive.sublist List.filter_sublist
      · intro l hl hkind
        obtain ⟨l₀, hl₀, heq⟩ := List.mem_filterMap.mp hl
        unfold releaseGlob at heq
        split at heq
        · dsimp only at heq
          split at heq
          · cases heq
          · obtain rfl := Option.some.inj heq
            exact hlive l₀ hl₀ hkind
        · obtain rfl := Option.some.inj heq
          exact hlive l₀ hl₀ hkind
  | releaseTask taskId =>
    simp only [Leases.serveStep, releaseTask]
    split
    · exact h
    · exact hlive.sublist List.filter_sublist
  | takeDrop path projectRoot => exact hlive.sublist List.filter_sublist
  | takeAdopt path leaseId projectRoot =>
    apply h.map
    intro l
    split
    · exact ⟨rfl, rfl⟩
    · exact ⟨rfl, rfl⟩
  | claim path projectRoot =>
    have htouched := hlive.touchOwn env
    simp only [Leases.serveStep, claim, claimOwn]
    split
    · exact htouched
    · apply htouched.append
      intro hkind
      cases hkind
  | recordWrites args => exact hlive
  | pruneWriters root dirty =>
    simp only [Leases.serveStep, pruneWriters]
    split
    · exact h
    · exact h
  | releasePaths paths projectRoot => exact hlive.sublist List.filter_sublist
  | acquireMark root kind purpose =>
    apply (hlive.sublist List.filter_sublist).append
    intro _
    rfl
  | releaseMark leaseId => exact h.sublist List.filter_sublist

/-- The op lease's process is alive, the call is not its `release_mark`, and no
    `release` reaches it: neither by one of its globs from an agent that owns it nor by
    its id while that agent holds another lease of the same id. -/
structure Fences (l : Lease) (doc : Doc) (call : Env × Op) : Prop where
  alive : Coord.processAlive call.1.caller.processStart l.pid l.pidStart = true
  unreleased : call.2 ≠ .releaseMark l.leaseId
  unreached : ∀ glob projectRoot, call.2 = .release (some glob) projectRoot →
    if releasesById call.1 glob (purgeStale call.1 doc.leases) then l.leaseId ≠ glob
    else ¬ (call.1.owns l = true ∧ projectPath glob projectRoot ∈ l.globs)

/-- No call but a `release` that reaches it, or its `release_mark`, drops a live op
    lease. -/
theorem drops_op {doc : Doc} {call : Env × Op} {l l' : Lease} (hop : l.kind = .op)
    (htask : l.taskId = none) (hcarries : Carries l l') (hfences : Fences l doc call) :
    drops doc call l' = false := by
  obtain ⟨env, op⟩ := call
  have hkind : l'.kind = .op := hcarries.kind.trans hop
  have htask' : l'.taskId = none := by
    rw [hcarries.taskId (by simp [hop]), htask]
  have hlive : l'.isStale env = false := by
    have halive := hfences.alive
    simp only [Lease.isStale, hkind, hcarries.pid, hcarries.pidStart]
    simpa using halive
  cases op with
  | release glob projectRoot =>
    cases glob with
    | none => simp [drops, releaseHits, hlive, hkind]
    | some glob =>
      have hreach := hfences.unreached glob projectRoot rfl
      simp only [drops, releaseHits, hlive, Bool.false_or]
      split
      · next hid =>
        rw [if_pos hid] at hreach
        rw [hcarries.leaseId]
        simpa using hreach
      · next hid =>
        rw [if_neg hid] at hreach
        rw [hcarries.owns, hcarries.globs]
        simpa using hreach
  | releaseMark leaseId =>
    have hne : l.leaseId ≠ leaseId := by
      intro heq
      exact hfences.unreleased (by rw [heq])
    simpa [drops, hcarries.leaseId] using hne
  | acquire globs taskId projectRoot => exact hlive
  | listActive kinds => exact hlive
  | heartbeat => exact hlive
  | claim path projectRoot => exact hlive
  | recordWrites args => exact hlive
  | releaseTask taskId => simp [drops, hlive, htask']
  | takeDrop path projectRoot => simp [drops, hlive, hkind]
  | takeAdopt path leaseId projectRoot => rfl
  | pruneWriters root dirty => rfl
  | releasePaths paths projectRoot => simp [drops, hlive, hkind]
  | acquireMark root kind purpose => simp [drops, hlive, hkind]

/-- Op leases are fenced: in every run from a document without leases, an op lease that
    is in the document stays there, with its globs, its owner and its process, as long
    as its process is alive, `release_mark` is not called with its id and no `release`
    reaches it. -/
theorem op_lease_fenced (writers : Writers) (touches : Option (List (String × Writer)))
    (calls : List (Env × Op)) (l : Lease)
    (h : l ∈ (run serveStep ⟨[], writers, touches⟩ calls).leases) (hop : l.kind = .op)
    (more : List (Env × Op))
    (hmore : Along serveStep (Fences l) (run serveStep ⟨[], writers, touches⟩ calls) more) :
    ∃ l' ∈ (run serveStep (run serveStep ⟨[], writers, touches⟩ calls) more).leases,
      l'.kind = .op ∧ l'.leaseId = l.leaseId ∧ l'.agentId = l.agentId ∧ l'.globs = l.globs ∧
        l'.pid = l.pid ∧ l'.pidStart = l.pidStart := by
  have huntasked : Untasked (run serveStep ⟨[], writers, touches⟩ calls).leases := by
    apply run_invariant (P := fun doc : Doc => Untasked doc.leases)
    · intro doc call _ hdoc
      exact hdoc.serveStep call
    · intro l hl
      simp at hl
  have htask : l.taskId = none := huntasked l h hop
  -- along the run the lease is carried from document to document
  have hstays : ∃ l' ∈ (run serveStep (run serveStep ⟨[], writers, touches⟩ calls) more).leases,
      Carries l l' := by
    apply run_along (P := fun doc : Doc => ∃ l' ∈ doc.leases, Carries l l') _
      ⟨l, h, Carries.refl l⟩ hmore
    intro doc call hdoc hfences
    obtain ⟨l₁, hl₁, hcarries⟩ := hdoc
    obtain ⟨l₂, hl₂, hcarries'⟩ :=
      serveStep_carries hl₁ (drops_op hop htask hcarries hfences)
    exact ⟨l₂, hl₂, hcarries.trans hcarries'⟩
  obtain ⟨l', hl', hc⟩ := hstays
  exact ⟨l', hl', hc.kind.trans hop, hc.leaseId, hc.agentId, hc.globs, hc.pid, hc.pidStart⟩

/-- An agent outside any harness on a host whose only running process is 7. -/
def agentEnv (session newId : String) (now : Int) : Env where
  caller := {
    agentId := "cc:" ++ session, agentSlug := "claude-code", sessionId := session,
    provider := "claude_code", harness := none, identities := [],
    processStart := fun pid => if pid = 7 then some "100" else none, pid := 7,
    tmuxPane := none, sensitive := false
    ids_nonempty := by simp }
  started := now
  loaded := now
  stamped := now
  newId := newId

/-- Agent `a` marks an acceptance run of `/r`. -/
def markRun : List (Env × Op) := [(agentEnv "a" "id1" 0, .acquireMark "/r" .op "acceptance")]

/-- The lease of that run. -/
def markLease : Lease := newMark (agentEnv "a" "id1" 0) "/r" .op "acceptance"

/-- The mark outlives its owner's heartbeat and release of everything, and another
    agent's claim of a file below it. -/
theorem op_lease_fenced_mark :
    ∃ l' ∈ (run serveStep (run serveStep ⟨[], [], none⟩ markRun)
        [(agentEnv "a" "id2" 1, .heartbeat), (agentEnv "b" "id3" 2, .claim "/r/x.py" none),
          (agentEnv "a" "id4" 3, .release none none)]).leases,
      l'.kind = .op ∧ l'.leaseId = "id1" ∧ l'.agentId = "cc:a" ∧ l'.globs = ["/r/**"] ∧
        l'.pid = some 7 ∧ l'.pidStart = some "100" := by
  apply op_lease_fenced [] none markRun markLease (by decide) rfl
  refine ⟨⟨by decide, by simp, ?_⟩, ⟨by decide, by simp, ?_⟩, ⟨by decide, by simp, ?_⟩, trivial⟩
  · intro glob projectRoot heq
    cases heq
  · intro glob projectRoot heq
    cases heq
  · intro glob projectRoot heq
    cases heq

/-- The owner's `release` of the glob the mark stores drops the op lease of a live
    process: that branch does not test the kind. -/
theorem op_lease_dropped_by_glob :
    markLease ∈ (run serveStep ⟨[], [], none⟩ markRun).leases ∧ markLease.kind = .op ∧
      Coord.processAlive (agentEnv "a" "id2" 1).caller.processStart markLease.pid
        markLease.pidStart = true ∧
      ¬ ∃ l' ∈ (serveStep (run serveStep ⟨[], [], none⟩ markRun)
          (agentEnv "a" "id2" 1, .release (some "/r/**") none)).leases,
        l'.leaseId = markLease.leaseId := by
  decide

end SummitFlow.Leases
