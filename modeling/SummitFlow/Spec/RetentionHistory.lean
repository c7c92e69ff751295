import SummitFlow.Spec.SnapshotRetention

/-!
# The promise of retention

A history is a sequence of captures and of runs of `prune_all` without disk pressure.  The
points that were captured are those of all captures, also of captures that share a point.
-/

namespace SummitFlow.Snapshots

/-- A call, with what the world answers to its actions. -/
inductive SnapOp where
  | capture (args : CaptureArgs) (world : Nat → Outside)
  | prune (maxDeletes : Option Int) (scopes released : List String) (now : Int)
      (world : Nat → Outside)

/-- The store, and the points that were captured so far. -/
structure History where
  store : Store
  captured : List Point

/-- No manifest, no point, no lock. -/
def Store.empty : Store := ⟨[], [], none, fun _ => none⟩

def History.empty : History := ⟨.empty, []⟩

/-- The point of an entry. -/
def pointOf (host : Host) (entry : QuickSnapshot) : Point :=
  ⟨pointKey host entry.snapshotPath, entry.createdAt⟩

section

variable (host : Host) (policy : AutosnapshotPolicy)

def historyStep (h : History) : SnapOp → History
  | .capture args world =>
    let result := (captureSnapshot host 0 args).exec h.store world
    match result.2 with
    | .ok snapshot => ⟨result.1, pointOf host snapshot :: h.captured⟩
    | .error _ => ⟨result.1, h.captured⟩
  | .prune maxDeletes scopes released now world =>
    ⟨((pruneAll host 0 policy false maxDeletes scopes released now).exec h.store world).1, h.captured⟩

/-- A capture returns. -/
def Returns (h : History) : SnapOp → Prop
  | .capture args world => ∃ snapshot,
      ((captureSnapshot host 0 args).exec h.store world).2 = .ok snapshot
  | .prune .. => True

/-- The history after some calls, when there was nothing before. -/
def historyAfter (ops : List SnapOp) : History := run (historyStep host policy) .empty ops

end

/-- The ids that `_snapshot_id` gave to captures. -/
def captureIds (ops : List SnapOp) : List String :=
  ops.filterMap fun op => match op with
    | .capture args _ => some args.snapshotId
    | .prune .. => none

/-- When the runs were. -/
def pruneTimes (ops : List SnapOp) : List Int :=
  ops.filterMap fun op => match op with
    | .capture .. => none
    | .prune _ _ _ now _ => some now

variable {host : Host} {policy : AutosnapshotPolicy}

/-! ## Invariant -/

/-- What the store says is what was captured, and every point that is promised from the last
    run on is stored. -/
structure HistoryInv (host : Host) (policy : AutosnapshotPolicy) (ops : List SnapOp)
    (h : History) : Prop where
  known : ∀ project, ∀ e ∈ h.store.manifest project, pointOf host e ∈ h.captured
  named : ∀ project, ∀ e ∈ h.store.manifest project, e.id ∈ captureIds ops
  keys : ∀ p ∈ h.captured, ∃ id ∈ captureIds ops, p.key.getLast? = some id
  created : ∀ a ∈ h.captured, ∀ b ∈ h.captured, a.key = b.key → a.createdAt = b.createdAt
  distinct : DistinctIds h.store
  canonical : ∀ key ∈ h.store.points, pointKey host key = key
  stored : ∀ now, (∀ t ∈ pruneTimes ops, t ≤ now) → ∀ p ∈ h.captured,
    Wanted policy now h.captured p → Stored host h.store p.key

theorem historyInv_empty : HistoryInv host policy [] .empty where
  known := fun _ _ he => absurd he List.not_mem_nil
  named := fun _ _ he => absurd he List.not_mem_nil
  keys := fun _ hp => absurd hp List.not_mem_nil
  created := fun _ hp => absurd hp List.not_mem_nil
  distinct := fun _ => List.nodup_nil
  canonical := fun _ hkey => absurd hkey List.not_mem_nil
  stored := fun _ _ _ hp => absurd hp List.not_mem_nil

/-- An entry more, of a point that is there, leaves what is stored. -/
theorem Stored.added {args : CaptureArgs} {s t : Store} {snapshot : QuickSnapshot} {key : Path}
    (h : Stored host s key) (hadded : Added host args s snapshot t) : Stored host t key where
  point := (hadded.points key).mpr (.inl h.point)
  recorded := by
    obtain ⟨project, e, he, hkey⟩ := h.recorded
    exact ⟨project, e, (hadded.entries project e).mpr (.inl he), hkey⟩
  sound := by
    intro project e he hkey
    rcases (hadded.entries project e).mp he with hold | ⟨-, rfl⟩
    · exact h.sound project e hold hkey
    · exact hadded.sound

/-- A capture shares a point that was captured, or makes one with a name of its own. -/
theorem Added.pointOf_cases {ops : List SnapOp} {h : History} {args : CaptureArgs} {t : Store}
    {snapshot : QuickSnapshot} (hinv : HistoryInv host policy ops h)
    (hadded : Added host args h.store snapshot t) :
    pointOf host snapshot ∈ h.captured ∨
      (snapshot.id = args.snapshotId ∧
        (pointKey host snapshot.snapshotPath).getLast? = some args.snapshotId) := by
  rcases hadded.origin with ⟨hid, hlast⟩ | ⟨project, e, he, hsame⟩
  · exact .inr ⟨hid, by rw [getLast?_pointKey, hlast]⟩
  · left
    have hknown := hinv.known project e he
    unfold pointOf at hknown ⊢
    rw [hsame.2.1, hsame.2.2]
    exact hknown

theorem HistoryInv.capture {ops : List SnapOp} {h : History} (hinv : HistoryInv host policy ops h)
    {args : CaptureArgs} {world : Nat → Outside} {t : Store} {snapshot : QuickSnapshot}
    (hnew : args.snapshotId ∉ captureIds ops) (hadded : Added host args h.store snapshot t) :
    HistoryInv host policy (ops ++ [.capture args world])
      ⟨t, pointOf host snapshot :: h.captured⟩ := by
  have hids : captureIds (ops ++ [.capture args world]) = captureIds ops ++ [args.snapshotId] := by
    unfold captureIds
    rw [List.filterMap_append]
    rfl
  have htimes : pruneTimes (ops ++ [.capture args world]) = pruneTimes ops := by
    unfold pruneTimes
    rw [List.filterMap_append]
    exact List.append_nil _
  have hcases := hadded.pointOf_cases hinv
  -- a name of its own is not that of a captured point
  have hother : (pointKey host snapshot.snapshotPath).getLast? = some args.snapshotId →
      ∀ p ∈ h.captured, p.key ≠ pointKey host snapshot.snapshotPath := by
    intro hlast p hp heq
    obtain ⟨id, hid, hname⟩ := hinv.keys p hp
    rw [heq, hlast] at hname
    exact hnew (Option.some.inj hname ▸ hid)
  refine ⟨?_, ?_, ?_, ?_, hadded.distinct, ?_, ?_⟩
  · intro project e he
    rcases (hadded.entries project e).mp he with hold | ⟨-, rfl⟩
    · exact List.mem_cons_of_mem _ (hinv.known project e hold)
    · exact List.mem_cons_self
  · intro project e he
    rw [hids]
    rcases (hadded.entries project e).mp he with hold | ⟨-, rfl⟩
    · exact List.mem_append_left _ (hinv.named project e hold)
    · rcases hadded.origin with ⟨hid, -⟩ | ⟨project', e', he', hsame⟩
      · exact List.mem_append_right _ (List.mem_singleton.mpr hid)
      · exact List.mem_append_left _ (hsame.1 ▸ hinv.named project' e' he')
  · intro p hp
    rw [hids]
    have hold : ∀ p ∈ h.captured, ∃ id ∈ captureIds ops ++ [args.snapshotId],
        p.key.getLast? = some id := by
      intro p hp
      obtain ⟨id, hid, hname⟩ := hinv.keys p hp
      exact ⟨id, List.mem_append_left _ hid, hname⟩
    rcases List.mem_cons.mp hp with rfl | hp
    · rcases hcases with hshared | ⟨-, hlast⟩
      · exact hold _ hshared
      · exact ⟨args.snapshotId, by simp, hlast⟩
    · exact hold p hp
  · rcases hcases with hshared | ⟨-, hlast⟩
    · have hmem : ∀ p ∈ pointOf host snapshot :: h.captured, p ∈ h.captured := by
        intro p hp
        rcases List.mem_cons.mp hp with rfl | hp
        · exact hshared
        · exact hp
      exact fun a ha b hb => hinv.created a (hmem a ha) b (hmem b hb)
    · intro a ha b hb heq
      rcases List.mem_cons.mp ha with rfl | ha
      · rcases List.mem_cons.mp hb with rfl | hb
        · rfl
        · exact absurd heq.symm (hother hlast b hb)
      · rcases List.mem_cons.mp hb with rfl | hb
        · exact absurd heq (hother hlast a ha)
        · exact hinv.created a ha b hb heq
  · intro key hkey
    rcases (hadded.points key).mp hkey with hold | rfl
    · exact hinv.canonical key hold
    · exact pointKey_pointKey host _
  · intro now hnow p hp hwanted
    rw [htimes] at hnow
    have hold : ∀ p ∈ h.captured, Wanted policy now (pointOf host snapshot :: h.captured) p →
        Stored host t p.key := by
      intro p hp hwanted
      have hbefore := hwanted.earlier (Int.le_refl _) (List.subset_cons_self _ _) hp
      exact (hinv.stored now hnow p hp hbefore).added hadded
    rcases List.mem_cons.mp hp with rfl | hp
    · rcases hcases with hshared | ⟨-, hlast⟩
      · exact hold _ hshared hwanted
      · refine ⟨(hadded.points _).mpr (.inr rfl), ?_, ?_⟩
        · exact ⟨args.projectId, snapshot, (hadded.entries _ _).mpr (.inr ⟨rfl, rfl⟩), rfl⟩
        · intro project e he hkey
          rcases (hadded.entries project e).mp he with hrecorded | ⟨-, rfl⟩
          · exact absurd hkey (hother hlast _ (hinv.known project e hrecorded))
          · exact hadded.sound
    · exact hold p hp hwanted

/-- A run keeps the points that are promised at its time or later. -/
theorem HistoryInv.prune {ops : List SnapOp} {h : History} (hinv : HistoryInv host policy ops h)
    (maxDeletes : Option Int) (scopes released : List String) (now : Int) (world : Nat → Outside)
    (hdiffer : ∀ a ∈ h.captured, ∀ b ∈ h.captured, a.createdAt = b.createdAt → a.key = b.key) :
    HistoryInv host policy (ops ++ [.prune maxDeletes scopes released now world])
      (historyStep host policy h (.prune maxDeletes scopes released now world)) := by
  have hids : captureIds (ops ++ [.prune maxDeletes scopes released now world]) =
      captureIds ops := by
    unfold captureIds
    rw [List.filterMap_append]
    exact List.append_nil _
  have htimes : pruneTimes (ops ++ [.prune maxDeletes scopes released now world]) =
      pruneTimes ops ++ [now] := by
    unfold pruneTimes
    rw [List.filterMap_append]
    rfl
  -- the run, for any points that are stored and not planned
  have hkept : ∀ W : Path → Prop, (∀ key, W key → ∃ p ∈ h.captured, p.key = key ∧
      Wanted policy now h.captured p) → (∀ key, W key → Stored host h.store key) →
      Kept host W h.store (historyStep host policy h
        (.prune maxDeletes scopes released now world)).store := by
    intro W hwanted hstored
    have hstart : Kept host W h.store h.store :=
      ⟨hstored, hinv.distinct, hinv.canonical, fun _ e he => ⟨e, he, rfl, rfl, rfl⟩⟩
    refine (holds_pruneAll 0 hstart ?_ maxDeletes scopes).after world
    intro isDir entries hentries key hW
    obtain ⟨p, hp, rfl, hwant⟩ := hwanted key hW
    refine notMem_planRetention ?_ hinv.created hdiffer hp hwant
    intro e he
    obtain ⟨project, hproject⟩ := (hentries e).mp he
    exact hinv.known project e hproject
  obtain ⟨-, hdistinct, hcanonical, hfrom⟩ := hkept (fun _ => False) (fun _ => False.elim)
    fun _ => False.elim
  refine ⟨?_, ?_, ?_, hinv.created, hdistinct, hcanonical, ?_⟩
  · intro project e he
    obtain ⟨e₀, he₀, hsame⟩ := hfrom project e he
    have hknown := hinv.known project e₀ he₀
    unfold pointOf at hknown ⊢
    rw [hsame.2.1, hsame.2.2]
    exact hknown
  · intro project e he
    obtain ⟨e₀, he₀, hsame⟩ := hfrom project e he
    rw [hids, hsame.1]
    exact hinv.named project e₀ he₀
  · rw [hids]
    exact hinv.keys
  · intro later hlater p hp hwanted
    rw [htimes] at hlater
    have hbefore : ∀ t ∈ pruneTimes ops, t ≤ later :=
      fun t ht => hlater t (List.mem_append_left _ ht)
    have hnow : now ≤ later := hlater now (List.mem_append_right _ (List.mem_singleton_self _))
    have hrun := hkept (fun key => key = p.key) (by
      rintro _ rfl
      exact ⟨p, hp, rfl, hwanted.earlier hnow (List.Subset.refl _) hp⟩) (by
      rintro _ rfl
      exact hinv.stored later hbefore p hp hwanted)
    exact hrun.stored p.key rfl

/-! ## Histories -/

theorem captured_subset_step (h : History) (op : SnapOp) :
    h.captured ⊆ (historyStep host policy h op).captured := by
  cases op with
  | prune => exact List.Subset.refl _
  | capture args world =>
    unfold historyStep
    dsimp only
    split
    · exact List.subset_cons_self _ _
    · exact List.Subset.refl _

theorem historyInv_run {ops : List SnapOp}
    (hreturns : Along (historyStep host policy) (Returns host) .empty ops)
    (hids : (captureIds ops).Nodup)
    (hdiffer : ∀ a ∈ (historyAfter host policy ops).captured,
      ∀ b ∈ (historyAfter host policy ops).captured, a.createdAt = b.createdAt → a.key = b.key) :
    HistoryInv host policy ops (historyAfter host policy ops) := by
  induction ops using List.reverseRecOn with
  | nil => exact historyInv_empty
  | append_singleton ops op ih =>
    unfold historyAfter at hdiffer ⊢
    rw [run_concat] at hdiffer ⊢
    rw [along_concat] at hreturns
    unfold captureIds at hids
    rw [List.filterMap_append] at hids
    have hsub := @captured_subset_step host policy (historyAfter host policy ops) op
    have hdiffer' : ∀ a ∈ (historyAfter host policy ops).captured,
        ∀ b ∈ (historyAfter host policy ops).captured, a.createdAt = b.createdAt → a.key = b.key :=
      fun a ha b hb => hdiffer a (hsub ha) b (hsub hb)
    have hinv := ih hreturns.1 (List.nodup_append.mp hids).1 hdiffer'
    cases op with
    | prune maxDeletes scopes released now world => exact hinv.prune _ _ _ _ _ hdiffer'
    | capture args world =>
      have hnew : args.snapshotId ∉ captureIds ops := fun hmem =>
        (List.nodup_append.mp hids).2.2 _ hmem _ (List.mem_singleton_self _) rfl
      obtain ⟨snapshot, hok⟩ := hreturns.2
      have hother : ∀ e ∈ (historyAfter host policy ops).store.manifest args.projectId,
          e.id ≠ args.snapshotId := fun e he heq => hnew (heq ▸ hinv.named _ e he)
      have hadded := ((holds_captureSnapshot 0 hinv.distinct hother).exec world).1 snapshot hok
      have hstep : historyStep host policy (historyAfter host policy ops) (.capture args world) =
          ⟨((captureSnapshot host 0 args).exec (historyAfter host policy ops).store world).1,
            pointOf host snapshot :: (historyAfter host policy ops).captured⟩ := by
        unfold historyStep
        dsimp only
        unfold historyAfter
        rw [hok]
      exact hstep ▸ hinv.capture hnew hadded

/-- Right after each run of a history, the store has every point that retention promises to
    keep: the recent ones, the newest of each hour and of each day that still counts, and
    the newest of all. -/
theorem retention_keeps_its_promise (host : Host) (policy : AutosnapshotPolicy) (ops : List SnapOp)
    (maxDeletes : Option Int) (scopes released : List String) (now : Int) (world : Nat → Outside)
    (hreturns : Along (historyStep host policy) (Returns host) .empty ops)
    (hids : (captureIds ops).Nodup)
    (hclock : (pruneTimes ops ++ [now]).Pairwise (· ≤ ·))
    (hdiffer : ∀ a ∈ (historyAfter host policy ops).captured,
      ∀ b ∈ (historyAfter host policy ops).captured, a.createdAt = b.createdAt → a.key = b.key) :
    let h := historyAfter host policy (ops ++ [.prune maxDeletes scopes released now world])
    ∀ p ∈ h.captured, Wanted policy now h.captured p → p.key ∈ h.store.points := by
  dsimp only
  unfold historyAfter
  rw [run_concat]
  intro p hp hwanted
  have hsplit := List.pairwise_append.mp hclock
  have hinv := historyInv_run hreturns hids hdiffer
  have hclock' : ∀ t ∈ pruneTimes ops, t ≤ now :=
    fun t ht => hsplit.2.2 t ht now (List.mem_singleton_self _)
  have hafter := hinv.prune maxDeletes scopes released now world hdiffer
  refine (hafter.stored now ?_ p hp hwanted).point
  intro t ht
  unfold pruneTimes at ht
  rw [List.filterMap_append] at ht
  rcases List.mem_append.mp ht with hbefore | hlast
  · exact hclock' t hbefore
  · exact Int.le_of_eq (List.mem_singleton.mp hlast)

/-! ## Two points of one hour -/

/-- A host without symbolic links. -/
def plainHost : Host := ⟨["srv", "workspaces"], id, rfl, fun _ _ => rfl⟩

/-- `DEFAULT_POLICY`. -/
def defaultPolicy : AutosnapshotPolicy := ⟨6, 24, 3, 3, 1, 3, 20, 15⟩

/-- Nothing fails, and all saved work is committed. -/
def quiet (digest : String) : Outside where
  failure := none
  isDir := fun _ => true
  copyError := fun _ => none
  liveDigest := digest
  liveHead := some "c0ffee"
  capturedDigest := some digest
  capturedHead := some "c0ffee"
  dirty := false

/-- A periodic capture of the project `app`. -/
def captureApp (id : String) (now : Int) : SnapOp :=
  .capture {
    name := none
    projectId := "app"
    repoRoot := ["srv", "workspaces", "projects", "app"]
    scopePath := ["srv", "workspaces", "projects", "app"]
    boundary := ["srv", "workspaces"]
    relative := ["projects", "app"]
    spelling := ["srv", "workspaces"]
    snapshotId := id
    source := "auto-periodic"
    now := now } fun _ => quiet id

def twoCaptures : List SnapOp := [captureApp "1a" 0, captureApp "2b" 1800000000]

/-- Of two points of one hour, a run seven hours later keeps the newer one. -/
theorem retention_keeps_its_promise_hourly :
    (historyAfter plainHost defaultPolicy twoCaptures).store.points.length = 2 ∧
      (historyAfter plainHost defaultPolicy (twoCaptures ++
        [.prune none ["app"] [] (7 * hour) fun _ => quiet ""])).store.points.length = 1 ∧
      ["srv", "workspaces", ".snapshots", "app", "projects", "app", "2b"] ∈
        (historyAfter plainHost defaultPolicy (twoCaptures ++
          [.prune none ["app"] [] (7 * hour) fun _ => quiet ""])).store.points := by
  have hcaptured : (historyAfter plainHost defaultPolicy twoCaptures).captured =
      [⟨["srv", "workspaces", ".snapshots", "app", "projects", "app", "2b"], 1800000000⟩,
        ⟨["srv", "workspaces", ".snapshots", "app", "projects", "app", "1a"], 0⟩] := by
    decide +kernel
  have hok : ∀ h op, ((match op with
      | .capture args world => ((captureSnapshot plainHost 0 args).exec h.store world).2.toBool
      | .prune .. => true) : Bool) = true → Returns plainHost h op := by
    intro h op hop
    cases op with
    | prune => trivial
    | capture args world =>
      dsimp only at hop
      unfold Returns
      cases hresult : ((captureSnapshot plainHost 0 args).exec h.store world).2 with
      | ok snapshot => exact ⟨snapshot, hresult⟩
      | error e =>
        rw [hresult] at hop
        cases hop
  have hreturns : Along (historyStep plainHost defaultPolicy) (Returns plainHost) .empty twoCaptures :=
    ⟨hok _ _ (by decide +kernel), hok _ _ (by decide +kernel), trivial⟩
  refine ⟨by decide +kernel, by decide +kernel, ?_⟩
  have hpromise := retention_keeps_its_promise plainHost defaultPolicy twoCaptures none ["app"] []
    (7 * hour) (fun _ => quiet "") hreturns (by decide) (by decide) (by rw [hcaptured]; decide)
  refine hpromise ⟨_, 1800000000⟩ ?_ (.inr (.inr (.inr ?_)))
  · show _ ∈ (historyAfter plainHost defaultPolicy twoCaptures).captured
    rw [hcaptured]
    exact List.mem_cons_self
  · show ∀ q ∈ (historyAfter plainHost defaultPolicy twoCaptures).captured, _
    rw [hcaptured]
    decide

end SummitFlow.Snapshots
