import SummitFlow.Spec.TaskClaims

/-!
# Acceptance evidence is fresh

The completion and release gates trust an acceptance whose state is `success`.  The
first part shows that this state survives no change that outdates it: since the
receipt was stored the task was not claimed anew, released or reset, its status did
not change to anything but `completed`, and no further commit was added to it.

The second part is about the projection that every such change applies.
-/

namespace SummitFlow.Tasks

open Repair (TaskStatus)

/-- The acceptance entry of the evidence. -/
def Task.acceptance (t : Task) : Option Jsonb := t.evidence "acceptance"

/-- The receipt of a successful acceptance. -/
def Successful (receipt : Jsonb) : Prop := receipt.get "state" = some (.str "success")

/-- The call stores this acceptance receipt. -/
def StoresAcceptance (t : Task) (call : Int × Op) (receipt : Jsonb) : Prop :=
  (written t call).isSome ∧ ∃ entries, entriesOf call.2 = some entries ∧
    (Jsonb.object entries).get "acceptance" = some receipt

/-- The changes that outdate an acceptance: a new claim, a release, the reset of an
    expired claim, a status other than `completed`, and a commit that is neither
    recorded nor the accepted one. -/
def outdatesAcceptance (t : Task) (call : Int × Op) : Bool :=
  (written t call).isSome && match call.2 with
  | .claimTask .. => t.status != .running
  | .releaseTask _ | .resetExpiredClaims => true
  | .updateTaskStatus _ args => args.status != "completed"
  | .addCommit args => outdates args.commitSha t
  | _ => false

variable {t t' : Task} {now : Int} {receipt : Jsonb}

/-! ## Marking an acceptance stale -/

theorem staleMark_nodup (reason : String) : ((staleMark reason).map Prod.fst).Nodup := by
  simp [staleMark]

/-- A receipt with a stale mark is no success. -/
theorem not_successful_stale (a : Jsonb) (reason : String) :
    ¬ Successful (a.concat (.obj (staleMark reason))) := by
  intro h
  rcases Jsonb.get_concat (staleMark_nodup reason) h with hstale | ⟨hnone, -⟩
  · exact absurd hstale (by simp [staleMark])
  · exact absurd hnone (by simp [staleMark])

theorem preservedEntries_nodup (p : Bool) (column : Option Jsonb) :
    ((preservedEntries p column).map Prod.fst).Nodup := by
  show ["acceptance", "deployment", "live_validation", "publication", "publication_repair",
    "closeout"].Nodup
  decide

theorem get_preservedVerification (p : Bool) (column : Option Jsonb) (k : String) :
    (preservedVerification p column).bind (Jsonb.get k) =
      Jsonb.nonNull ((preservedEntries p column).lookup k).join :=
  Jsonb.get_objectAgg (preservedEntries_nodup p column)

/-- After the projection no acceptance is a success. -/
theorem not_successful_preserved {p : Bool} {column : Option Jsonb}
    (h : (preservedVerification p column).bind (Jsonb.get "acceptance") = some receipt) :
    ¬ Successful receipt := by
  rw [get_preservedVerification] at h
  have hentry : staledAcceptance column = some receipt := Jsonb.nonNull_eq_some h
  unfold staledAcceptance at hentry
  split at hentry
  · obtain ⟨a, -, rfl⟩ := Option.map_eq_some_iff.mp hentry
    exact not_successful_stale a _
  · cases hentry

/-! ## One call -/

/-- An acceptance that a commit leaves successful was there, and the commit does not
    outdate it. -/
theorem acceptance_committed {args : CommitArgs} (hs : Successful receipt)
    (h : (committed now args t).acceptance = some receipt) :
    t.acceptance = some receipt ∧ outdates args.commitSha t = false := by
  simp only [Task.acceptance, Task.evidence, committed] at h
  split at h
  · cases h
  · have hget : ((outdatedVerification args.commitSha t).getD (.obj [])).get "acceptance" =
        some receipt := by
      rcases Jsonb.get_concat (by cases args.publication <;> simp) h with hpub | ⟨-, hget⟩
      · -- the publication is merged under its own key
        cases hp : args.publication <;> simp [hp, Dict.lookup_cons_if] at hpub
      · exact hget
    cases hv : outdatedVerification args.commitSha t with
    | none =>
      rw [hv] at hget
      cases hget
    | some v =>
      rw [hv] at hget
      unfold outdatedVerification at hv
      split at hv
      · split at hv
        · next w a _ _ =>
          rw [← Option.some.inj hv] at hget
          rw [Jsonb.get_setField hget] at hs
          exact absurd hs (not_successful_stale a _)
        · cases hv
      · next hcond =>
        have hhas : t.verificationResult.any (Jsonb.has "acceptance") = true := by
          rw [hv]
          exact Jsonb.has_of_get hget
        refine ⟨?_, ?_⟩
        · show t.verificationResult.bind _ = _
          rw [hv]
          exact hget
        · simpa [hhas] using hcond

/-- A successful acceptance was stored by the call, or it was there and the call does
    not outdate it. -/
theorem acceptance_written {call : Int × Op} (hwritten : written t call = some t')
    (hs : Successful receipt) (h : t'.acceptance = some receipt) :
    StoresAcceptance t call receipt ∨
      t.acceptance = some receipt ∧ outdatesAcceptance t call = false := by
  have hsome : (written t call).isSome := by
    rw [hwritten]
    rfl
  obtain ⟨now, op⟩ := call
  have hentries : ∀ entries, entriesOf op = some entries →
      StoresAcceptance t (now, op) receipt ∨ t.acceptance = some receipt := by
    intro entries hop
    rw [written_of_entriesOf hop hwritten] at h
    rcases Jsonb.get_concat (Jsonb.nodup_merge_nil entries) h with hstored | ⟨-, hget⟩
    · exact .inl ⟨hsome, entries, hop, hstored⟩
    · refine .inr ?_
      show t.verificationResult.bind _ = _
      cases hv : t.verificationResult with
      | none =>
        rw [hv] at hget
        cases hget
      | some v =>
        rw [hv] at hget
        exact hget
  cases op with
  | claimTask workerId minutes renewOnly =>
    rcases claimTask_cases hwritten with ⟨hrunning, rfl⟩ | ⟨-, rfl⟩
    · exact .inr ⟨h, by simp [outdatesAcceptance, hrunning]⟩
    · exact absurd hs (not_successful_preserved h)
  | renewTaskClaim expectedWorkerId minutes =>
    obtain ⟨-, rfl⟩ := renewTaskClaim_cases hwritten
    exact .inr ⟨h, Bool.and_false _⟩
  | releaseTask expectedWorkerId =>
    rw [releaseTask_cases hwritten] at h
    exact absurd hs (not_successful_preserved h)
  | resetExpiredClaims =>
    rw [resetExpiredClaims_cases hwritten] at h
    exact absurd hs (not_successful_preserved h)
  | releaseCloseoutClaim projectId requestId =>
    rw [releaseCloseoutClaim_cases hwritten] at h
    exact .inr ⟨h, Bool.and_false _⟩
  | updateTaskStatus facts args =>
    obtain ⟨status, hname, rfl⟩ := updateTaskStatus_cases (of_toOption hwritten)
    by_cases hcompleted : status = .completed
    · rw [hcompleted] at hname h
      refine .inr ⟨h, ?_⟩
      simp [outdatesAcceptance, ← hname, statusName]
    · simp only [Task.acceptance, Task.evidence, updateSql, if_neg hcompleted] at h
      exact absurd hs (not_successful_preserved h)
  | addCommit args =>
    rw [addCommit_cases hwritten] at h
    obtain ⟨hthere, houtdates⟩ := acceptance_committed hs h
    exact .inr ⟨hthere, by simp [outdatesAcceptance, houtdates]⟩
  | storeCloseout args => exact (hentries _ rfl).imp_right (⟨·, Bool.and_false _⟩)
  | storeVerification projectId receipts =>
    exact (hentries _ rfl).imp_right (⟨·, Bool.and_false _⟩)
  | storeExecutionVerification projectId facts =>
    exact (hentries _ rfl).imp_right (⟨·, Bool.and_false _⟩)
  | storeOwnedVerification args => exact (hentries _ rfl).imp_right (⟨·, Bool.and_false _⟩)
  | storeOwnedAcceptance projectId receipt worker claimedAt expected =>
    exact (hentries _ rfl).imp_right (⟨·, Bool.and_false _⟩)

/-- The same for a call that may write nothing. -/
theorem acceptance_serveStep {call : Int × Op} (hs : Successful receipt)
    (h : (serveStep t call).acceptance = some receipt) :
    StoresAcceptance t call receipt ∨
      t.acceptance = some receipt ∧ outdatesAcceptance t call = false := by
  unfold serveStep at h
  cases hwritten : written t call with
  | some t' =>
    rw [hwritten] at h
    exact acceptance_written hwritten hs h
  | none =>
    rw [hwritten] at h
    exact .inr ⟨h, by simp [outdatesAcceptance, hwritten]⟩

/-! ## Whole runs -/

/-- Throughout these calls the acceptance is this receipt, and none of them outdates
    it. -/
def Fresh (receipt : Jsonb) : Task → List (Int × Op) → Prop :=
  Along serveStep fun t call => t.acceptance = some receipt ∧ outdatesAcceptance t call = false

/-- A successful acceptance at the end of a run was stored in it, or was there at its
    start; since then nothing outdated it. -/
theorem acceptance_run (t : Task) (calls : List (Int × Op)) (hs : Successful receipt)
    (h : (run serveStep t calls).acceptance = some receipt) :
    Fresh receipt t calls ∨
      ∃ before call since, calls = before ++ call :: since ∧
        StoresAcceptance (run serveStep t before) call receipt ∧
        Fresh receipt (run serveStep t (before ++ [call])) since := by
  induction calls using List.reverseRecOn with
  | nil => exact .inl trivial
  | append_singleton calls call ih =>
    rw [run_concat] at h
    rcases acceptance_serveStep hs h with hstores | ⟨hthere, houtdates⟩
    · exact .inr ⟨calls, call, [], rfl, hstores, trivial⟩
    · rcases ih hthere with hfresh | ⟨before, stored, since, rfl, hstores, hfresh⟩
      · exact .inl (along_concat.mpr ⟨hfresh, hthere, houtdates⟩)
      · refine .inr ⟨before, stored, since ++ [call], by simp, hstores, ?_⟩
        apply along_concat.mpr
        refine ⟨hfresh, ?_⟩
        rw [← run_append, List.append_assoc]
        exact ⟨hthere, houtdates⟩

/-! ## The projection -/

/-- The acceptance, if there is one, is an object. -/
def ObjectAcceptance (column : Option Jsonb) : Prop :=
  ∀ a, column.bind (Jsonb.get "acceptance") = some a → ∃ entries, a = .obj entries

/-- The history of a closeout is no local closeout. -/
theorem history_kind (c : Jsonb) :
    (Jsonb.object [("kind", .str "lifecycle_closeout_history.v1"), ("state", .str "historical"),
      ("reason", .str "task_lifecycle_changed"), ("previous_closeout", c)]).getText "kind" =
      some "lifecycle_closeout_history.v1" := by
  rw [Jsonb.getText, Jsonb.get_object (by simp)]
  rfl

/-- A projected closeout projects to itself. -/
theorem preservedCloseout_idem (p : Bool) (closeout : Option Jsonb) :
    Jsonb.nonNull (preservedCloseout p (Jsonb.nonNull (preservedCloseout p closeout))) =
      Jsonb.nonNull (preservedCloseout p closeout) := by
  cases closeout with
  | none => rfl
  | some c =>
    by_cases hlocal : c.getText "kind" = some "local_closeout.v1" ∧
        (p && (c.getText "state").all (["pending", "blocked"].contains ·)) = false
    · have hhistory : preservedCloseout p (some c) =
          some (Jsonb.object [("kind", .str "lifecycle_closeout_history.v1"),
            ("state", .str "historical"), ("reason", .str "task_lifecycle_changed"),
            ("previous_closeout", c)]) := if_pos hlocal
      rw [hhistory]
      show Jsonb.nonNull (preservedCloseout p (some (Jsonb.object _))) = _
      unfold preservedCloseout
      dsimp only
      rw [history_kind, if_neg (by simp)]
    · have hsame : preservedCloseout p (some c) = some c := if_neg hlocal
      rw [hsame]
      cases hnull : Jsonb.nonNull (some c) with
      | none => rfl
      | some c' =>
        obtain rfl := Option.some.inj (Jsonb.nonNull_eq_some hnull)
        rw [hsame, hnull]

/-- A projected acceptance projects to itself when it was an object. -/
theorem staledAcceptance_idem (p : Bool) {column : Option Jsonb} (h : ObjectAcceptance column) :
    Jsonb.nonNull (staledAcceptance (preservedVerification p column)) =
      Jsonb.nonNull (staledAcceptance column) := by
  have hget : (preservedVerification p column).bind (Jsonb.get "acceptance") =
      Jsonb.nonNull (staledAcceptance column) := get_preservedVerification p column "acceptance"
  have hhas : (preservedVerification p column).any (Jsonb.has "acceptance") =
      (Jsonb.nonNull (staledAcceptance column)).isSome := by
    rw [← hget]
    exact Jsonb.any_has_objectAgg "acceptance" _
  rw [staledAcceptance, hhas, hget]
  cases hstaled : Jsonb.nonNull (staledAcceptance column) with
  | none => rfl
  | some a =>
    -- the mark is already there, and marking it again changes nothing
    have hmarked : a.concat (.obj (staleMark "task_lifecycle_changed_requires_acceptance")) = a := by
      have hentry := Jsonb.nonNull_eq_some hstaled
      unfold staledAcceptance at hentry
      split at hentry
      · obtain ⟨a₀, ha₀, rfl⟩ := Option.map_eq_some_iff.mp hentry
        exact Jsonb.concat_concat (h a₀ ha₀) (staleMark_nodup _)
      · cases hentry
    show Jsonb.nonNull (some (a.concat _)) = _
    rw [hmarked, ← hstaled]
    exact Jsonb.nonNull_nonNull _

/-- The projection is idempotent where the acceptance is an object. -/
theorem preservedVerification_idem (p : Bool) {column : Option Jsonb}
    (h : ObjectAcceptance column) :
    preservedVerification p (preservedVerification p column) = preservedVerification p column := by
  apply Jsonb.objectAgg_congr
  have hcopied : ∀ k, ((preservedEntries p column).lookup k).join = column.bind (Jsonb.get k) →
      Jsonb.nonNull ((preservedVerification p column).bind (Jsonb.get k)) =
        Jsonb.nonNull (column.bind (Jsonb.get k)) := by
    intro k hk
    rw [get_preservedVerification, hk, Jsonb.nonNull_nonNull]
  have hcloseout : Jsonb.nonNull (preservedCloseout p
        ((preservedVerification p column).bind (Jsonb.get "closeout"))) =
      Jsonb.nonNull (preservedCloseout p (column.bind (Jsonb.get "closeout"))) := by
    rw [get_preservedVerification]
    exact preservedCloseout_idem p _
  show [("acceptance", Jsonb.nonNull (staledAcceptance (preservedVerification p column))), _, _,
    _, _, ("closeout", Jsonb.nonNull (preservedCloseout p _))] = _
  dsimp only
  rw [staledAcceptance_idem p h, hcloseout, hcopied "deployment" rfl, hcopied "live_validation" rfl,
    hcopied "publication" rfl, hcopied "publication_repair" rfl]
  rfl

/-- The evidence a lifecycle change must not touch. -/
def durableKeys : List String := ["deployment", "live_validation", "publication",
  "publication_repair"]

/-- The projection copies the durable entries, less a JSON null. -/
theorem get_preserved_durable (p : Bool) (column : Option Jsonb) {k : String}
    (hk : k ∈ durableKeys) :
    (preservedVerification p column).bind (Jsonb.get k) =
      Jsonb.nonNull (column.bind (Jsonb.get k)) := by
  rw [get_preservedVerification]
  simp only [durableKeys, List.mem_cons, List.not_mem_nil, or_false] at hk
  rcases hk with rfl | rfl | rfl | rfl <;> rfl

/-! ## Evidence -/

/-- Acceptance is never fresher than the work, and the projection is idempotent on an
    acceptance that is an object and changes no other durable entry than to drop a JSON
    null. -/
theorem acceptance_fresh :
    (∀ (t : Task) (calls : List (Int × Op)) (receipt : Jsonb), Successful receipt →
      (run serveStep t calls).acceptance = some receipt →
      Fresh receipt t calls ∨
        ∃ before call since, calls = before ++ call :: since ∧
          StoresAcceptance (run serveStep t before) call receipt ∧
          Fresh receipt (run serveStep t (before ++ [call])) since) ∧
    (∀ (p : Bool) (column : Option Jsonb), ObjectAcceptance column →
      preservedVerification p (preservedVerification p column) = preservedVerification p column) ∧
    ∀ (p : Bool) (column : Option Jsonb) (k : String), k ∈ durableKeys →
      (preservedVerification p column).bind (Jsonb.get k) =
        Jsonb.nonNull (column.bind (Jsonb.get k)) := by
  refine ⟨?_, ?_, ?_⟩
  · intro t calls receipt hs h
    exact acceptance_run t calls hs h
  · intro p column h
    exact preservedVerification_idem p h
  · intro p column k hk
    exact get_preserved_durable p column hk

/-- The acceptance of a commit. -/
def sampleReceipt : List (String × Jsonb) :=
  [("state", .str "success"), ("source_commit", .str "c1")]

/-- A worker claims the task, stores an acceptance and adds the accepted commit. -/
def acceptedRun : List (Int × Op) :=
  [(1, .claimTask "w1" 30 false), (2, .storeVerification "p" [("acceptance", .obj sampleReceipt)]),
    (3, .addCommit ⟨"c1", some "p", none, none⟩)]

/-- The acceptance of that run is a success at its end, with nothing against it since. -/
theorem acceptance_fresh_commit :
    Fresh (.obj sampleReceipt) newTask acceptedRun ∨
      ∃ before call since, acceptedRun = before ++ call :: since ∧
        StoresAcceptance (run serveStep newTask before) call (.obj sampleReceipt) ∧
        Fresh (.obj sampleReceipt) (run serveStep newTask (before ++ [call])) since :=
  acceptance_fresh.1 newTask acceptedRun (.obj sampleReceipt) rfl (by decide)

/-- A null acceptance is wrapped in an array that grows with every projection, and a
    null deployment is dropped. -/
theorem preservedVerification_null :
    preservedVerification false (preservedVerification false
        (some (.obj [("acceptance", .null)]))) ≠
      preservedVerification false (some (.obj [("acceptance", .null)])) ∧
    (preservedVerification false (some (.obj [("deployment", .null)]))).bind
        (Jsonb.get "deployment") ≠
      (some (Jsonb.obj [("deployment", .null)])).bind (Jsonb.get "deployment") := by
  decide

end SummitFlow.Tasks
