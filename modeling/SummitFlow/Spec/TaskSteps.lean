import SummitFlow.Storage.Tasks

/-!
# What a call does to a task row

One lemma per call says what it writes when it writes at all; `written_of_entriesOf`
covers the five calls that merge entries into the evidence.  The specifications of
claims and of evidence start from these.
-/

namespace SummitFlow.Tasks

open Repair (TaskStatus)

variable {t t' : Task} {now : Int}

theorem claimTask_cases {workerId : String} {minutes : Int} {renewOnly : Bool}
    (h : claimTask now workerId minutes renewOnly t = some t') :
    t.status = .running ∧ t' = renewed now minutes t ∨
      t.status ≠ .running ∧ t' = claimed now workerId minutes t := by
  unfold claimTask at h
  by_cases hrunning : t.status = .running
  · rw [if_pos hrunning] at h
    split at h
    · exact .inl ⟨hrunning, (Option.some.inj h).symm⟩
    · cases h
  · rw [if_neg hrunning] at h
    split at h
    · cases h
    · split at h
      · cases h
      · split at h
        · cases h
        · exact .inr ⟨hrunning, (Option.some.inj h).symm⟩

theorem releaseTask_cases {expectedWorkerId : Option String}
    (h : releaseTask now expectedWorkerId t = some t') : t' = released now false t := by
  unfold releaseTask at h
  split at h
  · cases h
  · exact (Option.some.inj h).symm

theorem resetExpiredClaims_cases (h : resetExpiredClaims now t = some t') :
    t' = released now true t := by
  unfold resetExpiredClaims at h
  split at h
  · exact (Option.some.inj h).symm
  · cases h

/-- The status a text names. -/
theorem find_validStatuses {name : String} {status : TaskStatus}
    (h : validStatuses.find? (fun s => statusName s == name) = some status) :
    statusName status = name := by
  simpa using List.find?_some h

theorem updateTaskStatus_cases {facts : Facts} {args : StatusArgs}
    (h : updateTaskStatus now facts args t = .ok t') :
    ∃ status, statusName status = args.status ∧ t' = updateSql now status args.errorMessage t := by
  unfold updateTaskStatus at h
  split at h
  · cases h
  · next status hstatus =>
    refine ⟨status, find_validStatuses hstatus, ?_⟩
    simp only [bind, Except.bind] at h
    split at h
    · cases h
    · split at h
      · cases h
      · split at h
        · cases h
        · split at h
          · split at h
            · cases h
            · exact (Except.ok.inj h).symm
          · exact (Except.ok.inj h).symm

theorem storeEntries_cases {keys : List String} {message projectId : String}
    {entries : List (String × Jsonb)}
    (h : storeEntries keys message now projectId entries t = .ok t') : t' = t.merged now entries := by
  unfold storeEntries at h
  split at h
  · cases h
  · split at h
    · exact (Except.ok.inj h).symm
    · cases h

theorem storeCloseout_cases {args : CloseoutArgs}
    (h : storeCloseout now args t = .ok (some t')) :
    t' = t.merged now [("closeout", Jsonb.object args.closeout)] := by
  unfold storeCloseout at h
  split at h
  · cases h
  · split at h
    · exact (Option.some.inj (Except.ok.inj h)).symm
    · split at h
      · cases h
      · cases h

theorem storeOwnedVerification_cases {args : OwnedArgs}
    (h : storeOwnedVerification now args t = .ok (some t')) : t' = t.merged now args.receipts := by
  unfold storeOwnedVerification at h
  split at h
  · cases h
  · split at h
    · cases h
    · split at h
      · exact (Option.some.inj (Except.ok.inj h)).symm
      · cases h

theorem storeOwnedAcceptance_cases {projectId worker : String} {claimedAt : Option Int}
    {receipt expected : List (String × Jsonb)}
    (h : storeOwnedAcceptance now projectId receipt worker claimedAt expected t = .ok (some t')) :
    t' = t.merged now [("acceptance", Jsonb.object receipt)] := by
  unfold storeOwnedAcceptance at h
  split at h
  · cases h
  · exact storeOwnedVerification_cases h

/-- The entries a call merges into the evidence. -/
def entriesOf : Op → Option (List (String × Jsonb))
  | .storeCloseout args => some [("closeout", Jsonb.object args.closeout)]
  | .storeVerification _ receipts => some receipts
  | .storeExecutionVerification _ facts => some facts
  | .storeOwnedVerification args => some args.receipts
  | .storeOwnedAcceptance _ receipt _ _ _ => some [("acceptance", Jsonb.object receipt)]
  | _ => none

theorem of_toOption {α : Type} {x : Except PyError α} {a : α} (h : x.toOption = some a) :
    x = .ok a := by
  cases x with
  | error e => cases h
  | ok b => rw [Option.some.inj h]

theorem of_toOption_join {α : Type} {x : Except PyError (Option α)} {a : α}
    (h : x.toOption.join = some a) : x = .ok (some a) :=
  of_toOption (Option.join_eq_some_iff.mp h)

/-- A call that stores entries merges them and changes nothing else. -/
theorem written_of_entriesOf {call : Int × Op} {entries : List (String × Jsonb)}
    (hentries : entriesOf call.2 = some entries) (h : written t call = some t') :
    t' = t.merged call.1 entries := by
  obtain ⟨now, op⟩ := call
  cases op with
  | storeCloseout args =>
    obtain rfl := Option.some.inj hentries
    exact storeCloseout_cases (of_toOption_join h)
  | storeVerification projectId receipts =>
    obtain rfl := Option.some.inj hentries
    exact storeEntries_cases (of_toOption h)
  | storeExecutionVerification projectId facts =>
    obtain rfl := Option.some.inj hentries
    exact storeEntries_cases (of_toOption h)
  | storeOwnedVerification args =>
    obtain rfl := Option.some.inj hentries
    exact storeOwnedVerification_cases (of_toOption_join h)
  | storeOwnedAcceptance projectId receipt worker claimedAt expected =>
    obtain rfl := Option.some.inj hentries
    exact storeOwnedAcceptance_cases (of_toOption_join h)
  | claimTask workerId minutes renewOnly => cases hentries
  | renewTaskClaim expectedWorkerId minutes => cases hentries
  | releaseTask expectedWorkerId => cases hentries
  | resetExpiredClaims => cases hentries
  | releaseCloseoutClaim projectId requestId => cases hentries
  | updateTaskStatus facts args => cases hentries
  | addCommit args => cases hentries

theorem renewTaskClaim_cases {expectedWorkerId : String} {minutes : Int}
    (h : renewTaskClaim now expectedWorkerId minutes t = some t') :
    t.status = .running ∧ t' = renewed now minutes t := by
  unfold renewTaskClaim at h
  split at h
  · next hclaim => exact ⟨hclaim.1, (Option.some.inj h).symm⟩
  · cases h

theorem releaseCloseoutClaim_cases {projectId requestId : String}
    (h : releaseCloseoutClaim now projectId requestId t = some t') :
    t' = { t.unclaimed with status := .pending, updatedAt := now } := by
  unfold releaseCloseoutClaim at h
  dsimp only at h
  split at h
  · exact (Option.some.inj h).symm
  · cases h

theorem addCommit_cases {args : CommitArgs} (h : addCommit now args t = some t') :
    t' = committed now args t := by
  unfold addCommit at h
  split at h
  · exact (Option.some.inj h).symm
  · cases h

end SummitFlow.Tasks
