import SummitFlow.ForStd.Run
import SummitFlow.Tasks.BackupSafety

/-!
# One approval, one run

The breaker opens for a plan that exceeds normal retention only on an approval that is in
the status file, and whatever happens to the breaker takes the approval out again.  So
behind every run it lets through there is an approval of its own, and behind that a
refused run with a plan at least as large.
-/

namespace SummitFlow.BackupSafety

variable {Q : Type}

/-! ## Keys -/

/-- The part before the separator. -/
theorem takeWhile_append_colon {cs : List Char} (h : ':' ∉ cs) (rest : List Char) :
    (cs ++ ':' :: rest).takeWhile (· != ':') = cs := by
  rw [List.takeWhile_append_of_pos]
  · rw [List.takeWhile_cons_of_neg (by decide), List.append_nil]
  · intro c hc
    exact bne_iff_ne.mpr fun heq => h (heq ▸ hc)

/-- A key has one kind and one target, as kinds have no separator in them. -/
theorem breakerKey_inj {kind kind' target target' : String} (hkind : ':' ∉ kind.toList)
    (hkind' : ':' ∉ kind'.toList) (h : breakerKey kind target = breakerKey kind' target') :
    kind = kind' ∧ target = target' := by
  have hlist : kind.toList ++ ':' :: target.toList = kind'.toList ++ ':' :: target'.toList := by
    have hchars := congrArg String.toList h
    simpa [breakerKey] using hchars
  have hkinds : kind.toList = kind'.toList := by
    rw [← takeWhile_append_colon hkind target.toList, hlist, takeWhile_append_colon hkind']
  rw [hkinds] at hlist
  have htargets := (List.cons.inj (List.append_cancel_left hlist)).2
  exact ⟨String.toList_inj.mp hkinds, String.toList_inj.mp htargets⟩

/-! ## Calls -/

namespace Call

def kind : Call Q → String
  | .guard kind .. => kind
  | .approve kind .. => kind

def now : Call Q → Int
  | .guard _ _ _ now _ => now
  | .approve _ _ _ now _ => now

/-- A run of this kind and target that is recorded in the file. -/
def Records (kind target : String) : Call Q → Prop
  | .guard kind' target' _ _ io => kind' = kind ∧ target' = target ∧ io.writable = true
  | .approve .. => False

end Call

/-- What a call finds in the file. -/
def contents (file : Option Status) : Status := file.getD ⟨[], [], []⟩

section

variable (fractions : Fractions Q)

/-- The file after some calls, when there was none before. -/
def fileAfter (calls : List (Call Q)) : Option Status := run (callStep fractions) none calls

/-- Among the calls, the last recorded run of this kind and target was refused. -/
def LastRefused (calls : List (Call Q)) (kind target : String) (planned : Int) : Prop :=
  ∃ before plan now io after, calls = before ++ .guard kind target plan now io :: after ∧
    plan.delete = planned ∧ io.writable = true ∧
    (guardDeletion fractions kind target plan now io (fileAfter fractions before)).2.1 = false ∧
    ∀ call ∈ after, ¬ call.Records kind target

/-- Among the calls, a refused run was approved, and no run is recorded since. -/
def LastApproved (calls : List (Call Q)) (kind target : String) (planned expires : Int) : Prop :=
  ∃ before owner now io after, calls = before ++ .approve kind target owner now io :: after ∧
    LastRefused fractions before kind target planned ∧ expires = now + approvalTtl ∧
    (∃ approval, (approveDeletion kind target owner now io (fileAfter fractions before)).2 =
      .ok approval) ∧
    ∀ call ∈ after, ¬ call.Records kind target

/-- What the file says is what the calls did. -/
def Truthful (calls : List (Call Q)) (file : Option Status) : Prop :=
  ∀ kind target, ':' ∉ kind.toList →
    (∀ breaker, (contents file).breakers.lookup (breakerKey kind target) = some breaker →
      breaker.tripped = true → LastRefused fractions calls kind target breaker.plannedDelete) ∧
    ∀ approval, (contents file).approvals.lookup (breakerKey kind target) = some approval →
      LastApproved fractions calls kind target approval.plannedDelete approval.expiresAt

end

variable {fractions : Fractions Q}

/-! ## More calls -/

theorem LastRefused.concat {calls : List (Call Q)} {kind target : String} {planned : Int}
    (h : LastRefused fractions calls kind target planned) {call : Call Q}
    (hcall : ¬ call.Records kind target) :
    LastRefused fractions (calls ++ [call]) kind target planned := by
  obtain ⟨before, plan, now, io, after, rfl, hplan, hio, hrefused, hafter⟩ := h
  refine ⟨before, plan, now, io, after ++ [call], by simp, hplan, hio, hrefused, ?_⟩
  intro c hc
  rcases List.mem_append.mp hc with hold | hnew
  · exact hafter c hold
  · rw [List.mem_singleton.mp hnew]
    exact hcall

theorem LastApproved.concat {calls : List (Call Q)} {kind target : String} {planned expires : Int}
    (h : LastApproved fractions calls kind target planned expires) {call : Call Q}
    (hcall : ¬ call.Records kind target) :
    LastApproved fractions (calls ++ [call]) kind target planned expires := by
  obtain ⟨before, owner, now, io, after, rfl, hrefused, hexpires, hok, hafter⟩ := h
  refine ⟨before, owner, now, io, after ++ [call], by simp, hrefused, hexpires, hok, ?_⟩
  intro c hc
  rcases List.mem_append.mp hc with hold | hnew
  · exact hafter c hold
  · rw [List.mem_singleton.mp hnew]
    exact hcall

/-! ## Guarding -/

/-- Spending touches the approval of one key, and takes it out. -/
theorem lookup_spendApproval (status : Status) (key key' : String) (planned now : Int) :
    (spendApproval status key planned now).1.breakers = status.breakers ∧
      (spendApproval status key planned now).1.approvals.lookup key' =
        if key' = key then none else status.approvals.lookup key' := by
  unfold spendApproval
  cases happroval : status.approvals.lookup key with
  | none =>
    refine ⟨rfl, ?_⟩
    dsimp only
    split
    · next heq => rw [heq, happroval]
    · rfl
  | some approval =>
    dsimp only
    split
    · exact ⟨rfl, Dict.lookup_filter_ne _ _ _⟩
    · exact ⟨rfl, Dict.lookup_filter_ne _ _ _⟩

/-- An approval that is spent fits the run. -/
theorem spendApproval_some {status : Status} {key : String} {planned now : Int} {approval : Approval}
    (h : (spendApproval status key planned now).2 = some approval) :
    status.approvals.lookup key = some approval ∧ now ≤ approval.expiresAt ∧
      planned ≤ approval.plannedDelete := by
  unfold spendApproval at h
  cases hlookup : status.approvals.lookup key with
  | none =>
    rw [hlookup] at h
    cases h
  | some approval' =>
    rw [hlookup] at h
    dsimp only at h
    split at h
    · cases h
    · next hfits =>
      obtain rfl := Option.some.inj h
      exact ⟨rfl, by omega, by omega⟩

/-- What a run does to the status: nothing to other keys, and its own key has its entry and
    no approval. -/
theorem guardStatus_spec (kind target : String) (plan : Plan Q) (reasons : List String) (now : Int)
    (status : Status) :
    let result := guardStatus kind target plan reasons now status
    (∀ key', key' ≠ breakerKey kind target →
      result.1.breakers.lookup key' = status.breakers.lookup key' ∧
      result.1.approvals.lookup key' = status.approvals.lookup key') ∧
    result.1.approvals.lookup (breakerKey kind target) = none ∧
    (∀ breaker, result.1.breakers.lookup (breakerKey kind target) = some breaker →
      breaker.plannedDelete = plan.delete ∧
        (breaker.tripped = true → reasons.isEmpty = false ∧ result.2.1 = none)) ∧
    ∀ approval, result.2.1 = some approval → reasons.isEmpty = false ∧
      status.approvals.lookup (breakerKey kind target) = some approval ∧
      now ≤ approval.expiresAt ∧ plan.delete ≤ approval.plannedDelete := by
  dsimp only
  unfold guardStatus
  dsimp only
  have hspend := lookup_spendApproval status (breakerKey kind target)
  cases hreasons : reasons.isEmpty with
  | true =>
    simp only [Bool.not_true, Bool.false_eq_true, ↓reduceIte]
    refine ⟨?_, ?_, ?_, nofun⟩
    · intro key' hkey'
      rw [Dict.lookup_set_of_ne hkey', Dict.lookup_filter_ne, if_neg hkey']
      exact ⟨rfl, rfl⟩
    · rw [Dict.lookup_filter_ne, if_pos rfl]
    · intro breaker hbreaker
      rw [Dict.lookup_set_self] at hbreaker
      obtain rfl := Option.some.inj hbreaker
      exact ⟨rfl, nofun⟩
  | false =>
    simp only [Bool.not_false, ↓reduceIte]
    cases hspent : spendApproval status (breakerKey kind target) plan.delete now with
    | mk status' lifted =>
      have hkeys : ∀ key', status'.breakers = status.breakers ∧ status'.approvals.lookup key' =
          if key' = breakerKey kind target then none else status.approvals.lookup key' := by
        intro key'
        have hkey := hspend key' plan.delete now
        rwa [hspent] at hkey
      cases lifted with
      | some approval =>
        dsimp only
        refine ⟨?_, ?_, ?_, ?_⟩
        · intro key' hkey'
          rw [Dict.lookup_set_of_ne hkey', (hkeys key').1, (hkeys key').2, if_neg hkey']
          exact ⟨rfl, rfl⟩
        · rw [(hkeys _).2, if_pos rfl]
        · intro breaker hbreaker
          rw [Dict.lookup_set_self] at hbreaker
          obtain rfl := Option.some.inj hbreaker
          exact ⟨rfl, nofun⟩
        · intro approval' heq
          obtain rfl := Option.some.inj heq
          have hfits := spendApproval_some (show (spendApproval status _ plan.delete now).2 = _ by
            rw [hspent])
          exact ⟨trivial, hfits⟩
      | none =>
        dsimp only
        refine ⟨?_, ?_, ?_, nofun⟩
        · intro key' hkey'
          rw [Dict.lookup_set_of_ne hkey', (hkeys key').1, (hkeys key').2, if_neg hkey']
          exact ⟨rfl, rfl⟩
        · rw [(hkeys _).2, if_pos rfl]
        · intro breaker hbreaker
          rw [Dict.lookup_set_self] at hbreaker
          obtain rfl := Option.some.inj hbreaker
          exact ⟨rfl, fun _ => ⟨trivial, rfl⟩⟩

/-- What a call works on. -/
def opened (io : Io) (file : Option Status) : Status :=
  if io.readable then contents file else ⟨[], [], []⟩

/-- A run that cannot be recorded changes nothing, and is refused when it exceeds normal
    retention. -/
theorem guardDeletion_unwritable (fractions : Fractions Q) (kind target : String) (plan : Plan Q)
    (now : Int) {io : Io} (hio : io.writable = false) (file : Option Status) :
    (guardDeletion fractions kind target plan now io file).1 = file ∧
      (guardDeletion fractions kind target plan now io file).2.1 =
        (evaluateDeletion fractions plan).isEmpty := by
  unfold guardDeletion lockedStatus
  dsimp only
  rw [hio]
  cases hreasons : (evaluateDeletion fractions plan).isEmpty <;> exact ⟨rfl, rfl⟩

/-- A run that is recorded. -/
theorem guardDeletion_writable (fractions : Fractions Q) (kind target : String) (plan : Plan Q)
    (now : Int) {io : Io} (hio : io.writable = true) (file : Option Status) :
    let result := guardStatus kind target plan (evaluateDeletion fractions plan) now (opened io file)
    (guardDeletion fractions kind target plan now io file).1 = some result.1 ∧
      (guardDeletion fractions kind target plan now io file).2.1 =
        (result.2.1.isSome || (evaluateDeletion fractions plan).isEmpty) := by
  dsimp only
  unfold guardDeletion lockedStatus
  dsimp only
  rw [hio]
  show _ ∧ _
  unfold opened contents
  generalize guardStatus kind target plan (evaluateDeletion fractions plan) now _ = result
  obtain ⟨status, lifted, previous⟩ := result
  cases lifted with
  | some approval => exact ⟨rfl, rfl⟩
  | none => cases hreasons : (evaluateDeletion fractions plan).isEmpty <;> exact ⟨rfl, rfl⟩

/-- What a call works on is in the file. -/
theorem lookup_opened {io : Io} {file : Option Status} {key : String} :
    (∀ breaker, (opened io file).breakers.lookup key = some breaker →
      (contents file).breakers.lookup key = some breaker) ∧
    ∀ approval, (opened io file).approvals.lookup key = some approval →
      (contents file).approvals.lookup key = some approval := by
  unfold opened
  split
  · exact ⟨fun _ h => h, fun _ h => h⟩
  · exact ⟨nofun, nofun⟩

theorem Truthful.guard {calls : List (Call Q)} (h : Truthful fractions calls (fileAfter fractions calls))
    (kind target : String) (hkind : ':' ∉ kind.toList) (plan : Plan Q) (now : Int) (io : Io) :
    Truthful fractions (calls ++ [.guard kind target plan now io])
      (guardDeletion fractions kind target plan now io (fileAfter fractions calls)).1 := by
  intro kind' target' hkind'
  obtain ⟨hbreakers, happrovals⟩ := h kind' target' hkind'
  cases hio : io.writable with
  | false =>
    rw [(guardDeletion_unwritable fractions kind target plan now hio _).1]
    have hcall : ¬ (Call.guard kind target plan now io).Records kind' target' := by
      rintro ⟨-, -, hwritable⟩
      rw [hio] at hwritable
      cases hwritable
    exact ⟨fun breaker hb ht => (hbreakers breaker hb ht).concat hcall,
      fun approval ha => (happrovals approval ha).concat hcall⟩
  | true =>
    obtain ⟨hfile, hresult⟩ := guardDeletion_writable fractions kind target plan now hio
      (fileAfter fractions calls)
    obtain ⟨hothers, hspent, hentry, -⟩ := guardStatus_spec kind target plan
      (evaluateDeletion fractions plan) now (opened io (fileAfter fractions calls))
    rw [hfile]
    obtain ⟨holdBreakers, holdApprovals⟩ :=
      @lookup_opened io (fileAfter fractions calls) (breakerKey kind' target')
    by_cases hkey : breakerKey kind' target' = breakerKey kind target
    · obtain ⟨rfl, rfl⟩ := breakerKey_inj hkind' hkind hkey
      refine ⟨?_, ?_⟩
      · intro breaker hb ht
        obtain ⟨hplan, htripped⟩ := hentry breaker hb
        obtain ⟨hreasons, hlifted⟩ := htripped ht
        refine ⟨calls, plan, now, io, [], rfl, hplan.symm, hio, ?_, nofun⟩
        rw [hresult, hlifted, hreasons]
        rfl
      · intro approval ha
        rw [show (contents (some _)).approvals.lookup _ = none from hspent] at ha
        cases ha
    · have hcall : ¬ (Call.guard kind target plan now io).Records kind' target' := by
        rintro ⟨rfl, rfl, -⟩
        exact hkey rfl
      obtain ⟨hsameBreakers, hsameApprovals⟩ := hothers _ hkey
      refine ⟨?_, ?_⟩
      · intro breaker hb ht
        have hold := holdBreakers breaker (hsameBreakers ▸ hb)
        exact (hbreakers breaker hold ht).concat hcall
      · intro approval ha
        have hold := holdApprovals approval (hsameApprovals ▸ ha)
        exact (happrovals approval hold).concat hcall

/-! ## Approving -/

/-- An approval that is not given changes nothing; one that is given is that of a refused
    run in the file. -/
theorem approveDeletion_spec (kind target owner : String) (now : Int) (io : Io)
    (file : Option Status) :
    let result := approveDeletion kind target owner now io file
    (∃ error, result = (file, .error error)) ∨
      ∃ breaker approval, (opened io file).breakers.lookup (breakerKey kind target) = some breaker ∧
        breaker.tripped = true ∧ approval.plannedDelete = breaker.plannedDelete ∧
        approval.expiresAt = now + approvalTtl ∧
        result = (some { opened io file with
          approvals := Dict.set (breakerKey kind target) approval (opened io file).approvals },
          .ok (approval, [.approved approval])) := by
  dsimp only
  unfold approveDeletion
  dsimp only
  split
  · exact .inl ⟨_, rfl⟩
  · unfold lockedStatus opened contents
    dsimp only
    generalize (if io.readable = true then file.getD ⟨[], [], []⟩ else ⟨[], [], []⟩ : Status) = status
    cases hfound : (status.breakers.lookup (breakerKey kind target)).filter (·.tripped) with
    | none => exact .inl ⟨_, rfl⟩
    | some breaker =>
      obtain ⟨hbreaker, htripped⟩ := Option.filter_eq_some_iff.mp hfound
      dsimp only
      split
      · exact .inr ⟨breaker, _, hbreaker, htripped, rfl, rfl, rfl⟩
      · exact .inl ⟨_, rfl⟩

theorem Truthful.approve {calls : List (Call Q)}
    (h : Truthful fractions calls (fileAfter fractions calls)) (kind target : String)
    (hkind : ':' ∉ kind.toList) (owner : String) (now : Int) (io : Io) :
    Truthful fractions (calls ++ [.approve kind target owner now io])
      (approveDeletion kind target owner now io (fileAfter fractions calls)).1 := by
  intro kind' target' hkind'
  obtain ⟨hbreakers, happrovals⟩ := h kind' target' hkind'
  have hcall : ¬ (Call.approve kind target owner now io : Call Q).Records kind' target' := id
  rcases approveDeletion_spec kind target owner now io (fileAfter fractions calls) with
    ⟨error, herror⟩ | ⟨breaker, approval, hbreaker, htripped, hplanned, hexpires, hok⟩
  · rw [herror]
    exact ⟨fun breaker hb ht => (hbreakers breaker hb ht).concat hcall,
      fun approval ha => (happrovals approval ha).concat hcall⟩
  · rw [hok]
    obtain ⟨holdBreakers, holdApprovals⟩ :=
      @lookup_opened io (fileAfter fractions calls) (breakerKey kind' target')
    refine ⟨fun breaker hb ht => (hbreakers breaker (holdBreakers breaker hb) ht).concat hcall, ?_⟩
    intro approval' ha
    change (Dict.set (breakerKey kind target) approval _).lookup _ = some approval' at ha
    by_cases hkey : breakerKey kind' target' = breakerKey kind target
    · obtain ⟨rfl, rfl⟩ := breakerKey_inj hkind' hkind hkey
      rw [Dict.lookup_set_self] at ha
      obtain rfl := Option.some.inj ha
      refine ⟨calls, owner, now, io, [], rfl, ?_, hexpires, ⟨_, by rw [hok]⟩, nofun⟩
      rw [hplanned]
      exact hbreakers breaker (holdBreakers breaker hbreaker) htripped
    · rw [Dict.lookup_set_of_ne hkey] at ha
      exact (happrovals approval' (holdApprovals approval' ha)).concat hcall

/-! ## Runs -/

theorem truthful_fileAfter (fractions : Fractions Q) {calls : List (Call Q)}
    (hkinds : ∀ call ∈ calls, ':' ∉ call.kind.toList) :
    Truthful fractions calls (fileAfter fractions calls) := by
  induction calls using List.reverseRecOn with
  | nil => exact fun _ _ _ => ⟨nofun, nofun⟩
  | append_singleton calls call ih =>
    have htruthful := ih fun c hc => hkinds c (List.mem_append_left _ hc)
    have hkind := hkinds call (List.mem_append_right _ (List.mem_singleton_self _))
    unfold fileAfter
    rw [run_concat]
    cases call with
    | guard kind target plan now io => exact htruthful.guard kind target hkind plan now io
    | approve kind target owner now io => exact htruthful.approve kind target hkind owner now io

/-- A run that exceeds normal retention and may proceed has an approval. -/
theorem LastApproved.of_allowed {calls : List (Call Q)}
    (hkinds : ∀ call ∈ calls, ':' ∉ call.kind.toList) {kind target : String}
    (hkind : ':' ∉ kind.toList) {plan : Plan Q} {now : Int} {io : Io}
    (hreasons : evaluateDeletion fractions plan ≠ [])
    (h : (guardDeletion fractions kind target plan now io (fileAfter fractions calls)).2.1 = true) :
    ∃ planned expires, LastApproved fractions calls kind target planned expires ∧
      plan.delete ≤ planned ∧ now ≤ expires := by
  have hnonempty : (evaluateDeletion fractions plan).isEmpty = false := by
    rw [List.isEmpty_eq_false_iff]
    exact hreasons
  cases hio : io.writable with
  | false =>
    rw [(guardDeletion_unwritable fractions kind target plan now hio _).2, hnonempty] at h
    cases h
  | true =>
    obtain ⟨-, hresult⟩ := guardDeletion_writable fractions kind target plan now hio
      (fileAfter fractions calls)
    rw [hresult, hnonempty, Bool.or_false] at h
    obtain ⟨approval, happroval⟩ := Option.isSome_iff_exists.mp h
    obtain ⟨-, -, -, hlifted⟩ := guardStatus_spec kind target plan
      (evaluateDeletion fractions plan) now (opened io (fileAfter fractions calls))
    obtain ⟨-, hlookup, hexpires, hplanned⟩ := hlifted approval happroval
    obtain ⟨-, happrovals⟩ := truthful_fileAfter fractions hkinds kind target hkind
    exact ⟨_, _, happrovals approval (lookup_opened.2 approval hlookup), hplanned, hexpires⟩

/-- A recorded run before the last call of another kind is before it. -/
theorem split_of_not_mem {α : Type} {before since before' mid : List α} {a g : α} (hne : a ≠ g)
    (hsince : g ∉ since) (h : before ++ a :: since = before' ++ g :: mid) :
    ∃ between, before = before' ++ g :: between ∧ mid = between ++ a :: since := by
  rcases List.append_eq_append_iff.mp h with ⟨l, rfl, hl⟩ | ⟨l, rfl, hl⟩
  · cases l with
    | nil => exact absurd (List.cons.inj hl).1 hne
    | cons b l =>
      obtain ⟨-, rfl⟩ := List.cons.inj hl
      exact absurd (List.mem_append_right _ List.mem_cons_self) hsince
  · cases l with
    | nil => exact absurd (List.cons.inj hl).1.symm hne
    | cons b l =>
      obtain ⟨rfl, rfl⟩ := List.cons.inj hl
      exact ⟨l, rfl, rfl⟩

/-- The breaker opens only on one fitting approval.  A run that exceeds normal retention
    and cannot be recorded is refused and leaves the file as it is.  One that may proceed
    has an approval in the 48 hours before it, of a refused run of the same kind and target
    with a plan at least as large, and no run of that kind and target is recorded in
    between.  So between two runs that may proceed there is an approval. -/
theorem breaker_opens_on_one_approval (fractions : Fractions Q) (before after : List (Call Q))
    (kind target : String) (plan : Plan Q) (now : Int) (io : Io)
    (hkinds : ∀ call ∈ before ++ .guard kind target plan now io :: after, ':' ∉ call.kind.toList)
    (hclock : ((before ++ .guard kind target plan now io :: after).map Call.now).Pairwise (· ≤ ·))
    (hreasons : evaluateDeletion fractions plan ≠ []) :
    let result := guardDeletion fractions kind target plan now io (fileAfter fractions before)
    (io.writable = false → result.2.1 = false ∧ result.1 = fileAfter fractions before) ∧
    (result.2.1 = true →
      (∃ first plan' now' io' between owner approvedAt io'' since,
        before = first ++ .guard kind target plan' now' io' :: between ++
          .approve kind target owner approvedAt io'' :: since ∧
        (guardDeletion fractions kind target plan' now' io' (fileAfter fractions first)).2.1 = false ∧
        io'.writable = true ∧ plan.delete ≤ plan'.delete ∧
        (∃ approval, (approveDeletion kind target owner approvedAt io''
          (fileAfter fractions (first ++ .guard kind target plan' now' io' :: between))).2 =
            .ok approval) ∧
        approvedAt ≤ now ∧ now ≤ approvedAt + approvalTtl ∧
        ∀ call ∈ between ++ since, ¬ call.Records kind target) ∧
      ∀ first plan' now' io' mid, before = first ++ .guard kind target plan' now' io' :: mid →
        evaluateDeletion fractions plan' ≠ [] →
        (guardDeletion fractions kind target plan' now' io' (fileAfter fractions first)).2.1 = true →
        ∃ between owner approvedAt io'' since,
          mid = between ++ .approve kind target owner approvedAt io'' :: since ∧
          ∃ approval, (approveDeletion kind target owner approvedAt io'' (fileAfter fractions
            (first ++ .guard kind target plan' now' io' :: between))).2 = .ok approval) := by
  dsimp only
  have hkindsBefore : ∀ call ∈ before, ':' ∉ call.kind.toList :=
    fun call hcall => hkinds call (List.mem_append_left _ hcall)
  have hkind : ':' ∉ kind.toList :=
    hkinds (.guard kind target plan now io) (List.mem_append_right _ List.mem_cons_self)
  refine ⟨?_, ?_⟩
  · intro hio
    obtain ⟨hfile, hresult⟩ := guardDeletion_unwritable fractions kind target plan now hio
      (fileAfter fractions before)
    rw [hresult, List.isEmpty_eq_false_iff]
    exact ⟨hreasons, hfile⟩
  · intro hallowed
    obtain ⟨planned, expires, happroved, hplan, hexpires⟩ :=
      LastApproved.of_allowed hkindsBefore hkind hreasons hallowed
    obtain ⟨upTo, owner, approvedAt, io'', since, rfl, hrefused, rfl, hok, hsince⟩ := happroved
    refine ⟨?_, ?_⟩
    · obtain ⟨first, plan', now', io', between, rfl, hplan', hio', hrefused, hbetween⟩ := hrefused
      refine ⟨first, plan', now', io', between, owner, approvedAt, io'', since, rfl, hrefused, hio',
        by omega, hok, ?_, hexpires, ?_⟩
      · rw [List.map_append, List.pairwise_append] at hclock
        apply hclock.2.2
        · exact List.mem_map.mpr ⟨.approve kind target owner approvedAt io'', by simp, rfl⟩
        · exact List.mem_map.mpr ⟨.guard kind target plan now io, by simp, rfl⟩
      · intro call hcall
        rcases List.mem_append.mp hcall with hmem | hmem
        · exact hbetween call hmem
        · exact hsince call hmem
    · intro first plan' now' io' mid hsplit hreasons' hallowed'
      have hio' : io'.writable = true := by
        by_contra hio'
        have hresult := (guardDeletion_unwritable fractions kind target plan' now'
          (Bool.not_eq_true _ ▸ hio') (fileAfter fractions first)).2
        rw [hallowed'] at hresult
        exact hreasons' (List.isEmpty_iff.mp hresult.symm)
      have hne : (Call.approve kind target owner approvedAt io'' : Call Q) ≠
          .guard kind target plan' now' io' := nofun
      have hnot : Call.guard kind target plan' now' io' ∉ since :=
        fun hmem => hsince _ hmem ⟨rfl, rfl, hio'⟩
      obtain ⟨between, rfl, rfl⟩ := split_of_not_mem hne hnot hsplit
      exact ⟨between, owner, approvedAt, io'', since, rfl, hok⟩

/-! ## One run -/

/-- Fractions in percent. -/
def percentages : Fractions Int where
  above a b q := 100 * a > q * b
  percent q := toString q ++ "%"

/-- Eighty of a hundred points. -/
def mostPoints : Plan Int := ⟨80, 100, [], ⟨50, 10, 50, 6⟩⟩

def refusedThenApproved : List (Call Int) :=
  [.guard "snapshot" "/srv/a" mostPoints 0 ⟨true, true⟩,
    .approve "snapshot" "/srv/a" "owner: yes, 2026-07-01" 60000000 ⟨true, true⟩]

theorem breaker_opens_on_one_approval_once :
    (guardDeletion percentages "snapshot" "/srv/a" mostPoints 0 ⟨true, true⟩ none).2.1 = false ∧
      (guardDeletion percentages "snapshot" "/srv/a" mostPoints 120000000 ⟨true, true⟩
        (fileAfter percentages refusedThenApproved)).2.1 = true ∧
      ∃ first plan' now' io' between owner approvedAt io'' since,
        refusedThenApproved = first ++ .guard "snapshot" "/srv/a" plan' now' io' :: between ++
          .approve "snapshot" "/srv/a" owner approvedAt io'' :: since ∧
        mostPoints.delete ≤ plan'.delete ∧ 120000000 ≤ approvedAt + approvalTtl := by
  have hrefused : (guardDeletion percentages "snapshot" "/srv/a" mostPoints 0 ⟨true, true⟩
      none).2.1 = false := by
    decide +kernel
  have hallowed : (guardDeletion percentages "snapshot" "/srv/a" mostPoints 120000000 ⟨true, true⟩
      (fileAfter percentages refusedThenApproved)).2.1 = true := by
    decide +kernel
  obtain ⟨-, hopens⟩ := breaker_opens_on_one_approval percentages refusedThenApproved [] "snapshot"
    "/srv/a" mostPoints 120000000 ⟨true, true⟩ (by decide +kernel) (by decide +kernel)
    (by decide +kernel)
  obtain ⟨⟨first, plan', now', io', between, owner, approvedAt, io'', since, hbefore, -, -, hplan,
    -, -, hexpires, -⟩, -⟩ := hopens hallowed
  exact ⟨hrefused, hallowed, first, plan', now', io', between, owner, approvedAt, io'', since,
    hbefore, hplan, hexpires⟩

end SummitFlow.BackupSafety
