import Mathlib
import SummitFlow.Cli.Ledger

/-!
# What a ledger call can do

One lemma per function of the ledger: the rows it leaves behind, with what it checked
before it wrote them.
-/

namespace SummitFlow.Ledger

theorem reopenLapsedEta_cases (now : Int) (row : Row) :
    reopenLapsedEta now row = row ∨
      row.state = .acked ∧ row.intent = some .eta ∧
        reopenLapsedEta now row = { row with state := .opened } := by
  unfold reopenLapsedEta
  split
  · split
    · next h => exact .inr ⟨h.1, h.2.1, rfl⟩
    · exact .inl rfl
  · exact .inl rfl

/-- The row `_find` returns splits the ledger at its first row with that id, and
    changing it changes that row alone. -/
theorem updateRow_of_find {rows : List Row} {messageId : String} {row : Row} (f : Row → Row)
    (h : rows.find? (fun r => r.id == messageId) = some row) :
    ∃ pre post, rows = pre ++ row :: post ∧ row.id = messageId ∧
      (∀ r ∈ pre, r.id ≠ row.id) ∧ updateRow messageId f rows = pre ++ f row :: post := by
  obtain ⟨pre, post, hrows, hrow, hpre, hupd⟩ := updateFirst_of_find f h
  have hid : row.id = messageId := by simpa using hrow
  refine ⟨pre, post, hrows, hid, ?_, hupd⟩
  intro r hr
  rw [hid]
  simpa using hpre r hr

theorem find_ok {rows : List Row} {messageId : String} {row : Row}
    (h : find rows messageId = .ok row) :
    rows.find? (fun r => r.id == messageId) = some row := by
  unfold find at h
  split at h
  · next r hr =>
    obtain rfl : r = row := by simpa using h
    exact hr
  · simp at h

/-- `send` keeps the rows or appends one, when no row that is there is its duplicate. -/
theorem send_cases {env : Env} {args : SendArgs} {rows rows' : List Row} {out : Row × Bool}
    (h : send env args rows = .ok (rows', out)) :
    rows' = rows ∨ ∃ agentId sessionId body,
      (∀ row ∈ load env.loaded rows, isDuplicate env args agentId body row = false) ∧
      rows' = load env.loaded rows ++ [newRow env args agentId sessionId body] := by
  unfold send at h
  cases hbody : cleanText args.text (some args.limit) with
  | error e => simp [hbody, bind, Except.bind] at h
  | ok body =>
    simp only [hbody, bind, Except.bind, pure, Except.pure] at h
    split at h
    · exact .inl (by simpa using (congrArg Prod.fst (Except.ok.inj h)).symm)
    · next hnone =>
      have hrows := (congrArg Prod.fst (Except.ok.inj h)).symm
      refine .inr ⟨_, _, body, ?_, hrows⟩
      intro row hrow
      simpa using List.find?_eq_none.mp hnone row hrow

/-- `ack` changes the row it finds, which is neither closed nor a note. -/
theorem ack_cases {env : Env} {messageId intent : String} {note : Option String}
    {remote : Option (String × String)} {rows rows' : List Row} {out : Row}
    (h : ack env messageId intent note remote rows = .ok (rows', out)) :
    ∃ row intent' etaMin note' agentId,
      (load env.loaded rows).find? (fun r => r.id == messageId) = some row ∧
      row.state ≠ .closed ∧
      out = ackRow intent' etaMin note' env.stamped agentId row ∧
      rows' = updateRow messageId (ackRow intent' etaMin note' env.stamped agentId)
        (load env.loaded rows) := by
  unfold ack at h
  cases hintent : parseIntent intent with
  | none => simp [hintent] at h
  | some parsed =>
    obtain ⟨intent', etaMin⟩ := parsed
    simp only [hintent, bind, Except.bind, pure, Except.pure] at h
    split at h
    · simp at h
    cases hfind : find (load env.loaded rows) messageId with
    | error e => simp [hfind] at h
    | ok row =>
      simp only [hfind] at h
      split at h
      · simp at h
      split at h
      · simp at h
      next hclosed =>
      split at h
      · simp at h
      split at h
      · split at h
        · simp at h
        · simp only [Except.ok.injEq, Prod.mk.injEq] at h
          exact ⟨row, _, _, _, _, find_ok hfind, hclosed, h.2.symm, h.1.symm⟩
      · simp only [Except.ok.injEq, Prod.mk.injEq] at h
        exact ⟨row, _, _, _, _, find_ok hfind, hclosed, h.2.symm, h.1.symm⟩

/-- `close_bare_ack` keeps the rows, or closes a row acked `yes`. -/
theorem closeBareAck_cases {env : Env} {messageId : String} {lane : Bool}
    {rows rows' : List Row} {out : Row}
    (h : closeBareAck env messageId lane rows = .ok (rows', out)) :
    rows' = rows ∨ ∃ row,
      (load env.loaded rows).find? (fun r => r.id == messageId) = some row ∧
      row.state = .acked ∧
      rows' = updateRow messageId (closeRow env.stamped) (load env.loaded rows) := by
  unfold closeBareAck at h
  cases hfind : find (load env.loaded rows) messageId with
  | error e => simp [hfind, bind, Except.bind] at h
  | ok row =>
    simp only [hfind, bind, Except.bind, pure, Except.pure] at h
    split at h
    · exact .inl (congrArg Prod.fst (Except.ok.inj h)).symm
    · next hnot =>
      rw [not_or, not_ne_iff] at hnot
      have hrows := (congrArg Prod.fst (Except.ok.inj h)).symm
      exact .inr ⟨row, find_ok hfind, hnot.1, hrows⟩

/-- `confirm` keeps the rows, closes an acked row, or withdraws an open one. -/
theorem confirm_cases {env : Env} {messageId : String} {withdraw : Bool}
    {senders : List String} {rows rows' : List Row} {out : Row}
    (h : confirm env messageId withdraw senders rows = .ok (rows', out)) :
    (withdraw = false ∧ rows' = rows) ∨ ∃ row,
      (load env.loaded rows).find? (fun r => r.id == messageId) = some row ∧
      row.state = (if withdraw then .opened else .acked) ∧
      rows' = updateRow messageId (confirmRow withdraw env.stamped) (load env.loaded rows) := by
  unfold confirm at h
  cases hfind : find (load env.loaded rows) messageId with
  | error e => simp [hfind, bind, Except.bind] at h
  | ok row =>
    simp only [hfind, bind, Except.bind, pure, Except.pure] at h
    split at h
    · simp at h
    split at h
    · next hbare => exact .inl ⟨hbare.2.2, (congrArg Prod.fst (Except.ok.inj h)).symm⟩
    split at h
    · simp at h
    cases withdraw with
    | true =>
      simp only [if_true] at h
      split at h
      · simp at h
      · next hstate =>
        have hrows := (congrArg Prod.fst (Except.ok.inj h)).symm
        exact .inr ⟨row, find_ok hfind, not_not.mp hstate, hrows⟩
    | false =>
      simp only [Bool.false_eq_true, if_false] at h
      split at h
      · simp at h
      · next hstate =>
        have hrows := (congrArg Prod.fst (Except.ok.inj h)).symm
        exact .inr ⟨row, find_ok hfind, not_not.mp hstate, hrows⟩

/-- The row `notices` leaves in place of this one. -/
def noticed (env : Env) (row : Row) : Row :=
  match noticeRow env row with
  | .ok (_, row') => row'
  | .error _ => row

/-- `notices` writes marks that say what was shown, nothing else. -/
theorem noticed_cases (env : Env) (row : Row) :
    noticed env row = row ∨ noticed env row = { row with ackSeen := true } ∨
      noticed env row = { row with surfacedAt := some env.started } := by
  unfold noticed noticeRow
  split
  · next h =>
    split at h
    · simp_all
    split at h
    · split at h <;> simp_all
    split at h <;> simp_all
  · exact .inl rfl

theorem mapM_noticeRow {env : Env} {rows : List Row} {shown : List (Option String × Row)}
    (h : rows.mapM (noticeRow env) = .ok shown) :
    shown.map Prod.snd = rows.map (noticed env) := by
  induction rows generalizing shown with
  | nil =>
    simp only [List.mapM_nil, pure, Except.pure, Except.ok.injEq] at h
    rw [← h]
    rfl
  | cons row rows ih =>
    rw [List.mapM_cons] at h
    cases hrow : noticeRow env row with
    | error e => simp [hrow, bind, Except.bind] at h
    | ok out =>
      cases hrows : rows.mapM (noticeRow env) with
      | error e => simp [hrow, hrows, bind, Except.bind] at h
      | ok outs =>
        simp only [hrow, hrows, bind, Except.bind, pure, Except.pure, Except.ok.injEq] at h
        rw [← h, List.map_cons, List.map_cons, ih hrows]
        simp [noticed, hrow]

theorem notices_cases {env : Env} {rows rows' : List Row} {lines : List String}
    (h : notices env rows = .ok (rows', lines)) :
    rows' = rows ∨ rows' = (load env.loaded rows).map (noticed env) := by
  unfold notices at h
  cases hshown : (load env.loaded rows).mapM (noticeRow env) with
  | error e => simp [hshown, bind, Except.bind] at h
  | ok shown =>
    simp only [hshown, bind, Except.bind, pure, Except.pure, Except.ok.injEq,
      Prod.mk.injEq] at h
    rw [← h.1]
    split
    · exact .inl rfl
    · exact .inr (mapM_noticeRow hshown)

theorem agent_ids_nonempty (session : String) :
    "" ∉ ("cc:" ++ session) :: (([] : List (String × Identity)).map Prod.fst) := by simp

/-- An agent outside any harness, at a time in microseconds. -/
def agentAt (session newId : String) (now : Int) : Env where
  caller := {
    agentId := "cc:" ++ session, agentSlug := "cc", sessionId := session,
    provider := "claude_code", harness := none, identities := [],
    processStart := fun _ => none, pid := 1, tmuxPane := none, sensitive := false
    ids_nonempty := agent_ids_nonempty session }
  started := now
  loaded := now
  stamped := now
  newId := newId
  seen := fun _ => []

end SummitFlow.Ledger
