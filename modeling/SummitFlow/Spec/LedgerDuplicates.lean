import SummitFlow.Spec.LedgerSteps

/-!
# Duplicate requests

`send` compares a request with the rows of the ledger: any row with its source key, and
the open rows with its text.  Rows change their state afterwards, and an eta that lapses
opens a row again, so the state of a row is not what keeps requests apart.  What does is
the intent: a row that was never answered is open from the start, and no step makes one.
-/

namespace SummitFlow.Ledger

/-- A request nobody answered. -/
def Row.Unanswered (row : Row) : Prop := row.state = .opened ∧ row.intent = none

/-- The same sender asks the same recipient. -/
def SameRoute (r s : Row) : Prop := r.sender = s.sender ∧ r.recipient = s.recipient

/-- Two rows for one source key. -/
def SameKey (r s : Row) : Prop :=
  SameRoute r s ∧ ∃ key, key ≠ "" ∧ r.sourceKey = some key ∧ s.sourceKey = some key

/-- Two unanswered rows with one text. -/
def SameQuestion (r s : Row) : Prop :=
  SameRoute r s ∧ r.text = s.text ∧ r.Unanswered ∧ s.Unanswered

/-- No two rows for one source key, no two unanswered rows with one text, and an open row
    is unanswered or has an eta. -/
structure Distinct (rows : List Row) : Prop where
  keys : rows.Pairwise fun r s => ¬ SameKey r s
  questions : rows.Pairwise fun r s => ¬ SameQuestion r s
  opened : ∀ row ∈ rows, row.state = .opened → row.intent = none ∨ row.intent = some .eta

/-- A change of a row that makes it no unanswered one. -/
structure Answers (r s : Row) : Prop where
  request : s.toRequest = r.toRequest
  unanswered : s.Unanswered → r.Unanswered
  opened : s.state = .opened → s.intent = r.intent ∧ (r.state = .opened ∨ r.intent = some .eta)

section

variable {r s r' s' : Row} (hr : Answers r r') (hs : Answers s s')

include hr hs

theorem SameRoute.back (h : SameRoute r' s') : SameRoute r s := by
  have h₁ := congrArg Request.sender hr.request
  have h₂ := congrArg Request.recipient hr.request
  have h₃ := congrArg Request.sender hs.request
  have h₄ := congrArg Request.recipient hs.request
  unfold SameRoute at h ⊢
  rw [← h₁, ← h₂, ← h₃, ← h₄]
  exact h

theorem SameKey.back (h : SameKey r' s') : SameKey r s := by
  obtain ⟨hroute, key, hne, hkey, hkey'⟩ := h
  refine ⟨hroute.back hr hs, key, hne, ?_, ?_⟩
  · rw [← hkey]
    exact (congrArg Request.sourceKey hr.request).symm
  · rw [← hkey']
    exact (congrArg Request.sourceKey hs.request).symm

theorem SameQuestion.back (h : SameQuestion r' s') : SameQuestion r s := by
  obtain ⟨hroute, htext, hopen, hopen'⟩ := h
  refine ⟨hroute.back hr hs, ?_, hr.unanswered hopen, hs.unanswered hopen'⟩
  have h₁ := congrArg Request.text hr.request
  have h₂ := congrArg Request.text hs.request
  rw [← h₁, ← h₂]
  exact htext

end

theorem Answers.refl (r : Row) : Answers r r :=
  ⟨rfl, id, fun h => ⟨rfl, .inl h⟩⟩

/-- A change to a state that is not open. -/
theorem Answers.of_state {r s : Row} (hrequest : s.toRequest = r.toRequest)
    (hstate : s.state ≠ .opened) : Answers r s :=
  ⟨hrequest, fun h => absurd h.1 hstate, fun h => absurd h hstate⟩

theorem answers_reopenLapsedEta (now : Int) (r : Row) : Answers r (reopenLapsedEta now r) := by
  rcases reopenLapsedEta_cases now r with heq | ⟨-, heta, heq⟩
  · rw [heq]
    exact .refl r
  · rw [heq]
    refine ⟨rfl, fun h => ?_, fun _ => ⟨rfl, .inr heta⟩⟩
    have hnone : r.intent = none := h.2
    rw [heta] at hnone
    cases hnone

theorem answers_noticed (env : Env) (r : Row) : Answers r (noticed env r) := by
  rcases noticed_cases env r with heq | heq | heq <;> rw [heq] <;>
    exact ⟨rfl, id, fun h => ⟨rfl, .inl h⟩⟩

theorem answers_ackRow (intent : Intent) (etaMin : Option Nat) (note : Option String)
    (ackedAt : Int) (agentId : String) (r : Row) :
    Answers r (ackRow intent etaMin note ackedAt agentId r) :=
  .of_state rfl (by simp [ackRow])

theorem answers_closeRow (closedAt : Int) (r : Row) : Answers r (closeRow closedAt r) :=
  .of_state rfl (by simp [closeRow])

theorem answers_confirmRow (withdraw : Bool) (closedAt : Int) (r : Row) :
    Answers r (confirmRow withdraw closedAt r) :=
  .of_state rfl (by simp [confirmRow])

namespace Distinct

variable {rows : List Row}

theorem sublist (h : Distinct rows) {rows' : List Row} (hsub : rows'.Sublist rows) :
    Distinct rows' :=
  ⟨h.keys.sublist hsub, h.questions.sublist hsub, fun row hrow => h.opened row (hsub.subset hrow)⟩

/-- Rows are changed one by one. -/
theorem of_forall₂ (h : Distinct rows) {rows' : List Row} (hall : List.Forall₂ Answers rows rows') :
    Distinct rows' where
  keys := pairwise_of_forall₂ (fun hr hs hne hsame => hne (hsame.back hr hs)) hall h.keys
  questions := pairwise_of_forall₂ (fun hr hs hne hsame => hne (hsame.back hr hs)) hall h.questions
  opened row' hrow' hopen := by
    obtain ⟨row, hrow, hanswers⟩ := exists_of_forall₂ hall hrow'
    obtain ⟨hintent, hstate | heta⟩ := hanswers.opened hopen
    · rw [hintent]
      exact h.opened row hrow hstate
    · rw [hintent]
      exact .inr heta

theorem map (h : Distinct rows) {f : Row → Row} (hf : ∀ row, Answers row (f row)) :
    Distinct (rows.map f) :=
  h.of_forall₂ (List.forall₂_map_right_iff.mpr (List.forall₂_same.mpr fun row _ => hf row))

theorem load (h : Distinct rows) (now : Int) : Distinct (Ledger.load now rows) :=
  (h.sublist List.filter_sublist).map (answers_reopenLapsedEta now)

theorem updateRow (h : Distinct rows) {f : Row → Row} (hf : ∀ row, Answers row (f row))
    (messageId : String) : Distinct (Ledger.updateRow messageId f rows) :=
  h.of_forall₂ (forall₂_updateFirst .refl hf rows)

/-- `send` found no duplicate of the row it appends. -/
theorem append (h : Distinct rows) {env : Env} {args : SendArgs} {agentId body : String}
    (hnew : ∀ row ∈ rows, isDuplicate env args agentId body row = false) (sessionId : String) :
    Distinct (rows ++ [newRow env args agentId sessionId body]) := by
  have hroute : ∀ {row : Row}, SameRoute row (newRow env args agentId sessionId body) →
      (row.sender == agentId && row.recipient == args.recipient) = true := by
    intro row hsame
    obtain ⟨hsender, hrecipient⟩ := hsame
    simp [hsender, hrecipient, newRow]
  refine ⟨?_, ?_, ?_⟩
  · refine List.pairwise_append.mpr ⟨h.keys, List.pairwise_singleton _ _, ?_⟩
    intro row hrow new hnewrow hsame
    obtain rfl := List.mem_singleton.mp hnewrow
    obtain ⟨hsame, key, hne, hkey, hargs⟩ := hsame
    have hargs' : args.sourceKey = some key := hargs
    have := hnew row hrow
    simp [isDuplicate, hroute hsame, hargs', hkey, hne] at this
  · refine List.pairwise_append.mpr ⟨h.questions, List.pairwise_singleton _ _, ?_⟩
    intro row hrow new hnewrow hsame
    obtain rfl := List.mem_singleton.mp hnewrow
    obtain ⟨hsame, htext, hopen, hopen'⟩ := hsame
    -- the new row is open, so it is no note
    have hfyi : args.fyi = false := by
      have hstate : (if args.fyi then State.fyi else State.opened) = .opened := hopen'.1
      cases hf : args.fyi with
      | false => rfl
      | true =>
        rw [hf] at hstate
        cases hstate
    have hbody : row.text = body := htext
    have := hnew row hrow
    simp [isDuplicate, hroute hsame, hbody, hfyi, hopen.1] at this
  · intro row hrow hopen
    rcases List.mem_append.mp hrow with hrow | hrow
    · exact h.opened row hrow hopen
    · obtain rfl := List.mem_singleton.mp hrow
      exact .inl rfl

/-- Every call keeps the requests apart. -/
theorem serveStep (h : Distinct rows) (call : Env × Op) : Distinct (Ledger.serveStep rows call) := by
  obtain ⟨env, op⟩ := call
  have hload := h.load env.loaded
  cases op with
  | send args =>
    simp only [Ledger.serveStep]
    cases hop : send env args rows with
    | error e => exact h
    | ok out =>
      rcases send_cases hop with hrows | ⟨agentId, sessionId, body, hnew, hrows⟩
      · rw [stateOr_ok, hrows]
        exact h
      · rw [stateOr_ok, hrows]
        exact hload.append hnew sessionId
  | drop messageId => exact hload.sublist List.filter_sublist
  | ack messageId intent note remote =>
    simp only [Ledger.serveStep]
    cases hop : Ledger.ack env messageId intent note remote rows with
    | error e => exact h
    | ok out =>
      obtain ⟨row, intent', etaMin, note', agentId, -, -, -, hrows⟩ := ack_cases hop
      rw [stateOr_ok, hrows]
      exact hload.updateRow (answers_ackRow intent' etaMin note' env.stamped agentId) messageId
  | closeBareAck messageId lane =>
    simp only [Ledger.serveStep]
    cases hop : closeBareAck env messageId lane rows with
    | error e => exact h
    | ok out =>
      rcases closeBareAck_cases hop with hrows | ⟨row, -, -, hrows⟩
      · rw [stateOr_ok, hrows]
        exact h
      · rw [stateOr_ok, hrows]
        exact hload.updateRow (answers_closeRow env.stamped) messageId
  | confirm messageId withdraw senders =>
    simp only [Ledger.serveStep]
    cases hop : confirm env messageId withdraw senders rows with
    | error e => exact h
    | ok out =>
      rcases confirm_cases hop with ⟨-, hrows⟩ | ⟨row, -, -, hrows⟩
      · rw [stateOr_ok, hrows]
        exact h
      · rw [stateOr_ok, hrows]
        exact hload.updateRow (answers_confirmRow withdraw env.stamped) messageId
  | notices =>
    simp only [Ledger.serveStep]
    cases hop : notices env rows with
    | error e => exact h
    | ok out =>
      rcases notices_cases hop with hrows | hrows
      · rw [stateOr_ok, hrows]
        exact h
      · rw [stateOr_ok, hrows]
        exact hload.map (answers_noticed env)

end Distinct

/-- In every ledger `_load_ledger` returns there is at most one row for a sender, a
    recipient and a source key, and at most one open row for a sender, a recipient and a
    text that is not an eta ack which lapsed. -/
theorem ledger_requests_distinct (calls : List (Env × Op)) (now : Int) :
    ((load now (run serveStep [] calls)).Pairwise fun r s =>
      ¬ (r.sender = s.sender ∧ r.recipient = s.recipient ∧
        ∃ key, key ≠ "" ∧ r.sourceKey = some key ∧ s.sourceKey = some key)) ∧
    ((load now (run serveStep [] calls)).Pairwise fun r s =>
      ¬ (r.sender = s.sender ∧ r.recipient = s.recipient ∧ r.text = s.text ∧
        (r.state = .opened ∧ r.intent ≠ some .eta) ∧ (s.state = .opened ∧ s.intent ≠ some .eta))) := by
  have hempty : Distinct [] := ⟨.nil, .nil, by simp⟩
  have hrun : Distinct (run serveStep [] calls) :=
    run_invariant (fun _ call _ hrows => hrows.serveStep call) hempty
  have hdistinct := hrun.load now
  constructor
  · refine hdistinct.keys.imp ?_
    rintro r s hne ⟨hsender, hrecipient, hkey⟩
    exact hne ⟨⟨hsender, hrecipient⟩, hkey⟩
  · refine hdistinct.questions.imp_of_mem ?_
    rintro r s hr hs hne ⟨hsender, hrecipient, htext, ⟨hopen, heta⟩, ⟨hopen', heta'⟩⟩
    have hintent := (hdistinct.opened r hr hopen).resolve_right heta
    have hintent' := (hdistinct.opened s hs hopen').resolve_right heta'
    exact hne ⟨⟨hsender, hrecipient⟩, htext, ⟨hopen, hintent⟩, ⟨hopen', hintent'⟩⟩

/-- A request, an eta of one minute, and the same request again within it. -/
def repeatedRequest : List (Env × Op) :=
  [(agentAt "a" "m1" 0, .send ⟨"cc:b", "may I take it?", none, maxText, none, none, none, false⟩),
   (agentAt "b" "m2" 10, .ack "m1" "eta:1" none none),
   (agentAt "a" "m3" 20, .send ⟨"cc:b", "may I take it?", none, maxText, none, none, none, false⟩)]

/-- When the eta lapses, the first row is open again beside the second. -/
theorem repeatedRequest_open_twice :
    ((load 60000010 (run serveStep [] repeatedRequest)).map fun row =>
      (row.sender, row.recipient, row.text, row.state)) =
      [("cc:a", "cc:b", "may I take it?", .opened), ("cc:a", "cc:b", "may I take it?", .opened)] := by
  decide

end SummitFlow.Ledger
