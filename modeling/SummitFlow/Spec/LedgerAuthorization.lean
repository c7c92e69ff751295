import SummitFlow.Spec.LedgerSteps

/-!
# What an ack authorizes

`ack_authorizes` looks at one row: its intent, who acked it and when.  This module
shows that the row tells the truth about the history of the ledger.

* `Row.Sound`: a `yes` row is acked or closed, a withdrawn one is closed and was not
  a `yes`.
* `Accounted`: every row is sound, an acked row is the first one with its id (ids are
  six hex digits and can repeat), and the last ack in the history with its id is the
  one the row records.
* Every call keeps the ledger accounted for (`Accounted.serveStep`), so the ledger of
  every run is (`run_accounted`).
-/

namespace SummitFlow.Ledger

open Coord (Caller)

/-! ## History -/

/-- What a call may record: an ack, with the row it returned, or a withdrawal. -/
inductive Event where
  | acked (row : Row)
  | withdrawn (messageId : String)

/-- The event of a call on these rows, when it is a successful ack or withdrawal. -/
def event (rows : List Row) (call : Env × Op) : Option Event :=
  match call.2 with
  | .ack messageId intent note remote =>
    match ack call.1 messageId intent note remote rows with
    | .ok (_, row) => some (.acked row)
    | .error _ => none
  | .confirm messageId true senders =>
    match confirm call.1 messageId true senders rows with
    | .ok _ => some (.withdrawn messageId)
    | .error _ => none
  | _ => none

/-- The last ack of the row's id in the history is the one the row records, and no
    withdrawal followed it unless the row is withdrawn. -/
def LastAck (events : List (Option Event)) (row : Row) : Prop :=
  ∃ pre acked post, events = pre ++ some (.acked acked) :: post ∧
    acked.toRequest = row.toRequest ∧ acked.intent = row.intent ∧
    acked.ackedBy = row.ackedBy ∧ acked.ackedAt = row.ackedAt ∧
    (∀ r, some (.acked r) ∈ post → r.id ≠ row.id) ∧
    (row.withdrawn = false → some (.withdrawn row.id) ∉ post)

/-- The states a row can be in next to its intent. -/
structure Row.Sound (row : Row) : Prop where
  yes : row.intent = some .yes → row.state = .acked ∨ row.state = .closed
  withdrawn : row.withdrawn = true → row.state = .closed ∧ row.intent ≠ some .yes

/-- A ledger whose rows tell its history. -/
structure Accounted (events : List (Option Event)) (rows : List Row) : Prop where
  sound : ∀ row ∈ rows, row.Sound
  first : rows.Pairwise fun r s => s.intent ≠ none → r.id ≠ s.id
  lastAck : ∀ row ∈ rows, row.intent ≠ none → LastAck events row

/-- The two rows are one request with one ack. -/
structure SameAck (r s : Row) : Prop where
  request : s.toRequest = r.toRequest
  intent : s.intent = r.intent
  ackedBy : s.ackedBy = r.ackedBy
  ackedAt : s.ackedAt = r.ackedAt
  withdrawn : s.withdrawn = r.withdrawn

theorem SameAck.id {r s : Row} (h : SameAck r s) : s.id = r.id := by
  rw [h.request]

theorem LastAck.congr {events : List (Option Event)} {r s : Row} (h : SameAck r s)
    (hlast : LastAck events r) : LastAck events s := by
  obtain ⟨pre, acked, post, hsplit, hreq, hint, hby, hat, hpost, hw⟩ := hlast
  refine ⟨pre, acked, post, hsplit, ?_, ?_, ?_, ?_, ?_, ?_⟩
  · rw [hreq, h.request]
  · rw [hint, h.intent]
  · rw [hby, h.ackedBy]
  · rw [hat, h.ackedAt]
  · rw [h.id]
    exact hpost
  · rw [h.id, h.withdrawn]
    exact hw

/-- An event that is about another request, or no event, keeps the last ack. -/
theorem LastAck.concat {events : List (Option Event)} {row : Row} (h : LastAck events row)
    {e : Option Event} (hacked : ∀ r, e = some (.acked r) → r.id ≠ row.id)
    (hwithdrawn : row.withdrawn = false → e ≠ some (.withdrawn row.id)) :
    LastAck (events ++ [e]) row := by
  obtain ⟨pre, acked, post, hsplit, hreq, hint, hby, hat, hpost, hw⟩ := h
  refine ⟨pre, acked, post ++ [e], ?_, hreq, hint, hby, hat, ?_, ?_⟩
  · rw [hsplit, List.append_assoc, List.cons_append]
  · intro r hr
    rcases List.mem_append.mp hr with hr | hr
    · exact hpost r hr
    · exact hacked r (List.mem_singleton.mp hr).symm
  · intro hrow hmem
    rcases List.mem_append.mp hmem with hmem | hmem
    · exact hw hrow hmem
    · exact hwithdrawn hrow (List.mem_singleton.mp hmem).symm

/-! ## Loading and marking -/

/-- Dropping rows keeps the account. -/
theorem Accounted.sublist {events : List (Option Event)} {rows rows' : List Row}
    (h : Accounted events rows) (hsub : rows'.Sublist rows) : Accounted events rows' where
  sound row hrow := h.sound row (hsub.subset hrow)
  first := h.first.sublist hsub
  lastAck row hrow := h.lastAck row (hsub.subset hrow)

/-- Rewriting every row keeps the account when no ack is touched. -/
theorem Accounted.map {events : List (Option Event)} {rows : List Row}
    (h : Accounted events rows) {f : Row → Row} (hsame : ∀ r, SameAck r (f r))
    (hsound : ∀ r, r.Sound → (f r).Sound) : Accounted events (rows.map f) where
  sound row hrow := by
    obtain ⟨r, hr, rfl⟩ := List.mem_map.mp hrow
    exact hsound r (h.sound r hr)
  first := by
    rw [List.pairwise_map]
    refine h.first.imp ?_
    intro r s hrs hint
    rw [(hsame r).id, (hsame s).id]
    rw [(hsame s).intent] at hint
    exact hrs hint
  lastAck row hrow hint := by
    obtain ⟨r, hr, rfl⟩ := List.mem_map.mp hrow
    rw [(hsame r).intent] at hint
    exact (h.lastAck r hr hint).congr (hsame r)

theorem sameAck_reopenLapsedEta (now : Int) (row : Row) :
    SameAck row (reopenLapsedEta now row) := by
  rcases reopenLapsedEta_cases now row with h | ⟨_, _, h⟩ <;> rw [h] <;>
    exact ⟨rfl, rfl, rfl, rfl, rfl⟩

/-- A request reopens only after an eta ack, so no `yes` loses its state. -/
theorem Row.Sound.reopenLapsedEta {row : Row} (h : row.Sound) (now : Int) :
    (Ledger.reopenLapsedEta now row).Sound := by
  rcases reopenLapsedEta_cases now row with heq | ⟨hstate, hint, heq⟩
  · rw [heq]
    exact h
  · rw [heq]
    constructor
    · intro hyes
      simp [hint] at hyes
    · intro hw
      have := (h.withdrawn hw).1
      simp [hstate] at this

/-- `_load_ledger` keeps the account. -/
theorem Accounted.load {events : List (Option Event)} {rows : List Row}
    (h : Accounted events rows) (now : Int) : Accounted events (load now rows) :=
  (h.sublist List.filter_sublist).map (sameAck_reopenLapsedEta now)
    fun _ hr => hr.reopenLapsedEta now

/-- No event happened. -/
theorem Accounted.quiet {events : List (Option Event)} {rows : List Row}
    (h : Accounted events rows) : Accounted (events ++ [none]) rows where
  sound := h.sound
  first := h.first
  lastAck row hrow hint := by
    apply (h.lastAck row hrow hint).concat
    · intro r hr
      cases hr
    · intro _ hr
      cases hr

/-! ## Changing one row -/

/-- Changing the first row with its id keeps the account of every other row: an event
    about that id concerns none of them. -/
theorem Accounted.replace {events : List (Option Event)} {pre post : List Row} {row row' : Row}
    {e : Option Event} (h : Accounted events (pre ++ row :: post))
    (hpre : ∀ r ∈ pre, r.id ≠ row.id) (hrequest : row'.toRequest = row.toRequest)
    (hsound : row'.Sound) (hacked : ∀ r, e = some (.acked r) → r.id = row.id)
    (hwithdrawn : ∀ i, e = some (.withdrawn i) → i = row.id)
    (hlast : row'.intent ≠ none → LastAck (events ++ [e]) row') :
    Accounted (events ++ [e]) (pre ++ row' :: post) := by
  have hid : row'.id = row.id := by rw [hrequest]
  have hfirst := List.pairwise_append.mp h.first
  have hcons := List.pairwise_cons.mp hfirst.2.1
  -- an acked row other than the changed one has another id
  have hother : ∀ r, r ∈ pre ∨ r ∈ post → r.intent ≠ none → r.id ≠ row.id := by
    intro r hr hint
    rcases hr with hr | hr
    · exact hpre r hr
    · exact Ne.symm (hcons.1 r hr hint)
  have hkeep : ∀ r, r ∈ pre ∨ r ∈ post → r.intent ≠ none → LastAck (events ++ [e]) r := by
    intro r hr hint
    have hmem : r ∈ pre ++ row :: post := by
      rw [List.mem_append, List.mem_cons]
      exact hr.imp_right .inr
    have hne := hother r hr hint
    apply (h.lastAck r hmem hint).concat
    · intro r' hr'
      rw [hacked r' hr']
      exact Ne.symm hne
    · intro _ hr'
      exact hne (hwithdrawn r.id hr')
  constructor
  · intro r hr
    rw [List.mem_append, List.mem_cons] at hr
    rcases hr with hr | rfl | hr
    · exact h.sound r (List.mem_append_left _ hr)
    · exact hsound
    · exact h.sound r (List.mem_append_right _ (List.mem_cons_of_mem _ hr))
  · rw [List.pairwise_append, List.pairwise_cons]
    refine ⟨hfirst.1, ⟨?_, hcons.2⟩, ?_⟩
    · intro s hs hint
      rw [hid]
      exact hcons.1 s hs hint
    · intro r hr s hs hint
      rcases List.mem_cons.mp hs with rfl | hs
      · rw [hid]
        exact hpre r hr
      · exact hfirst.2.2 r hr s (List.mem_cons_of_mem _ hs) hint
  · intro r hr hint
    rw [List.mem_append, List.mem_cons] at hr
    rcases hr with hr | rfl | hr
    · exact hkeep r (.inl hr) hint
    · exact hlast hint
    · exact hkeep r (.inr hr) hint

/-- An ack is the last one of its row. -/
theorem Accounted.ack {events : List (Option Event)} {rows : List Row}
    (h : Accounted events rows) {messageId : String} {row : Row} {intent : Intent}
    {etaMin : Option Nat} {note : Option String} {ackedAt : Int} {agentId : String}
    (hfind : rows.find? (fun r => r.id == messageId) = some row)
    (hclosed : row.state ≠ .closed) :
    let change := ackRow intent etaMin note ackedAt agentId
    Accounted (events ++ [some (.acked (change row))]) (updateRow messageId change rows) := by
  intro change
  obtain ⟨pre, post, rfl, hid, hpre, hupd⟩ := updateRow_of_find change hfind
  rw [hupd]
  have hrow : row.Sound := h.sound row (by simp)
  have hopen : row.withdrawn = false := by
    by_contra hw
    exact hclosed (hrow.withdrawn (by simpa using hw)).1
  apply h.replace hpre
  · rfl
  · constructor
    · intro _
      exact .inl rfl
    · intro hw
      have : row.withdrawn = true := hw
      simp [hopen] at this
  · intro r hr
    cases hr
    rfl
  · intro i hi
    cases hi
  · intro _
    exact ⟨events, change row, [], rfl, rfl, rfl, rfl, rfl, by simp, by simp⟩

/-- Closing an acked row without touching the ack keeps the account. -/
theorem Accounted.close {events : List (Option Event)} {rows : List Row}
    (h : Accounted events rows) {messageId : String} {row : Row} {f : Row → Row}
    (hfind : rows.find? (fun r => r.id == messageId) = some row) (hstate : row.state = .acked)
    (hsame : SameAck row (f row)) (hclosed : (f row).state = .closed) :
    Accounted (events ++ [none]) (updateRow messageId f rows) := by
  obtain ⟨pre, post, rfl, hid, hpre, hupd⟩ := updateRow_of_find f hfind
  rw [hupd]
  have hsound : (f row).Sound := by
    constructor
    · intro _
      exact .inr hclosed
    · intro hw
      rw [hsame.withdrawn] at hw
      have := ((h.sound row (by simp)).withdrawn hw).1
      simp [hstate] at this
  apply h.replace hpre hsame.request hsound
  · intro r hr
    cases hr
  · intro i hi
    cases hi
  · intro hint
    rw [hsame.intent] at hint
    have hlast := (h.lastAck row (by simp) hint).congr hsame
    apply hlast.concat
    · intro r hr
      cases hr
    · intro _ hr
      cases hr

/-- Withdrawing an open request keeps the account: whatever ack it had was no `yes`. -/
theorem Accounted.withdraw {events : List (Option Event)} {rows : List Row}
    (h : Accounted events rows) {messageId : String} {row : Row} {closedAt : Int}
    (hfind : rows.find? (fun r => r.id == messageId) = some row) (hopen : row.state = .opened) :
    Accounted (events ++ [some (.withdrawn messageId)])
      (updateRow messageId (confirmRow true closedAt) rows) := by
  obtain ⟨pre, post, rfl, hid, hpre, hupd⟩ :=
    updateRow_of_find (confirmRow true closedAt) hfind
  rw [hupd]
  have hwithdrawn : (confirmRow true closedAt row).withdrawn = true := by simp [confirmRow]
  have hyes : row.intent ≠ some .yes := by
    intro hyes
    have := (h.sound row (by simp)).yes hyes
    simp [hopen] at this
  apply h.replace hpre
  · rfl
  · constructor
    · intro _
      exact .inr rfl
    · intro _
      exact ⟨rfl, hyes⟩
  · intro r hr
    cases hr
  · intro i hi
    cases hi
    exact hid.symm
  · intro hne
    obtain ⟨pre', acked, post', hsplit, hreq, hint, hby, hat, hpost, _⟩ :=
      h.lastAck row (by simp) hne
    refine ⟨pre', acked, post' ++ [some (.withdrawn messageId)], ?_, hreq, hint, hby, hat, ?_, ?_⟩
    · rw [hsplit, List.append_assoc, List.cons_append]
    · intro r hr
      apply hpost r
      simpa using hr
    · intro hw
      rw [hwithdrawn] at hw
      cases hw

/-- A new request is at the end and nobody acked it. -/
theorem Accounted.append {events : List (Option Event)} {rows : List Row}
    (h : Accounted events rows) {row : Row} (hintent : row.intent = none)
    (hwithdrawn : row.withdrawn = false) : Accounted events (rows ++ [row]) where
  sound r hr := by
    rcases List.mem_append.mp hr with hr | hr
    · exact h.sound r hr
    · obtain rfl := List.mem_singleton.mp hr
      constructor
      · intro hyes
        simp [hintent] at hyes
      · intro hw
        simp [hwithdrawn] at hw
  first := by
    rw [List.pairwise_append]
    refine ⟨h.first, by simp, ?_⟩
    intro r _ s hs hint
    obtain rfl := List.mem_singleton.mp hs
    exact absurd hintent hint
  lastAck r hr hint := by
    rcases List.mem_append.mp hr with hr | hr
    · exact h.lastAck r hr hint
    · obtain rfl := List.mem_singleton.mp hr
      exact absurd hintent hint

/-! ## Runs -/

/-- Every call keeps the ledger accounted for. -/
theorem Accounted.serveStep {events : List (Option Event)} {rows : List Row}
    (h : Accounted events rows) (call : Env × Op) :
    Accounted (events ++ [event rows call]) (serveStep rows call) := by
  obtain ⟨env, op⟩ := call
  have hload := h.load env.loaded
  cases op with
  | send args =>
    simp only [Ledger.serveStep, event]
    cases hop : send env args rows with
    | error e => exact h.quiet
    | ok out =>
      rcases send_cases hop with hrows | ⟨agentId, sessionId, body, -, hrows⟩
      · rw [stateOr_ok, hrows]
        exact h.quiet
      · rw [stateOr_ok, hrows]
        exact (hload.append rfl rfl).quiet
  | drop messageId => exact (hload.sublist List.filter_sublist).quiet
  | ack messageId intent note remote =>
    simp only [Ledger.serveStep, event]
    cases hop : Ledger.ack env messageId intent note remote rows with
    | error e => exact h.quiet
    | ok out =>
      obtain ⟨row, intent', etaMin, note', agentId, hfind, hclosed, hout, hrows⟩ := ack_cases hop
      dsimp only
      rw [stateOr_ok, hout, hrows]
      exact hload.ack hfind hclosed
  | closeBareAck messageId lane =>
    simp only [Ledger.serveStep, event]
    cases hop : closeBareAck env messageId lane rows with
    | error e => exact h.quiet
    | ok out =>
      rcases closeBareAck_cases hop with hrows | ⟨row, hfind, hstate, hrows⟩
      · rw [stateOr_ok, hrows]
        exact h.quiet
      · rw [stateOr_ok, hrows]
        exact hload.close hfind hstate ⟨rfl, rfl, rfl, rfl, rfl⟩ rfl
  | confirm messageId withdraw senders =>
    cases withdraw with
    | true =>
      simp only [Ledger.serveStep, event]
      cases hop : confirm env messageId true senders rows with
      | error e => exact h.quiet
      | ok out =>
        rcases confirm_cases hop with ⟨hfalse, _⟩ | ⟨row, hfind, hstate, hrows⟩
        · cases hfalse
        · dsimp only
          rw [stateOr_ok, hrows]
          exact hload.withdraw hfind hstate
    | false =>
      simp only [Ledger.serveStep, event]
      cases hop : confirm env messageId false senders rows with
      | error e => exact h.quiet
      | ok out =>
        rcases confirm_cases hop with ⟨_, hrows⟩ | ⟨row, hfind, hstate, hrows⟩
        · rw [stateOr_ok, hrows]
          exact h.quiet
        · rw [stateOr_ok, hrows]
          exact hload.close hfind hstate ⟨rfl, rfl, rfl, rfl, by simp [confirmRow]⟩ rfl
  | notices =>
    simp only [Ledger.serveStep, event]
    cases hop : notices env rows with
    | error e => exact h.quiet
    | ok out =>
      rcases notices_cases hop with hrows | hrows
      · rw [stateOr_ok, hrows]
        exact h.quiet
      · rw [stateOr_ok, hrows]
        apply Accounted.quiet
        apply hload.map
        · intro r
          rcases noticed_cases env r with hr | hr | hr <;> rw [hr] <;>
            exact ⟨rfl, rfl, rfl, rfl, rfl⟩
        · intro r hr
          rcases noticed_cases env r with hr' | hr' | hr' <;> rw [hr'] <;>
            exact ⟨hr.yes, hr.withdrawn⟩

/-- The ledger of every run tells its history. -/
theorem run_accounted (calls : List (Env × Op)) :
    Accounted (outputs serveStep event [] calls) (run serveStep [] calls) := by
  apply run_outputs_history (P := Accounted)
  · intro events rows call h
    exact h.serveStep call
  · exact ⟨by simp, by simp, by simp⟩

/-! ## Authorization -/

/-- `same_agent`: equal ids, or the first one registered on the other's anchor, which
    is alive. -/
theorem sameAgent_cases {c : Caller} {a b : String} {bAnchor : Option String}
    (h : c.sameAgent (some a) (some b) bAnchor = true) :
    a = b ∨ ∃ anchor, c.registered a = some anchor ∧ c.anchorAlive (some anchor) = true ∧
      (bAnchor = some anchor ∨ c.registered b = some anchor) := by
  unfold Caller.sameAgent at h
  dsimp only at h
  split at h
  · cases h
  split at h
  · next heq => exact .inl heq
  split at h
  · cases h
  · cases h
  · next anchor _ hanchor =>
    rw [Bool.and_eq_true, beq_iff_eq] at h
    refine .inr ⟨anchor, hanchor, hanchor ▸ h.2, ?_⟩
    have heq := hanchor.symm.trans h.1
    split at heq
    · exact .inr heq.symm
    · exact .inr heq.symm
    · exact .inl heq.symm

theorem sameAgent_isSome {c : Caller} {a : Option String} {b : String} {bAnchor : Option String}
    (h : c.sameAgent a (some b) bAnchor = true) : ∃ agent, a = some agent := by
  cases a with
  | none => simp [Caller.sameAgent] at h
  | some agent => exact ⟨agent, rfl⟩

/-- A `yes` row that `_load_ledger` returns stands in the ledger as it is. -/
theorem mem_of_mem_load {now : Int} {rows : List Row} {row : Row} (h : row ∈ load now rows)
    (hyes : row.intent = some .yes) : row ∈ rows := by
  obtain ⟨r, hr, rfl⟩ := List.mem_map.mp h
  rcases reopenLapsedEta_cases now r with heq | ⟨_, hint, heq⟩
  · rw [heq]
    exact (List.mem_filter.mp hr).1
  · rw [heq] at hyes
    have : some Intent.eta = some Intent.yes := hint.symm.trans hyes
    cases this

/-- Authorization is sound over every reachable ledger: a `yes` row is acked or closed,
    not withdrawn and no FYI note, and `ack_authorizes` answers yes only when

    * the request was sent by one of the caller's identities, for this project or none;
    * the last ack recorded on it was a `yes`, by the holder's agent, at most
      `ACK_VALID_FOR` ago;
    * no other ack and no withdrawal of that id followed. -/
theorem ack_authorization_sound (calls : List (Env × Op)) :
    let rows := run serveStep [] calls
    let events := outputs serveStep event [] calls
    (∀ row ∈ rows, row.intent = some .yes →
      (row.state = .acked ∨ row.state = .closed) ∧ row.withdrawn = false ∧ row.state ≠ .fyi) ∧
    ∀ env messageId holder projectId,
      ackAuthorizes env messageId holder projectId rows = true →
      ∃ row ∈ rows, row.id = messageId ∧ row.sender ∈ env.caller.selfIds ∧
        (row.project = none ∨ row.project = some projectId) ∧
        ∃ pre acked post agent ackedAt, events = pre ++ some (.acked acked) :: post ∧
          acked.toRequest = row.toRequest ∧ acked.intent = some .yes ∧
          acked.ackedBy = some agent ∧ acked.ackedAt = some ackedAt ∧
          (agent = holder.agentId ∨ ∃ anchor, env.caller.registered agent = some anchor ∧
            env.caller.anchorAlive (some anchor) = true ∧
            (holder.anchor = some anchor ∨
              env.caller.registered holder.agentId = some anchor)) ∧
          env.stamped - ackedAt ≤ ackValidFor ∧
          (∀ r, some (.acked r) ∈ post → r.id ≠ messageId) ∧
          some (.withdrawn messageId) ∉ post := by
  intro rows events
  have haccount : Accounted events rows := run_accounted calls
  have hyes : ∀ row ∈ rows, row.intent = some .yes →
      (row.state = .acked ∨ row.state = .closed) ∧ row.withdrawn = false ∧ row.state ≠ .fyi := by
    intro row hrow hint
    have hsound := haccount.sound row hrow
    have hstate := hsound.yes hint
    refine ⟨hstate, ?_, ?_⟩
    · by_contra hw
      exact (hsound.withdrawn (by simpa using hw)).2 hint
    · intro hfyi
      rw [hfyi] at hstate
      rcases hstate with h | h <;> cases h
  refine ⟨hyes, ?_⟩
  intro env messageId holder projectId h
  unfold ackAuthorizes at h
  split at h
  · cases h
  · next row hfind =>
    have hfound := List.find?_some hfind
    rw [Bool.and_eq_true, Bool.and_eq_true, beq_iff_eq, beq_iff_eq, List.contains_iff_mem]
      at hfound
    have hrow : row ∈ rows := mem_of_mem_load (List.mem_of_find?_eq_some hfind) hfound.2
    rw [Bool.and_eq_true, Bool.and_eq_true, Bool.or_eq_true, beq_iff_eq, beq_iff_eq] at h
    obtain ⟨⟨hagent, hproject⟩, hat⟩ := h
    obtain ⟨agent, hby⟩ := sameAgent_isSome hagent
    split at hat
    · next ackedAt hackedAt =>
      obtain ⟨pre, acked, post, hsplit, hreq, hint, hby', hat', hpost, hw⟩ :=
        haccount.lastAck row hrow (by simp [hfound.2])
      refine ⟨row, hrow, hfound.1.1, hfound.1.2, hproject, pre, acked, post, agent, ackedAt,
        hsplit, hreq, ?_, ?_, ?_, ?_, ?_, ?_, ?_⟩
      · rw [hint, hfound.2]
      · rw [hby', hby]
      · rw [hat', hackedAt]
      · rw [hby] at hagent
        exact sameAgent_cases hagent
      · simpa using hat
      · rw [← hfound.1.1]
        exact hpost
      · rw [← hfound.1.1]
        exact hw (hyes row hrow hfound.2).2.1
    · cases hat

/-- A request, its `yes`, and a later `no`. -/
def exchange : List (Env × Op) :=
  [(agentAt "a" "m1" 0, .send ⟨"cc:b", "may I take it?", none, maxText, none, none, none, false⟩),
   (agentAt "b" "m2" 1, .ack "m1" "yes" none none),
   (agentAt "b" "m3" 2, .ack "m1" "no" (some "still editing") none)]

example : ackAuthorizes (agentAt "a" "m4" 3) "m1" ⟨"cc:b", none⟩ "p"
    (run serveStep [] (exchange.take 2)) = true := by decide

example : ackAuthorizes (agentAt "a" "m4" 3) "m1" ⟨"cc:b", none⟩ "p"
    (run serveStep [] exchange) = false := by decide

end SummitFlow.Ledger
