import SummitFlow.Spec.HeavySteps
import SummitFlow.Spec.HeavyTickets

/-!
# First come, first served

The lock directory changes under the metadata lock only.  A waiter has its ticket locked
and signed before it leaves the section that made it, so whoever reads the directory
later finds the ticket locked by another description and signed by a live process, and
keeps it.  What a call has read of the directory stays true while it is in the section.
-/

namespace SummitFlow.HeavyWork

open Flock (Mode Attempt Kernel Lock)

/-! ## Where a waiter can go -/

/-- The call was found to be the first waiter of its class. -/
def Position.elected : Position → Option Ticket
  | .tryAdmission ticket _ | .tryActivity ticket _ | .giveBack ticket _ | .askSpare ticket
  | .unlinkTicket ticket _ => some ticket
  | _ => none

/-- Positions where a call relies on nothing that it read of the directory, and where its
    own ticket, if it has one, is locked and signed. -/
def Position.quiet : Position → Bool
  | .probeOpen _ | .probeLock _ | .probeRecord _ | .probeStatus .. | .probeUnlink _
  | .probeClose .. | .order .. | .create _ | .lockTicket _ | .sign _ | .tryAdmission ..
  | .tryActivity .. | .giveBack .. | .askSpare _ | .unlinkTicket .. => false
  | _ => true

/-- A fresh owner has its lane: `chosen` is not `None`, or `_wait_owner` has returned it. -/
def Position.chosen : Position → Bool
  | .unlinkTicket .. | .leaveOwner .. | .closeWaiter .. | .closeOtherAdmission ..
  | .closeOtherActivity .. | .generate _ | .truncate .. | .writeText .. | .downgrade .. => true
  | _ => false

/-- Positions of calls that have nothing to do with tickets. -/
structure Position.Plain (pos : Position) : Prop where
  quiet : pos.quiet = true
  ticket : pos.ticket = none
  chosen : pos.chosen = false

/-- What `_waiters` says of the process that signed a ticket. -/
def signedBy (identity : Identity) : Option Process → Bool
  | none => false
  | some p => !p.zombie && p.start = identity.start

/-- Where a call can go, as far as tickets are concerned. -/
inductive QueueStep (args : Args) :
    (pos : Position) → (pos.next args).1.Answer → Position → Prop
  | without {pos answer pos'} (h : pos'.Plain) : QueueStep args pos answer pos'
  | owner {pos answer pos'} (hchosen : pos.chosen = true) (hquiet : pos'.quiet = true)
      (hticket : pos'.ticket = none) : QueueStep args pos answer pos'
  | keep {pos answer pos'} (hquiet : pos.quiet = true) (hquiet' : pos'.quiet = true)
      (hticket : pos'.ticket = pos.ticket) (hchosen : pos'.chosen = false) :
      QueueStep args pos answer pos'
  | scan {pos errand names} (hpos : pos = .list errand) {answer} (hanswer : HEq answer names) :
      QueueStep args pos answer (scanNext errand [] names)
  | fail {pos answer scan} (hpos : pos = .probeRecord scan) :
      QueueStep args pos answer (.probeFail scan)
  | probe {scan} : QueueStep args (.probeOpen scan) () (.probeLock scan)
  | again {scan answer} : QueueStep args (.probeLock scan) answer (.probeLock scan)
  | abandoned {scan} : QueueStep args (.probeLock scan) .granted (.probeUnlink scan)
  | held {scan} : QueueStep args (.probeLock scan) .busy (.probeRecord scan)
  | signed {scan identity} :
      QueueStep args (.probeRecord scan) (some identity) (.probeStatus scan identity)
  | dead {scan identity} {answer : Option Process} (h : signedBy identity answer = false) :
      QueueStep args (.probeStatus scan identity) answer (.probeUnlink scan)
  | live {scan identity answer} :
      QueueStep args (.probeStatus scan identity) answer (.probeClose scan true)
  | purged {scan} : QueueStep args (.probeUnlink scan) () (.probeClose scan false)
  | next {scan live} : QueueStep args (.probeClose scan live) ()
      (scanNext scan.errand (if live then scan.kept ++ [scan.path] else scan.kept) scan.rest)
  | order {home names} {answer : Input × String} : QueueStep args (.order home names) answer
      (.create ⟨home, nextOrder answer.1.clock names, answer.1.uuid⟩)
  | issue {ticket} : QueueStep args (.create ticket) () (.lockTicket ticket)
  | wait {ticket answer} : QueueStep args (.lockTicket ticket) answer (.lockTicket ticket)
  | lock {ticket} : QueueStep args (.lockTicket ticket) .granted (.sign ticket)
  | sign {ticket} : QueueStep args (.sign ticket) () (.leaveQueue (.elect ticket))
  | elected {pos answer pos' ticket} (h : pos.elected = some ticket)
      (h' : pos'.elected = some ticket) : QueueStep args pos answer pos'
  | leave {pos answer ticket} (h : pos.elected = some ticket) :
      QueueStep args pos answer (.leaveQueue (.elect ticket))

theorem plain_closeAll {vs : List Var} {lanes : List Lane} {pos : Position}
    (h : closeAll vs lanes = some pos) : pos.Plain := by
  cases vs with
  | cons v vs =>
    cases h
    exact ⟨rfl, rfl, rfl⟩
  | nil =>
    cases lanes with
    | nil => cases h
    | cons lane lanes =>
      cases h
      exact ⟨rfl, rfl, rfl⟩

theorem plain_queueUp (home : Home) : (queueUp home).Plain := by
  unfold queueUp
  split <;> exact ⟨rfl, rfl, rfl⟩

theorem plain_notInherited (args : Args) (lane : Lane) : (notInherited args lane).Plain := by
  unfold notInherited
  split
  · exact ⟨rfl, rfl, rfl⟩
  · exact plain_queueUp _

theorem plain_walk (args : Args) (lane : Lane) (claim : Claim) (pid : Nat) (seen : List Nat) :
    (walk args lane claim pid seen).Plain := by
  unfold walk
  split
  · exact ⟨rfl, rfl, rfl⟩
  · exact plain_notInherited args lane

/-- A refused call asks for the spare lane, or leaves the section. -/
theorem refused_cases (ticket : Ticket) (spare : Bool) :
    refused ticket spare = .askSpare ticket ∨
      refused ticket spare = .leaveQueue (.elect ticket) := by
  unfold refused
  split
  · exact .inl rfl
  · exact .inr rfl

theorem ticket_of_elected {pos : Position} {ticket : Ticket} (h : pos.elected = some ticket) :
    pos.ticket = some ticket := by
  cases pos <;> cases h <;> rfl

theorem ticket_scanned (errand : Errand) (names : List String) :
    (scanned errand names).ticket = none ∨ (scanned errand names).ticket = errand.ticket := by
  cases errand with
  | issue home => exact .inl rfl
  | elect ticket =>
    cases names with
    | nil => exact .inr rfl
    | cons name names =>
      simp only [scanned]
      split <;> exact .inr rfl
  | retire ticket | record slot generation | inspect lanes => cases names <;> exact .inr rfl

theorem ticket_scanNext (errand : Errand) (kept todo : List String) {P : Prop} :
    (scanNext errand kept todo).ticket = none ∨
      (scanNext errand kept todo).ticket = errand.ticket ∨ P := by
  cases todo with
  | nil => exact (ticket_scanned _ _).imp_right .inl
  | cons path rest =>
    simp only [scanNext]
    split <;> exact .inr (.inl rfl)

theorem queue_next {args : Args} {pos pos' : Position} {answer : (pos.next args).1.Answer}
    (h : (pos.next args).2 answer = some pos') : QueueStep args pos answer pos' := by
  cases pos with
  | openActivity lane =>
    cases answer with
    | false =>
      simp only [Position.next] at h
      exact .without (plain_closeAll h)
    | true =>
      simp only [Position.next, inherited] at h
      split at h
      · exact .without (plain_closeAll h)
      · cases h
        exact .without (plain_notInherited args lane)
      · cases h
        exact .without ⟨rfl, rfl, rfl⟩
  | readText lane claim =>
    simp only [Position.next, Option.some.injEq] at h
    split at h
    · subst h
      exact .without (plain_notInherited args lane)
    · split at h <;> subst h
      · exact .without (plain_walk ..)
      · exact .without ⟨rfl, rfl, rfl⟩
  | branchExists lane claim =>
    cases answer <;> cases h
    · exact .without (plain_notInherited args lane)
    · exact .without (plain_walk ..)
  | process lane claim pid seen =>
    cases answer <;> cases h
    · exact .without (plain_notInherited args lane)
    · exact .without ⟨rfl, rfl, rfl⟩
  | look lane claim a look good =>
    cases look with
    | holder | holderInfo | branch | branchInfo =>
      cases answer <;> cases h
      · exact .without (plain_walk ..)
      · exact .without ⟨rfl, rfl, rfl⟩
    | stable =>
      cases answer with
      | none =>
        cases h
        exact .without (plain_walk ..)
      | some p =>
        simp only [Position.next] at h
        split at h <;> cases h
        · exact .without ⟨rfl, rfl, rfl⟩
        · exact .without (plain_walk ..)
  | lockShared lane claim a =>
    cases answer <;> cases h
    · exact .without ⟨rfl, rfl, rfl⟩
    · exact .without (plain_walk ..)
    · exact .without ⟨rfl, rfl, rfl⟩
  | recheck lane claim =>
    simp only [Position.next] at h
    split at h
    · cases h
      exact .without (plain_notInherited args lane)
    · unfold joined at h
      split at h
      · exact .without (plain_closeAll h)
      · cases h
        exact .without ⟨rfl, rfl, rfl⟩
  | openBranch slot generation depth =>
    cases answer with
    | true =>
      cases h
      exact .without ⟨rfl, rfl, rfl⟩
    | false =>
      simp only [Position.next] at h
      exact .without (plain_closeAll h)
  | working slot generation branch =>
    simp only [Position.next] at h
    split at h
    · exact .without (plain_closeAll h)
    · cases h
      exact .without ⟨rfl, rfl, rfl⟩
  | openQueue errand =>
    cases answer with
    | true =>
      cases h
      exact .keep rfl rfl rfl rfl
    | false =>
      simp only [Position.next] at h
      cases errand with
      | elect ticket =>
        cases h
        exact .keep rfl rfl rfl rfl
      | issue home | retire ticket | record slot generation | inspect lanes =>
        simp only [unwind] at h
        exact .without (plain_closeAll h)
  | lockQueue errand =>
    cases answer with
    | granted => cases errand <;> cases h <;> exact .keep rfl rfl rfl rfl
    | busy | again =>
      cases h
      exact .keep rfl rfl rfl rfl
  | leaveQueue errand =>
    simp only [Position.next] at h
    cases errand with
    | elect ticket =>
      cases h
      exact .keep rfl rfl rfl rfl
    | record slot generation =>
      cases h
      exact .without ⟨rfl, rfl, rfl⟩
    | issue home | retire ticket | inspect lanes =>
      simp only [resume] at h
      exact .without (plain_closeAll h)
  | failQueue errand =>
    simp only [Position.next] at h
    cases errand with
    | elect ticket =>
      cases h
      exact .keep rfl rfl rfl rfl
    | issue home | retire ticket | record slot generation | inspect lanes =>
      simp only [unwind] at h
      exact .without (plain_closeAll h)
  | openSpareAdmission home | openSpareActivity home | reopenAdmission | reopenActivity
  | watchActivity lane lanes =>
    cases answer with
    | true =>
      cases h
      exact .without ⟨rfl, rfl, rfl⟩
    | false =>
      simp only [Position.next] at h
      exact .without (plain_closeAll h)
  | closeAdmission =>
    cases h
    exact .without (plain_queueUp _)
  | closeWaiter home spare =>
    cases h
    unfold closeOther
    split <;> exact .owner rfl rfl rfl
  | closing v vs lanes | watchUnlock lanes =>
    simp only [Position.next] at h
    exact .without (plain_closeAll h)
  | list errand =>
    cases h
    exact .scan rfl HEq.rfl
  | probeOpen scan =>
    cases h
    exact .probe
  | probeLock scan =>
    cases answer <;> cases h
    · exact .abandoned
    · exact .held
    · exact .again
  | probeRecord scan =>
    cases answer <;> cases h
    · exact .fail rfl
    · exact .signed
  | probeStatus scan identity =>
    cases answer with
    | none =>
      cases h
      exact .dead rfl
    | some p =>
      simp only [Position.next] at h
      split at h <;> cases h
      · exact .live
      · next hlive => exact .dead (by simpa [signedBy] using hlive)
  | probeUnlink scan =>
    cases h
    exact .purged
  | probeClose scan live =>
    cases h
    exact .next
  | probeFail scan =>
    cases h
    exact .keep rfl rfl rfl rfl
  | order home names =>
    cases h
    exact .order
  | create ticket =>
    cases h
    exact .issue
  | lockTicket ticket =>
    cases answer <;> cases h
    · exact .lock
    · exact .wait
    · exact .wait
  | sign ticket =>
    cases h
    exact .sign
  | queue ticket =>
    simp only [Position.next] at h
    split at h <;> cases h <;> exact .keep rfl rfl rfl rfl
  | tryAdmission ticket spare =>
    cases answer <;> cases h
    · exact .elected rfl rfl
    · rcases refused_cases ticket spare with heq | heq
      · rw [heq]
        exact .elected rfl rfl
      · rw [heq]
        exact .leave rfl
    · exact .elected rfl rfl
  | tryActivity ticket spare =>
    cases answer <;> cases h <;> exact .elected rfl rfl
  | giveBack ticket spare =>
    cases h
    rcases refused_cases ticket spare with heq | heq
    · rw [heq]
      exact .elected rfl rfl
    · rw [heq]
      exact .leave rfl
  | askSpare ticket =>
    simp only [Position.next] at h
    split at h <;> cases h
    · exact .elected rfl rfl
    · exact .leave rfl
  | closeActivity | unlinkOwn ticket =>
    cases h
    exact .without ⟨rfl, rfl, rfl⟩
  | openAdmission lane | waitBranch slot generation depth | watchAdmission lane lanes
  | watchLock lanes =>
    cases answer <;> cases h <;> exact .without ⟨rfl, rfl, rfl⟩
  | downgrade slot generation => cases answer <;> cases h <;> exact .owner rfl rfl rfl
  | unlinkTicket ticket spare | leaveOwner home spare | closeOtherAdmission home spare
  | closeOtherActivity home spare | generate slot | truncate slot generation
  | writeText slot generation =>
    cases h
    exact .owner rfl rfl rfl

/-- A ticket is kept or given up; a new one is made by `create` only. -/
theorem QueueStep.ticket {args : Args} {pos pos' : Position} {answer : (pos.next args).1.Answer}
    (h : QueueStep args pos answer pos') :
    pos'.ticket = none ∨ pos'.ticket = pos.ticket ∨
      ∃ ticket, pos = .create ticket ∧ pos' = .lockTicket ticket := by
  cases h with
  | without h => exact .inl h.ticket
  | owner hchosen hquiet hticket => exact .inl hticket
  | keep hquiet hquiet' hticket hchosen => exact .inr (.inl hticket)
  | scan hpos hanswer =>
    subst hpos
    exact ticket_scanNext _ _ _
  | fail hpos =>
    subst hpos
    exact .inr (.inl rfl)
  | next => exact ticket_scanNext _ _ _
  | order => exact .inl rfl
  | issue => exact .inr (.inr ⟨_, rfl, rfl⟩)
  | elected h h' =>
    rw [ticket_of_elected h, ticket_of_elected h']
    exact .inr (.inl rfl)
  | leave h =>
    rw [ticket_of_elected h]
    exact .inr (.inl rfl)
  | probe | again | abandoned | held | signed | dead | live | purged | wait | lock | sign =>
    exact .inr (.inl rfl)

theorem chosen_scanNext (errand : Errand) (kept todo : List String) :
    (scanNext errand kept todo).chosen = false := by
  cases todo with
  | nil =>
    simp only [scanNext]
    unfold scanned
    split
    · rfl
    · split <;> rfl
    · rfl
  | cons path rest =>
    simp only [scanNext]
    split <;> rfl

/-- Only the first waiter becomes an owner. -/
theorem QueueStep.chosen {args : Args} {pos pos' : Position} {answer : (pos.next args).1.Answer}
    (h : QueueStep args pos answer pos') (hbefore : pos.chosen = false)
    (hafter : pos'.chosen = true) :
    ∃ ticket, pos.elected = some ticket ∧ pos'.elected = some ticket := by
  cases h with
  | without h =>
    rw [h.chosen] at hafter
    cases hafter
  | owner hchosen hquiet hticket =>
    rw [hbefore] at hchosen
    cases hchosen
  | keep hquiet hquiet' hticket hchosen =>
    rw [hchosen] at hafter
    cases hafter
  | scan hpos hanswer =>
    rw [chosen_scanNext] at hafter
    cases hafter
  | next =>
    rw [chosen_scanNext] at hafter
    cases hafter
  | elected h h' => exact ⟨_, h, h'⟩
  | _ => cases hafter

/-! ## The metadata section -/

/-- System calls that change the lock directory. -/
def Op.files : Op → Bool
  | .openTicket .. | .sign | .unlink _ => true
  | _ => false

/-- The lock directory is changed under the metadata lock only. -/
theorem section_of_files {args : Args} {pos : Position} (h : (pos.next args).1.files = true) :
    queueFact ∈ pos.facts args := by
  cases pos with
  | probeOpen scan | probeUnlink scan | create ticket | sign ticket | unlinkTicket ticket spare
  | unlinkOwn ticket => exact List.mem_cons_self
  | look lane claim a look good => cases look <;> cases h
  | _ => cases h

/-- What was read of it is used under the metadata lock only. -/
theorem section_of_not_quiet {args : Args} {pos : Position} (h : pos.quiet = false) :
    queueFact ∈ pos.facts args := by
  cases pos <;> first | exact List.mem_cons_self | cases h

/-- One call at a time is in the metadata section. -/
theorem Base.section_unique {s : Sys} (h : Base s) {c c' : Nat} {call call' : Call}
    (hcall : s.calls c = some call) (hcall' : s.calls c' = some call')
    (hq : queueFact ∈ call.pos.facts call.args) (hq' : queueFact ∈ call'.pos.facts call'.args) :
    c' = c := by
  by_contra hne
  have hok := h.calls c call hcall
  have hok' := h.calls c' call' hcall'
  obtain ⟨hd, hv, hfile, hlock⟩ := hok.facts _ hq
  obtain ⟨hd', hv', hfile', hlock'⟩ := hok'.facts _ hq'
  apply hok.own.ofd_ne hok'.own hne hv hv'
  exact (h.wf.exclusive_unique (hlock _ rfl) (hlock' _ rfl) (hfile.trans hfile'.symm)).1

end SummitFlow.HeavyWork
