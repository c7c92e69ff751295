import SummitFlow.Spec.HeavySteps

/-!
# Heavy-work lanes are exclusive

Only a call with the exclusive lock of a lane's activity file changes the text of its
admission file, and who is admitted has a shared lock of it, which lasts as long as any
copy of its descriptor.  A call that is admitted either wrote the text itself, under the
admission lock, or read its generation there after it had the shared lock.
-/

namespace SummitFlow.HeavyWork

open Flock (Mode Attempt Kernel Lock)

/-! ## What the program does -/

/-- Only the two writes of an owner change a text. -/
theorem pwrite_cases {args : Args} {pos : Position} {v : Var} {text : String}
    (h : (pos.next args).1 = .pwrite v text) :
    ∃ slot : Slot, v = slot.admission ∧ slot.owned ⊆ pos.facts args := by
  cases pos with
  | truncate slot generation | writeText slot generation =>
    obtain ⟨rfl, -⟩ := Op.pwrite.inj h
    exact ⟨slot, rfl, List.Subset.refl _⟩
  | look lane claim a look good => cases look <;> cases h
  | _ => cases h

/-- The call is over as soon as it has closed its descriptors. -/
def Position.Over (pos : Position) : Prop := ∃ v vs, pos = .closing v vs []

theorem over_closeAll {vs : List Var} {pos : Position} (h : closeAll vs [] = some pos) :
    pos.Over := by
  cases vs with
  | nil => cases h
  | cons v vs =>
    cases h
    exact ⟨v, vs, rfl⟩

/-- An admitted call stays admitted to its slot, or ends. -/
theorem admitted_mono {args : Args} {pos pos' : Position} {answer : (pos.next args).1.Answer}
    {slot : Slot} {generation : String} (hadmitted : pos.admitted = some (slot, generation))
    (h : (pos.next args).2 answer = some pos') :
    pos'.admitted = some (slot, generation) ∨ pos'.Over := by
  cases pos with
  | openBranch slot' generation' depth =>
    cases hadmitted
    cases answer with
    | true =>
      cases h
      exact .inl rfl
    | false =>
      simp only [Position.next] at h
      exact .inr (over_closeAll h)
  | waitBranch slot' generation' depth =>
    cases hadmitted
    cases answer <;> cases h <;> exact .inl rfl
  | working slot' generation' branch =>
    cases hadmitted
    simp only [Position.next] at h
    split at h
    · exact .inr (over_closeAll h)
    · cases h
      exact .inl rfl
  | openQueue errand =>
    cases errand with
    | record slot' generation' =>
      cases hadmitted
      cases answer with
      | true =>
        cases h
        exact .inl rfl
      | false =>
        simp only [Position.next, unwind] at h
        exact .inr (over_closeAll h)
    | _ => cases hadmitted
  | lockQueue errand =>
    cases errand with
    | record slot' generation' =>
      cases hadmitted
      cases answer <;> cases h <;> exact .inl rfl
    | _ => cases hadmitted
  | leaveQueue errand =>
    cases errand with
    | record slot' generation' =>
      cases hadmitted
      cases h
      exact .inl rfl
    | _ => cases hadmitted
  | _ => cases hadmitted

theorem over_mono {args : Args} {pos pos' : Position} {answer : (pos.next args).1.Answer}
    (hover : pos.Over) (h : (pos.next args).2 answer = some pos') : pos'.Over := by
  obtain ⟨v, vs, rfl⟩ := hover
  exact over_closeAll h

/-- An admitted call keeps its activity descriptor. -/
theorem binds_ne_activity {args : Args} {pos : Position} {slot : Slot} {generation : String}
    (h : pos.admitted = some (slot, generation)) :
    (pos.next args).1.binds ≠ some slot.activity := by
  cases pos with
  | openQueue errand | lockQueue errand | leaveQueue errand =>
    cases errand <;> cases h
    simp [Position.next, Op.binds, Slot.activity]
  | openBranch | waitBranch | working =>
    cases h
    simp [Position.next, Op.binds, Slot.activity]
  | _ => cases h

/-- An admitted or ending call does not touch the lock of its activity file. -/
theorem locked_ne_activity {args : Args} {pos : Position} {v : Var}
    (h : (∃ slot generation, pos.admitted = some (slot, generation) ∧ v = slot.activity) ∨
      pos.Over) : (pos.next args).1.locked ≠ some v := by
  rcases h with ⟨slot, generation, hadmitted, rfl⟩ | ⟨w, vs, rfl⟩
  · cases pos with
    | openQueue errand | lockQueue errand | leaveQueue errand =>
      cases errand <;> cases hadmitted
      simp [Position.next, Op.locked, Slot.activity]
    | openBranch | waitBranch | working =>
      cases hadmitted
      simp [Position.next, Op.locked, Slot.activity]
    | _ => cases hadmitted
  · simp [Position.next, Op.locked]

/-- How far a call is with its admission: a descendant that verifies its token, an owner
    that gives up its exclusive lock, or an admitted call. -/
inductive Stage where
  | plain
  | verifying (lane : Lane) (claim : Claim)
  | downgrading (slot : Slot) (generation : String)
  | admitted (slot : Slot) (generation : String) (descendant : Bool)

def Position.stage : Position → Stage
  | .readText lane claim | .branchExists lane claim | .process lane claim _ _
  | .look lane claim _ _ _ | .lockShared lane claim _ | .recheck lane claim => .verifying lane claim
  | .downgrade slot generation => .downgrading slot generation
  | .openBranch slot generation _ | .waitBranch slot generation _ => .admitted slot generation true
  | .working slot generation branch => .admitted slot generation !branch.isEmpty
  | .openQueue (.record slot generation) | .lockQueue (.record slot generation)
  | .leaveQueue (.record slot generation) => .admitted slot generation false
  | _ => .plain

theorem stage_of_admitted {pos : Position} {slot : Slot} {generation : String}
    (h : pos.admitted = some (slot, generation)) :
    ∃ descendant, pos.stage = .admitted slot generation descendant := by
  cases pos with
  | openQueue errand | lockQueue errand | leaveQueue errand =>
    cases errand <;> cases h
    exact ⟨_, rfl⟩
  | openBranch | waitBranch | working =>
    cases h
    exact ⟨_, rfl⟩
  | _ => cases h

theorem admitted_of_stage {pos : Position} {slot : Slot} {generation : String} {descendant : Bool}
    (h : pos.stage = .admitted slot generation descendant) :
    pos.admitted = some (slot, generation) := by
  cases pos with
  | openQueue errand | lockQueue errand | leaveQueue errand =>
    cases errand <;> cases h
    rfl
  | openBranch | waitBranch | working =>
    cases h
    rfl
  | _ => cases h

theorem downgrade_of_stage {pos : Position} {slot : Slot} {generation : String}
    (h : pos.stage = .downgrading slot generation) : pos = .downgrade slot generation := by
  cases pos with
  | openQueue errand | lockQueue errand | leaveQueue errand => cases errand <;> cases h
  | downgrade =>
    cases h
    rfl
  | _ => cases h

theorem stage_closeAll {vs : List Var} {lanes : List Lane} {pos : Position}
    (h : closeAll vs lanes = some pos) : pos.stage = .plain := by
  cases vs with
  | cons v vs =>
    cases h
    rfl
  | nil =>
    cases lanes with
    | nil => cases h
    | cons lane lanes =>
      cases h
      rfl

theorem stage_queueUp (home : Home) : (queueUp home).stage = .plain := by
  unfold queueUp
  split <;> rfl

theorem stage_notInherited (args : Args) (lane : Lane) :
    (notInherited args lane).stage = .plain := by
  unfold notInherited
  split
  · rfl
  · exact stage_queueUp _

theorem stage_walk (args : Args) (lane : Lane) (claim : Claim) (pid : Nat) (seen : List Nat) :
    (walk args lane claim pid seen).stage = .plain ∨
      (walk args lane claim pid seen).stage = .verifying lane claim := by
  unfold walk
  split
  · exact .inr rfl
  · exact .inl (stage_notInherited args lane)

theorem stage_unwind {errand : Errand} {pos : Position} (h : unwind errand = some pos) :
    pos.stage = .plain := by
  cases errand with
  | elect ticket =>
    cases h
    rfl
  | issue home | retire ticket | record slot generation | inspect lanes =>
    simp only [unwind] at h
    exact stage_closeAll h

theorem stage_scanNext (errand : Errand) (kept todo : List String) :
    (scanNext errand kept todo).stage = .plain := by
  cases todo with
  | nil =>
    simp only [scanNext]
    unfold scanned
    split
    · rfl
    · split <;> rfl
    · rfl
  | cons path rest =>
    simp only [scanNext]
    split <;> rfl

/-- Where a call can go: it starts to verify what its token says, is admitted by the second
    look at the generation, starts to downgrade after its writes, or is admitted with its
    shared lock; else it stays where it is or starts over. -/
inductive StageStep (args : Args) : (pos : Position) → (pos.next args).1.Answer → Stage → Prop
  | plain {pos answer} : StageStep args pos answer .plain
  | same {pos answer} : StageStep args pos answer pos.stage
  | verify {pos answer lane claim} (h : parseToken args.token lane args.pid = .ok (some claim)) :
      StageStep args pos answer (.verifying lane claim)
  | join {lane claim} : StageStep args (.recheck lane claim) claim.generation
      (.admitted ⟨lane, .held⟩ claim.generation true)
  | written {slot generation} :
      StageStep args (.writeText slot generation) () (.downgrading slot generation)
  | own {slot generation} : StageStep args (.downgrade slot generation) .granted
      (.admitted slot generation false)

theorem stage_next {args : Args} {pos pos' : Position} {answer : (pos.next args).1.Answer}
    (h : (pos.next args).2 answer = some pos') : StageStep args pos answer pos'.stage := by
  have hplain : pos'.stage = .plain → StageStep args pos answer pos'.stage := by
    intro hstage
    rw [hstage]
    exact .plain
  have hsame : pos'.stage = pos.stage → StageStep args pos answer pos'.stage := by
    intro hstage
    rw [hstage]
    exact .same
  cases pos with
  | openActivity lane =>
    cases answer with
    | false =>
      simp only [Position.next] at h
      exact hplain (stage_closeAll h)
    | true =>
      simp only [Position.next, inherited] at h
      split at h
      · exact hplain (stage_closeAll h)
      · cases h
        exact hplain (stage_notInherited args lane)
      · next claim hparse =>
        cases h
        exact .verify hparse
  | readText lane claim =>
    simp only [Position.next, Option.some.injEq] at h
    subst h
    split
    · next htext =>
      rw [if_pos htext] at hplain
      exact hplain (stage_notInherited args lane)
    · next htext =>
      rw [if_neg htext] at hplain hsame
      split
      · next hdepth =>
        rw [if_pos hdepth] at hplain hsame
        exact (stage_walk args lane claim args.pid []).elim hplain hsame
      · next hdepth =>
        rw [if_neg hdepth] at hsame
        exact hsame rfl
  | branchExists lane claim =>
    cases answer <;> cases h
    · exact hplain (stage_notInherited args lane)
    · exact (stage_walk args lane claim args.pid []).elim hplain hsame
  | process lane claim pid seen =>
    cases answer <;> cases h
    · exact hplain (stage_notInherited args lane)
    · exact hsame rfl
  | look lane claim a look good =>
    have hwalk := stage_walk args lane claim a.parent a.seen
    cases look with
    | holder | holderInfo | branch | branchInfo =>
      cases answer <;> cases h
      · exact hwalk.elim hplain hsame
      · exact hsame rfl
    | stable =>
      cases answer with
      | none =>
        cases h
        exact hwalk.elim hplain hsame
      | some p =>
        simp only [Position.next] at h
        split at h <;> cases h
        · exact hsame rfl
        · exact hwalk.elim hplain hsame
  | lockShared lane claim a =>
    cases answer <;> cases h
    · exact hsame rfl
    · exact (stage_walk args lane claim a.parent a.seen).elim hplain hsame
    · exact hsame rfl
  | recheck lane claim =>
    simp only [Position.next] at h
    split at h
    · cases h
      exact hplain (stage_notInherited args lane)
    · next htext =>
      unfold joined at h
      split at h
      · exact hplain (stage_closeAll h)
      · cases h
        obtain rfl : answer = claim.generation := not_not.mp htext
        exact .join
  | writeText slot generation =>
    cases h
    exact .written
  | downgrade slot generation =>
    cases answer <;> cases h
    · exact .own
    · exact hsame rfl
    · exact hsame rfl
  | openBranch slot generation depth =>
    cases answer with
    | true =>
      cases h
      exact hsame rfl
    | false =>
      simp only [Position.next] at h
      exact hplain (stage_closeAll h)
  | waitBranch slot generation depth =>
    cases answer <;> cases h <;> exact hsame rfl
  | working slot generation branch =>
    simp only [Position.next] at h
    split at h
    · exact hplain (stage_closeAll h)
    · cases h
      exact hsame rfl
  | openQueue errand =>
    cases answer with
    | true =>
      cases h
      cases errand <;> exact hsame rfl
    | false =>
      simp only [Position.next] at h
      exact hplain (stage_unwind h)
  | lockQueue errand =>
    cases answer <;> cases h <;> cases errand <;> exact hsame rfl
  | leaveQueue errand =>
    simp only [Position.next] at h
    cases errand with
    | record slot generation =>
      cases h
      exact hsame rfl
    | elect ticket =>
      cases h
      exact hplain rfl
    | issue home | retire ticket | inspect lanes =>
      simp only [resume] at h
      exact hplain (stage_closeAll h)
  | failQueue errand =>
    simp only [Position.next] at h
    exact hplain (stage_unwind h)
  | openSpareAdmission home | openSpareActivity home | reopenAdmission | reopenActivity
  | watchActivity lane lanes =>
    cases answer with
    | true =>
      cases h
      exact hplain rfl
    | false =>
      simp only [Position.next] at h
      exact hplain (stage_closeAll h)
  | closeAdmission =>
    cases h
    exact hplain (stage_queueUp _)
  | list errand =>
    cases h
    exact hplain (stage_scanNext errand [] answer)
  | probeClose scan live =>
    cases h
    exact hplain (stage_scanNext scan.errand _ scan.rest)
  | probeStatus scan identity =>
    cases answer with
    | none =>
      cases h
      exact hplain rfl
    | some p =>
      simp only [Position.next] at h
      split at h <;> cases h <;> exact hplain rfl
  | queue ticket | askSpare ticket =>
    simp only [Position.next] at h
    split at h <;> cases h <;> exact hplain rfl
  | tryAdmission ticket spare =>
    cases answer <;> cases h
    · exact hplain rfl
    · apply hplain
      unfold refused
      split <;> rfl
    · exact hplain rfl
  | giveBack ticket spare =>
    cases h
    apply hplain
    unfold refused
    split <;> rfl
  | closeWaiter home spare =>
    cases h
    apply hplain
    unfold closeOther
    split <;> rfl
  | closing v vs lanes | watchUnlock lanes =>
    simp only [Position.next] at h
    exact hplain (stage_closeAll h)
  | openAdmission lane | watchAdmission lane lanes | probeLock scan | probeRecord scan
  | lockTicket ticket | tryActivity ticket spare | watchLock lanes =>
    cases answer <;> cases h <;> exact hplain rfl
  | closeActivity | probeOpen scan | probeUnlink scan | probeFail scan | order home names
  | create ticket | sign ticket | unlinkTicket ticket spare
  | unlinkOwn ticket | leaveOwner home spare | closeOtherAdmission home spare
  | closeOtherActivity home spare | generate slot | truncate slot generation =>
    cases h
    exact hplain rfl

/-! ## Texts -/

/-- What a system call does to the texts. -/
theorem exec_texts {s s' : Sys} {c : Nat} {call : Call} {input : Input} {op : Op}
    {vars : Var → Option Handle} {answer : op.Answer}
    (h : s.exec c call input op = some (s', vars, answer)) :
    s'.texts = s.texts ∨ ∃ v text lane, op = .pwrite v text ∧
      s.fileOf call.vars v = some (.admission lane) ∧ ∀ other, other ≠ lane →
        s'.texts other = s.texts other := by
  cases op with
  | pwrite v text =>
    simp only [Sys.exec] at h
    split at h
    · next lane hfile =>
      cases h
      refine .inr ⟨v, text, lane, rfl, hfile, fun other hne => ?_⟩
      exact Function.update_of_ne hne _ _
    · cases h
  | «open» v file =>
    simp only [Sys.exec] at h
    split at h
    · cases h
      exact .inl rfl
    · split at h <;> cases h
      exact .inl rfl
  | openTicket v name =>
    simp only [Sys.exec] at h
    split at h
    · cases h
      left
      simp only [Sys.openFile, Sys.entry]
      split <;> rfl
    · cases h
  | close v | flock v mode | unlock v | pread v | sign | record | ask =>
    simp only [Sys.exec] at h
    split at h <;> cases h <;> exact .inl rfl
  | unlink name | stat pid | fdFile pid fd | fdLock pid fd | «exists» file | glob w =>
    cases h
    exact .inl rfl

theorem exec_pread {s s' : Sys} {c : Nat} {call : Call} {input : Input} {v : Var}
    {vars : Var → Option Handle} {text : String}
    (h : s.exec c call input (.pread v) = some (s', vars, text)) :
    s' = s ∧ ∃ lane, s.fileOf call.vars v = some (.admission lane) ∧
      text = (s.texts lane).content := by
  simp only [Sys.exec] at h
  split at h
  · next lane hfile =>
    cases h
    exact ⟨rfl, lane, hfile, rfl⟩
  · cases h

theorem content_pwrite {s s' : Sys} {c : Nat} {call : Call} {input : Input} {v : Var}
    {vars : Var → Option Handle} {text : String} {lane : Lane}
    (h : s.exec c call input (.pwrite v text) = some (s', vars, ()))
    (hfile : s.fileOf call.vars v = some (.admission lane)) :
    (s'.texts lane).content = text := by
  simp only [Sys.exec, hfile] at h
  cases h
  simp

/-- A call that changes the text of a lane has the exclusive locks of the lane. -/
theorem CallOk.writes {s s' : Sys} {c : Nat} {call : Call} {input : Input}
    {vars : Var → Option Handle} {answer : (call.pos.next call.args).1.Answer}
    (h : CallOk s c call)
    (hexec : s.exec c call input (call.pos.next call.args).1 = some (s', vars, answer))
    {lane : Lane} (htext : s'.texts lane ≠ s.texts lane) :
    ∃ v w, Fact.Holds s.kernel call.vars ⟨v, .admission lane, some .exclusive⟩ ∧
      Fact.Holds s.kernel call.vars ⟨w, .activity lane, some .exclusive⟩ := by
  rcases exec_texts hexec with htexts | ⟨v, text, lane', hop, hfile, hother⟩
  · exact absurd (congrFun htexts lane) htext
  · obtain rfl : lane = lane' := by
      by_contra hne
      exact htext (hother lane hne)
    obtain ⟨slot, rfl, hfacts⟩ := pwrite_cases hop
    have hadmission := h.facts ⟨slot.admission, .admission slot.lane, some .exclusive⟩
      (hfacts (by simp [Slot.owned, Slot.facts]))
    have hactivity := h.facts ⟨slot.activity, .activity slot.lane, some .exclusive⟩
      (hfacts (by simp [Slot.owned, Slot.facts]))
    -- the file that is written is the admission file of the slot's lane
    have hlane : slot.lane = lane := by
      obtain ⟨hd, hv, hslot, -⟩ := hadmission
      rw [Sys.fileOf, hv, Option.bind_some, hslot] at hfile
      exact File.admission.inj (Option.some.inj hfile)
    rw [hlane] at hadmission hactivity
    exact ⟨slot.admission, slot.activity, hadmission, hactivity⟩

/-! ## The invariant -/

/-- What holds of a call: only the activity descriptor of an admitted call was granted a
    lane, and with the generation of the call; an owner's text is there when it downgrades
    its lock; what a descendant verifies, and then joins, is what its token says. -/
structure CallLane (s : Sys) (call : Call) : Prop where
  ungranted : ∀ v hd, call.vars v = some hd → s.grants hd.ofd ≠ none →
    (∃ slot generation, call.pos.admitted = some (slot, generation) ∧ v = slot.activity) ∨
      call.pos.Over
  admitted : ∀ slot generation, call.pos.admitted = some (slot, generation) →
    ∃ hd grant, call.vars slot.activity = some hd ∧ s.grants hd.ofd = some grant ∧
      grant.lane = slot.lane ∧ grant.text.content = generation
  written : ∀ slot generation, call.pos.stage = .downgrading slot generation →
    (s.texts slot.lane).content = generation
  verifies : ∀ lane claim, call.pos.stage = .verifying lane claim →
    parseToken call.args.token lane call.args.pid = .ok (some claim)
  descends : ∀ slot generation, call.pos.stage = .admitted slot generation true →
    ∃ claim, parseToken call.args.token slot.lane call.args.pid = .ok (some claim) ∧
      claim.generation = generation

/-- Whoever has a copy of a descriptor that was granted a lane shares the lock of the lane,
    and its admission file has the text it had then. -/
structure Lanes (s : Sys) : Prop where
  known : ∀ ofd grant, s.grants ofd = some grant → ofd < s.kernel.opened.length
  granted : ∀ ofd grant, s.grants ofd = some grant → s.kernel.isOpen ofd = true →
    s.kernel.fileOf ofd = some (.activity grant.lane) ∧ ⟨ofd, .shared⟩ ∈ s.kernel.locks ∧
      s.texts grant.lane = grant.text
  calls : ∀ c call, s.calls c = some call → CallLane s call

theorem Lanes.initial : Lanes Sys.initial :=
  ⟨fun _ _ h => (nomatch h), fun _ _ h => (nomatch h), fun _ _ h => (nomatch h)⟩

section

variable {s s' : Sys} {c : Nat} {call : Call} {input : Input} {vars : Var → Option Handle}
  {answer : (call.pos.next call.args).1.Answer}

/-- What was granted stays granted through a system call. -/
theorem Lanes.granted_exec (h : Lanes s) (hbase : Base s) (hcall : s.calls c = some call)
    (hexec : s.exec c call input (call.pos.next call.args).1 = some (s', vars, answer))
    {ofd : Nat} {grant : Grant} (hgrant : s.grants ofd = some grant)
    (hopen : s'.kernel.isOpen ofd = true) :
    s'.kernel.fileOf ofd = some (.activity grant.lane) ∧ ⟨ofd, .shared⟩ ∈ s'.kernel.locks ∧
      s'.texts grant.lane = grant.text := by
  obtain ⟨hstep, -⟩ := exec_step hexec
  have hok := hbase.calls c call hcall
  have hbefore := hstep.isOpen_of (h.known ofd grant hgrant) hopen
  obtain ⟨hfile, hlock, htext⟩ := h.granted ofd grant hgrant hbefore
  refine ⟨hstep.fileOf_mono hfile, ?_, ?_⟩
  · apply hstep.mem_locks hlock hopen
    intro v hd htouched hv hofd
    have hne : s.grants hd.ofd ≠ none := by
      rw [← hofd, hgrant]
      simp
    exact locked_ne_activity ((h.calls c call hcall).ungranted v hd hv hne) htouched
  · rw [← htext]
    by_contra hchanged
    obtain ⟨-, w, -, ⟨hd, hv, hactivity, hexclusive⟩⟩ := hok.writes hexec hchanged
    -- the writer's exclusive lock excludes the shared one
    have := (hbase.wf.exclusive_unique (hexclusive _ rfl) hlock (hactivity.trans hfile.symm)).2
    cases this

/-- Others keep what they know of their lane. -/
theorem CallLane.other {c' : Nat} {call' : Call} (h' : CallLane s call') (hbase : Base s)
    (hcall : s.calls c = some call) (hcall' : s.calls c' = some call') (hne : c' ≠ c)
    (hexec : s.exec c call input (call.pos.next call.args).1 = some (s', vars, answer)) :
    CallLane s' call' := by
  obtain ⟨-, hkept⟩ := exec_step hexec
  have hok := hbase.calls c call hcall
  have hok' := hbase.calls c' call' hcall'
  refine ⟨?_, ?_, ?_, h'.verifies, h'.descends⟩
  · rw [hkept.grants]
    exact h'.ungranted
  · rw [hkept.grants]
    exact h'.admitted
  · intro slot generation hstage
    have hpos := downgrade_of_stage hstage
    rw [← h'.written slot generation hstage]
    by_contra hchanged
    have htexts : s'.texts slot.lane ≠ s.texts slot.lane := fun heq => hchanged (by rw [heq])
    obtain ⟨v, -, ⟨hd, hv, hfile, hexclusive⟩, -⟩ := hok.writes hexec htexts
    -- both have the exclusive lock of the admission file
    obtain ⟨hd', hv', hfile', hexclusive'⟩ := hok'.facts
      ⟨slot.admission, .admission slot.lane, some .exclusive⟩
      (by simp [hpos, Position.facts, Slot.facts])
    have hsame := (hbase.wf.exclusive_unique (hexclusive _ rfl) (hexclusive' _ rfl)
      (hfile.trans hfile'.symm)).1
    exact hok.own.ofd_ne hok'.own hne hv hv' hsame

/-- A call that gets admitted shares the lock of its lane, and its generation is in the
    admission file. -/
theorem CallLane.joins (h : CallLane s call) (hbase : Base s) (hcall : s.calls c = some call)
    (hexec : s.exec c call input (call.pos.next call.args).1 = some (s', vars, answer))
    {pos : Position} (hnext : (call.pos.next call.args).2 answer = some pos) {slot : Slot}
    {generation : String} (hadmitted : pos.admitted = some (slot, generation)) :
    call.pos.admitted = some (slot, generation) ∨
      ∃ hd, vars slot.activity = some hd ∧ s'.kernel.fileOf hd.ofd = some (.activity slot.lane) ∧
        ⟨hd.ofd, .shared⟩ ∈ s'.kernel.locks ∧ (s'.texts slot.lane).content = generation ∧
        s.grants hd.ofd = none := by
  obtain ⟨descendant, hstage⟩ := stage_of_admitted hadmitted
  have hok := hbase.calls c call hcall
  have hstep := stage_next hnext
  rw [hstage] at hstep
  have hfacts := transfer_holds hbase.wf hok.own hexec hok.facts
  obtain ⟨args, vars₀, pos₀⟩ := call
  -- neither of the two places is one where something was granted before
  have hfree : ∀ hd, vars₀ slot.activity = some hd → pos₀.admitted = none → ¬ pos₀.Over →
      s.grants hd.ofd = none := by
    intro hd hv hnone hover
    by_contra hgrant
    rcases h.ungranted _ hd hv hgrant with ⟨slot', generation', hadm, -⟩ | hov
    · rw [hnone] at hadm
      cases hadm
    · exact hover hov
  generalize hst : Stage.admitted slot generation descendant = stage at hstep
  cases hstep with
  | plain => cases hst
  | verify hparse => cases hst
  | written => cases hst
  | same => exact .inl (admitted_of_stage hst.symm)
  | @join lane claim =>
    cases hst
    right
    obtain ⟨hd, hv, hfile, hlock⟩ := hfacts ⟨.activity .held, .activity lane, some .shared⟩
      List.mem_cons_self
    have hvars : vars (.activity .held) = vars₀ (.activity .held) :=
      exec_vars hexec (by simp [Position.next, Op.binds])
    refine ⟨hd, hv, hfile, hlock _ rfl, ?_, ?_⟩
    · obtain ⟨hd', hv', hfile', -⟩ := hok.facts ⟨.admission .held, .admission lane, none⟩
        (by simp [Position.facts, Slot.facts, Slot.admission])
      obtain ⟨rfl, lane', hlane, htext⟩ := exec_pread hexec
      rw [Sys.fileOf, hv', Option.bind_some, hfile'] at hlane
      obtain rfl := File.admission.inj (Option.some.inj hlane)
      exact htext.symm
    · apply hfree hd (hvars ▸ hv) rfl
      rintro ⟨_, _, heq⟩
      cases heq
  | own =>
    cases hst
    right
    obtain ⟨hd, hv, hfile, hlock⟩ := hfacts ⟨slot.activity, .activity slot.lane, some .shared⟩
      (by simp [Position.next, transfer, withLock, Position.facts, Slot.facts, Slot.admission,
        Slot.activity])
    have hvars : vars slot.activity = vars₀ slot.activity :=
      exec_vars hexec (by simp [Position.next, Op.binds])
    refine ⟨hd, hv, hfile, hlock _ rfl, ?_, ?_⟩
    · have htexts : s'.texts = s.texts := by
        rcases exec_texts hexec with htexts | ⟨v, text, lane, hop, -⟩
        · exact htexts
        · cases hop
      rw [htexts]
      exact h.written slot generation rfl
    · apply hfree hd (hvars ▸ hv) rfl
      rintro ⟨_, _, heq⟩
      cases heq

end

/-- What a call that is placed is granted. -/
theorem grant_cases (s : Sys) (call : Call) :
    s.grant call = s.grants ∨ ∃ slot generation hd, call.pos.admitted = some (slot, generation) ∧
      call.vars slot.activity = some hd ∧ s.grants hd.ofd = none ∧
      s.grant call = Function.update s.grants hd.ofd (some ⟨slot.lane, s.texts slot.lane⟩) := by
  unfold Sys.grant
  split
  · exact .inl rfl
  · next slot generation hadmitted =>
    split
    · exact .inl rfl
    · next hd hv =>
      split
      · next hnone => exact .inr ⟨slot, generation, hd, hadmitted, hv, hnone, rfl⟩
      · exact .inl rfl

/-- Grants are never taken back. -/
theorem grant_mono {s : Sys} {call : Call} {ofd : Nat} {grant : Grant}
    (h : s.grants ofd = some grant) : s.grant call ofd = some grant := by
  rcases grant_cases s call with heq | ⟨slot, generation, hd, -, -, hnone, heq⟩
  · rw [heq]
    exact h
  · rw [heq]
    by_cases hofd : ofd = hd.ofd
    · rw [hofd, hnone] at h
      cases h
    · rw [Function.update_of_ne hofd]
      exact h

/-- The variables after a step have descriptors they had before, or a new one. -/
theorem FileStep.vars_of {k k' : Kernel File} {c pid : Nat} {vars vars' : Var → Option Handle}
    {touched : Option Var} (h : FileStep k c pid vars touched k' vars') {v : Var} {hd : Handle}
    (hv : vars' v = some hd) : vars v = some hd ∨ hd.ofd = k.opened.length := by
  cases h with
  | opened w fd file =>
    by_cases heq : v = w
    · subst heq
      rw [Function.update_self] at hv
      cases hv
      exact .inr rfl
    · rw [Function.update_of_ne heq] at hv
      exact .inl hv
  | @closed w _ hw =>
    by_cases heq : v = w
    · subst heq
      rw [Function.update_self] at hv
      cases hv
    · rw [Function.update_of_ne heq] at hv
      exact .inl hv
  | same => exact .inl hv
  | locked hw mode => exact .inl hv
  | released hw => exact .inl hv

section

variable {s s' : Sys} {c : Nat} {call : Call} {input : Input} {vars : Var → Option Handle}
  {answer : (call.pos.next call.args).1.Answer} {pos : Position}

/-- Only the call that is admitted is granted something, and what it has a lock for. -/
theorem Lanes.grant_new (h : Lanes s) (hbase : Base s) (hcall : s.calls c = some call)
    (hexec : s.exec c call input (call.pos.next call.args).1 = some (s', vars, answer))
    (hnext : (call.pos.next call.args).2 answer = some pos) {ofd : Nat} {grant : Grant}
    (hgrant : s'.grant ⟨call.args, vars, pos⟩ ofd = some grant) :
    s.grants ofd = some grant ∨ ∃ slot generation hd,
      pos.admitted = some (slot, generation) ∧ vars slot.activity = some hd ∧ hd.ofd = ofd ∧
      grant = ⟨slot.lane, s'.texts slot.lane⟩ ∧ s'.kernel.fileOf ofd = some (.activity slot.lane) ∧
      ⟨ofd, .shared⟩ ∈ s'.kernel.locks := by
  obtain ⟨-, hkept⟩ := exec_step hexec
  rcases grant_cases s' ⟨call.args, vars, pos⟩ with
    heq | ⟨slot, generation, hd, hadmitted, hv, hnone, heq⟩
  · rw [heq, hkept.grants] at hgrant
    exact .inl hgrant
  · rw [heq] at hgrant
    by_cases hofd : ofd = hd.ofd
    · subst hofd
      rw [Function.update_self] at hgrant
      right
      refine ⟨slot, generation, hd, hadmitted, hv, rfl, (Option.some.inj hgrant).symm, ?_⟩
      rcases (h.calls c call hcall).joins hbase hcall hexec hnext hadmitted with
        hold | ⟨hd', hv', hfile, hlock, -⟩
      · -- an admitted call was granted its lane before
        obtain ⟨hd', grant', hv', hgrant', -⟩ := (h.calls c call hcall).admitted _ _ hold
        have hvars := exec_vars hexec (binds_ne_activity hold)
        obtain rfl : hd' = hd := Option.some.inj (hv'.symm.trans (hvars.symm.trans hv))
        rw [hkept.grants, hgrant'] at hnone
        cases hnone
      · obtain rfl : hd = hd' := Option.some.inj (hv.symm.trans hv')
        exact ⟨hfile, hlock⟩
    · rw [Function.update_of_ne hofd, hkept.grants] at hgrant
      exact .inl hgrant

/-- The call itself, at its next position. -/
theorem CallLane.self (h : Lanes s) (hbase : Base s) (hcall : s.calls c = some call)
    (hexec : s.exec c call input (call.pos.next call.args).1 = some (s', vars, answer))
    (hnext : (call.pos.next call.args).2 answer = some pos) :
    CallLane (s'.place c call ⟨call.args, vars, pos⟩) ⟨call.args, vars, pos⟩ := by
  obtain ⟨hstep, hkept⟩ := exec_step hexec
  have hlane := h.calls c call hcall
  have hok := hbase.calls c call hcall
  have hown := (hok.own.self hbase.wf hstep)
  have hstage := stage_next hnext
  refine ⟨?_, ?_, ?_, ?_, ?_⟩
  · intro v hd hv hgrant
    obtain ⟨grant, hgrant⟩ := Option.ne_none_iff_exists'.mp hgrant
    rcases h.grant_new hbase hcall hexec hnext hgrant with
      hold | ⟨slot, generation, hd', hadmitted, hv', hofd, -⟩
    · have hvar : call.vars v = some hd := by
        rcases hstep.vars_of hv with hvar | hnew
        · exact hvar
        · have := h.known _ _ hold
          omega
      have hne : s.grants hd.ofd ≠ none := by
        rw [hold]
        simp
      rcases hlane.ungranted v hd hvar hne with ⟨slot, generation, hadmitted, rfl⟩ | hover
      · rcases admitted_mono hadmitted hnext with hadmitted' | hover
        · exact .inl ⟨slot, generation, hadmitted', rfl⟩
        · exact .inr hover
      · exact .inr (over_mono hover hnext)
    · exact .inl ⟨slot, generation, hadmitted, hown.distinct _ _ _ _ hv hv' hofd.symm⟩
  · intro slot generation hadmitted
    rcases hlane.joins hbase hcall hexec hnext hadmitted with
      hold | ⟨hd, hv, -, -, htext, hnone⟩
    · obtain ⟨hd, grant, hv, hgrant, hrest⟩ := hlane.admitted _ _ hold
      refine ⟨hd, grant, ?_, grant_mono (by rw [hkept.grants]; exact hgrant), hrest⟩
      exact (exec_vars hexec (binds_ne_activity hold)).trans hv
    · refine ⟨hd, ⟨slot.lane, s'.texts slot.lane⟩, hv, ?_, rfl, htext⟩
      show s'.grant ⟨call.args, vars, pos⟩ hd.ofd = _
      simp only [Sys.grant, hadmitted, hv, hkept.grants, hnone, if_true, Function.update_self]
  · intro slot generation hpos
    have hpos : pos.stage = .downgrading slot generation := hpos
    rw [hpos] at hstage
    obtain ⟨args, vars₀, pos₀⟩ := call
    generalize hst : Stage.downgrading slot generation = stage at hstage
    cases hstage with
    | plain => cases hst
    | verify hparse => cases hst
    | join => cases hst
    | own => cases hst
    | same =>
      have htexts : s'.texts = s.texts := by
        have hdowngrade : pos₀ = .downgrade slot generation := downgrade_of_stage hst.symm
        subst hdowngrade
        rcases exec_texts hexec with htexts | ⟨v, text, lane, hop, -⟩
        · exact htexts
        · cases hop
      show (s'.texts slot.lane).content = generation
      rw [htexts]
      exact hlane.written slot generation hst.symm
    | written =>
      cases hst
      obtain ⟨hd, hv, hfile, -⟩ := hok.facts
        ⟨slot.admission, .admission slot.lane, some .exclusive⟩
        (by simp [Position.facts, Slot.owned, Slot.facts])
      have hwritten : s.fileOf vars₀ slot.admission = some (.admission slot.lane) := by
        have hvar : vars₀ slot.admission = some hd := hv
        rw [Sys.fileOf, hvar, Option.bind_some]
        exact hfile
      show (s'.texts slot.lane).content = generation
      exact content_pwrite hexec hwritten
  · intro lane claim hpos
    have hpos : pos.stage = .verifying lane claim := hpos
    rw [hpos] at hstage
    obtain ⟨args, vars₀, pos₀⟩ := call
    generalize hst : Stage.verifying lane claim = stage at hstage
    cases hstage with
    | plain => cases hst
    | join => cases hst
    | own => cases hst
    | written => cases hst
    | same => exact hlane.verifies lane claim hst.symm
    | verify hparse =>
      cases hst
      exact hparse
  · intro slot generation hpos
    have hpos : pos.stage = .admitted slot generation true := hpos
    rw [hpos] at hstage
    obtain ⟨args, vars₀, pos₀⟩ := call
    generalize hst : Stage.admitted slot generation true = stage at hstage
    cases hstage with
    | plain => cases hst
    | verify hparse => cases hst
    | own => cases hst
    | written => cases hst
    | same => exact hlane.descends slot generation hst.symm
    | @join lane claim =>
      cases hst
      exact ⟨claim, hlane.verifies lane claim rfl, rfl⟩

end

/-- A step that changes neither texts nor grants keeps what holds of a call. -/
theorem CallLane.congr {s s' : Sys} {call : Call} (h : CallLane s call)
    (htexts : s'.texts = s.texts) (hgrants : s'.grants = s.grants) : CallLane s' call := by
  refine ⟨?_, ?_, ?_, h.verifies, h.descends⟩
  · rw [hgrants]
    exact h.ungranted
  · rw [hgrants]
    exact h.admitted
  · rw [htexts]
    exact h.written

theorem Lanes.advance {s : Sys} (h : Lanes s) (hbase : Base s) (c : Nat) (input : Input) :
    Lanes (s.advance c input) := by
  rcases advance_cases s c input with heq | ⟨call, s', vars, answer, hcall, hexec, hnext⟩
  · rw [heq]
    exact h
  obtain ⟨hstep, hkept⟩ := exec_step hexec
  have hother : ∀ c' call', c' ≠ c → s'.calls c' = some call' → CallLane s' call' := by
    intro c' call' hne hcall'
    rw [hkept.calls] at hcall'
    exact (h.calls c' call' hcall').other hbase hcall hcall' hne hexec
  have hknown : ∀ ofd grant, s.grants ofd = some grant → ofd < s'.kernel.opened.length := by
    intro ofd grant hgrant
    have hlt := h.known ofd grant hgrant
    have hget := hstep.opened_mono (List.getElem?_eq_getElem hlt)
    exact (List.getElem?_eq_some_iff.mp hget).1
  rcases hnext with ⟨-, heq⟩ | ⟨pos, hnext, heq⟩
  · rw [heq]
    refine ⟨?_, ?_, ?_⟩
    · intro ofd grant hgrant
      exact hknown ofd grant (hkept.grants ▸ hgrant)
    · intro ofd grant hgrant hopen
      exact h.granted_exec hbase hcall hexec (hkept.grants ▸ hgrant) hopen
    · intro c' call' hcall'
      by_cases hc : c' = c
      · subst hc
        simp at hcall'
      · exact (hother c' call' hc (by simpa [hc] using hcall')).congr rfl rfl
  · rw [heq]
    refine ⟨?_, ?_, ?_⟩
    · intro ofd grant hgrant
      rcases h.grant_new hbase hcall hexec hnext hgrant with
        hold | ⟨slot, generation, hd, -, hv, rfl, -⟩
      · exact hknown ofd grant hold
      · have hown := (hbase.calls c call hcall).own.self hbase.wf hstep
        obtain ⟨file, hget⟩ := hown.opener _ hd hv
        exact (List.getElem?_eq_some_iff.mp hget).1
    · intro ofd grant hgrant hopen
      rcases h.grant_new hbase hcall hexec hnext hgrant with
        hold | ⟨slot, generation, hd, -, -, -, rfl, hfile, hlock⟩
      · exact h.granted_exec hbase hcall hexec hold hopen
      · exact ⟨hfile, hlock, rfl⟩
    · intro c' call' hcall'
      by_cases hc : c' = c
      · subst hc
        obtain rfl : (⟨call.args, vars, pos⟩ : Call) = call' := by
          simpa [Sys.place] using hcall'
        exact CallLane.self h hbase hcall hexec hnext
      · have hlane := hother c' call' hc (by simpa [Sys.place, hc] using hcall')
        -- the others' descriptors are not what this call was granted
        refine ⟨?_, ?_, hlane.written, hlane.verifies, hlane.descends⟩
        · intro v hd hv hgrant
          obtain ⟨grant, hgrant⟩ := Option.ne_none_iff_exists'.mp hgrant
          rcases h.grant_new hbase hcall hexec hnext hgrant with
            hold | ⟨slot, generation, hd', -, hv', hofd, -⟩
          · apply hlane.ungranted v hd hv
            rw [hkept.grants, hold]
            simp
          · have hcalls : s.calls c' = some call' := by
              rw [← hkept.calls]
              simpa [Sys.place, hc] using hcall'
            have hok' := (hbase.calls c' call' hcalls).other (hbase.calls c call hcall) hc hexec
            have hown := (hbase.calls c call hcall).own.self hbase.wf hstep
            exact absurd hofd.symm (hown.ofd_ne hok'.own hc hv' hv)
        · intro slot generation hadmitted
          obtain ⟨hd, grant, hv, hgrant, hrest⟩ := hlane.admitted slot generation hadmitted
          exact ⟨hd, grant, hv, grant_mono hgrant, hrest⟩

/-- Processes that come and go take no lane from anybody. -/
theorem Lanes.settled {s s' : Sys} (h : Lanes s) (hk : Settled s.kernel s'.kernel)
    (hopen : ∀ ofd, s'.kernel.isOpen ofd = true → s.kernel.isOpen ofd = true)
    (htexts : s'.texts = s.texts) (hgrants : s'.grants = s.grants)
    (hcalls : ∀ c call, s'.calls c = some call → s.calls c = some call) : Lanes s' := by
  refine ⟨?_, ?_, ?_⟩
  · intro ofd grant hgrant
    rw [hk.opened]
    exact h.known ofd grant (hgrants ▸ hgrant)
  · intro ofd grant hgrant hofd
    obtain ⟨hfile, hlock, htext⟩ := h.granted ofd grant (hgrants ▸ hgrant) (hopen ofd hofd)
    refine ⟨?_, hk.locks _ hlock hofd, ?_⟩
    · rw [Kernel.fileOf, hk.opened]
      exact hfile
    · rw [htexts]
      exact htext
  · intro c call hcall
    exact (h.calls c call (hcalls c call hcall)).congr htexts hgrants

theorem isOpen_of_subset {k k' : Kernel File}
    (h : ∀ d ∈ k'.descriptors, ∃ d' ∈ k.descriptors, d'.ofd = d.ofd) (ofd : Nat)
    (hopen : k'.isOpen ofd = true) : k.isOpen ofd = true := by
  obtain ⟨d, hd, rfl⟩ := Kernel.isOpen_iff.mp hopen
  exact Kernel.isOpen_iff.mpr (h d hd)

theorem isOpen_of_filter {k : Kernel File} (p : Flock.Descriptor → Bool) (ofd : Nat)
    (hopen : (Kernel.settle { k with descriptors := k.descriptors.filter p }).isOpen ofd = true) :
    k.isOpen ofd = true :=
  isOpen_of_subset (fun d hd => ⟨d, (List.mem_filter.mp hd).1, rfl⟩) ofd hopen

theorem isOpen_of_fork {k : Kernel File} (parent child ofd : Nat)
    (hopen : (k.fork parent child).isOpen ofd = true) : k.isOpen ofd = true := by
  refine isOpen_of_subset (fun d hd => ?_) ofd hopen
  rcases List.mem_append.mp hd with hd | hd
  · exact ⟨d, hd, rfl⟩
  · obtain ⟨d', hd', rfl⟩ := List.mem_map.mp hd
    exact ⟨d', (List.mem_filter.mp hd').1, rfl⟩

theorem Lanes.start {s : Sys} (h : Lanes s) (c : Nat) (args : Args) {pos : Position}
    (hpos : pos.stage = .plain) : Lanes (s.start c args pos) := by
  unfold Sys.start
  split
  · refine ⟨h.known, h.granted, fun c' call' hcall' => ?_⟩
    by_cases hc : c' = c
    · subst hc
      obtain rfl : (⟨args, fun _ => none, pos⟩ : Call) = call' := by simpa using hcall'
      refine ⟨fun v hd hv => (nomatch hv), ?_, ?_, ?_, ?_⟩
      · intro slot generation hadmitted
        obtain ⟨descendant, hstage⟩ := stage_of_admitted hadmitted
        rw [hpos] at hstage
        cases hstage
      all_goals
        intro _ _ hstage
        rw [hpos] at hstage
        cases hstage
    · exact (h.calls c' call' (by simpa [hc] using hcall')).congr rfl rfl
  · exact h

/-- Every step keeps the lanes exclusive. -/
theorem Lanes.next {s : Sys} (h : Lanes s) (hbase : Base s) (a : Action) : Lanes (next s a) := by
  cases a with
  | begin c pid requested existing environment =>
    simp only [HeavyWork.next]
    split
    · exact h.start c _ rfl
    · exact h
  | observe c pid requested => cases requested <;> exact h.start c _ rfl
  | advance c input => exact h.advance hbase c input
  | fork parent child start =>
    simp only [HeavyWork.next]
    split
    · exact h.settled (settled_fork _ _ _) (isOpen_of_fork parent child) rfl rfl
        fun _ _ hcall => hcall
    · exact h
  | kill pid reaper =>
    simp only [HeavyWork.next]
    split
    · exact h.settled (settled_settle _ _) (isOpen_of_filter _) rfl rfl
        fun _ _ hcall => (Option.filter_eq_some_iff.mp hcall).1
    · exact h
  | reap pid =>
    simp only [HeavyWork.next]
    split
    · exact h.settled ⟨rfl, fun _ hl _ => hl⟩ (fun _ hopen => hopen) rfl rfl
        fun _ _ hcall => hcall
    · exact h
  | drop pid fd =>
    simp only [HeavyWork.next, Sys.drop]
    split
    · exact h
    · split
      · exact h.settled (settled_settle _ _) (isOpen_of_filter _) rfl rfl fun _ _ hcall => hcall
      · exact h

theorem Lanes.run (actions : List Action) :
    Base (SummitFlow.run HeavyWork.next Sys.initial actions) ∧
      Lanes (SummitFlow.run HeavyWork.next Sys.initial actions) := by
  apply run_invariant (P := fun s => Base s ∧ Lanes s)
  · intro s a _ h
    exact ⟨h.1.next a, h.2.next h.1 a⟩
  · exact ⟨Base.initial, Lanes.initial⟩

/-! ## Live holders -/

/-- A live process has a copy of a descriptor that was granted the lane. -/
def Holder (s : Sys) (lane : Lane) (pid : Nat) (text : Text) : Prop :=
  ∃ d ∈ s.kernel.descriptors, d.pid = pid ∧ s.grants d.ofd = some ⟨lane, text⟩

/-- Some open file description has the lane's activity lock shared. -/
def SharedActivity (s : Sys) (lane : Lane) : Prop :=
  ∃ ofd, ⟨ofd, .shared⟩ ∈ s.kernel.locks ∧ s.kernel.fileOf ofd = some (.activity lane)

/-- The copies of a granted descriptor share the activity lock of the lane, whose admission
    file has the text they were granted. -/
theorem Lanes.holder {s : Sys} (h : Lanes s) {lane : Lane} {pid : Nat} {text : Text}
    (hholder : Holder s lane pid text) : text = s.texts lane ∧ SharedActivity s lane := by
  obtain ⟨d, hd, -, hgrant⟩ := hholder
  obtain ⟨hfile, hlock, htext⟩ := h.granted _ _ hgrant (Kernel.isOpen_iff.mpr ⟨d, hd, rfl⟩)
  exact ⟨htext.symm, d.ofd, hlock, hfile⟩

/-- The text of a lane does not change while its activity lock is shared. -/
theorem texts_stable {s : Sys} (hbase : Base s) {lane : Lane} (hshared : SharedActivity s lane)
    (a : Action) : (next s a).texts lane = s.texts lane := by
  have hstart : ∀ c args pos, (s.start c args pos).texts = s.texts := by
    intro c args pos
    unfold Sys.start
    split <;> rfl
  cases a with
  | advance c input =>
    rcases advance_cases s c input with heq | ⟨call, s', vars, answer, hcall, hexec, hnext⟩
    · exact congrArg (·.texts lane) heq
    have htexts : s'.texts lane = s.texts lane := by
      by_contra hchanged
      obtain ⟨-, w, -, ⟨hd, hv, hfile, hexclusive⟩⟩ :=
        (hbase.calls c call hcall).writes hexec hchanged
      obtain ⟨ofd, hlock, hactivity⟩ := hshared
      have hmode := (hbase.wf.exclusive_unique (hexclusive _ rfl) hlock
        (hfile.trans hactivity.symm)).2
      cases hmode
    show (s.advance c input).texts lane = s.texts lane
    rcases hnext with ⟨-, heq⟩ | ⟨pos, -, heq⟩
    · rw [heq]
      exact htexts
    · rw [heq]
      exact htexts
  | begin c pid requested existing environment =>
    simp only [HeavyWork.next]
    split
    · rw [hstart]
    · rfl
  | observe c pid requested => cases requested <;> exact congrFun (hstart _ _ _) lane
  | fork parent child start =>
    simp only [HeavyWork.next]
    split <;> rfl
  | kill pid reaper =>
    simp only [HeavyWork.next]
    split <;> rfl
  | reap pid =>
    simp only [HeavyWork.next]
    split <;> rfl
  | drop pid fd =>
    simp only [HeavyWork.next, Sys.drop]
    split
    · rfl
    · split <;> rfl

/-- In every run, on each lane: the live holders were all admitted to one generation, the
    text that is stored now and that nobody has changed since; that text does not change
    while anybody has the activity lock shared; and a call that is admitted is a holder of
    its generation, which is the one in its token when it came in as a descendant. -/
theorem heavy_lanes_exclusive (actions : List Action) :
    let s := run next Sys.initial actions
    (∀ lane pid pid' text text', Holder s lane pid text → Holder s lane pid' text' →
      text = text' ∧ text = s.texts lane) ∧
    (∀ lane, SharedActivity s lane → ∀ a, (next s a).texts lane = s.texts lane) ∧
    (∀ c call slot generation, s.calls c = some call →
      call.pos.admitted = some (slot, generation) →
      ∃ text, Holder s slot.lane call.args.pid text ∧ text.content = generation) ∧
    (∀ c call slot generation, s.calls c = some call →
      call.pos.stage = .admitted slot generation true →
      ∃ claim, parseToken call.args.token slot.lane call.args.pid = .ok (some claim) ∧
        claim.generation = generation) := by
  intro s
  obtain ⟨hbase, h⟩ := Lanes.run actions
  refine ⟨?_, ?_, ?_, ?_⟩
  · intro lane pid pid' text text' hholder hholder'
    have htext := (h.holder hholder).1
    have htext' := (h.holder hholder').1
    exact ⟨htext.trans htext'.symm, htext⟩
  · intro lane hshared a
    exact texts_stable hbase hshared a
  · intro c call slot generation hcall hadmitted
    obtain ⟨hd, ⟨lane, text⟩, hv, hgrant, rfl, htext⟩ :=
      (h.calls c call hcall).admitted slot generation hadmitted
    exact ⟨text, ⟨_, (hbase.calls c call hcall).own.descriptor _ hd hv, rfl, hgrant⟩, htext⟩
  · intro c call slot generation hcall hstage
    exact (h.calls c call hcall).descends slot generation hstage

end SummitFlow.HeavyWork
