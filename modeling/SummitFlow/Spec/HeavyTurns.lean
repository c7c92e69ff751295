import SummitFlow.Spec.HeavyQueue

/-!
# First come, first served

The lock directory changes under the metadata lock only.  A waiter has its ticket locked
and signed before it leaves the section that made it, so whoever reads the directory
later finds the ticket locked by another description and signed by a live process, and
keeps it.  What a call has read of the directory stays true while it is in the section.
-/

namespace SummitFlow.HeavyWork

open Flock (Mode Attempt Kernel Lock)

/-! ## The lock directory -/

section

variable {s s' : Sys} {c : Nat} {call : Call} {input : Input} {vars : Var → Option Handle}

theorem exec_openTicket {v : Var} {name : String} {answer : Unit}
    (h : s.exec c call input (.openTicket v name) = some (s', vars, answer)) :
    s'.dir = (s.entry name).1.dir ∧
      vars = Function.update call.vars v (some ⟨input.fd, s.kernel.opened.length⟩) ∧
      s'.kernel.fileOf s.kernel.opened.length = some (.ticket (s.entry name).2) ∧
      s.kernel.opened.length < s'.kernel.opened.length := by
  simp only [Sys.exec] at h
  split at h
  · cases h
    simp only [Sys.openFile, kernel_entry, true_and]
    refine ⟨Kernel.fileOf_opened _ _ _ _, ?_⟩
    simp [Kernel.openFile]
  · cases h

theorem exec_sign {answer : Unit} (h : s.exec c call input .sign = some (s', vars, answer)) :
    s'.kernel = s.kernel ∧ vars = call.vars ∧
      ∃ inode p, s.fileOf call.vars .waiter = some (.ticket inode) ∧
        s.procs call.args.pid = some p ∧ s'.dir = s.dir.map fun file =>
          if file.inode = inode then { file with record := some ⟨call.args.pid, p.start⟩ }
          else file := by
  simp only [Sys.exec] at h
  split at h
  · next inode p hfile hp =>
    cases h
    exact ⟨rfl, rfl, inode, p, hfile, hp, rfl⟩
  · cases h

theorem exec_flock {v : Var} {mode : Mode} {answer : Attempt}
    (h : s.exec c call input (.flock v mode) = some (s', vars, answer)) :
    ∃ hd, call.vars v = some hd ∧ s'.kernel = (s.kernel.flock hd.ofd mode).1 ∧
      vars = call.vars ∧ answer = (s.kernel.flock hd.ofd mode).2 := by
  simp only [Sys.exec] at h
  split at h
  · cases h
  · next hd hv =>
    cases h
    exact ⟨hd, hv, rfl, rfl, rfl⟩

theorem exec_record {answer : Option Identity}
    (h : s.exec c call input .record = some (s', vars, answer)) :
    ∃ inode, s.fileOf call.vars .probe = some (.ticket inode) ∧
      answer = (s.dir.find? (·.inode = inode)).bind WaitFile.record := by
  simp only [Sys.exec] at h
  split at h
  · next inode hfile =>
    cases h
    exact ⟨inode, hfile, rfl⟩
  · cases h

theorem dir_of_not_files {op : Op} {answer : op.Answer}
    (h : s.exec c call input op = some (s', vars, answer)) (hfiles : op.files = false) :
    s'.dir = s.dir := by
  cases op with
  | openTicket v name | sign | unlink name => cases hfiles
  | «open» v file =>
    simp only [Sys.exec] at h
    split at h
    · cases h
      rfl
    · split at h <;> cases h
      rfl
  | close v =>
    simp only [Sys.exec] at h
    split at h <;> cases h <;> rfl
  | flock v mode | unlock v | pread v | pwrite v text | record | ask =>
    simp only [Sys.exec] at h
    split at h <;> cases h
    rfl
  | stat pid | fdFile pid fd | fdLock pid fd | «exists» file | glob w =>
    cases h
    rfl

/-- What a system call does to the lock directory. -/
theorem exec_dir {op : Op} {answer : op.Answer}
    (h : s.exec c call input op = some (s', vars, answer)) :
    s'.dir = s.dir ∨
    (∃ v name, op = .openTicket v name ∧ s'.dir = (s.entry name).1.dir ∧
      s.kernel.opened.length < s'.kernel.opened.length) ∨
    (op = .sign ∧ ∃ inode p, s.fileOf call.vars .waiter = some (.ticket inode) ∧
      s.procs call.args.pid = some p ∧ s'.dir = s.dir.map fun file =>
        if file.inode = inode then { file with record := some ⟨call.args.pid, p.start⟩ } else file) ∨
    (∃ name, op = .unlink name ∧ s'.dir = s.dir.filter (·.name ≠ name)) := by
  cases op with
  | openTicket v name =>
    obtain ⟨hdir, -, -, hlt⟩ := exec_openTicket h
    exact .inr (.inl ⟨v, name, rfl, hdir, hlt⟩)
  | sign =>
    obtain ⟨-, -, hsign⟩ := exec_sign h
    exact .inr (.inr (.inl ⟨rfl, hsign⟩))
  | unlink name =>
    cases h
    exact .inr (.inr (.inr ⟨name, rfl, rfl⟩))
  | _ => exact .inl (dir_of_not_files h rfl)

end

/-- Files of the lock directory are tickets, each with a name and an inode of its own. -/
structure Tickets (s : Sys) : Prop where
  named : ∀ f ∈ s.dir, ∃ w order uuid, f.name = ticketName w order uuid
  name_inj : ∀ f ∈ s.dir, ∀ f' ∈ s.dir, f.name = f'.name → f = f'
  inode_inj : ∀ f ∈ s.dir, ∀ f' ∈ s.dir, f.inode = f'.inode → f = f'
  inode_lt : ∀ f ∈ s.dir, f.inode < s.kernel.opened.length

theorem opened_length_le {s s' : Sys} {c : Nat} {call : Call} {input : Input} {op : Op}
    {vars : Var → Option Handle} {answer : op.Answer}
    (h : s.exec c call input op = some (s', vars, answer)) :
    s.kernel.opened.length ≤ s'.kernel.opened.length := by
  by_contra hlt
  -- the last description of `s` would be gone
  have hlast : s'.kernel.opened.length < s.kernel.opened.length := by omega
  have hstep := (exec_step h).1.opened_mono (List.getElem?_eq_getElem hlast)
  have := (List.getElem?_eq_some_iff.mp hstep).1
  omega

section

variable {s : Sys}

/-- `open` finds the file of a name, or makes one. -/
theorem entry_cases (s : Sys) (name : String) :
    (∃ f ∈ s.dir, f.name = name ∧ s.entry name = (s, f.inode)) ∨
    (∀ f ∈ s.dir, f.name ≠ name) ∧ s.entry name =
      ({ s with dir := s.dir ++ [⟨name, s.kernel.opened.length, none⟩] },
        s.kernel.opened.length) := by
  unfold Sys.entry
  split
  · next f hfind =>
    have hname := List.find?_some hfind
    exact .inl ⟨f, List.mem_of_find?_eq_some hfind, by simpa using hname, rfl⟩
  · next hnone =>
    refine .inr ⟨fun f hf => ?_, rfl⟩
    simpa using List.find?_eq_none.mp hnone f hf

/-- The file that `open` gives is in the directory. -/
theorem entry_mem (s : Sys) (name : String) :
    ∃ f ∈ (s.entry name).1.dir, f.name = name ∧ f.inode = (s.entry name).2 := by
  rcases entry_cases s name with ⟨f, hf, hname, heq⟩ | ⟨-, heq⟩
  · rw [heq]
    exact ⟨f, hf, hname, rfl⟩
  · rw [heq]
    exact ⟨_, List.mem_append_right _ List.mem_cons_self, rfl, rfl⟩

theorem mem_entry {f : WaitFile} (hf : f ∈ s.dir) (name : String) : f ∈ (s.entry name).1.dir := by
  rcases entry_cases s name with ⟨f₀, -, -, heq⟩ | ⟨-, heq⟩
  · rw [heq]
    exact hf
  · rw [heq]
    exact List.mem_append_left _ hf

theorem name_of_mem_entry {name : String} {f : WaitFile} (hf : f ∈ (s.entry name).1.dir) :
    f ∈ s.dir ∨ f.name = name := by
  rcases entry_cases s name with ⟨f₀, -, -, heq⟩ | ⟨-, heq⟩
  · rw [heq] at hf
    exact .inl hf
  · rw [heq] at hf
    rcases List.mem_append.mp hf with hf | hf
    · exact .inl hf
    · rw [List.mem_singleton.mp hf]
      exact .inr rfl

theorem Tickets.entry (h : Tickets s) {s' : Sys} {name : String}
    (hname : ∃ w order uuid, name = ticketName w order uuid) (hdir : s'.dir = (s.entry name).1.dir)
    (hlt : s.kernel.opened.length < s'.kernel.opened.length) : Tickets s' := by
  rcases entry_cases s name with ⟨f₀, -, -, heq⟩ | ⟨hnew, heq⟩
  · rw [heq] at hdir
    simp only at hdir
    refine ⟨?_, ?_, ?_, ?_⟩
    · rw [hdir]
      exact h.named
    · rw [hdir]
      exact h.name_inj
    · rw [hdir]
      exact h.inode_inj
    · rw [hdir]
      exact fun f hf => lt_trans (h.inode_lt f hf) hlt
  · rw [heq] at hdir
    have hcases : ∀ f ∈ s'.dir, f ∈ s.dir ∨ f = ⟨name, s.kernel.opened.length, none⟩ := by
      intro f hf
      rw [hdir] at hf
      exact (List.mem_append.mp hf).imp_right List.mem_singleton.mp
    refine ⟨?_, ?_, ?_, ?_⟩
    · intro f hf
      rcases hcases f hf with hf | rfl
      · exact h.named f hf
      · exact hname
    · intro f hf f' hf' heq
      rcases hcases f hf with hf | rfl
      · rcases hcases f' hf' with hf' | rfl
        · exact h.name_inj f hf f' hf' heq
        · exact absurd heq (hnew f hf)
      · rcases hcases f' hf' with hf' | rfl
        · exact absurd heq.symm (hnew f' hf')
        · rfl
    · intro f hf f' hf' heq
      rcases hcases f hf with hf | rfl
      · rcases hcases f' hf' with hf' | rfl
        · exact h.inode_inj f hf f' hf' heq
        · have := h.inode_lt f hf
          simp only at heq
          omega
      · rcases hcases f' hf' with hf' | rfl
        · have := h.inode_lt f' hf'
          simp only at heq
          omega
        · rfl
    · intro f hf
      rcases hcases f hf with hf | rfl
      · exact lt_trans (h.inode_lt f hf) hlt
      · exact hlt

theorem Tickets.sign (h : Tickets s) {s' : Sys} {inode : Nat} {record : Option Identity}
    (hdir : s'.dir = s.dir.map fun file =>
      if file.inode = inode then { file with record := record } else file)
    (hle : s.kernel.opened.length ≤ s'.kernel.opened.length) : Tickets s' := by
  have hcases : ∀ f ∈ s'.dir, ∃ f₀ ∈ s.dir, f.name = f₀.name ∧ f.inode = f₀.inode ∧
      f = if f₀.inode = inode then { f₀ with record := record } else f₀ := by
    intro f hf
    rw [hdir] at hf
    obtain ⟨f₀, hf₀, rfl⟩ := List.mem_map.mp hf
    refine ⟨f₀, hf₀, ?_, ?_, rfl⟩ <;> split <;> rfl
  refine ⟨?_, ?_, ?_, ?_⟩
  · intro f hf
    obtain ⟨f₀, hf₀, hname, -⟩ := hcases f hf
    rw [hname]
    exact h.named f₀ hf₀
  · intro f hf f' hf' heq
    obtain ⟨f₀, hf₀, hname, -, hval⟩ := hcases f hf
    obtain ⟨f₁, hf₁, hname₁, -, hval₁⟩ := hcases f' hf'
    rw [hval, hval₁, h.name_inj f₀ hf₀ f₁ hf₁ (hname.symm.trans (heq.trans hname₁))]
  · intro f hf f' hf' heq
    obtain ⟨f₀, hf₀, -, hinode, hval⟩ := hcases f hf
    obtain ⟨f₁, hf₁, -, hinode₁, hval₁⟩ := hcases f' hf'
    rw [hval, hval₁, h.inode_inj f₀ hf₀ f₁ hf₁ (hinode.symm.trans (heq.trans hinode₁))]
  · intro f hf
    obtain ⟨f₀, hf₀, -, hinode, -⟩ := hcases f hf
    rw [hinode]
    exact lt_of_lt_of_le (h.inode_lt f₀ hf₀) hle

/-- Fewer files. -/
theorem Tickets.subset (h : Tickets s) {s' : Sys} (hdir : s'.dir ⊆ s.dir)
    (hle : s.kernel.opened.length ≤ s'.kernel.opened.length) : Tickets s' where
  named f hf := h.named f (hdir hf)
  name_inj f hf f' hf' := h.name_inj f (hdir hf) f' (hdir hf')
  inode_inj f hf f' hf' := h.inode_inj f (hdir hf) f' (hdir hf')
  inode_lt f hf := lt_of_lt_of_le (h.inode_lt f (hdir hf)) hle

end

/-! ## Waiters -/

/-- The call waits with this ticket. -/
def Waits (s : Sys) (c : Nat) (ticket : Ticket) : Prop :=
  ∃ call, s.calls c = some call ∧ call.pos.ticket = some ticket

/-- Every other waiter of the class has a later ticket. -/
def First (s : Sys) (c : Nat) (ticket : Ticket) : Prop :=
  ∀ c' ticket', Waits s c' ticket' → c' ≠ c → ticket'.workClass = ticket.workClass →
    ticket.order < ticket'.order

/-- The lock a waiter has on its ticket. -/
def Position.waiterLock : Position → Option Mode
  | .lockTicket _ => none
  | _ => some .exclusive

/-- The record of the ticket is written. -/
def Position.signed : Position → Bool
  | .lockTicket _ | .sign _ => false
  | _ => true

/-- The file of a waiter. -/
structure Files (s : Sys) (call : Call) (ticket : Ticket) (f : WaitFile) : Prop where
  mem : f ∈ s.dir
  name : f.name = ticket.name
  waiter : Fact.Holds s.kernel call.vars ⟨.waiter, .ticket f.inode, call.pos.waiterLock⟩
  record : call.pos.signed = true →
    ∃ p, s.procs call.args.pid = some p ∧ f.record = some ⟨call.args.pid, p.start⟩

/-- `_waiters` has these names of live waiters and those names to look at. -/
structure Scanned (dir : List WaitFile) (w : WorkClass) (kept todo : List String) : Prop where
  covers : ∀ f ∈ dir, globMatches w f.name = true → f.name ∈ kept ∨ f.name ∈ todo
  valid : ∀ name ∈ kept, ∃ order uuid, name = ticketName w order uuid ∧ order < 10 ^ 20
  named : ∀ name ∈ todo, ∃ order uuid, name = ticketName w order uuid

/-- The probe is open for the file of this name. -/
def Probes (s : Sys) (call : Call) (name : String) : Prop :=
  ∃ f ∈ s.dir, f.name = name ∧ Fact.Holds s.kernel call.vars ⟨.probe, .ticket f.inode, none⟩

/-- Whoever waits with the ticket of this name has signed it so. -/
def SignedBy (s : Sys) (name : String) (identity : Identity) : Prop :=
  ∀ c call ticket, s.calls c = some call → call.pos.ticket = some ticket → ticket.name = name →
    ∃ p, s.procs call.args.pid = some p ∧ identity = ⟨call.args.pid, p.start⟩

/-- Nobody waits with the ticket of this name. -/
def Abandoned (s : Sys) (name : String) : Prop := ∀ c ticket, Waits s c ticket → ticket.name ≠ name

/-- What the loop of `_waiters` has read before it is through with a path. -/
def Scan.Reads (scan : Scan) (s : Sys) : Prop :=
  Scanned s.dir scan.errand.workClass (scan.kept ++ [scan.path]) scan.rest

/-- What a call has read of the lock directory. -/
def Knows (s : Sys) (c : Nat) (call : Call) : Prop :=
  match call.pos with
  | .probeOpen scan => scan.Reads s
  | .probeLock scan | .probeRecord scan => scan.Reads s ∧ Probes s call scan.path
  | .probeStatus scan identity => scan.Reads s ∧ SignedBy s scan.path identity
  | .probeUnlink scan => scan.Reads s ∧ Abandoned s scan.path
  | .probeClose scan live => Scanned s.dir scan.errand.workClass
      (if live then scan.kept ++ [scan.path] else scan.kept) scan.rest
  | .order home names => Scanned s.dir home.workClass names [] ∧ names.Pairwise (· ≤ ·)
  | .create ticket => ∀ f ∈ s.dir, ∀ order uuid,
      f.name = ticketName ticket.workClass order uuid → order < ticket.order
  | .tryAdmission ticket _ | .tryActivity ticket _ | .giveBack ticket _ | .askSpare ticket
  | .unlinkTicket ticket _ => First s c ticket
  | _ => True

/-- The waiters and their files. -/
structure Line (s : Sys) : Prop where
  tickets : Tickets s
  filed : ∀ c call ticket, s.calls c = some call → call.pos.ticket = some ticket →
    ∃ f, Files s call ticket f
  numbered : ∀ c ticket, Waits s c ticket → s.numbers c < s.issued
  distinct : ∀ c c' ticket ticket', Waits s c ticket → Waits s c' ticket' →
    s.numbers c = s.numbers c' → c = c'
  ordered : ∀ c c' ticket ticket', Waits s c ticket → Waits s c' ticket' →
    ticket.workClass = ticket'.workClass → s.numbers c < s.numbers c' →
    ticket.order < ticket'.order

/-- The invariant of the queue. -/
structure Queue (s : Sys) : Prop extends Line s where
  knows : ∀ c call, s.calls c = some call → Knows s c call

theorem not_waits_initial {c : Nat} {ticket : Ticket} : ¬ Waits Sys.initial c ticket := by
  rintro ⟨call, hcall, -⟩
  cases hcall

theorem Queue.initial : Queue Sys.initial where
  tickets := ⟨nofun, nofun, nofun, nofun⟩
  filed _ _ _ h := nomatch h
  numbered _ _ h := absurd h not_waits_initial
  distinct _ _ _ _ h := absurd h not_waits_initial
  ordered _ _ _ _ h := absurd h not_waits_initial
  knows _ _ h := nomatch h

theorem knows_of_quiet {s : Sys} {c : Nat} {call : Call} (h : call.pos.quiet = true) :
    Knows s c call := by
  obtain ⟨args, vars, pos⟩ := call
  cases pos <;> trivial

theorem knows_of_elected {s : Sys} {c : Nat} {call : Call} {ticket : Ticket}
    (h : call.pos.elected = some ticket) : Knows s c call ↔ First s c ticket := by
  obtain ⟨args, vars, pos⟩ := call
  cases pos <;> cases h <;> rfl

section

variable {s : Sys}

/-- Waiters have different numbers in their tickets. -/
theorem Line.order_ne (h : Line s) {c c' : Nat} {ticket ticket' : Ticket}
    (hw : Waits s c ticket) (hw' : Waits s c' ticket') (hne : c ≠ c')
    (hclass : ticket.workClass = ticket'.workClass) : ticket.order ≠ ticket'.order := by
  have hnumber : s.numbers c ≠ s.numbers c' :=
    fun heq => hne (h.distinct c c' ticket ticket' hw hw' heq)
  rcases Nat.lt_or_gt_of_ne hnumber with hlt | hgt
  · have := h.ordered c c' ticket ticket' hw hw' hclass hlt
    omega
  · have := h.ordered c' c ticket' ticket hw' hw hclass.symm hgt
    omega

theorem Line.name_ne (h : Line s) {c c' : Nat} {ticket ticket' : Ticket}
    (hw : Waits s c ticket) (hw' : Waits s c' ticket') (hne : c ≠ c') :
    ticket.name ≠ ticket'.name := by
  intro heq
  obtain ⟨hclass, horder⟩ := ticketName_inj heq
  exact h.order_ne hw hw' hne hclass horder

end

/-! ## What others leave alone -/

/-- The directory is as it was, and there is no new waiter. -/
structure Calm (s s' : Sys) : Prop where
  dir : s'.dir = s.dir
  waits : ∀ c call ticket, s'.calls c = some call → call.pos.ticket = some ticket →
    ∃ call₀, s.calls c = some call₀ ∧ call₀.pos.ticket = some ticket ∧ call₀.args = call.args
  starts : ∀ pid p, s.procs pid = some p → s'.alive pid = true →
    ∃ p', s'.procs pid = some p' ∧ p'.start = p.start

section

variable {s s' : Sys} {c : Nat} {call : Call}

theorem Calm.waits_of (h : Calm s s') {ticket : Ticket} (hw : Waits s' c ticket) :
    Waits s c ticket := by
  obtain ⟨call', hcall', hticket⟩ := hw
  obtain ⟨call₀, hcall₀, hticket₀, -⟩ := h.waits c call' ticket hcall' hticket
  exact ⟨call₀, hcall₀, hticket₀⟩

theorem Calm.signedBy (h : Calm s s') (hbase : Base s') {name : String} {identity : Identity}
    (hsigned : SignedBy s name identity) : SignedBy s' name identity := by
  intro c' call' ticket hcall' hticket hname
  obtain ⟨call₀, hcall₀, hticket₀, hargs⟩ := h.waits c' call' ticket hcall' hticket
  obtain ⟨p, hp, rfl⟩ := hsigned c' call₀ ticket hcall₀ hticket₀ hname
  rw [hargs] at hp ⊢
  obtain ⟨p', hp', hstart⟩ := h.starts _ p hp (hbase.calls c' call' hcall').alive
  exact ⟨p', hp', by rw [hstart]⟩

theorem Calm.reads (h : Calm s s') {scan : Scan} (hreads : scan.Reads s) : scan.Reads s' := by
  unfold Scan.Reads
  rw [h.dir]
  exact hreads

theorem Calm.abandoned (h : Calm s s') {name : String} (habandoned : Abandoned s name) :
    Abandoned s' name :=
  fun c' ticket hw => habandoned c' ticket (h.waits_of hw)

theorem Calm.first (h : Calm s s') {ticket : Ticket} (hfirst : First s c ticket) :
    First s' c ticket :=
  fun c' ticket' hw hne hclass => hfirst c' ticket' (h.waits_of hw) hne hclass

theorem Calm.probes (h : Calm s s') {name : String}
    (hfacts : ∀ fact : Fact, fact.Holds s.kernel call.vars → fact.Holds s'.kernel call.vars)
    (hprobes : Probes s call name) : Probes s' call name := by
  obtain ⟨f, hf, hname, hfact⟩ := hprobes
  exact ⟨f, by rw [h.dir]; exact hf, hname, hfacts _ hfact⟩

/-- What a call has read stays true. -/
theorem Calm.knows (h : Calm s s') (hbase : Base s')
    (hfacts : ∀ fact : Fact, fact.Holds s.kernel call.vars → fact.Holds s'.kernel call.vars)
    (hknows : Knows s c call) : Knows s' c call := by
  obtain ⟨args, vars, pos⟩ := call
  cases pos with
  | probeOpen scan => exact h.reads hknows
  | probeLock scan | probeRecord scan => exact ⟨h.reads hknows.1, h.probes hfacts hknows.2⟩
  | probeStatus scan identity => exact ⟨h.reads hknows.1, h.signedBy hbase hknows.2⟩
  | probeUnlink scan => exact ⟨h.reads hknows.1, h.abandoned hknows.2⟩
  | probeClose scan live =>
    show Scanned s'.dir _ _ _
    rw [h.dir]
    exact hknows
  | order home names =>
    refine ⟨?_, hknows.2⟩
    rw [h.dir]
    exact hknows.1
  | create ticket =>
    show ∀ f ∈ s'.dir, _
    rw [h.dir]
    exact hknows
  | tryAdmission ticket spare | tryActivity ticket spare | giveBack ticket spare
  | askSpare ticket | unlinkTicket ticket spare => exact h.first hknows
  | _ => trivial

theorem Files.of_calm (hfacts : ∀ fact : Fact, fact.Holds s.kernel call.vars →
      fact.Holds s'.kernel call.vars) (h : Calm s s') (halive : s'.alive call.args.pid = true)
    {ticket : Ticket} {f : WaitFile} (hf : Files s call ticket f) : Files s' call ticket f where
  mem := by
    rw [h.dir]
    exact hf.mem
  name := hf.name
  waiter := hfacts _ hf.waiter
  record hsigned := by
    obtain ⟨p, hp, hrecord⟩ := hf.record hsigned
    obtain ⟨p', hp', hstart⟩ := h.starts _ p hp halive
    exact ⟨p', hp', by rw [hrecord, hstart]⟩

/-- Processes come and go, and calls begin. -/
structure Outside (s s' : Sys) : Prop where
  kernel : Settled s.kernel s'.kernel
  dir : s'.dir = s.dir
  issued : s'.issued = s.issued
  numbers : s'.numbers = s.numbers
  calls : ∀ c call, s'.calls c = some call →
    s.calls c = some call ∨ call.pos.quiet = true ∧ call.pos.ticket = none
  starts : ∀ pid p, s.procs pid = some p → s'.alive pid = true →
    ∃ p', s'.procs pid = some p' ∧ p'.start = p.start

theorem Outside.rfl : Outside s s :=
  ⟨⟨Eq.refl _, fun _ hl _ => hl⟩, Eq.refl _, Eq.refl _, Eq.refl _, fun _ _ hcall => .inl hcall,
    fun _ p hp _ => ⟨p, hp, Eq.refl _⟩⟩

theorem Outside.calls_of (h : Outside s s') {ticket : Ticket} (hcall : s'.calls c = some call)
    (hticket : call.pos.ticket = some ticket) : s.calls c = some call := by
  rcases h.calls c call hcall with hcall | ⟨-, hnone⟩
  · exact hcall
  · rw [hnone] at hticket
    cases hticket

theorem Outside.calm (h : Outside s s') : Calm s s' where
  dir := h.dir
  waits _ call _ hcall hticket := ⟨call, h.calls_of hcall hticket, hticket, Eq.refl _⟩
  starts := h.starts

/-- This leaves the queue alone. -/
theorem Queue.outside (h : Queue s) (hbase : Base s') (hout : Outside s s') : Queue s' := by
  have hcalm := hout.calm
  have hfacts : ∀ c call, s'.calls c = some call → ∀ fact : Fact,
      fact.Holds s.kernel call.vars → fact.Holds s'.kernel call.vars :=
    fun c call hcall fact hfact => hfact.settled hout.kernel (hbase.calls c call hcall).own
  refine ⟨⟨?_, ?_, ?_, ?_, ?_⟩, ?_⟩
  · exact h.tickets.subset (hout.dir ▸ fun _ hf => hf) (by rw [hout.kernel.opened])
  · intro c call ticket hcall hticket
    obtain ⟨f, hf⟩ := h.filed c call ticket (hout.calls_of hcall hticket) hticket
    exact ⟨f, hf.of_calm (hfacts c call hcall) hcalm (hbase.calls c call hcall).alive⟩
  · intro c ticket hw
    rw [hout.issued, hout.numbers]
    exact h.numbered c ticket (hcalm.waits_of hw)
  · intro c c' ticket ticket' hw hw'
    rw [hout.numbers]
    exact h.distinct c c' ticket ticket' (hcalm.waits_of hw) (hcalm.waits_of hw')
  · intro c c' ticket ticket' hw hw'
    rw [hout.numbers]
    exact h.ordered c c' ticket ticket' (hcalm.waits_of hw) (hcalm.waits_of hw')
  · intro c call hcall
    rcases hout.calls c call hcall with hcall₀ | ⟨hquiet, -⟩
    · exact hcalm.knows hbase (hfacts c call hcall) (h.knows c call hcall₀)
    · exact knows_of_quiet hquiet

end

/-! ## Who changes the directory -/

section

theorem openTicket_cases {args : Args} {pos : Position} {v : Var} {name : String}
    (h : (pos.next args).1 = .openTicket v name) :
    (∃ scan, pos = .probeOpen scan ∧ name = scan.path) ∨
    ∃ ticket, pos = .create ticket ∧ name = ticket.name := by
  cases pos with
  | probeOpen scan =>
    cases h
    exact .inl ⟨scan, rfl, rfl⟩
  | create ticket =>
    cases h
    exact .inr ⟨ticket, rfl, rfl⟩
  | look lane claim a look good => cases look <;> cases h
  | _ => cases h

theorem sign_cases {args : Args} {pos : Position} (h : (pos.next args).1 = .sign) :
    ∃ ticket, pos = .sign ticket := by
  cases pos with
  | sign ticket => exact ⟨ticket, rfl⟩
  | look lane claim a look good => cases look <;> cases h
  | _ => cases h

/-- A file is removed by its waiter, or by a call that found it abandoned. -/
theorem unlink_cases {args : Args} {pos : Position} {name : String}
    (h : (pos.next args).1 = .unlink name) :
    (∃ scan, pos = .probeUnlink scan ∧ name = scan.path) ∨
    ∃ ticket, pos.ticket = some ticket ∧ name = ticket.name ∧
      ∀ answer pos', (pos.next args).2 answer = some pos' → pos'.ticket = none := by
  cases pos with
  | probeUnlink scan =>
    cases h
    exact .inl ⟨scan, rfl, rfl⟩
  | unlinkTicket ticket spare | unlinkOwn ticket =>
    cases h
    refine .inr ⟨ticket, rfl, rfl, fun answer pos' hnext => ?_⟩
    cases hnext
    rfl
  | look lane claim a look good => cases look <;> cases h
  | _ => cases h

end

/-! ## The step of a call -/

section

variable {s s' : Sys} {c : Nat} {call : Call} {input : Input} {vars : Var → Option Handle}
  {answer : (call.pos.next call.args).1.Answer}

theorem Files.inode_eq {ticket : Ticket} {f : WaitFile} (hf : Files s call ticket f) {inode : Nat}
    (h : s.fileOf call.vars .waiter = some (.ticket inode)) : f.inode = inode := by
  obtain ⟨hd, hv, hfile, -⟩ := hf.waiter
  rw [Sys.fileOf, hv, Option.bind_some, hfile] at h
  cases h
  rfl

/-- No other call takes or changes the file of a waiter. -/
theorem Queue.file_stays (h : Queue s) (hcall : s.calls c = some call)
    (hexec : s.exec c call input (call.pos.next call.args).1 = some (s', vars, answer))
    {c' : Nat} {ticket : Ticket} {f : WaitFile} (hw : Waits s c' ticket) (hne : c' ≠ c)
    (hf : f ∈ s.dir) (hname : f.name = ticket.name) : f ∈ s'.dir := by
  rcases exec_dir hexec with hdir | ⟨v, name, -, hdir, -⟩ | ⟨hop, inode, p, hfile, -, hdir⟩ |
    ⟨name, hop, hdir⟩
  · rw [hdir]
    exact hf
  · rw [hdir]
    exact mem_entry hf name
  · -- the call signs its own file, which has another name
    obtain ⟨own, hpos⟩ := sign_cases hop
    have hticket : call.pos.ticket = some own := by rw [hpos]; rfl
    obtain ⟨f₀, hf₀⟩ := h.filed c call own hcall hticket
    have hinode : f.inode ≠ inode := by
      intro heq
      have hsame := h.tickets.inode_inj f hf f₀ hf₀.mem (heq.trans (hf₀.inode_eq hfile).symm)
      apply h.name_ne hw ⟨call, hcall, hticket⟩ hne
      rw [← hname, hsame, hf₀.name]
    rw [hdir]
    exact List.mem_map.mpr ⟨f, hf, if_neg hinode⟩
  · rw [hdir]
    refine List.mem_filter.mpr ⟨hf, ?_⟩
    simp only [ne_eq, decide_eq_true_eq, hname]
    rcases unlink_cases hop with ⟨scan, hpos, rfl⟩ | ⟨own, hticket, rfl, -⟩
    · have hknows := h.knows c call hcall
      simp only [Knows, hpos] at hknows
      exact hknows.2 c' ticket hw
    · exact h.name_ne hw ⟨call, hcall, hticket⟩ hne

theorem Queue.tickets_exec (h : Queue s) (hcall : s.calls c = some call)
    (hexec : s.exec c call input (call.pos.next call.args).1 = some (s', vars, answer)) :
    Tickets s' := by
  have hle := opened_length_le hexec
  rcases exec_dir hexec with hdir | ⟨v, name, hop, hdir, hlt⟩ | ⟨-, inode, p, -, -, hdir⟩ |
    ⟨name, -, hdir⟩
  · exact h.tickets.subset (hdir ▸ fun _ hf => hf) hle
  · apply h.tickets.entry _ hdir hlt
    rcases openTicket_cases hop with ⟨scan, hpos, rfl⟩ | ⟨ticket, -, rfl⟩
    · have hknows := h.knows c call hcall
      simp only [Knows, hpos] at hknows
      obtain ⟨order, uuid, hpath, -⟩ := hknows.valid scan.path (by simp)
      exact ⟨_, order, uuid, hpath⟩
    · exact ⟨_, _, _, rfl⟩
  · exact h.tickets.sign hdir hle
  · refine h.tickets.subset ?_ hle
    rw [hdir]
    exact List.filter_subset_self _

/-- The host after a statement of a call: `s'` is what its system call made of `s`. -/
structure Step (s : Sys) (c : Nat) (call : Call) (s' : Sys) (vars : Var → Option Handle)
    (after : Option Position) (s₂ : Sys) : Prop where
  kernel : s₂.kernel = s'.kernel
  dir : s₂.dir = s'.dir
  procs : s₂.procs = s.procs
  other : ∀ c', c' ≠ c → s₂.calls c' = s.calls c'
  self : s₂.calls c = after.map fun pos => ⟨call.args, vars, pos⟩
  kept : (∀ ticket, call.pos ≠ .create ticket) → s₂.issued = s.issued ∧ s₂.numbers = s.numbers
  issued : ∀ ticket, call.pos = .create ticket →
    s₂.issued = s.issued + 1 ∧ s₂.numbers = Function.update s.numbers c s.issued

theorem step_advance (s : Sys) (c : Nat) (input : Input) :
    s.advance c input = s ∨ ∃ call s' vars answer, s.calls c = some call ∧
      s.exec c call input (call.pos.next call.args).1 = some (s', vars, answer) ∧
      Step s c call s' vars ((call.pos.next call.args).2 answer) (s.advance c input) := by
  rcases advance_cases s c input with heq | ⟨call, s', vars, answer, hcall, hexec, hnext⟩
  · exact .inl heq
  refine .inr ⟨call, s', vars, answer, hcall, hexec, ?_⟩
  obtain ⟨-, hkept⟩ := exec_step hexec
  rcases hnext with ⟨hnext, heq⟩ | ⟨pos, hnext, heq⟩
  · rw [heq, hnext]
    refine ⟨rfl, rfl, hkept.procs, fun c' hne => ?_, ?_, ?_, ?_⟩
    · simp [hne, hkept.calls]
    · simp
    · exact fun _ => ⟨hkept.issued, hkept.numbers⟩
    · intro ticket hpos
      -- `create` goes on
      obtain ⟨args, vars₀, pos⟩ := call
      cases hpos
      cases hnext
  · rw [heq, hnext]
    refine ⟨rfl, rfl, hkept.procs, fun c' hne => ?_, ?_, ?_, ?_⟩
    · simp [Sys.place, hne, hkept.calls]
    · simp [Sys.place]
    · intro hcreate
      have hsame : (call.pos.ticket = none && pos.ticket ≠ none) = false := by
        rcases (queue_next hnext).ticket with hnone | hsame | ⟨ticket, hpos, -⟩
        · simp [hnone]
        · simp [hsame]
        · exact absurd hpos (hcreate ticket)
      simp only [Sys.place, hsame]
      exact ⟨hkept.issued, hkept.numbers⟩
    · intro ticket hpos
      have hnew : (call.pos.ticket = none && pos.ticket ≠ none) = true := by
        obtain ⟨args, vars₀, pos₀⟩ := call
        cases hpos
        cases hnext
        rfl
      simp only [Sys.place, hnew, hkept.issued, hkept.numbers, if_true, and_self]

section

variable {after : Option Position} {s₂ : Sys}

theorem Step.calls_self (h : Step s c call s' vars after s₂) {call₂ : Call}
    (hcall : s₂.calls c = some call₂) :
    ∃ pos, after = some pos ∧ call₂ = ⟨call.args, vars, pos⟩ := by
  rw [h.self] at hcall
  obtain ⟨pos, hpos, rfl⟩ := Option.map_eq_some_iff.mp hcall
  exact ⟨pos, hpos, rfl⟩

theorem Step.waits_other (h : Step s c call s' vars after s₂) {c' : Nat} (hne : c' ≠ c)
    {ticket : Ticket} : Waits s₂ c' ticket ↔ Waits s c' ticket := by
  unfold Waits
  rw [h.other c' hne]

theorem Step.waits_self (h : Step s c call s' vars after s₂) {ticket : Ticket}
    (hw : Waits s₂ c ticket) : ∃ pos, after = some pos ∧ pos.ticket = some ticket := by
  obtain ⟨call₂, hcall₂, hticket⟩ := hw
  obtain ⟨pos, hpos, rfl⟩ := h.calls_self hcall₂
  exact ⟨pos, hpos, hticket⟩

end

/-- Whoever waits after the step waited before it, unless the step made the ticket. -/
theorem Step.waits_of {s₂ : Sys}
    (h : Step s c call s' vars ((call.pos.next call.args).2 answer) s₂)
    (hcall : s.calls c = some call) {c' : Nat} {ticket : Ticket} (hw : Waits s₂ c' ticket) :
    Waits s c' ticket ∨ c' = c ∧ call.pos = .create ticket := by
  by_cases hne : c' = c
  · subst hne
    obtain ⟨pos, hnext, hticket⟩ := h.waits_self hw
    rcases (queue_next hnext).ticket with hnone | hsame | ⟨own, hpos, rfl⟩
    · rw [hnone] at hticket
      cases hticket
    · exact .inl ⟨call, hcall, hsame ▸ hticket⟩
    · cases hticket
      exact .inr ⟨rfl, hpos⟩
  · exact .inl ((h.waits_other hne).mp hw)

/-- A waiter that has signed its ticket leaves the descriptor of it alone. -/
theorem waiter_untouched (args : Args) {pos : Position} {ticket : Ticket}
    (hticket : pos.ticket = some ticket) (hsigned : pos.signed = true) :
    (pos.next args).1.locked ≠ some .waiter ∧ (pos.next args).1.binds ≠ some .waiter := by
  cases pos with
  | look lane claim a look good | create ticket | closeWaiter home spare
  | closing v vs lanes => cases hticket
  | lockTicket ticket | sign ticket => cases hsigned
  | tryAdmission ticket spare | tryActivity ticket spare | giveBack ticket spare =>
    simp [Position.next, Op.locked, Op.binds, Slot.admission, Slot.activity]
  | _ =>
    constructor
    · intro h
      cases h
    · intro h
      cases h

theorem signed_of_quiet {pos : Position} (h : pos.quiet = true) : pos.signed = true := by
  cases pos <;> first | rfl | cases h

theorem waiterLock_of_signed {pos : Position} (h : pos.signed = true) :
    pos.waiterLock = some .exclusive := by
  cases pos <;> first | rfl | cases h

theorem signed_of_elected {pos : Position} {ticket : Ticket} (h : pos.elected = some ticket) :
    pos.signed = true := by
  cases pos <;> first | rfl | cases h

theorem signed_scanNext (errand : Errand) (kept todo : List String) :
    (scanNext errand kept todo).signed = true := by
  cases todo with
  | nil =>
    simp only [scanNext]
    unfold scanned
    split
    · rfl
    · split <;> rfl
    · rfl
  | cons path rest =>
    simp only [scanNext]
    split <;> rfl

/-- How a waiter can have come to a position. -/
theorem QueueStep.waiter {args : Args} {pos pos' : Position} {answer : (pos.next args).1.Answer}
    (h : QueueStep args pos answer pos') {ticket : Ticket} (hticket : pos'.ticket = some ticket) :
    (pos.ticket = some ticket ∧ pos.signed = true ∧ pos'.signed = true) ∨
    pos = .create ticket ∧ pos' = .lockTicket ticket ∨
    pos = .lockTicket ticket ∧ (pos' = .lockTicket ticket ∨
      pos' = .sign ticket ∧ HEq answer Attempt.granted) ∨
    pos = .sign ticket ∧ pos' = .leaveQueue (.elect ticket) := by
  have hsame := h.ticket
  rw [hticket] at hsame
  cases h with
  | without hplain =>
    rw [hplain.ticket] at hticket
    cases hticket
  | owner hchosen hquiet hnone =>
    rw [hnone] at hticket
    cases hticket
  | keep hquiet hquiet' hsame hchosen =>
    exact .inl ⟨hsame ▸ hticket, signed_of_quiet hquiet, signed_of_quiet hquiet'⟩
  | issue =>
    cases hticket
    exact .inr (.inl ⟨rfl, rfl⟩)
  | wait =>
    cases hticket
    exact .inr (.inr (.inl ⟨rfl, .inl rfl⟩))
  | lock =>
    cases hticket
    exact .inr (.inr (.inl ⟨rfl, .inr ⟨rfl, HEq.rfl⟩⟩))
  | sign =>
    cases hticket
    exact .inr (.inr (.inr ⟨rfl, rfl⟩))
  | scan hpos hanswer =>
    subst hpos
    rcases hsame with hnone | hsame | ⟨own, hpos, -⟩
    · cases hnone
    · exact .inl ⟨hsame.symm, rfl, signed_scanNext _ _ _⟩
    · cases hpos
  | next =>
    rcases hsame with hnone | hsame | ⟨own, hpos, -⟩
    · cases hnone
    · exact .inl ⟨hsame.symm, rfl, signed_scanNext _ _ _⟩
    · cases hpos
  | fail hpos =>
    subst hpos
    exact .inl ⟨hticket, rfl, rfl⟩
  | order => cases hticket
  | elected h h' =>
    rw [ticket_of_elected h'] at hticket
    exact .inl ⟨(ticket_of_elected h).trans hticket, signed_of_elected h, signed_of_elected h'⟩
  | leave h =>
    cases hticket
    exact .inl ⟨ticket_of_elected h, signed_of_elected h, rfl⟩
  | probe | again | abandoned | held | signed | dead | live | purged =>
    exact .inl ⟨hticket, rfl, rfl⟩

/-- A waiter keeps its file, until it removes it. -/
theorem Files.self {s₂ : Sys} (h : Queue s) (hbase : Base s) (hcall : s.calls c = some call)
    (hexec : s.exec c call input (call.pos.next call.args).1 = some (s', vars, answer))
    (hstep : Step s c call s' vars ((call.pos.next call.args).2 answer) s₂) {pos : Position}
    (hnext : (call.pos.next call.args).2 answer = some pos) {ticket : Ticket}
    (hticket : pos.ticket = some ticket) : ∃ f, Files s₂ ⟨call.args, vars, pos⟩ ticket f := by
  have hok := hbase.calls c call hcall
  obtain ⟨hfstep, -⟩ := exec_step hexec
  rcases (queue_next hnext).waiter hticket with ⟨hbefore, hsigned, hsigned'⟩ | ⟨hpos, rfl⟩ |
    ⟨hpos, hcases⟩ | ⟨hpos, rfl⟩
  · -- nothing happens to the file or to its descriptor
    obtain ⟨f, hf⟩ := h.filed c call ticket hcall hbefore
    obtain ⟨huntouched, hunbound⟩ := waiter_untouched call.args hbefore hsigned
    refine ⟨f, ?_, hf.name, ?_, fun _ => ?_⟩
    · rw [hstep.dir]
      rcases exec_dir hexec with hdir | ⟨v, name, -, hdir, -⟩ | ⟨hop, -⟩ | ⟨name, hop, hdir⟩
      · rw [hdir]
        exact hf.mem
      · rw [hdir]
        exact mem_entry hf.mem name
      · obtain ⟨own, hpos⟩ := sign_cases hop
        rw [hpos] at hsigned
        cases hsigned
      · rw [hdir]
        refine List.mem_filter.mpr ⟨hf.mem, ?_⟩
        simp only [ne_eq, decide_eq_true_eq, hf.name]
        rcases unlink_cases hop with ⟨scan, hpos, rfl⟩ | ⟨own, -, -, hgone⟩
        · have hknows := h.knows c call hcall
          simp only [Knows, hpos] at hknows
          exact hknows.2 c ticket ⟨call, hcall, hbefore⟩
        · rw [hgone answer pos hnext] at hticket
          cases hticket
    · rw [hstep.kernel, waiterLock_of_signed hsigned']
      have hwaiter := hf.waiter
      rw [waiterLock_of_signed hsigned] at hwaiter
      exact hwaiter.self hok.own hbase.wf hfstep (exec_vars hexec hunbound) huntouched
    · rw [hstep.procs]
      exact hf.record hsigned
  · obtain ⟨args, vars₀, pos₀⟩ := call
    cases hpos
    obtain ⟨hdir, hvars, hfile, -⟩ := exec_openTicket hexec
    obtain ⟨f, hf, hname, hinode⟩ := entry_mem s ticket.name
    refine ⟨f, ?_, hname, ?_, fun hsigned => (nomatch hsigned)⟩
    · rw [hstep.dir, hdir]
      exact hf
    · refine ⟨⟨input.fd, s.kernel.opened.length⟩, ?_, ?_, fun mode hmode => (nomatch hmode)⟩
      · simp [hvars]
      · rw [hstep.kernel, hinode]
        exact hfile
  · obtain ⟨args, vars₀, pos₀⟩ := call
    cases hpos
    obtain ⟨f, hf⟩ := h.filed c _ ticket hcall rfl
    obtain ⟨hd, hv, hkernel, hvars, hanswer⟩ := exec_flock hexec
    obtain ⟨hd', hv', hfile, -⟩ := hf.waiter
    cases hv.symm.trans hv'
    have hmem : f ∈ s₂.dir := by
      rw [hstep.dir, dir_of_not_files hexec rfl]
      exact hf.mem
    have hfile' : s₂.kernel.fileOf hd.ofd = some (.ticket f.inode) := by
      rw [hstep.kernel]
      exact hfstep.fileOf_mono hfile
    rcases hcases with rfl | ⟨rfl, hgranted⟩
    · refine ⟨f, hmem, hf.name, ⟨hd, hvars ▸ hv, hfile', fun mode hmode => (nomatch hmode)⟩,
        fun hsigned => (nomatch hsigned)⟩
    · refine ⟨f, hmem, hf.name, ⟨hd, hvars ▸ hv, hfile', fun mode hmode => ?_⟩,
        fun hsigned => (nomatch hsigned)⟩
      have hattempt : (s.kernel.flock hd.ofd .exclusive).2 = .granted :=
        hanswer.symm.trans (eq_of_heq hgranted)
      cases hmode
      rw [hstep.kernel, hkernel]
      exact Kernel.mem_locks_of_granted hattempt
  · obtain ⟨args, vars₀, pos₀⟩ := call
    cases hpos
    obtain ⟨f, hf⟩ := h.filed c _ ticket hcall rfl
    obtain ⟨hkernel, hvars, inode, p, hfile, hp, hdir⟩ := exec_sign hexec
    have hinode := hf.inode_eq hfile
    refine ⟨{ f with record := some ⟨args.pid, p.start⟩ }, ?_, hf.name, ?_, fun _ => ?_⟩
    · rw [hstep.dir, hdir]
      exact List.mem_map.mpr ⟨f, hf.mem, if_pos hinode⟩
    · rw [hstep.kernel, hkernel, hvars]
      exact hf.waiter
    · refine ⟨p, ?_, rfl⟩
      rw [hstep.procs]
      exact hp

end

/-! ## What the step of a call reads -/

section

variable {dir : List WaitFile} {w : WorkClass} {kept todo : List String}

/-- The directory as it was listed. -/
theorem scanned_glob {s : Sys} (h : Tickets s) (w : WorkClass) :
    Scanned s.dir w [] ((s.dir.map WaitFile.name).filter (globMatches w)) where
  covers f hf hmatch := .inr (List.mem_filter.mpr ⟨List.mem_map_of_mem hf, hmatch⟩)
  valid _ h := nomatch h
  named name hname := by
    obtain ⟨hmem, hmatch⟩ := List.mem_filter.mp hname
    obtain ⟨f, hf, rfl⟩ := List.mem_map.mp hmem
    obtain ⟨w', order, uuid, heq⟩ := h.named f hf
    rw [heq] at hmatch ⊢
    exact ⟨order, uuid, by rw [globMatches_ticketName hmatch]⟩

/-- The next path has a valid name. -/
theorem Scanned.visit {path : String} {rest : List String} (h : Scanned dir w kept (path :: rest))
    (hvalid : validName w path = true) : Scanned dir w (kept ++ [path]) rest where
  covers f hf hmatch := by
    rcases h.covers f hf hmatch with hkept | htodo
    · exact .inl (List.mem_append_left _ hkept)
    · rcases List.mem_cons.mp htodo with heq | hrest
      · exact .inl (List.mem_append_right _ (List.mem_singleton.mpr heq))
      · exact .inr hrest
  valid name hname := by
    rcases List.mem_append.mp hname with hkept | hpath
    · exact h.valid name hkept
    · rw [List.mem_singleton.mp hpath]
      obtain ⟨order, uuid, rfl⟩ := h.named path List.mem_cons_self
      exact ⟨order, uuid, rfl, order_lt_of_validName hvalid⟩
  named name hname := h.named name (List.mem_cons_of_mem _ hname)

/-- The path was made again, or is still there. -/
theorem Scanned.entry {s : Sys} {name : String} (h : Scanned s.dir w kept todo)
    (hname : name ∈ kept) : Scanned (s.entry name).1.dir w kept todo where
  covers f hf hmatch := by
    rcases name_of_mem_entry hf with hf | rfl
    · exact h.covers f hf hmatch
    · exact .inl hname
  valid := h.valid
  named := h.named

/-- The path is gone. -/
theorem Scanned.purge {path : String} (h : Scanned dir w (kept ++ [path]) todo) :
    Scanned (dir.filter (·.name ≠ path)) w kept todo where
  covers f hf hmatch := by
    obtain ⟨hmem, hne⟩ := List.mem_filter.mp hf
    rcases h.covers f hmem hmatch with hkept | htodo
    · rcases List.mem_append.mp hkept with hkept | hpath
      · exact .inl hkept
      · exact absurd (List.mem_singleton.mp hpath) (by simpa using hne)
    · exact .inr htodo
  valid name hname := h.valid name (List.mem_append_left _ hname)
  named := h.named

theorem Scanned.sort (h : Scanned dir w kept todo) :
    Scanned dir w (kept.insertionSort (· ≤ ·)) todo where
  covers f hf hmatch := by
    rw [List.mem_insertionSort]
    exact h.covers f hf hmatch
  valid name hname := h.valid name ((List.mem_insertionSort _).mp hname)
  named := h.named

/-- A listed ticket has a number of twenty digits. -/
theorem Scanned.order_lt (h : Scanned dir w kept todo) {order : Nat} {uuid : Uuid}
    (hmem : ticketName w order uuid ∈ kept) : order < 10 ^ 20 := by
  obtain ⟨order', uuid', heq, hlt⟩ := h.valid _ hmem
  rw [(ticketName_inj heq).2]
  exact hlt

/-- The last of the sorted names has the greatest number. -/
theorem Scanned.order_lt_nextOrder {names : List String} (h : Scanned dir w names [])
    (hsorted : names.Pairwise (· ≤ ·)) (clock : Nat) {f : WaitFile} (hf : f ∈ dir) {order : Nat}
    {uuid : Uuid} (hname : f.name = ticketName w order uuid) : order < nextOrder clock names := by
  have hmem : ticketName w order uuid ∈ names := by
    rw [← hname]
    refine (h.covers f hf ?_).resolve_right (fun hnil => nomatch hnil)
    rw [hname]
    exact globMatches_self w order uuid
  rcases List.eq_nil_or_concat' names with rfl | ⟨init, last, rfl⟩
  · cases hmem
  obtain ⟨order', uuid', rfl, hlt⟩ := h.valid last (by simp)
  have hle : order ≤ order' := by
    rcases List.mem_append.mp hmem with hinit | hlast
    · have hname := (List.pairwise_append.mp hsorted).2.2 _ hinit _ List.mem_cons_self
      exact order_le_of_ticketName_le (h.order_lt hmem) hlt hname
    · exact le_of_eq (ticketName_inj (List.mem_singleton.mp hlast)).2
  have hnext : nextOrder clock (init ++ [ticketName w order' uuid']) = max clock (order' + 1) := by
    simp [nextOrder, orderOf_ticketName]
  rw [hnext]
  omega

/-- The waiter whose name comes first has the first ticket. -/
theorem Scanned.first {s : Sys} {c : Nat} {ticket : Ticket} {names : List String} (h : Line s)
    (hscan : Scanned s.dir ticket.workClass (ticket.name :: names) [])
    (hsorted : (ticket.name :: names).Pairwise (· ≤ ·)) (hw : Waits s c ticket) :
    First s c ticket := by
  intro c' ticket' hw' hne hclass
  have hmem : ticket'.name ∈ ticket.name :: names := by
    obtain ⟨call', hcall', hticket'⟩ := hw'
    obtain ⟨f, hf⟩ := h.filed c' call' ticket' hcall' hticket'
    rw [← hf.name]
    refine (hscan.covers f hf.mem ?_).resolve_right (fun hnil => nomatch hnil)
    rw [hf.name, ← hclass]
    exact globMatches_self _ _ _
  have horder : ticket.order ≠ ticket'.order := h.order_ne hw hw' hne.symm hclass.symm
  have hrest : ticket'.name ∈ names :=
    (List.mem_cons.mp hmem).resolve_left fun heq => horder (ticketName_inj heq).2.symm
  have hle : ticket.name ≤ ticket'.name := List.rel_of_pairwise_cons hsorted hrest
  unfold Ticket.name at hle hmem
  rw [hclass] at hle hmem
  have := order_le_of_ticketName_le (hscan.order_lt List.mem_cons_self) (hscan.order_lt hmem) hle
  omega

/-- What `_waiters` has read is known where it goes on. -/
theorem knows_scanNext {s : Sys} {c : Nat} {args : Args} {vars : Var → Option Handle}
    {errand : Errand} (h : Line s)
    (hcall : s.calls c = some ⟨args, vars, scanNext errand kept todo⟩)
    (hscan : Scanned s.dir errand.workClass kept todo) :
    Knows s c ⟨args, vars, scanNext errand kept todo⟩ := by
  cases todo with
  | cons path rest =>
    simp only [scanNext]
    split
    · next hvalid => exact hscan.visit hvalid
    · exact knows_of_quiet rfl
  | nil =>
    have hsort := hscan.sort
    have hsorted := List.pairwise_insertionSort (· ≤ ·) kept
    simp only [scanNext] at hcall ⊢
    generalize kept.insertionSort (· ≤ ·) = names at hcall hsort hsorted ⊢
    cases errand with
    | issue home => exact ⟨hsort, hsorted⟩
    | elect ticket =>
      cases names with
      | nil => exact knows_of_quiet rfl
      | cons name names =>
        simp only [scanned] at hcall ⊢
        split
        · next hname =>
          subst hname
          rw [if_pos rfl] at hcall
          exact hsort.first h hsorted ⟨_, hcall, rfl⟩
        · exact knows_of_quiet rfl
    | retire ticket | record slot generation | inspect lanes =>
      cases names <;> exact knows_of_quiet rfl

end

section

variable {s : Sys} {c : Nat} {call : Call}

/-- For a call in the section, all tickets but a new one of its own are locked and signed. -/
theorem Base.signed (h : Base s) (hcall : s.calls c = some call)
    (hquiet : call.pos.quiet = false) (hsigned : call.pos.signed = true) {c' : Nat}
    {call' : Call} (hcall' : s.calls c' = some call') : call'.pos.signed = true := by
  by_contra hunsigned
  have hquiet' : call'.pos.quiet = false := by
    by_contra hq
    exact hunsigned (signed_of_quiet (by simpa using hq))
  obtain rfl := h.section_unique hcall hcall' (section_of_not_quiet hquiet)
    (section_of_not_quiet hquiet')
  cases hcall.symm.trans hcall'
  exact hunsigned hsigned

/-- A ticket that can be locked is abandoned. -/
theorem abandoned_of_granted (h : Queue s) (hbase : Base s) (hcall : s.calls c = some call)
    (hquiet : call.pos.quiet = false) (hsigned : call.pos.signed = true) {name : String}
    (hprobes : Probes s call name) {hd : Handle} (hv : call.vars .probe = some hd)
    (hgranted : (s.kernel.flock hd.ofd .exclusive).2 = .granted) : Abandoned s name := by
  rintro c' ticket ⟨call', hcall', hticket⟩ rfl
  obtain ⟨f, hf, hname, hd₁, hv₁, hfile, -⟩ := hprobes
  cases hv.symm.trans hv₁
  obtain ⟨f', hf'⟩ := h.filed c' call' ticket hcall' hticket
  obtain rfl := h.tickets.name_inj f hf f' hf'.mem (hname.trans hf'.name.symm)
  obtain ⟨hd', hv', hfile', hlock'⟩ := hf'.waiter
  have hlocked := hlock' .exclusive
    (waiterLock_of_signed (hbase.signed hcall hquiet hsigned hcall'))
  have hok := hbase.calls c call hcall
  have hok' := hbase.calls c' call' hcall'
  -- the waiter's description is another one than the probe's, also in one call
  have hne : hd'.ofd ≠ hd.ofd := by
    by_cases hc : c' = c
    · subst hc
      cases hcall.symm.trans hcall'
      intro heq
      cases hok.own.distinct _ _ _ _ hv' hv heq
    · exact hok.own.ofd_ne hok'.own hc hv hv'
  exact Kernel.flock_ne_granted hbase.wf hlocked hne (hfile'.trans hfile.symm) hgranted

/-- The record that is read is the waiter's. -/
theorem signedBy_of_record (h : Queue s) (hbase : Base s) (hcall : s.calls c = some call)
    (hquiet : call.pos.quiet = false) (hsigned : call.pos.signed = true) {name : String}
    (hprobes : Probes s call name) {inode : Nat} {identity : Identity}
    (hfile : s.fileOf call.vars .probe = some (.ticket inode))
    (hrecord : (s.dir.find? (·.inode = inode)).bind WaitFile.record = some identity) :
    SignedBy s name identity := by
  rintro c' call' ticket hcall' hticket rfl
  obtain ⟨f, hf, hname, hd, hv, hfile', -⟩ := hprobes
  obtain ⟨f', hf'⟩ := h.filed c' call' ticket hcall' hticket
  obtain rfl := h.tickets.name_inj f hf f' hf'.mem (hname.trans hf'.name.symm)
  rw [Sys.fileOf, hv, Option.bind_some, hfile'] at hfile
  cases hfile
  obtain ⟨f₀, hfind, hidentity⟩ := Option.bind_eq_some_iff.mp hrecord
  have hinode : f₀.inode = f.inode := by simpa using List.find?_some hfind
  obtain rfl := h.tickets.inode_inj f₀ (List.mem_of_find?_eq_some hfind) f hf hinode
  obtain ⟨p, hp, hsign⟩ := hf'.record (hbase.signed hcall hquiet hsigned hcall')
  refine ⟨p, hp, ?_⟩
  rw [hsign] at hidentity
  exact (Option.some.inj hidentity).symm

/-- A waiter's process is alive, and its start time is the one it signed with. -/
theorem abandoned_of_dead (hbase : Base s) {name : String} {identity : Identity}
    (hsigned : SignedBy s name identity) (hdead : signedBy identity (s.procs identity.pid) = false) :
    Abandoned s name := by
  rintro c' ticket ⟨call', hcall', hticket⟩ hname
  obtain ⟨p, hp, rfl⟩ := hsigned c' call' ticket hcall' hticket hname
  obtain ⟨p', hp', hzombie⟩ := alive_iff.mp (hbase.calls c' call' hcall').alive
  cases hp.symm.trans hp'
  rw [hp] at hdead
  simp [signedBy, hzombie] at hdead

end

section

variable {s s' s₂ : Sys} {c : Nat} {call : Call} {input : Input} {vars : Var → Option Handle}
  {answer : (call.pos.next call.args).1.Answer}

/-- A statement that leaves the directory alone makes no ticket. -/
theorem Step.calm (h : Step s c call s' vars ((call.pos.next call.args).2 answer) s₂)
    (hcall : s.calls c = some call)
    (hexec : s.exec c call input (call.pos.next call.args).1 = some (s', vars, answer))
    (hfiles : (call.pos.next call.args).1.files = false) : Calm s s₂ where
  dir := h.dir.trans (dir_of_not_files hexec hfiles)
  waits c' call' ticket hcall' hticket := by
    rcases h.waits_of hcall ⟨call', hcall', hticket⟩ with ⟨call₀, hcall₀, hticket₀⟩ | ⟨-, hpos⟩
    · refine ⟨call₀, hcall₀, hticket₀, ?_⟩
      by_cases hc : c' = c
      · subst hc
        obtain ⟨pos, -, rfl⟩ := h.calls_self hcall'
        rw [Option.some.inj (hcall₀.symm.trans hcall)]
      · rw [h.other c' hc, hcall₀] at hcall'
        rw [Option.some.inj hcall']
    · rw [hpos] at hfiles
      cases hfiles
  starts pid p hp _ := ⟨p, by rw [h.procs]; exact hp, rfl⟩

theorem Probes.self {args : Args} {vars₀ : Var → Option Handle} {pos pos' : Position}
    {answer : Attempt} {name : String}
    (hexec : s.exec c ⟨args, vars₀, pos⟩ input (.flock .probe .exclusive) =
      some (s', vars, answer)) (hkernel : s₂.kernel = s'.kernel) (hdir : s₂.dir = s.dir)
    (h : Probes s ⟨args, vars₀, pos⟩ name) : Probes s₂ ⟨args, vars, pos'⟩ name := by
  obtain ⟨f, hf, hname, hd, hv, hfile, -⟩ := h
  obtain ⟨-, -, -, hvars, -⟩ := exec_flock hexec
  refine ⟨f, hdir ▸ hf, hname, hd, hvars ▸ hv, ?_, fun mode hmode => (nomatch hmode)⟩
  rw [hkernel]
  exact (exec_step hexec).1.fileOf_mono hfile

/-- A call knows what it has read, where it goes on. -/
theorem Knows.self (h : Queue s) (hbase : Base s) (hcall : s.calls c = some call)
    (hexec : s.exec c call input (call.pos.next call.args).1 = some (s', vars, answer))
    (hstep : Step s c call s' vars ((call.pos.next call.args).2 answer) s₂) (hbase₂ : Base s₂)
    (hline : Line s₂) {pos : Position} (hnext : (call.pos.next call.args).2 answer = some pos) :
    Knows s₂ c ⟨call.args, vars, pos⟩ := by
  have hq := queue_next hnext
  have hknows := h.knows c call hcall
  have hcall₂ : s₂.calls c = some ⟨call.args, vars, pos⟩ := by
    rw [hstep.self, hnext]
    rfl
  have hcalm := hstep.calm hcall hexec
  obtain ⟨args, vars₀, pos₀⟩ := call
  cases hq with
  | without hplain => exact knows_of_quiet hplain.quiet
  | owner hchosen hquiet hticket => exact knows_of_quiet hquiet
  | keep hquiet hquiet' hticket hchosen => exact knows_of_quiet hquiet'
  | scan hpos hanswer =>
    subst hpos
    obtain rfl := eq_of_heq hanswer
    apply knows_scanNext hline hcall₂
    rw [(hcalm rfl).dir]
    cases hexec
    exact scanned_glob h.tickets _
  | fail hpos => exact knows_of_quiet rfl
  | @probe scan =>
    obtain ⟨hdir, hvars, hfile, -⟩ := exec_openTicket hexec
    obtain ⟨f, hf, hname, hinode⟩ := entry_mem s scan.path
    refine ⟨?_, f, ?_, hname, ⟨input.fd, s.kernel.opened.length⟩, ?_, ?_, ?_⟩
    · unfold Scan.Reads
      rw [hstep.dir, hdir]
      exact Scanned.entry hknows (by simp)
    · rw [hstep.dir, hdir]
      exact hf
    · simp [hvars]
    · rw [hstep.kernel, hinode]
      exact hfile
    · exact fun mode hmode => (nomatch hmode)
  | again | held =>
    exact ⟨(hcalm rfl).reads hknows.1, hknows.2.self hexec hstep.kernel (hcalm rfl).dir⟩
  | abandoned =>
    obtain ⟨hd, hv, -, -, hgranted⟩ := exec_flock hexec
    refine ⟨(hcalm rfl).reads hknows.1, (hcalm rfl).abandoned ?_⟩
    exact abandoned_of_granted h hbase hcall rfl rfl hknows.2 hv hgranted.symm
  | signed =>
    obtain ⟨inode, hfile, hrecord⟩ := exec_record hexec
    refine ⟨(hcalm rfl).reads hknows.1, (hcalm rfl).signedBy hbase₂ ?_⟩
    exact signedBy_of_record h hbase hcall rfl rfl hknows.2 hfile hrecord.symm
  | dead hdead =>
    refine ⟨(hcalm rfl).reads hknows.1, (hcalm rfl).abandoned ?_⟩
    cases hexec
    exact abandoned_of_dead hbase hknows.2 hdead
  | live => exact (hcalm rfl).reads hknows.1
  | purged =>
    cases hexec
    show Scanned s₂.dir _ _ _
    rw [hstep.dir]
    exact Scanned.purge hknows.1
  | next =>
    apply knows_scanNext hline hcall₂
    rw [(hcalm rfl).dir]
    exact hknows
  | order =>
    intro f hf order uuid hname
    rw [(hcalm rfl).dir] at hf
    exact Scanned.order_lt_nextOrder hknows.1 hknows.2 _ hf hname
  | issue | wait | lock => trivial
  | sign | leave => exact knows_of_quiet rfl
  | elected helected helected' =>
    rw [knows_of_elected helected']
    intro c' ticket' hw hne hclass
    exact (knows_of_elected helected).mp hknows c' ticket' ((hstep.waits_other hne).mp hw) hne hclass

/-- A new ticket comes after those of all waiters. -/
theorem Queue.order_lt_create (h : Queue s) (hcall : s.calls c = some call) {ticket : Ticket}
    (hpos : call.pos = .create ticket) {c' : Nat} {ticket' : Ticket} (hw : Waits s c' ticket')
    (hclass : ticket'.workClass = ticket.workClass) : ticket'.order < ticket.order := by
  obtain ⟨call', hcall', hticket'⟩ := hw
  obtain ⟨f, hf⟩ := h.filed c' call' ticket' hcall' hticket'
  have hknows := h.knows c call hcall
  simp only [Knows, hpos] at hknows
  apply hknows f hf.mem ticket'.order ticket'.uuid
  rw [hf.name, ← hclass]
  rfl

/-- The number of a new ticket is greater than those of all others. -/
theorem Step.newcomer (hstep : Step s c call s' vars ((call.pos.next call.args).2 answer) s₂)
    (h : Queue s) {ticket : Ticket} (hpos : call.pos = .create ticket) :
    s₂.issued = s.issued + 1 ∧ s₂.numbers c = s.issued ∧
      ∀ c' ticket', c' ≠ c → Waits s₂ c' ticket' →
        Waits s c' ticket' ∧ s₂.numbers c' = s.numbers c' ∧ s.numbers c' < s.issued := by
  obtain ⟨hissued, hnumbers⟩ := hstep.issued ticket hpos
  rw [hnumbers]
  refine ⟨hissued, Function.update_self c s.issued s.numbers, fun c' ticket' hc hw => ?_⟩
  have hw' := (hstep.waits_other hc).mp hw
  exact ⟨hw', Function.update_of_ne hc s.issued s.numbers, h.numbered c' ticket' hw'⟩

/-- The order of the numbers stays that of the tickets. -/
theorem Queue.numbers_step (h : Queue s) (hcall : s.calls c = some call)
    (hstep : Step s c call s' vars ((call.pos.next call.args).2 answer) s₂) :
    (∀ c₁ ticket, Waits s₂ c₁ ticket → s₂.numbers c₁ < s₂.issued) ∧
    ∀ c₁ c₂ ticket₁ ticket₂, Waits s₂ c₁ ticket₁ → Waits s₂ c₂ ticket₂ →
      (s₂.numbers c₁ = s₂.numbers c₂ → c₁ = c₂) ∧
      (ticket₁.workClass = ticket₂.workClass → s₂.numbers c₁ < s₂.numbers c₂ →
        ticket₁.order < ticket₂.order) := by
  by_cases hcreate : ∃ own, call.pos = .create own
  · obtain ⟨own, hpos⟩ := hcreate
    obtain ⟨hissued, hself, hothers⟩ := hstep.newcomer h hpos
    have hticket : ∀ ticket, Waits s₂ c ticket → ticket = own := by
      intro ticket hw
      rcases hstep.waits_of hcall hw with ⟨call₀, hcall₀, hticket₀⟩ | ⟨-, hpos'⟩
      · cases hcall.symm.trans hcall₀
        rw [hpos] at hticket₀
        cases hticket₀
      · cases hpos.symm.trans hpos'
        rfl
    refine ⟨fun c₁ ticket hw => ?_, fun c₁ c₂ ticket₁ ticket₂ hw₁ hw₂ => ?_⟩
    · by_cases hc : c₁ = c
      · subst hc
        omega
      · obtain ⟨-, hsame, hlt⟩ := hothers c₁ ticket hc hw
        omega
    · by_cases hc₁ : c₁ = c
      · subst hc₁
        by_cases hc₂ : c₂ = c₁
        · subst hc₂
          exact ⟨fun _ => rfl, fun _ hlt => absurd hlt (Nat.lt_irrefl _)⟩
        · obtain ⟨-, hsame, hlt⟩ := hothers c₂ ticket₂ hc₂ hw₂
          exact ⟨fun heq => by omega, fun _ hgt => by omega⟩
      · obtain ⟨hw₁', hsame₁, hlt₁⟩ := hothers c₁ ticket₁ hc₁ hw₁
        by_cases hc₂ : c₂ = c
        · subst hc₂
          rw [hticket ticket₂ hw₂]
          exact ⟨fun heq => by omega, fun hclass _ => h.order_lt_create hcall hpos hw₁' hclass⟩
        · obtain ⟨hw₂', hsame₂, -⟩ := hothers c₂ ticket₂ hc₂ hw₂
          rw [hsame₁, hsame₂]
          exact ⟨h.distinct _ _ _ _ hw₁' hw₂', h.ordered _ _ _ _ hw₁' hw₂'⟩
  · rw [not_exists] at hcreate
    obtain ⟨hissued, hnumbers⟩ := hstep.kept hcreate
    have hold : ∀ c₁ ticket, Waits s₂ c₁ ticket → Waits s c₁ ticket := fun c₁ ticket hw =>
      (hstep.waits_of hcall hw).resolve_right fun hpos => hcreate ticket hpos.2
    rw [hissued, hnumbers]
    refine ⟨fun c₁ ticket hw => h.numbered c₁ ticket (hold _ _ hw), ?_⟩
    intro c₁ c₂ ticket₁ ticket₂ hw₁ hw₂
    exact ⟨h.distinct _ _ _ _ (hold _ _ hw₁) (hold _ _ hw₂),
      h.ordered _ _ _ _ (hold _ _ hw₁) (hold _ _ hw₂)⟩

theorem Line.step (h : Queue s) (hbase : Base s) (hcall : s.calls c = some call)
    (hexec : s.exec c call input (call.pos.next call.args).1 = some (s', vars, answer))
    (hstep : Step s c call s' vars ((call.pos.next call.args).2 answer) s₂) : Line s₂ := by
  have hok := hbase.calls c call hcall
  obtain ⟨hnumbered, hordered⟩ := h.numbers_step hcall hstep
  refine ⟨?_, ?_, hnumbered, ?_, ?_⟩
  · have htickets := h.tickets_exec hcall hexec
    exact htickets.subset (hstep.dir ▸ fun _ hf => hf) (by rw [hstep.kernel])
  · intro c' call' ticket hcall' hticket
    by_cases hc : c' = c
    · subst hc
      obtain ⟨pos, hnext, rfl⟩ := hstep.calls_self hcall'
      exact Files.self h hbase hcall hexec hstep hnext hticket
    · rw [hstep.other c' hc] at hcall'
      obtain ⟨f, hf⟩ := h.filed c' call' ticket hcall' hticket
      refine ⟨f, ?_, hf.name, ?_, ?_⟩
      · rw [hstep.dir]
        exact h.file_stays hcall hexec ⟨call', hcall', hticket⟩ hc hf.mem hf.name
      · rw [hstep.kernel]
        exact hf.waiter.other (hbase.calls c' call' hcall').own hok.own hc (exec_step hexec).1
      · rw [hstep.procs]
        exact hf.record
  · exact fun c₁ c₂ ticket₁ ticket₂ hw₁ hw₂ => (hordered c₁ c₂ ticket₁ ticket₂ hw₁ hw₂).1
  · exact fun c₁ c₂ ticket₁ ticket₂ hw₁ hw₂ => (hordered c₁ c₂ ticket₁ ticket₂ hw₁ hw₂).2

theorem Queue.advance (h : Queue s) (hbase : Base s) (c : Nat) (input : Input) :
    Queue (s.advance c input) := by
  have hbase₂ := hbase.advance c input
  rcases step_advance s c input with heq | ⟨call, s', vars, answer, hcall, hexec, hstep⟩
  · rw [heq]
    exact h
  have hok := hbase.calls c call hcall
  have hline := Line.step h hbase hcall hexec hstep
  refine ⟨hline, fun c' call' hcall' => ?_⟩
  by_cases hc : c' = c
  · subst hc
    obtain ⟨pos, hnext, rfl⟩ := hstep.calls_self hcall'
    exact Knows.self h hbase hcall hexec hstep hbase₂ hline hnext
  · rw [hstep.other c' hc] at hcall'
    cases hquiet : call'.pos.quiet with
    | true => exact knows_of_quiet hquiet
    | false =>
      -- the other call is in the section, so this one is not
      have hfiles : (call.pos.next call.args).1.files = false := by
        by_contra hfiles
        apply hc
        exact hbase.section_unique hcall hcall' (section_of_files (by simpa using hfiles))
          (section_of_not_quiet hquiet)
      refine (hstep.calm hcall hexec hfiles).knows hbase₂ (fun fact hfact => ?_)
        (h.knows c' call' hcall')
      rw [hstep.kernel]
      exact hfact.other (hbase.calls c' call' hcall').own hok.own hc (exec_step hexec).1

end

/-! ## Every run -/

section

variable {s : Sys}

theorem outside_start (s : Sys) (c : Nat) (args : Args) {pos : Position}
    (hquiet : pos.quiet = true) (hticket : pos.ticket = none) :
    Outside s (s.start c args pos) := by
  unfold Sys.start
  split
  · refine ⟨⟨rfl, fun _ hl _ => hl⟩, rfl, rfl, rfl, ?_, fun pid p hp _ => ⟨p, hp, rfl⟩⟩
    intro c' call' hcall'
    by_cases hc : c' = c
    · subst hc
      obtain rfl : (⟨args, fun _ => none, pos⟩ : Call) = call' := by simpa using hcall'
      exact .inr ⟨hquiet, hticket⟩
    · exact .inl (by simpa [hc] using hcall')
  · exact .rfl

/-- Only the statements of calls change the queue. -/
theorem next_cases (s : Sys) (a : Action) :
    (∃ c input, a = .advance c input) ∨ Outside s (next s a) := by
  cases a with
  | advance c input => exact .inl ⟨c, input, rfl⟩
  | begin c pid requested existing environment =>
    refine .inr ?_
    simp only [HeavyWork.next]
    split
    · exact outside_start s c _ rfl rfl
    · exact .rfl
  | observe c pid requested => cases requested <;> exact .inr (outside_start s c _ rfl rfl)
  | fork parent child start =>
    refine .inr ?_
    simp only [HeavyWork.next]
    split
    · next hguard =>
      refine ⟨settled_fork _ _ _, rfl, rfl, rfl, fun _ _ hcall => .inl hcall, ?_⟩
      intro pid p hp _
      have hne : pid ≠ child := by
        rintro rfl
        rw [Option.isNone_iff_eq_none.mp hguard.2] at hp
        cases hp
      exact ⟨p, by simpa [hne] using hp, rfl⟩
    · exact .rfl
  | kill pid reaper =>
    refine .inr ?_
    simp only [HeavyWork.next]
    split
    · refine ⟨settled_settle _ _, rfl, rfl, rfl,
        fun _ _ hcall => .inl (Option.filter_eq_some_iff.mp hcall).1, ?_⟩
      intro q p hp _
      simp only [Sys.kill, hp, Option.map_some, Option.some.injEq, exists_eq_left']
      split
      · rfl
      · split <;> rfl
    · exact .rfl
  | reap pid =>
    refine .inr ?_
    simp only [HeavyWork.next]
    split
    · refine ⟨⟨rfl, fun _ hl _ => hl⟩, rfl, rfl, rfl, fun _ _ hcall => .inl hcall, ?_⟩
      intro q p hp halive
      have hne : q ≠ pid := by
        rintro rfl
        simp [Sys.alive] at halive
      exact ⟨p, by simpa [hne] using hp, rfl⟩
    · exact .rfl
  | drop pid fd =>
    refine .inr ?_
    simp only [HeavyWork.next, Sys.drop]
    split
    · exact .rfl
    · split
      · exact ⟨settled_settle _ _, rfl, rfl, rfl, fun _ _ hcall => .inl hcall,
          fun pid p hp _ => ⟨p, hp, rfl⟩⟩
      · exact .rfl

/-- Every step keeps the queue in order. -/
theorem Queue.next (h : Queue s) (hbase : Base s) (a : Action) : Queue (next s a) := by
  rcases next_cases s a with ⟨c, input, rfl⟩ | hout
  · exact h.advance hbase c input
  · exact h.outside (hbase.next a) hout

theorem Queue.run (actions : List Action) :
    Base (SummitFlow.run HeavyWork.next Sys.initial actions) ∧
      Queue (SummitFlow.run HeavyWork.next Sys.initial actions) := by
  apply run_invariant (P := fun s => Base s ∧ Queue s)
  · intro s a _ h
    exact ⟨h.1.next a, h.2.next h.1 a⟩
  · exact ⟨Base.initial, Queue.initial⟩

/-- A ticket is new only by the step that makes its file. -/
theorem waits_of_next {a : Action} {c : Nat} {ticket : Ticket} (hw : Waits (next s a) c ticket) :
    Waits s c ticket ∨ ∃ call, s.calls c = some call ∧ call.pos = .create ticket := by
  rcases next_cases s a with ⟨c₁, input, rfl⟩ | hout
  · rcases step_advance s c₁ input with heq | ⟨call, s', vars, answer, hcall, hexec, hstep⟩
    · simp only [HeavyWork.next, heq] at hw
      exact .inl hw
    · rcases hstep.waits_of hcall hw with hw | ⟨rfl, hpos⟩
      · exact .inl hw
      · exact .inr ⟨call, hcall, hpos⟩
  · exact .inl (hout.calm.waits_of hw)

/-- Only the waiter itself removes its file. -/
theorem Queue.file_next (h : Queue s) {a : Action} {c : Nat} {ticket : Ticket} {f : WaitFile}
    (hw : Waits s c ticket) (ha : ∀ input, a ≠ .advance c input) (hf : f ∈ s.dir)
    (hname : f.name = ticket.name) : f ∈ (HeavyWork.next s a).dir := by
  rcases next_cases s a with ⟨c₁, input, rfl⟩ | hout
  · rcases step_advance s c₁ input with heq | ⟨call, s', vars, answer, hcall, hexec, hstep⟩
    · simp only [HeavyWork.next, heq]
      exact hf
    · have hne : c ≠ c₁ := by
        rintro rfl
        exact ha input rfl
      rw [HeavyWork.next, hstep.dir]
      exact h.file_stays hcall hexec hw hne hf hname
  · rw [hout.dir]
    exact hf

/-! ## The order of admission -/

/-- A waiter that gets its lane is the first one of its class. -/
theorem Queue.first_of_chosen (h : Queue s) (hbase : Base s) {c : Nat} {input : Input} {call call' : Call}
    (hcall : s.calls c = some call) (hbefore : call.pos.chosen = false)
    (hcall' : (HeavyWork.next s (.advance c input)).calls c = some call')
    (hafter : call'.pos.chosen = true) :
    ∃ ticket, call.pos.ticket = some ticket ∧ First s c ticket ∧
      First (HeavyWork.next s (.advance c input)) c ticket := by
  have h' := h.next hbase (.advance c input)
  rcases step_advance s c input with heq | ⟨call₀, s', vars, answer, hcall₀, hexec, hstep⟩
  · simp only [HeavyWork.next, heq, hcall] at hcall'
    cases hcall'
    rw [hbefore] at hafter
    cases hafter
  · cases hcall.symm.trans hcall₀
    obtain ⟨pos, hnext, rfl⟩ := hstep.calls_self hcall'
    obtain ⟨ticket, helected, helected'⟩ := (queue_next hnext).chosen hbefore hafter
    exact ⟨ticket, ticket_of_elected helected,
      (knows_of_elected helected).mp (h.knows c call hcall),
      (knows_of_elected helected').mp (h'.knows c _ hcall')⟩

/-- In every run, live waiters have tickets in the order of issue, a fresh owner is admitted
    before every other live waiter of its class, and nobody but the waiter itself removes
    its ticket. -/
theorem admission_first_come_first_served (actions : List Action) :
    let s := run next Sys.initial actions
    (∀ c c' ticket ticket', Waits s c ticket → Waits s c' ticket' → c ≠ c' →
      ticket.name ≠ ticket'.name ∧ s.numbers c ≠ s.numbers c' ∧
      (ticket.workClass = ticket'.workClass →
        (s.numbers c < s.numbers c' ↔ ticket.order < ticket'.order))) ∧
    (∀ a c c' ticket ticket', Waits (next s a) c ticket → ¬ Waits s c ticket →
      Waits s c' ticket' → ticket'.workClass = ticket.workClass →
      ticket'.order < ticket.order) ∧
    (∀ c input call call', s.calls c = some call → call.pos.chosen = false →
      (next s (.advance c input)).calls c = some call' → call'.pos.chosen = true →
      ∃ ticket, call.pos.ticket = some ticket ∧ First s c ticket ∧
        First (next s (.advance c input)) c ticket) ∧
    (∀ c ticket, Waits s c ticket → ∃ f ∈ s.dir, f.name = ticket.name ∧
      ∀ a, (∀ input, a ≠ .advance c input) → f ∈ (next s a).dir) := by
  intro s
  obtain ⟨hbase, h⟩ := Queue.run actions
  refine ⟨?_, ?_, ?_, ?_⟩
  · intro c c' ticket ticket' hw hw' hne
    have hnumbers : s.numbers c ≠ s.numbers c' :=
      fun heq => hne (h.distinct c c' ticket ticket' hw hw' heq)
    refine ⟨h.name_ne hw hw' hne, hnumbers, fun hclass => ?_⟩
    constructor
    · exact h.ordered c c' ticket ticket' hw hw' hclass
    · intro hlt
      by_contra hge
      have hgt : s.numbers c' < s.numbers c := by omega
      have := h.ordered c' c ticket' ticket hw' hw hclass.symm hgt
      omega
  · intro a c c' ticket ticket' hw hnew hw' hclass
    rcases waits_of_next hw with hold | ⟨call, hcall, hpos⟩
    · exact absurd hold hnew
    · exact h.order_lt_create hcall hpos hw' hclass
  · intro c input call call' hcall hbefore hcall' hafter
    exact h.first_of_chosen hbase hcall hbefore hcall' hafter
  · intro c ticket hw
    obtain ⟨call, hcall, hticket⟩ := hw
    obtain ⟨f, hf⟩ := h.filed c call ticket hcall hticket
    refine ⟨f, hf.mem, hf.name, fun a ha => ?_⟩
    exact h.file_next ⟨call, hcall, hticket⟩ ha hf.mem hf.name

end

end SummitFlow.HeavyWork
