import SummitFlow.Utils.HeavyWork

/-!
# What a call of heavy work knows

Every descriptor of a call belongs to an open file description that it opened itself, so
whatever the other calls lock, release or close is not the call's own.  `Position.facts`
lists what a call knows about its descriptors and their locks before each statement, and
`transfer` what a system call makes of such a list; `Base` is the invariant they give.
-/

namespace SummitFlow.HeavyWork

open Flock (Mode Attempt Kernel Lock)

/-! ## Steps of one call on the open files -/

/-- The variable whose lock a system call changes. -/
def Op.locked : Op → Option Var
  | .flock v _ | .unlock v => some v
  | _ => none

/-- What a system call of a call can do to the open files and to the call's variables. -/
inductive FileStep (k : Kernel File) (c pid : Nat) (vars : Var → Option Handle) :
    Option Var → Kernel File → (Var → Option Handle) → Prop where
  | same {touched : Option Var} : FileStep k c pid vars touched k vars
  | opened (v : Var) (fd : Nat) (file : File) : FileStep k c pid vars none
      (k.openFile pid fd file c) (Function.update vars v (some ⟨fd, k.opened.length⟩))
  | closed {v : Var} {h : Handle} (hv : vars v = some h) : FileStep k c pid vars none
      (k.close ⟨pid, h.fd, h.ofd⟩) (Function.update vars v none)
  | locked {v : Var} {h : Handle} (hv : vars v = some h) (mode : Mode) :
      FileStep k c pid vars (some v) (k.flock h.ofd mode).1 vars
  | released {v : Var} {h : Handle} (hv : vars v = some h) :
      FileStep k c pid vars (some v) (k.release h.ofd) vars

/-- A system call changes no process and no call. -/
structure Kept (s s' : Sys) : Prop where
  procs : s'.procs = s.procs
  calls : s'.calls = s.calls
  grants : s'.grants = s.grants
  issued : s'.issued = s.issued
  numbers : s'.numbers = s.numbers

theorem Kept.rfl {s : Sys} : Kept s s := ⟨Eq.refl _, Eq.refl _, Eq.refl _, Eq.refl _, Eq.refl _⟩

theorem kernel_entry (s : Sys) (name : String) : (s.entry name).1.kernel = s.kernel := by
  unfold Sys.entry
  split <;> rfl

theorem kept_entry (s : Sys) (name : String) : Kept s (s.entry name).1 := by
  unfold Sys.entry
  split <;> exact ⟨rfl, rfl, rfl, rfl, rfl⟩

/-- Every system call is one of these steps. -/
theorem exec_step {s s' : Sys} {c : Nat} {call : Call} {input : Input} {op : Op}
    {vars : Var → Option Handle} {answer : op.Answer}
    (h : s.exec c call input op = some (s', vars, answer)) :
    FileStep s.kernel c call.args.pid call.vars op.locked s'.kernel vars ∧ Kept s s' := by
  cases op with
  | «open» v file =>
    simp only [Sys.exec] at h
    split at h
    · cases h
      exact ⟨.same, .rfl⟩
    · split at h
      · cases h
        exact ⟨.opened v input.fd file, ⟨rfl, rfl, rfl, rfl, rfl⟩⟩
      · cases h
  | openTicket v name =>
    simp only [Sys.exec] at h
    split at h
    · cases h
      have hk := kept_entry s name
      simp only [Sys.openFile, kernel_entry]
      exact ⟨.opened v input.fd _, ⟨hk.procs, hk.calls, hk.grants, hk.issued, hk.numbers⟩⟩
    · cases h
  | close v =>
    simp only [Sys.exec] at h
    split at h
    · cases h
      exact ⟨.same, .rfl⟩
    · next hd hv =>
      cases h
      exact ⟨.closed hv, ⟨rfl, rfl, rfl, rfl, rfl⟩⟩
  | flock v mode =>
    simp only [Sys.exec] at h
    split at h
    · cases h
    · next hd hv =>
      cases h
      exact ⟨.locked hv mode, ⟨rfl, rfl, rfl, rfl, rfl⟩⟩
  | unlock v =>
    simp only [Sys.exec] at h
    split at h
    · cases h
    · next hd hv =>
      cases h
      exact ⟨.released hv, ⟨rfl, rfl, rfl, rfl, rfl⟩⟩
  | pread v | record | ask =>
    simp only [Sys.exec] at h
    split at h <;> cases h
    exact ⟨.same, .rfl⟩
  | pwrite v text | sign =>
    simp only [Sys.exec] at h
    split at h <;> cases h
    exact ⟨.same, ⟨rfl, rfl, rfl, rfl, rfl⟩⟩
  | unlink name =>
    cases h
    exact ⟨.same, ⟨rfl, rfl, rfl, rfl, rfl⟩⟩
  | stat pid | fdFile pid fd | fdLock pid fd | «exists» file | glob w =>
    cases h
    exact ⟨.same, .rfl⟩

/-- The variable a system call binds anew or closes. -/
def Op.binds : Op → Option Var
  | .open v _ | .openTicket v _ | .close v => some v
  | _ => none

theorem exec_vars {s s' : Sys} {c : Nat} {call : Call} {input : Input} {op : Op}
    {vars : Var → Option Handle} {answer : op.Answer}
    (h : s.exec c call input op = some (s', vars, answer)) {v : Var} (hv : op.binds ≠ some v) :
    vars v = call.vars v := by
  cases op with
  | «open» w file =>
    have hne : v ≠ w := fun heq => hv (heq ▸ rfl)
    simp only [Sys.exec] at h
    split at h
    · cases h
      rfl
    · split at h <;> cases h
      simp [Sys.openFile, hne]
  | openTicket w name =>
    have hne : v ≠ w := fun heq => hv (heq ▸ rfl)
    simp only [Sys.exec] at h
    split at h <;> cases h
    simp [Sys.openFile, hne]
  | close w =>
    have hne : v ≠ w := fun heq => hv (heq ▸ rfl)
    simp only [Sys.exec] at h
    split at h <;> cases h
    · rfl
    · simp [hne]
  | flock w mode | unlock w | pread w | pwrite w text | sign | record | ask =>
    simp only [Sys.exec] at h
    split at h <;> cases h
    rfl
  | unlink name | stat pid | fdFile pid fd | fdLock pid fd | «exists» file | glob w =>
    cases h
    rfl

section

variable {k k' : Kernel File} {c pid : Nat} {vars vars' : Var → Option Handle}
variable {touched : Option Var}

theorem FileStep.opened_mono (h : FileStep k c pid vars touched k' vars') {i : Nat}
    {o : Flock.OpenFile File} (ho : k.opened[i]? = some o) : k'.opened[i]? = some o := by
  cases h with
  | opened v fd file =>
    have hlt : i < k.opened.length := (List.getElem?_eq_some_iff.mp ho).1
    simp only [Kernel.openFile]
    rw [List.getElem?_append_left hlt]
    exact ho
  | locked hv mode =>
    rw [Kernel.opened_flock]
    exact ho
  | same => exact ho
  | closed hv => exact ho
  | released hv => exact ho

theorem FileStep.fileOf_mono (h : FileStep k c pid vars touched k' vars') {i : Nat} {file : File}
    (hfile : k.fileOf i = some file) : k'.fileOf i = some file := by
  obtain ⟨o, ho, rfl⟩ := Option.map_eq_some_iff.mp hfile
  rw [Kernel.fileOf, h.opened_mono ho]
  rfl

/-- Only descriptors of the call itself are closed. -/
theorem FileStep.mem_descriptors (h : FileStep k c pid vars touched k' vars')
    {d : Flock.Descriptor} (hd : d ∈ k.descriptors)
    (hother : ∀ v hv, vars v = some hv → d ≠ ⟨pid, hv.fd, hv.ofd⟩) : d ∈ k'.descriptors := by
  cases h with
  | opened v fd file => exact List.mem_append_left _ hd
  | locked hv mode =>
    rw [Kernel.descriptors_flock]
    exact hd
  | closed hv => exact List.mem_filter.mpr ⟨hd, by simpa using hother _ _ hv⟩
  | same => exact hd
  | released hv => exact hd

/-- What is open after the step was open before, or is new. -/
theorem FileStep.isOpen_of (h : FileStep k c pid vars touched k' vars') {i : Nat}
    (hlt : i < k.opened.length) (hopen : k'.isOpen i = true) : k.isOpen i = true := by
  obtain ⟨d, hd, rfl⟩ := Kernel.isOpen_iff.mp hopen
  apply Kernel.isOpen_iff.mpr
  cases h with
  | opened v fd file =>
    rcases List.mem_append.mp hd with hd | hd
    · exact ⟨d, hd, rfl⟩
    · rw [List.mem_singleton.mp hd] at hlt
      exact absurd hlt (Nat.lt_irrefl _)
  | locked hv mode =>
    rw [Kernel.descriptors_flock] at hd
    exact ⟨d, hd, rfl⟩
  | closed hv => exact ⟨d, (List.mem_filter.mp hd).1, rfl⟩
  | same => exact ⟨d, hd, rfl⟩
  | released hv => exact ⟨d, hd, rfl⟩

/-- Only the lock of the touched variable changes, while the description is open. -/
theorem FileStep.mem_locks (h : FileStep k c pid vars touched k' vars') {l : Lock}
    (hl : l ∈ k.locks) (hopen : k'.isOpen l.ofd = true)
    (hother : ∀ v hv, touched = some v → vars v = some hv → l.ofd ≠ hv.ofd) : l ∈ k'.locks := by
  cases h with
  | opened v fd file => exact hl
  | locked hv mode => exact (Kernel.mem_locks_flock_of_ne (hother _ _ rfl hv)).mpr hl
  | closed hv =>
    obtain ⟨d, hd, hofd⟩ := Kernel.isOpen_iff.mp hopen
    exact Kernel.mem_locks_settle.mpr ⟨hl, d, hd, hofd⟩
  | same => exact hl
  | released hv => exact Kernel.mem_locks_release.mpr ⟨hl, hother _ _ rfl hv⟩

end

/-! ## Descriptors of a call -/

/-- The variables of a call have descriptors of its process, each for a description of its
    own that the call opened. -/
structure Own (k : Kernel File) (c pid : Nat) (vars : Var → Option Handle) : Prop where
  descriptor : ∀ v h, vars v = some h → ⟨pid, h.fd, h.ofd⟩ ∈ k.descriptors
  opener : ∀ v h, vars v = some h → ∃ file, k.opened[h.ofd]? = some ⟨file, c⟩
  distinct : ∀ v v' h h', vars v = some h → vars v' = some h' → h.ofd = h'.ofd → v = v'

section

variable {k k' : Kernel File} {c c' pid pid' : Nat} {vars vars' vars₀ : Var → Option Handle}
variable {touched : Option Var}

theorem Own.isOpen (h : Own k c pid vars) {v : Var} {hd : Handle} (hv : vars v = some hd) :
    k.isOpen hd.ofd = true :=
  Kernel.isOpen_iff.mpr ⟨_, h.descriptor v hd hv, rfl⟩

/-- Calls do not share open file descriptions. -/
theorem Own.ofd_ne (h : Own k c pid vars) (h' : Own k c' pid' vars') (hne : c' ≠ c) {v v' : Var}
    {hd hd' : Handle} (hv : vars v = some hd) (hv' : vars' v' = some hd') : hd'.ofd ≠ hd.ofd := by
  intro heq
  obtain ⟨file, hfile⟩ := h.opener v hd hv
  obtain ⟨file', hfile'⟩ := h'.opener v' hd' hv'
  rw [heq, hfile] at hfile'
  injection hfile' with hopen
  injection hopen with _ hc
  exact hne hc.symm

theorem FileStep.wf (h : FileStep k c pid vars touched k' vars') (hwf : k.Wf)
    (hown : Own k c pid vars) : k'.Wf := by
  cases h with
  | opened v fd file => exact hwf.openFile pid fd file c
  | locked hv mode => exact hwf.flock (hown.isOpen hv) mode
  | closed hv => exact hwf.close _
  | same => exact hwf
  | released hv => exact hwf.release _

/-- The step of one call leaves the others their descriptors. -/
theorem Own.other (h' : Own k c' pid' vars₀) (hown : Own k c pid vars) (hne : c' ≠ c)
    (h : FileStep k c pid vars touched k' vars') : Own k' c' pid' vars₀ := by
  refine ⟨fun v hd hv => ?_, fun v hd hv => ?_, h'.distinct⟩
  · apply h.mem_descriptors (h'.descriptor v hd hv)
    intro v₁ hd₁ hv₁ heq
    exact hown.ofd_ne h' hne hv₁ hv (Flock.Descriptor.mk.inj heq).2.2
  · obtain ⟨file, hfile⟩ := h'.opener v hd hv
    exact ⟨file, h.opened_mono hfile⟩

/-- The call's own step leaves it the descriptors it should have. -/
theorem Own.self (hown : Own k c pid vars) (hwf : k.Wf)
    (h : FileStep k c pid vars touched k' vars') : Own k' c pid vars' := by
  cases h with
  | same => exact hown
  | released hv => exact ⟨hown.descriptor, hown.opener, hown.distinct⟩
  | locked hv mode =>
    refine ⟨?_, ?_, hown.distinct⟩
    · rw [Kernel.descriptors_flock]
      exact hown.descriptor
    · rw [Kernel.opened_flock]
      exact hown.opener
  | @closed v hd hv =>
    -- a variable that is still bound is another one, for another description
    have hbound : ∀ v' hd', Function.update vars v none v' = some hd' →
        v' ≠ v ∧ vars v' = some hd' := by
      intro v' hd' hv'
      by_cases heq : v' = v
      · subst heq
        simp at hv'
      · exact ⟨heq, by simpa [heq] using hv'⟩
    refine ⟨fun v' hd' hv' => ?_, fun v' hd' hv' => ?_, fun v₁ v₂ hd₁ hd₂ hv₁ hv₂ => ?_⟩
    · obtain ⟨hne, hvar⟩ := hbound v' hd' hv'
      refine List.mem_filter.mpr ⟨hown.descriptor v' hd' hvar, ?_⟩
      simp only [ne_eq, decide_eq_true_eq]
      intro heq
      exact hne (hown.distinct v' v hd' hd hvar hv (Flock.Descriptor.mk.inj heq).2.2)
    · exact hown.opener v' hd' (hbound v' hd' hv').2
    · exact hown.distinct v₁ v₂ hd₁ hd₂ (hbound v₁ hd₁ hv₁).2 (hbound v₂ hd₂ hv₂).2
  | opened v fd file =>
    -- the new description is none of the old ones
    have hold : ∀ v' hd', vars v' = some hd' → hd'.ofd < k.opened.length := by
      intro v' hd' hv'
      exact hwf.known _ (hown.descriptor v' hd' hv')
    have hcases : ∀ v' hd',
        Function.update vars v (some ⟨fd, k.opened.length⟩) v' = some hd' →
        (v' = v ∧ hd' = ⟨fd, k.opened.length⟩) ∨ (v' ≠ v ∧ vars v' = some hd') := by
      intro v' hd' hv'
      by_cases heq : v' = v
      · subst heq
        exact .inl ⟨rfl, by simpa using hv'.symm⟩
      · exact .inr ⟨heq, by simpa [heq] using hv'⟩
    refine ⟨fun v' hd' hv' => ?_, fun v' hd' hv' => ?_, fun v₁ v₂ hd₁ hd₂ hv₁ hv₂ hofd => ?_⟩
    · rcases hcases v' hd' hv' with ⟨-, rfl⟩ | ⟨-, hvar⟩
      · exact List.mem_append_right _ List.mem_cons_self
      · exact List.mem_append_left _ (hown.descriptor v' hd' hvar)
    · rcases hcases v' hd' hv' with ⟨-, rfl⟩ | ⟨-, hvar⟩
      · exact ⟨file, by simp [Kernel.openFile]⟩
      · obtain ⟨file', hfile'⟩ := hown.opener v' hd' hvar
        have hstep : FileStep k c pid vars none _ _ := .opened v fd file
        exact ⟨file', hstep.opened_mono hfile'⟩
    · rcases hcases v₁ hd₁ hv₁ with ⟨rfl, rfl⟩ | ⟨-, hvar₁⟩
      · rcases hcases v₂ hd₂ hv₂ with ⟨rfl, -⟩ | ⟨-, hvar₂⟩
        · rfl
        · have := hold v₂ hd₂ hvar₂
          simp only at hofd
          omega
      · rcases hcases v₂ hd₂ hv₂ with ⟨rfl, rfl⟩ | ⟨-, hvar₂⟩
        · have := hold v₁ hd₁ hvar₁
          simp only at hofd
          omega
        · exact hown.distinct v₁ v₂ hd₁ hd₂ hvar₁ hvar₂ hofd

end

/-! ## Facts about descriptors -/

/-- A variable has a descriptor for this file, and with it this lock. -/
structure Fact where
  var : Var
  file : File
  lock : Option Mode
deriving DecidableEq

def Fact.Holds (k : Kernel File) (vars : Var → Option Handle) (fact : Fact) : Prop :=
  ∃ h, vars fact.var = some h ∧ k.fileOf h.ofd = some fact.file ∧
    ∀ mode, fact.lock = some mode → ⟨h.ofd, mode⟩ ∈ k.locks

/-- Others cannot change what a call knows. -/
theorem Fact.Holds.other {k k' : Kernel File} {c c' pid pid' : Nat}
    {vars vars' vars₀ : Var → Option Handle} {touched : Option Var} {fact : Fact}
    (hfact : fact.Holds k vars₀) (hown' : Own k c' pid' vars₀) (hown : Own k c pid vars)
    (hne : c' ≠ c) (h : FileStep k c pid vars touched k' vars') : fact.Holds k' vars₀ := by
  obtain ⟨hd, hv, hfile, hlock⟩ := hfact
  refine ⟨hd, hv, h.fileOf_mono hfile, fun mode hmode => ?_⟩
  apply h.mem_locks (hlock mode hmode) ((hown'.other hown hne h).isOpen hv)
  intro v₁ hd₁ _ hv₁
  exact hown.ofd_ne hown' hne hv₁ hv

/-- The facts with another lock for a variable. -/
def withLock (v : Var) (lock : Option Mode) (facts : List Fact) : List Fact :=
  facts.map fun fact => if fact.var = v then { fact with lock := lock } else fact

/-- What a call still knows after a system call. -/
def transfer : (op : Op) → op.Answer → List Fact → List Fact
  | .open v file, true, facts => ⟨v, file, none⟩ :: facts.filter (·.var ≠ v)
  | .openTicket v _, _, facts | .close v, _, facts => facts.filter (·.var ≠ v)
  | .flock v mode, .granted, facts => withLock v (some mode) facts ++ withLock v none facts
  | .flock v _, _, facts | .unlock v, _, facts => withLock v none facts
  | _, _, facts => facts

section

variable {s s' : Sys} {c : Nat} {call : Call} {input : Input} {vars : Var → Option Handle}

/-- A fact about another variable than the one the step is about. -/
theorem Fact.Holds.self {k k' : Kernel File} {pid : Nat} {vars₀ vars' : Var → Option Handle}
    {touched : Option Var} {fact : Fact} (hfact : fact.Holds k vars₀) (hown : Own k c pid vars₀)
    (hwf : k.Wf) (h : FileStep k c pid vars₀ touched k' vars') (hvar : vars' fact.var = vars₀ fact.var)
    (htouched : touched ≠ some fact.var) : fact.Holds k' vars' := by
  obtain ⟨hd, hv, hfile, hlock⟩ := hfact
  have hv' : vars' fact.var = some hd := hvar.trans hv
  refine ⟨hd, hv', h.fileOf_mono hfile, fun mode hmode => ?_⟩
  apply h.mem_locks (hlock mode hmode) ((hown.self hwf h).isOpen hv')
  intro v₁ hd₁ htouch hv₁ hofd
  exact htouched (htouch.trans (congrArg some (hown.distinct _ _ _ _ hv₁ hv hofd.symm)))

/-- The lock of the touched variable is forgotten. -/
theorem forget_holds {k k' : Kernel File} {pid : Nat} {vars₀ : Var → Option Handle}
    {touched : Option Var} {v : Var} (hown : Own k c pid vars₀) (hwf : k.Wf)
    (h : FileStep k c pid vars₀ touched k' vars₀) (htouched : touched = some v)
    {facts : List Fact} (hfacts : ∀ fact ∈ facts, fact.Holds k vars₀) :
    ∀ fact ∈ withLock v none facts, fact.Holds k' vars₀ := by
  intro fact hmem
  obtain ⟨fact, hin, rfl⟩ := List.mem_map.mp hmem
  split
  · obtain ⟨hd, hv, hfile, -⟩ := hfacts fact hin
    exact ⟨hd, hv, h.fileOf_mono hfile, fun mode hmode => (nomatch hmode)⟩
  · next hvar =>
    apply (hfacts fact hin).self hown hwf h rfl
    rw [htouched]
    intro heq
    exact hvar (Option.some.inj heq).symm

/-- `transfer` is right about every system call. -/
theorem transfer_holds {op : Op} {answer : op.Answer} (hwf : s.kernel.Wf)
    (hown : Own s.kernel c call.args.pid call.vars)
    (h : s.exec c call input op = some (s', vars, answer)) {facts : List Fact}
    (hfacts : ∀ fact ∈ facts, fact.Holds s.kernel call.vars) :
    ∀ fact ∈ transfer op answer facts, fact.Holds s'.kernel vars := by
  have hstep := (exec_step h).1
  cases op with
  | «open» v file =>
    simp only [Sys.exec] at h
    split at h
    · cases h
      exact hfacts
    · split at h
      · cases h
        intro fact hmem
        rcases List.mem_cons.mp hmem with rfl | hmem
        · refine ⟨⟨input.fd, s.kernel.opened.length⟩, by simp [Sys.openFile], ?_,
            fun mode hmode => (nomatch hmode)⟩
          exact Kernel.fileOf_opened _ _ _ _
        · obtain ⟨hmem, hne⟩ := List.mem_filter.mp hmem
          have hvar : fact.var ≠ v := by simpa using hne
          exact (hfacts fact hmem).self hown hwf hstep (by simp [Sys.openFile, hvar])
            (by simp [Op.locked])
      · cases h
  | openTicket v name =>
    simp only [Sys.exec] at h
    split at h
    · cases h
      intro fact hmem
      obtain ⟨hmem, hne⟩ := List.mem_filter.mp hmem
      have hvar : fact.var ≠ v := by simpa using hne
      exact (hfacts fact hmem).self hown hwf hstep (by simp [Sys.openFile, hvar])
        (by simp [Op.locked])
    · cases h
  | close v =>
    simp only [Sys.exec] at h
    intro fact hmem
    obtain ⟨hmem, hne⟩ := List.mem_filter.mp hmem
    have hvar : fact.var ≠ v := by simpa using hne
    apply (hfacts fact hmem).self hown hwf hstep _ (by simp [Op.locked])
    split at h <;> cases h
    · rfl
    · simp [hvar]
  | flock v mode =>
    simp only [Sys.exec] at h
    split at h
    · cases h
    · next hd hv =>
      cases h
      have hforget := forget_holds hown hwf hstep rfl hfacts
      cases hattempt : (s.kernel.flock hd.ofd mode).2 with
      | granted =>
        intro fact hmem
        rcases List.mem_append.mp hmem with hmem | hmem
        · obtain ⟨fact, hin, rfl⟩ := List.mem_map.mp hmem
          split
          · next hvar =>
            obtain ⟨hd', hv', hfile, -⟩ := hfacts fact hin
            rw [hvar, hv] at hv'
            cases hv'
            refine ⟨hd, by rw [hvar, hv], hstep.fileOf_mono hfile, fun m hm => ?_⟩
            cases hm
            exact Kernel.mem_locks_of_granted hattempt
          · next hvar =>
            exact (hfacts fact hin).self hown hwf hstep rfl
              (by simpa [Op.locked] using fun h => hvar h.symm)
        · exact hforget fact hmem
      | busy | again => exact hforget
  | unlock v =>
    simp only [Sys.exec] at h
    split at h
    · cases h
    · next hd hv =>
      cases h
      exact forget_holds hown hwf hstep rfl hfacts
  | pread v | record | ask | pwrite v text | sign =>
    simp only [Sys.exec] at h
    split at h <;> cases h
    exact hfacts
  | unlink name | stat pid | fdFile pid fd | fdLock pid fd | «exists» file | glob w =>
    cases h
    exact hfacts

end

/-! ## What a call knows at each position -/

def Slot.facts (slot : Slot) (admission activity : Option Mode) : List Fact :=
  [⟨slot.admission, .admission slot.lane, admission⟩, ⟨slot.activity, .activity slot.lane, activity⟩]

/-- The descriptors `_wait_owner` has, with locks on the slot it tries. -/
def Home.facts (home : Home) (spare : Bool) (admission activity : Option Mode) : List Fact :=
  let other := Slot.facts ⟨.heavy2, .spare⟩
  match spare, home.workClass with
  | true, _ => home.slot.facts none none ++ other admission activity
  | false, .heavy => home.slot.facts admission activity ++ other none none
  | false, .light => home.slot.facts admission activity

/-- Both locks of a lane; that of the activity file may be forgotten. -/
def Slot.owned (slot : Slot) : List Fact :=
  slot.facts (some .exclusive) (some .exclusive) ++ slot.facts (some .exclusive) none

def Home.owned (home : Home) (spare : Bool) : List Fact :=
  home.facts spare (some .exclusive) (some .exclusive) ++ home.facts spare (some .exclusive) none

def Errand.facts : Errand → List Fact
  | .issue home => home.facts false none none
  | .elect ticket | .retire ticket => ticket.home.facts false none none
  | .record .. | .inspect _ => []

/-- The metadata lock. -/
def queueFact : Fact := ⟨.queue, .queue, some .exclusive⟩

/-- What a call knows about its descriptors before each statement. -/
def Position.facts (args : Args) : Position → List Fact
  | .openActivity lane => [⟨.admission .held, .admission lane, none⟩]
  | .readText lane _ | .branchExists lane _ | .process lane _ _ _ | .look lane _ _ _ _
  | .lockShared lane _ _ => Slot.facts ⟨lane, .held⟩ none none
  | .recheck lane _ => ⟨.activity .held, .activity lane, some .shared⟩ ::
    Slot.facts ⟨lane, .held⟩ none none
  | .reopenActivity => [⟨.admission .fresh, .admission args.requested.lane, none⟩]
  | .closeActivity | .closeAdmission => Slot.facts ⟨args.requested.lane, .fresh⟩ none none
  | .openSpareAdmission home => home.slot.facts none none
  | .openSpareActivity home =>
    ⟨.admission .spare, .admission .heavy2, none⟩ :: home.slot.facts none none
  | .openQueue errand => errand.facts
  | .lockQueue errand => ⟨.queue, .queue, none⟩ :: errand.facts
  | .list errand | .leaveQueue errand | .failQueue errand => queueFact :: errand.facts
  | .probeOpen scan | .probeLock scan | .probeRecord scan | .probeStatus scan _
  | .probeUnlink scan | .probeClose scan _ | .probeFail scan => queueFact :: scan.errand.facts
  | .order home _ => queueFact :: home.facts false none none
  | .create ticket | .lockTicket ticket | .sign ticket | .unlinkOwn ticket =>
    queueFact :: ticket.home.facts false none none
  | .queue ticket => ticket.home.facts false none none
  | .tryAdmission ticket spare => queueFact :: ticket.home.facts spare none none
  | .askSpare ticket => queueFact :: ticket.home.facts true none none
  | .tryActivity ticket spare | .giveBack ticket spare =>
    queueFact :: ticket.home.facts spare (some .exclusive) none
  | .unlinkTicket ticket spare => queueFact :: ticket.home.owned spare
  | .leaveOwner home spare => queueFact :: home.owned spare
  | .closeWaiter home spare => home.owned spare
  | .closeOtherAdmission home spare | .closeOtherActivity home spare => (home.pick spare).owned
  | .generate slot | .truncate slot _ | .writeText slot _ => slot.owned
  | .downgrade slot _ => slot.facts (some .exclusive) none
  | .openAdmission _ | .closing .. | .openBranch .. | .waitBranch .. | .reopenAdmission | .working ..
  | .watchAdmission .. | .watchActivity .. | .watchLock .. | .watchUnlock .. => []

theorem facts_queueUp (args : Args) (home : Home) :
    (queueUp home).facts args ⊆ home.slot.facts none none := by
  obtain ⟨w, reopened⟩ := home
  cases w <;> simp [queueUp, Position.facts, Errand.facts, Home.facts]

theorem facts_notInherited (args : Args) (lane : Lane) :
    (notInherited args lane).facts args ⊆ Slot.facts ⟨lane, .held⟩ none none := by
  unfold notInherited
  split
  · simp [Position.facts]
  · next hlane =>
    rw [not_not.mp hlane]
    exact facts_queueUp args ⟨args.requested, false⟩

theorem facts_walk (args : Args) (lane : Lane) (claim : Claim) (pid : Nat) (seen : List Nat) :
    (walk args lane claim pid seen).facts args ⊆ Slot.facts ⟨lane, .held⟩ none none := by
  unfold walk
  split
  · exact List.Subset.refl _
  · exact facts_notInherited args lane

theorem facts_closeAll {args : Args} {vs : List Var} {lanes : List Lane} {pos : Position}
    (h : closeAll vs lanes = some pos) : pos.facts args = [] := by
  cases vs with
  | cons v vs =>
    cases h
    rfl
  | nil =>
    cases lanes with
    | nil => cases h
    | cons lane lanes =>
      cases h
      rfl

/-- What closes its descriptors needs to know nothing. -/
theorem facts_closing {args : Args} {vs : List Var} {lanes : List Lane} {pos : Position}
    (h : closeAll vs lanes = some pos) (facts : List Fact) : pos.facts args ⊆ facts := by
  rw [facts_closeAll h]
  exact List.nil_subset facts

theorem facts_unwind {args : Args} {errand : Errand} {pos : Position}
    (h : unwind errand = some pos) : pos.facts args ⊆ errand.facts := by
  cases errand with
  | elect ticket =>
    cases h
    exact List.Subset.refl _
  | issue home | retire ticket | record slot generation | inspect lanes =>
    simp only [unwind] at h
    exact facts_closing h _

theorem facts_resume {args : Args} {errand : Errand} {pos : Position}
    (h : resume errand = some pos) : pos.facts args ⊆ errand.facts := by
  cases errand with
  | elect ticket =>
    cases h
    exact List.Subset.refl _
  | record slot generation =>
    cases h
    exact List.Subset.refl _
  | issue home | retire ticket | inspect lanes =>
    simp only [resume] at h
    exact facts_closing h _

theorem facts_scanned (args : Args) (errand : Errand) (names : List String) :
    (scanned errand names).facts args ⊆ queueFact :: errand.facts := by
  cases errand with
  | elect ticket =>
    cases names with
    | nil => exact List.Subset.refl _
    | cons name names =>
      simp only [scanned]
      split <;> exact List.Subset.refl _
  | issue home | retire ticket | record slot generation | inspect lanes =>
    exact List.Subset.refl _

theorem facts_scanNext (args : Args) (errand : Errand) (kept todo : List String) :
    (scanNext errand kept todo).facts args ⊆ queueFact :: errand.facts := by
  cases todo with
  | nil => exact facts_scanned args errand _
  | cons path rest =>
    simp only [scanNext]
    split <;> exact List.Subset.refl _

theorem facts_refused (args : Args) (ticket : Ticket) (spare : Bool) :
    (refused ticket spare).facts args ⊆ queueFact :: ticket.home.facts spare none none := by
  obtain ⟨⟨w, reopened⟩, order, uuid⟩ := ticket
  unfold refused
  split
  · next hheavy =>
    cases spare with
    | true => simp at hheavy
    | false =>
      obtain rfl : w = .heavy := hheavy.2
      exact List.Subset.refl _
  · cases spare
    · exact List.Subset.refl _
    · cases w <;> simp [Position.facts, Errand.facts, Home.facts]

/-- One of the two descriptors of a lane. -/
def Var.isLane : Var → Bool
  | .admission _ | .activity _ => true
  | _ => false

theorem isLane_of_mem_home {home : Home} {spare : Bool} {admission activity : Option Mode}
    {fact : Fact} (h : fact ∈ home.facts spare admission activity) : fact.var.isLane = true := by
  obtain ⟨w, reopened⟩ := home
  cases spare <;> cases w <;>
    simp only [Home.facts, Slot.facts, List.mem_append, List.mem_cons, List.not_mem_nil,
      or_false] at h <;> aesop

theorem isLane_of_mem_owned {home : Home} {spare : Bool} {fact : Fact}
    (h : fact ∈ home.owned spare) : fact.var.isLane = true := by
  rcases List.mem_append.mp h with h | h <;> exact isLane_of_mem_home h

/-- The locks of the slot that was chosen. -/
theorem owned_pick (home : Home) (spare : Bool) : (home.pick spare).owned ⊆ home.owned spare := by
  obtain ⟨w, reopened⟩ := home
  cases spare <;> cases w <;>
    simp [Home.owned, Home.facts, Home.pick, Slot.owned, Slot.facts, Home.slot]

/-- The chosen slot and the other one have different descriptors. -/
theorem var_ne_other {home : Home} {spare : Bool} {fact : Fact}
    (h : fact ∈ (home.pick spare).owned) :
    fact.var ≠ (home.pick !spare).admission ∧ fact.var ≠ (home.pick !spare).activity := by
  obtain ⟨w, reopened⟩ := home
  cases spare <;> cases reopened <;>
    simp [Home.pick, Home.slot, Slot.owned, Slot.facts, Slot.admission, Slot.activity] at h ⊢ <;>
    aesop

theorem isLane_of_mem_errand {errand : Errand} {fact : Fact} (h : fact ∈ errand.facts) :
    fact.var.isLane = true := by
  cases errand with
  | issue home | elect ticket | retire ticket => exact isLane_of_mem_home h
  | record slot generation | inspect lanes => cases h

/-- Facts about other variables survive the end of one. -/
theorem subset_filter {facts facts' : List Fact} {v : Var} (h : facts ⊆ facts')
    (hv : ∀ fact ∈ facts, fact.var ≠ v) : facts ⊆ facts'.filter (·.var ≠ v) := by
  intro fact hmem
  exact List.mem_filter.mpr ⟨h hmem, by simpa using hv fact hmem⟩

/-- Facts about other variables survive a change of the lock of one. -/
theorem subset_withLock {facts facts' : List Fact} {v : Var} {lock : Option Mode} (h : facts ⊆ facts')
    (hv : ∀ fact ∈ facts, fact.var ≠ v) :
    facts ⊆ withLock v lock facts' := by
  intro fact hmem
  exact List.mem_map.mpr ⟨fact, h hmem, if_neg (hv fact hmem)⟩

theorem ne_of_isLane {v v' : Var} (h : v.isLane = true) (h' : v'.isLane = false) : v ≠ v' := by
  rintro rfl
  rw [h] at h'
  cases h'

/-- The lock of the slot that is tried. -/
theorem facts_locked (home : Home) (spare : Bool) (admission activity lock : Option Mode) :
    queueFact :: home.facts spare lock activity ⊆
      withLock (home.pick spare).admission lock
        (queueFact :: home.facts spare admission activity) ∧
    queueFact :: home.facts spare admission lock ⊆
      withLock (home.pick spare).activity lock
        (queueFact :: home.facts spare admission activity) := by
  obtain ⟨w, reopened⟩ := home
  cases spare <;> cases w <;> cases reopened <;>
    simp [Home.facts, Home.pick, Home.slot, Slot.facts, Slot.admission, Slot.activity, queueFact,
      withLock]

/-- Both locks of the slot that is tried. -/
theorem facts_owned (home : Home) (spare : Bool) :
    queueFact :: home.owned spare ⊆ transfer (.flock (home.pick spare).activity .exclusive)
      .granted (queueFact :: home.facts spare (some .exclusive) none) := by
  have hboth := (facts_locked home spare (some .exclusive) none (some .exclusive)).2
  have hweak := (facts_locked home spare (some .exclusive) none none).2
  intro fact hmem
  rcases List.mem_cons.mp hmem with rfl | hmem
  · exact List.mem_append_left _ (hboth List.mem_cons_self)
  · rcases List.mem_append.mp hmem with hmem | hmem
    · exact List.mem_append_left _ (hboth (List.mem_cons_of_mem _ hmem))
    · exact List.mem_append_right _ (hweak (List.mem_cons_of_mem _ hmem))

/-- In the metadata section the errand's facts survive what is done to other variables. -/
theorem facts_section (errand : Errand) {v : Var} (hv : v.isLane = false) (hq : v ≠ .queue) :
    queueFact :: errand.facts ⊆ (queueFact :: errand.facts).filter (·.var ≠ v) := by
  apply subset_filter (List.Subset.refl _)
  intro fact hmem
  rcases List.mem_cons.mp hmem with rfl | hmem
  · exact hq.symm
  · exact ne_of_isLane (isLane_of_mem_errand hmem) hv

theorem facts_home_section (home : Home) {v : Var} (hv : v.isLane = false) (hq : v ≠ .queue) :
    queueFact :: home.facts false none none ⊆
      (queueFact :: home.facts false none none).filter (·.var ≠ v) :=
  facts_section (.issue home) hv hq

theorem facts_leave {errand : Errand} {facts : List Fact} (h : facts ⊆ errand.facts) :
    facts ⊆ (queueFact :: errand.facts).filter (·.var ≠ .queue) := by
  apply subset_filter (List.Subset.trans h (List.subset_cons_self _ _))
  intro fact hmem
  exact ne_of_isLane (isLane_of_mem_errand (h hmem)) rfl

theorem facts_next {args : Args} {pos pos' : Position} {answer : (pos.next args).1.Answer}
    (h : (pos.next args).2 answer = some pos') :
    pos'.facts args ⊆ transfer (pos.next args).1 answer (pos.facts args) := by
  cases pos with
  | openAdmission lane =>
    cases answer <;> cases h
    exact List.Subset.refl _
  | openActivity lane =>
    cases answer with
    | false =>
      simp only [Position.next] at h
      exact facts_closing h _
    | true =>
      have hheld : Slot.facts ⟨lane, .held⟩ none none ⊆ transfer
          (.open (.activity .held) (.activity lane)) true
            [⟨.admission .held, .admission lane, none⟩] := by
        simp [Slot.facts, Slot.admission, Slot.activity, transfer]
      simp only [Position.next, inherited] at h
      split at h
      · exact facts_closing h _
      · cases h
        exact List.Subset.trans (facts_notInherited args lane) hheld
      · cases h
        exact hheld
  | readText lane claim =>
    simp only [Position.next, Option.some.injEq] at h
    subst h
    split
    · exact facts_notInherited args lane
    · split
      · exact facts_walk args lane claim args.pid []
      · exact List.Subset.refl _
  | branchExists lane claim =>
    cases answer with
    | false =>
      cases h
      exact facts_notInherited args lane
    | true =>
      cases h
      exact facts_walk args lane claim args.pid []
  | process lane claim pid seen =>
    cases answer with
    | none =>
      cases h
      exact facts_notInherited args lane
    | some p =>
      cases h
      exact List.Subset.refl _
  | look lane claim a look good =>
    cases look with
    | holder | holderInfo | branch | branchInfo =>
      cases answer with
      | none =>
        cases h
        exact facts_walk args lane claim a.parent a.seen
      | some x =>
        cases h
        exact List.Subset.refl _
    | stable =>
      cases answer with
      | none =>
        cases h
        exact facts_walk args lane claim a.parent a.seen
      | some p =>
        simp only [Position.next] at h
        split at h <;> cases h
        · exact List.Subset.refl _
        · exact facts_walk args lane claim a.parent a.seen
  | lockShared lane claim a =>
    have hforget : Slot.facts ⟨lane, .held⟩ none none ⊆
        withLock (.activity .held) none (Slot.facts ⟨lane, .held⟩ none none) := by
      simp [Slot.facts, Slot.admission, Slot.activity, withLock]
    cases answer with
    | granted =>
      cases h
      simp [Position.next, Position.facts, Slot.facts, Slot.admission, Slot.activity, transfer,
        withLock]
    | busy =>
      cases h
      exact List.Subset.trans (facts_walk args lane claim a.parent a.seen) hforget
    | again =>
      cases h
      exact hforget
  | recheck lane claim =>
    simp only [Position.next] at h
    split at h
    · cases h
      exact List.Subset.trans (facts_notInherited args lane) (List.subset_cons_self _ _)
    · unfold joined at h
      split at h
      · exact facts_closing h _
      · cases h
        exact List.nil_subset _
  | openBranch slot generation depth =>
    cases answer with
    | false =>
      simp only [Position.next] at h
      exact facts_closing h _
    | true =>
      cases h
      exact List.nil_subset _
  | waitBranch slot generation depth =>
    cases answer <;> cases h <;> exact List.nil_subset _
  | reopenAdmission =>
    cases answer with
    | false =>
      cases h
      exact List.nil_subset _
    | true =>
      cases h
      exact List.Subset.refl _
  | reopenActivity =>
    cases answer with
    | false =>
      cases h
      exact List.nil_subset _
    | true =>
      cases h
      simp [Position.next, Position.facts, Slot.facts, Slot.admission, Slot.activity, transfer]
  | closeActivity =>
    cases h
    simp [Position.next, Position.facts, Slot.facts, Slot.admission, Slot.activity, transfer]
  | closeAdmission =>
    cases h
    apply List.Subset.trans (facts_queueUp args ⟨args.requested, true⟩)
    simp [Position.next, Position.facts, Home.slot, Slot.facts, Slot.admission, Slot.activity,
      transfer]
  | openSpareAdmission home =>
    obtain ⟨w, reopened⟩ := home
    cases answer with
    | false =>
      cases h
      exact List.nil_subset _
    | true =>
      cases h
      cases reopened <;> simp [Position.next, Position.facts, Home.slot, Slot.facts,
        Slot.admission, Slot.activity, transfer]
  | openSpareActivity home =>
    obtain ⟨w, reopened⟩ := home
    cases answer with
    | false =>
      cases h
      exact List.nil_subset _
    | true =>
      cases h
      cases w <;> cases reopened <;> simp [Position.next, Position.facts, Errand.facts,
        Home.facts, Home.slot, Slot.facts, Slot.admission, Slot.activity, transfer]
  | openQueue errand =>
    cases answer with
    | false =>
      simp only [Position.next] at h
      exact facts_unwind h
    | true =>
      cases h
      apply List.cons_subset_cons
      apply subset_filter (List.Subset.refl _)
      intro fact hmem
      exact ne_of_isLane (isLane_of_mem_errand hmem) rfl
  | lockQueue errand =>
    have hforget : ∀ lock, ⟨.queue, .queue, lock⟩ :: errand.facts ⊆
        withLock .queue lock (⟨.queue, .queue, none⟩ :: errand.facts) := by
      intro lock
      apply List.cons_subset_cons
      apply subset_withLock (List.Subset.refl _)
      intro fact hmem
      exact ne_of_isLane (isLane_of_mem_errand hmem) rfl
    cases answer with
    | granted =>
      cases h
      have hbody : (body errand).facts args ⊆ queueFact :: errand.facts := by
        cases errand <;> exact List.Subset.refl _
      exact List.Subset.trans hbody
        (List.Subset.trans (hforget (some .exclusive)) (List.subset_append_left _ _))
    | busy | again =>
      cases h
      exact hforget none
  | list errand =>
    cases h
    exact facts_scanNext args errand [] answer
  | probeOpen scan =>
    cases h
    exact facts_section scan.errand (v := .probe) rfl (by decide)
  | probeLock scan =>
    have hlock : ∀ lock, queueFact :: scan.errand.facts ⊆
        withLock .probe lock (queueFact :: scan.errand.facts) := by
      intro lock
      apply subset_withLock (List.Subset.refl _)
      intro fact hmem
      rcases List.mem_cons.mp hmem with rfl | hmem
      · decide
      · exact ne_of_isLane (isLane_of_mem_errand hmem) rfl
    cases answer with
    | granted =>
      cases h
      exact List.Subset.trans (hlock none) (List.subset_append_right _ _)
    | busy | again =>
      cases h
      exact hlock none
  | probeRecord scan =>
    cases answer <;> cases h <;> exact List.Subset.refl _
  | probeStatus scan identity =>
    cases answer with
    | none =>
      cases h
      exact List.Subset.refl _
    | some p =>
      simp only [Position.next] at h
      split at h <;> cases h <;> exact List.Subset.refl _
  | probeUnlink scan =>
    cases h
    exact List.Subset.refl _
  | probeClose scan live =>
    cases h
    exact List.Subset.trans (facts_scanNext args scan.errand _ scan.rest)
      (facts_section scan.errand (v := .probe) rfl (by decide))
  | probeFail scan =>
    cases h
    exact facts_section scan.errand (v := .probe) rfl (by decide)
  | order home names =>
    cases h
    exact List.Subset.refl _
  | create ticket =>
    cases h
    exact facts_home_section ticket.home (v := .waiter) rfl (by decide)
  | lockTicket ticket =>
    have hlock : queueFact :: ticket.home.facts false none none ⊆
        withLock .waiter none (queueFact :: ticket.home.facts false none none) := by
      apply subset_withLock (List.Subset.refl _)
      intro fact hmem
      rcases List.mem_cons.mp hmem with rfl | hmem
      · decide
      · exact ne_of_isLane (isLane_of_mem_home hmem) rfl
    cases answer with
    | granted =>
      cases h
      exact List.Subset.trans hlock (List.subset_append_right _ _)
    | busy | again =>
      cases h
      exact hlock
  | sign ticket =>
    cases h
    exact List.Subset.refl _
  | leaveQueue errand =>
    simp only [Position.next] at h
    exact facts_leave (facts_resume h)
  | failQueue errand =>
    simp only [Position.next] at h
    exact facts_leave (facts_unwind h)
  | queue ticket =>
    simp only [Position.next] at h
    split at h <;> cases h <;> exact List.Subset.refl _
  | tryAdmission ticket spare =>
    cases answer with
    | granted =>
      cases h
      exact List.Subset.trans (facts_locked ticket.home spare none none _).1
        (List.subset_append_left _ _)
    | busy =>
      cases h
      exact List.Subset.trans (facts_refused args ticket spare)
        (facts_locked ticket.home spare none none _).1
    | again =>
      cases h
      exact (facts_locked ticket.home spare none none _).1
  | tryActivity ticket spare =>
    cases answer with
    | granted =>
      cases h
      exact facts_owned ticket.home spare
    | busy | again =>
      cases h
      exact (facts_locked ticket.home spare _ none _).2
  | giveBack ticket spare =>
    cases h
    exact List.Subset.trans (facts_refused args ticket spare)
      (facts_locked ticket.home spare _ none _).1
  | askSpare ticket =>
    simp only [Position.next] at h
    split at h <;> cases h
    · exact List.Subset.refl _
    · obtain ⟨⟨w, reopened⟩, order, uuid⟩ := ticket
      cases w <;> simp [Position.next, Position.facts, Errand.facts, Home.facts, transfer]
  | unlinkTicket ticket spare =>
    cases h
    exact List.Subset.refl _
  | unlinkOwn ticket =>
    cases h
    exact List.Subset.refl _
  | leaveOwner home spare =>
    cases h
    show home.owned spare ⊆ (queueFact :: home.owned spare).filter (·.var ≠ .queue)
    apply subset_filter (List.subset_cons_self _ _)
    intro fact hmem
    exact ne_of_isLane (isLane_of_mem_owned hmem) rfl
  | closeWaiter home spare =>
    cases h
    have hpick : (closeOther home spare).facts args ⊆ (home.pick spare).owned := by
      unfold closeOther
      split <;> exact List.Subset.refl _
    apply subset_filter (List.Subset.trans hpick (owned_pick home spare))
    intro fact hmem
    exact ne_of_isLane (isLane_of_mem_owned (owned_pick home spare (hpick hmem))) rfl
  | closeOtherAdmission home spare =>
    cases h
    exact subset_filter (List.Subset.refl _) fun fact hmem => (var_ne_other hmem).1
  | closeOtherActivity home spare =>
    cases h
    exact subset_filter (List.Subset.refl _) fun fact hmem => (var_ne_other hmem).2
  | generate slot =>
    cases h
    exact List.Subset.refl _
  | truncate slot generation =>
    cases h
    exact List.Subset.refl _
  | writeText slot generation =>
    cases h
    exact List.subset_append_right _ _
  | downgrade slot generation =>
    cases answer with
    | granted =>
      cases h
      exact List.nil_subset _
    | busy | again =>
      cases h
      simp [Position.next, Position.facts, Slot.facts, Slot.admission, Slot.activity, transfer,
        withLock]
  | working slot generation branch =>
    simp only [Position.next] at h
    split at h
    · exact facts_closing h _
    · cases h
      exact List.nil_subset _
  | closing v vs lanes =>
    simp only [Position.next] at h
    exact facts_closing h _
  | watchAdmission lane lanes =>
    cases answer <;> cases h
    exact List.nil_subset _
  | watchActivity lane lanes =>
    cases answer <;> cases h <;> exact List.nil_subset _
  | watchLock lanes =>
    cases answer <;> cases h <;> exact List.nil_subset _
  | watchUnlock lanes =>
    simp only [Position.next] at h
    exact facts_closing h _

/-! ## The invariant of the open files -/

/-- What holds of a call in progress. -/
structure CallOk (s : Sys) (c : Nat) (call : Call) : Prop where
  alive : s.alive call.args.pid = true
  own : Own s.kernel c call.args.pid call.vars
  facts : ∀ fact ∈ call.pos.facts call.args, fact.Holds s.kernel call.vars

structure Base (s : Sys) : Prop where
  wf : s.kernel.Wf
  calls : ∀ c call, s.calls c = some call → CallOk s c call

theorem Base.initial : Base Sys.initial :=
  ⟨Kernel.Wf.empty, fun _ _ h => (nomatch h)⟩

/-- Everything a call's next statement can do. -/
theorem advance_cases (s : Sys) (c : Nat) (input : Input) :
    s.advance c input = s ∨
    ∃ call s' vars answer, s.calls c = some call ∧
      s.exec c call input (call.pos.next call.args).1 = some (s', vars, answer) ∧
      ((call.pos.next call.args).2 answer = none ∧
          s.advance c input = { s' with calls := Function.update s'.calls c none } ∨
        ∃ pos, (call.pos.next call.args).2 answer = some pos ∧
          s.advance c input = s'.place c call ⟨call.args, vars, pos⟩) := by
  unfold Sys.advance
  split
  · exact .inl rfl
  · next call hcall =>
    simp only
    split
    · exact .inl rfl
    · next s' vars answer hexec =>
      refine .inr ⟨call, s', vars, answer, hcall, hexec, ?_⟩
      split
      · next hnext => exact .inl ⟨hnext, rfl⟩
      · next pos hnext => exact .inr ⟨pos, hnext, rfl⟩

theorem alive_of_procs {s s' : Sys} (h : s'.procs = s.procs) (pid : Nat) :
    s'.alive pid = s.alive pid := by
  simp only [Sys.alive, h]

theorem alive_iff {s : Sys} {pid : Nat} :
    s.alive pid = true ↔ ∃ p, s.procs pid = some p ∧ p.zombie = false := by
  unfold Sys.alive
  cases s.procs pid <;> simp

/-- The step of one call keeps what holds of the others. -/
theorem CallOk.other {s s' : Sys} {c c' : Nat} {call call' : Call} {input : Input} {op : Op}
    {vars : Var → Option Handle} {answer : op.Answer} (h' : CallOk s c' call')
    (h : CallOk s c call) (hne : c' ≠ c)
    (hexec : s.exec c call input op = some (s', vars, answer)) : CallOk s' c' call' := by
  obtain ⟨hstep, hkept⟩ := exec_step hexec
  refine ⟨?_, h'.own.other h.own hne hstep, ?_⟩
  · rw [alive_of_procs hkept.procs]
    exact h'.alive
  · intro fact hmem
    exact (h'.facts fact hmem).other h'.own h.own hne hstep

/-- The call's own step gives it what holds at its next position. -/
theorem CallOk.self {s s' : Sys} {c : Nat} {call : Call} {input : Input}
    {vars : Var → Option Handle} {answer : (call.pos.next call.args).1.Answer} {pos : Position}
    (h : CallOk s c call) (hwf : s.kernel.Wf)
    (hexec : s.exec c call input (call.pos.next call.args).1 = some (s', vars, answer))
    (hnext : (call.pos.next call.args).2 answer = some pos) :
    CallOk s' c ⟨call.args, vars, pos⟩ := by
  obtain ⟨hstep, hkept⟩ := exec_step hexec
  refine ⟨?_, h.own.self hwf hstep, ?_⟩
  · rw [alive_of_procs hkept.procs]
    exact h.alive
  · intro fact hmem
    exact transfer_holds hwf h.own hexec h.facts fact (facts_next hnext hmem)

theorem CallOk.congr {s s' : Sys} {c : Nat} {call : Call} (h : CallOk s c call)
    (hkernel : s'.kernel = s.kernel) (hprocs : s'.procs = s.procs) : CallOk s' c call := by
  refine ⟨?_, ?_, ?_⟩
  · rw [alive_of_procs hprocs]
    exact h.alive
  · rw [hkernel]
    exact h.own
  · rw [hkernel]
    exact h.facts

theorem Base.advance {s : Sys} (h : Base s) (c : Nat) (input : Input) :
    Base (s.advance c input) := by
  rcases advance_cases s c input with heq | ⟨call, s', vars, answer, hcall, hexec, hnext⟩
  · rw [heq]
    exact h
  have hok := h.calls c call hcall
  obtain ⟨hstep, hkept⟩ := exec_step hexec
  have hwf := hstep.wf h.wf hok.own
  have hother : ∀ c' call', c' ≠ c → s'.calls c' = some call' → CallOk s' c' call' := by
    intro c' call' hne hcall'
    rw [hkept.calls] at hcall'
    exact (h.calls c' call' hcall').other hok hne hexec
  rcases hnext with ⟨-, heq⟩ | ⟨pos, hnext, heq⟩
  · rw [heq]
    refine ⟨hwf, fun c' call' hcall' => ?_⟩
    by_cases hc : c' = c
    · subst hc
      simp at hcall'
    · exact (hother c' call' hc (by simpa [hc] using hcall')).congr rfl rfl
  · rw [heq]
    refine ⟨hwf, fun c' call' hcall' => ?_⟩
    by_cases hc : c' = c
    · subst hc
      obtain rfl : (⟨call.args, vars, pos⟩ : Call) = call' := by
        simpa [Sys.place] using hcall'
      exact (hok.self h.wf hexec hnext).congr rfl rfl
    · exact (hother c' call' hc (by simpa [Sys.place, hc] using hcall')).congr rfl rfl

/-! ## Processes come and go -/

/-- A change of the descriptors that takes nothing from what is still open. -/
structure Settled (k k' : Kernel File) : Prop where
  opened : k'.opened = k.opened
  locks : ∀ l ∈ k.locks, k'.isOpen l.ofd = true → l ∈ k'.locks

theorem settled_settle (k : Kernel File) (ds : List Flock.Descriptor) :
    Settled k (Kernel.settle { k with descriptors := ds }) := by
  refine ⟨rfl, fun l hl hopen => ?_⟩
  obtain ⟨d, hd, hofd⟩ := Kernel.isOpen_iff.mp hopen
  exact Kernel.mem_locks_settle.mpr ⟨hl, d, hd, hofd⟩

theorem settled_fork (k : Kernel File) (parent child : Nat) : Settled k (k.fork parent child) :=
  ⟨rfl, fun _ hl _ => hl⟩

/-- Who keeps its descriptors keeps what it knows. -/
theorem Fact.Holds.settled {k k' : Kernel File} {c pid : Nat} {vars : Var → Option Handle}
    {fact : Fact} (h : fact.Holds k vars) (hk : Settled k k') (hown : Own k' c pid vars) :
    fact.Holds k' vars := by
  obtain ⟨hd, hv, hfile, hlock⟩ := h
  refine ⟨hd, hv, ?_, fun mode hmode => hk.locks _ (hlock mode hmode) (hown.isOpen hv)⟩
  rw [Kernel.fileOf, hk.opened]
  exact hfile

theorem CallOk.settled {s s' : Sys} {c : Nat} {call : Call} (h : CallOk s c call)
    (hk : Settled s.kernel s'.kernel)
    (hdesc : ∀ v hd, call.vars v = some hd →
      ⟨call.args.pid, hd.fd, hd.ofd⟩ ∈ s'.kernel.descriptors)
    (halive : s'.alive call.args.pid = true) : CallOk s' c call := by
  have hown : Own s'.kernel c call.args.pid call.vars := by
    refine ⟨hdesc, ?_, h.own.distinct⟩
    rw [hk.opened]
    exact h.own.opener
  exact ⟨halive, hown, fun fact hmem => (h.facts fact hmem).settled hk hown⟩

theorem Base.start {s : Sys} (h : Base s) (c : Nat) (args : Args) {pos : Position}
    (hpos : pos.facts args = []) : Base (s.start c args pos) := by
  unfold Sys.start
  split
  · next hguard =>
    refine ⟨h.wf, fun c' call' hcall' => ?_⟩
    by_cases hc : c' = c
    · subst hc
      obtain rfl : (⟨args, fun _ => none, pos⟩ : Call) = call' := by simpa using hcall'
      refine ⟨hguard.1, ⟨?_, ?_, ?_⟩, ?_⟩
      · intro v hd hv
        cases hv
      · intro v hd hv
        cases hv
      · intro v v' hd hd' hv
        cases hv
      · rw [hpos]
        simp
    · exact (h.calls c' call' (by simpa [hc] using hcall')).congr rfl rfl
  · exact h

theorem Base.fork {s : Sys} (h : Base s) {parent child : Nat} (hchild : (s.procs child).isNone)
    (start : String) : Base { s with
      kernel := s.kernel.fork parent child
      procs := Function.update s.procs child (some ⟨parent, start, false⟩) } := by
  refine ⟨h.wf.fork parent child, fun c call hcall => ?_⟩
  have hok := h.calls c call hcall
  have hne : call.args.pid ≠ child := by
    intro heq
    obtain ⟨p, hp, -⟩ := alive_iff.mp hok.alive
    rw [heq, Option.isNone_iff_eq_none.mp hchild] at hp
    cases hp
  apply hok.settled (settled_fork _ _ _)
  · intro v hd hv
    exact List.mem_append_left _ (hok.own.descriptor v hd hv)
  · show Sys.alive _ _ = true
    simp only [Sys.alive, Function.update_of_ne hne]
    exact hok.alive

theorem Base.kill {s : Sys} (h : Base s) (pid reaper : Nat) : Base (s.kill pid reaper) := by
  refine ⟨h.wf.exit pid, fun c call hcall => ?_⟩
  obtain ⟨hcall, hne⟩ := Option.filter_eq_some_iff.mp hcall
  have hne : call.args.pid ≠ pid := by simpa using hne
  have hok := h.calls c call hcall
  apply hok.settled (settled_settle _ _)
  · intro v hd hv
    exact List.mem_filter.mpr ⟨hok.own.descriptor v hd hv, by simpa using hne⟩
  · obtain ⟨p, hp, hzombie⟩ := alive_iff.mp hok.alive
    apply alive_iff.mpr
    simp only [Sys.kill, hp, Option.map_some, hne, if_false, Option.some.injEq, exists_eq_left']
    split <;> exact hzombie

theorem Base.reap {s : Sys} (h : Base s) {pid : Nat} (hzombie : (s.procs pid).any (·.zombie)) :
    Base { s with procs := Function.update s.procs pid none } := by
  refine ⟨h.wf, fun c call hcall => ?_⟩
  have hok := h.calls c call hcall
  have hne : call.args.pid ≠ pid := by
    intro heq
    obtain ⟨p, hp, hz⟩ := alive_iff.mp hok.alive
    rw [heq] at hp
    simp [hp, hz] at hzombie
  refine ⟨?_, hok.own, hok.facts⟩
  show Sys.alive _ _ = true
  simp only [Sys.alive, Function.update_of_ne hne]
  exact hok.alive

/-- A descriptor that a process closes outside of its calls is none of theirs. -/
theorem Base.drop {s : Sys} (h : Base s) (pid fd : Nat) : Base (s.drop pid fd) := by
  unfold Sys.drop
  split
  · exact h
  · next ofd hofd =>
    simp only
    split
    · next hguard =>
      refine ⟨h.wf.close _, fun c call hcall => ?_⟩
      have hok := h.calls c call hcall
      apply hok.settled (settled_settle _ _)
      · intro v hd hv
        refine List.mem_filter.mpr ⟨hok.own.descriptor v hd hv, ?_⟩
        simp only [ne_eq, decide_eq_true_eq]
        intro heq
        obtain ⟨hpid, -, rfl⟩ := Flock.Descriptor.mk.inj heq
        obtain ⟨file, hfile⟩ := hok.own.opener v hd hv
        rw [hfile, Option.bind_some, hcall] at hguard
        simp [hpid] at hguard
      · exact hok.alive
    · exact h

/-- Every step keeps the invariant of the open files. -/
theorem Base.next {s : Sys} (h : Base s) (a : Action) : Base (next s a) := by
  cases a with
  | begin c pid requested existing environment =>
    simp only [HeavyWork.next]
    split
    · exact h.start c _ rfl
    · exact h
  | observe c pid requested =>
    cases requested with
    | heavy => exact h.start c _ rfl
    | light => exact h.start c _ rfl
  | advance c input => exact h.advance c input
  | fork parent child start =>
    simp only [HeavyWork.next]
    split
    · next hguard => exact h.fork hguard.2 start
    · exact h
  | kill pid reaper =>
    simp only [HeavyWork.next]
    split
    · exact h.kill pid reaper
    · exact h
  | reap pid =>
    simp only [HeavyWork.next]
    split
    · next hguard => exact h.reap hguard
    · exact h
  | drop pid fd => exact h.drop pid fd

end SummitFlow.HeavyWork
