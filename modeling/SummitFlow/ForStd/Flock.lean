import Mathlib.Data.List.Basic

/-!
# Advisory file locks

The `flock` locks of Linux.  A lock belongs to an open file description, not to a
process: a descriptor that is inherited refers to the same description, and the lock
lasts until it is given back or the last descriptor of the description is closed.
Changing the mode of a lock is not atomic: the old lock is dropped first, and others
may come in between.
-/

namespace SummitFlow

namespace Flock

inductive Mode where
  | shared | exclusive
deriving DecidableEq, Repr

/-- An open file description: its file, and who opened it. -/
structure OpenFile (F : Type) where
  file : F
  opener : Nat
deriving Repr

/-- A descriptor of a process, for an open file description. -/
structure Descriptor where
  pid : Nat
  fd : Nat
  ofd : Nat
deriving DecidableEq, Repr

/-- A lock of an open file description. -/
structure Lock where
  ofd : Nat
  mode : Mode
deriving DecidableEq, Repr

/-- What the kernel knows about open files.  `opened` has every open file description
    there ever was, and its number is its index. -/
structure Kernel (F : Type) where
  opened : List (OpenFile F)
  descriptors : List Descriptor
  locks : List Lock
deriving Repr

/-- What came of one attempt to lock: `again` when it dropped a lock of the other mode. -/
inductive Attempt where
  | granted | busy | again
deriving DecidableEq, Repr

namespace Kernel

variable {F : Type}

/-- Nothing is open. -/
def empty : Kernel F := ⟨[], [], []⟩

section

variable (k : Kernel F)

/-- Some process has a descriptor for it. -/
def isOpen (ofd : Nat) : Bool := k.descriptors.any (·.ofd = ofd)

/-- The file of an open file description. -/
def fileOf (ofd : Nat) : Option F := k.opened[ofd]?.map OpenFile.file

/-- The process has no descriptor with this number. -/
def free (pid fd : Nat) : Bool := !k.descriptors.any fun d => d.pid = pid && d.fd = fd

/-- The open file description behind a descriptor. -/
def resolve (pid fd : Nat) : Option Nat :=
  (k.descriptors.find? fun d => d.pid = pid && d.fd = fd).map Descriptor.ofd

/-- The mode of the lock the description has. -/
def lockOf (ofd : Nat) : Option Mode := (k.locks.find? (·.ofd = ofd)).map Lock.mode

/-- `open`. -/
def openFile (pid fd : Nat) (file : F) (opener : Nat) : Kernel F :=
  { k with
    opened := k.opened ++ [⟨file, opener⟩]
    descriptors := k.descriptors ++ [⟨pid, fd, k.opened.length⟩] }

/-- Descriptions without descriptors lose their locks. -/
def settle : Kernel F := { k with locks := k.locks.filter (k.isOpen ·.ofd) }

/-- `close`. -/
def close (d : Descriptor) : Kernel F :=
  settle { k with descriptors := k.descriptors.filter (· ≠ d) }

/-- The end of a process. -/
def exit (pid : Nat) : Kernel F :=
  settle { k with descriptors := k.descriptors.filter (·.pid ≠ pid) }

/-- `fork`: the child has every descriptor of its parent. -/
def fork (parent child : Nat) : Kernel F :=
  { k with descriptors := k.descriptors ++
      (k.descriptors.filter (·.pid = parent)).map ({ · with pid := child }) }

/-- `flock(LOCK_UN)`. -/
def release (ofd : Nat) : Kernel F := { k with locks := k.locks.filter (·.ofd ≠ ofd) }

section

variable [DecidableEq F]

/-- Another description of the same file has a lock that excludes this one. -/
def conflict (ofd : Nat) (mode : Mode) : Bool :=
  k.locks.any fun l => l.ofd ≠ ofd && k.fileOf l.ofd = k.fileOf ofd &&
    (mode = .exclusive || l.mode = .exclusive)

/-- One attempt of `flock`. -/
def flock (ofd : Nat) (mode : Mode) : Kernel F × Attempt :=
  if ⟨ofd, mode⟩ ∈ k.locks then (k, .granted)
  else if k.locks.any (·.ofd = ofd) then (k.release ofd, .again)
  else if k.conflict ofd mode then (k, .busy)
  else ({ k with locks := k.locks ++ [⟨ofd, mode⟩] }, .granted)

end

end

/-! ## Well-formed tables -/

/-- Locks are of open descriptions, and two locks of one file are both shared. -/
structure Wf (k : Kernel F) : Prop where
  known : ∀ d ∈ k.descriptors, d.ofd < k.opened.length
  locked : ∀ l ∈ k.locks, k.isOpen l.ofd = true
  compatible : ∀ l ∈ k.locks, ∀ l' ∈ k.locks, k.fileOf l.ofd = k.fileOf l'.ofd →
    l = l' ∨ l.mode = .shared ∧ l'.mode = .shared

variable {k : Kernel F}

theorem isOpen_iff {ofd : Nat} : k.isOpen ofd = true ↔ ∃ d ∈ k.descriptors, d.ofd = ofd := by
  simp [isOpen]

/-- An exclusive lock is the only lock of its file. -/
theorem Wf.exclusive_unique (h : k.Wf) {ofd ofd' : Nat} {mode : Mode}
    (hlock : ⟨ofd, .exclusive⟩ ∈ k.locks) (hlock' : ⟨ofd', mode⟩ ∈ k.locks)
    (hfile : k.fileOf ofd = k.fileOf ofd') : ofd' = ofd ∧ mode = .exclusive := by
  rcases h.compatible _ hlock _ hlock' hfile with heq | ⟨hshared, -⟩
  · obtain ⟨rfl, rfl⟩ := Lock.mk.inj heq
    exact ⟨rfl, rfl⟩
  · cases hshared

theorem Wf.lt_of_isOpen (h : k.Wf) {ofd : Nat} (hopen : k.isOpen ofd = true) :
    ofd < k.opened.length := by
  obtain ⟨d, hd, rfl⟩ := isOpen_iff.mp hopen
  exact h.known d hd

theorem fileOf_openFile {ofd : Nat} (hlt : ofd < k.opened.length) (pid fd : Nat) (file : F)
    (opener : Nat) : (k.openFile pid fd file opener).fileOf ofd = k.fileOf ofd := by
  simp only [fileOf, openFile, List.getElem?_append_left hlt]

theorem fileOf_opened (pid fd : Nat) (file : F) (opener : Nat) :
    (k.openFile pid fd file opener).fileOf k.opened.length = some file := by
  simp [fileOf, openFile]

/-! ## Operations keep tables well-formed -/

theorem Wf.empty : (empty : Kernel F).Wf :=
  ⟨by simp [Kernel.empty], by simp [Kernel.empty], by simp [Kernel.empty]⟩

theorem Wf.openFile (h : k.Wf) (pid fd : Nat) (file : F) (opener : Nat) :
    (k.openFile pid fd file opener).Wf := by
  refine ⟨?_, ?_, ?_⟩
  · intro d hd
    simp only [Kernel.openFile, List.mem_append, List.mem_singleton, List.length_append,
      List.length_singleton] at hd ⊢
    rcases hd with hd | rfl
    · have := h.known d hd
      omega
    · show k.opened.length < k.opened.length + 1
      omega
  · intro l hl
    obtain ⟨d, hd, hofd⟩ := isOpen_iff.mp (h.locked l hl)
    exact isOpen_iff.mpr ⟨d, List.mem_append_left _ hd, hofd⟩
  · intro l hl l' hl' hfile
    rw [fileOf_openFile (h.lt_of_isOpen (h.locked l hl)),
      fileOf_openFile (h.lt_of_isOpen (h.locked l' hl'))] at hfile
    exact h.compatible l hl l' hl' hfile

/-- Fewer descriptors: what is left open keeps its locks. -/
theorem Wf.settle (h : k.Wf) {ds : List Descriptor} (hsub : ∀ d ∈ ds, d ∈ k.descriptors) :
    (Kernel.settle { k with descriptors := ds }).Wf := by
  refine ⟨fun d hd => h.known d (hsub d hd), ?_, ?_⟩
  · intro l hl
    exact (List.mem_filter.mp hl).2
  · intro l hl l' hl' hfile
    exact h.compatible l (List.mem_filter.mp hl).1 l' (List.mem_filter.mp hl').1 hfile

theorem Wf.close (h : k.Wf) (d : Descriptor) : (k.close d).Wf :=
  h.settle fun _ hd => (List.mem_filter.mp hd).1

theorem Wf.exit (h : k.Wf) (pid : Nat) : (k.exit pid).Wf :=
  h.settle fun _ hd => (List.mem_filter.mp hd).1

theorem Wf.fork (h : k.Wf) (parent child : Nat) : (k.fork parent child).Wf := by
  refine ⟨?_, ?_, h.compatible⟩
  · intro d hd
    rcases List.mem_append.mp hd with hd | hd
    · exact h.known d hd
    · obtain ⟨d', hd', rfl⟩ := List.mem_map.mp hd
      exact h.known d' (List.mem_filter.mp hd').1
  · intro l hl
    obtain ⟨d, hd, hofd⟩ := isOpen_iff.mp (h.locked l hl)
    exact isOpen_iff.mpr ⟨d, List.mem_append_left _ hd, hofd⟩

theorem Wf.release (h : k.Wf) (ofd : Nat) : (k.release ofd).Wf := by
  refine ⟨h.known, ?_, ?_⟩
  · intro l hl
    exact h.locked l (List.mem_filter.mp hl).1
  · intro l hl l' hl' hfile
    exact h.compatible l (List.mem_filter.mp hl).1 l' (List.mem_filter.mp hl').1 hfile

/-! ## Locks that stay -/

theorem mem_locks_settle {ds : List Descriptor} {l : Lock} :
    l ∈ (settle { k with descriptors := ds }).locks ↔ l ∈ k.locks ∧ ∃ d ∈ ds, d.ofd = l.ofd := by
  simp [settle, isOpen]

/-- A lock stays while a descriptor is left. -/
theorem mem_locks_close {l : Lock} {d d' : Descriptor} (hl : l ∈ k.locks)
    (hd' : d' ∈ k.descriptors) (hne : d' ≠ d) (hofd : d'.ofd = l.ofd) : l ∈ (k.close d).locks :=
  mem_locks_settle.mpr ⟨hl, d', List.mem_filter.mpr ⟨hd', by simpa using hne⟩, hofd⟩

theorem mem_locks_exit {l : Lock} {pid : Nat} {d : Descriptor} (hl : l ∈ k.locks)
    (hd : d ∈ k.descriptors) (hne : d.pid ≠ pid) (hofd : d.ofd = l.ofd) :
    l ∈ (k.exit pid).locks :=
  mem_locks_settle.mpr ⟨hl, d, List.mem_filter.mpr ⟨hd, by simpa using hne⟩, hofd⟩

theorem mem_locks_release {l : Lock} {ofd : Nat} :
    l ∈ (k.release ofd).locks ↔ l ∈ k.locks ∧ l.ofd ≠ ofd := by
  simp [release]

/-! ## Attempts -/

section

variable [DecidableEq F]

/-- Everything an attempt can do. -/
theorem flock_cases (k : Kernel F) (ofd : Nat) (mode : Mode) :
    (⟨ofd, mode⟩ ∈ k.locks ∧ k.flock ofd mode = (k, .granted)) ∨
    k.flock ofd mode = (k.release ofd, .again) ∨
    k.flock ofd mode = (k, .busy) ∨
    (k.conflict ofd mode = false ∧ (∀ l ∈ k.locks, l.ofd ≠ ofd) ∧
      k.flock ofd mode = ({ k with locks := k.locks ++ [⟨ofd, mode⟩] }, .granted)) := by
  unfold flock
  split
  · next hmem => exact .inl ⟨hmem, rfl⟩
  · split
    · exact .inr (.inl rfl)
    · next hnone =>
      split
      · exact .inr (.inr (.inl rfl))
      · next hfree =>
        refine .inr (.inr (.inr ⟨by simpa using hfree, ?_, rfl⟩))
        simpa using hnone

@[simp] theorem opened_flock (ofd : Nat) (mode : Mode) :
    (k.flock ofd mode).1.opened = k.opened := by
  rcases flock_cases k ofd mode with ⟨-, h⟩ | h | h | ⟨-, -, h⟩ <;> simp [h, release]

@[simp] theorem descriptors_flock (ofd : Nat) (mode : Mode) :
    (k.flock ofd mode).1.descriptors = k.descriptors := by
  rcases flock_cases k ofd mode with ⟨-, h⟩ | h | h | ⟨-, -, h⟩ <;> simp [h, release]

/-- A granted attempt has the lock. -/
theorem mem_locks_of_granted {ofd : Nat} {mode : Mode}
    (h : (k.flock ofd mode).2 = .granted) : ⟨ofd, mode⟩ ∈ (k.flock ofd mode).1.locks := by
  rcases flock_cases k ofd mode with ⟨hmem, heq⟩ | heq | heq | ⟨-, -, heq⟩
  · rw [heq]
    exact hmem
  · rw [heq] at h
    cases h
  · rw [heq] at h
    cases h
  · rw [heq]
    exact List.mem_append_right _ List.mem_cons_self

/-- An attempt changes no lock of another description. -/
theorem mem_locks_flock_of_ne {ofd : Nat} {mode : Mode} {l : Lock} (hne : l.ofd ≠ ofd) :
    l ∈ (k.flock ofd mode).1.locks ↔ l ∈ k.locks := by
  rcases flock_cases k ofd mode with ⟨-, heq⟩ | heq | heq | ⟨-, -, heq⟩
  · rw [heq]
  · rw [heq, mem_locks_release]
    exact and_iff_left hne
  · rw [heq]
  · rw [heq]
    have hself : l ≠ ⟨ofd, mode⟩ := fun h => hne (h ▸ rfl)
    simp [hself]

/-- While another description has an exclusive lock on the file, no attempt is granted. -/
theorem flock_ne_granted {ofd ofd' : Nat} {mode : Mode} (h : k.Wf)
    (hlock : ⟨ofd', .exclusive⟩ ∈ k.locks) (hne : ofd' ≠ ofd)
    (hfile : k.fileOf ofd' = k.fileOf ofd) : (k.flock ofd mode).2 ≠ .granted := by
  intro hgranted
  rcases flock_cases k ofd mode with ⟨hmem, -⟩ | heq | heq | ⟨hfree, -, -⟩
  · exact hne (h.exclusive_unique hlock hmem hfile).1.symm
  · rw [heq] at hgranted
    cases hgranted
  · rw [heq] at hgranted
    cases hgranted
  · have hconflict : k.conflict ofd mode = true :=
      List.any_eq_true.mpr ⟨_, hlock, by simp [hne, hfile]⟩
    rw [hfree] at hconflict
    cases hconflict

theorem Wf.flock (h : k.Wf) {ofd : Nat} (hopen : k.isOpen ofd = true) (mode : Mode) :
    (k.flock ofd mode).1.Wf := by
  rcases flock_cases k ofd mode with ⟨-, heq⟩ | heq | heq | ⟨hfree, hnone, heq⟩
  · rw [heq]
    exact h
  · rw [heq]
    exact h.release ofd
  · rw [heq]
    exact h
  · rw [heq]
    -- the new lock does not conflict with any other description's
    have hnew : ∀ l ∈ k.locks, k.fileOf l.ofd = k.fileOf ofd →
        l.mode = .shared ∧ mode = .shared := by
      intro l hl hfile
      have hpass := List.any_eq_false.mp hfree l hl
      simp only [ne_eq, hnone l hl, not_false_eq_true, decide_true, hfile, Bool.true_and,
        Bool.or_eq_true, decide_eq_true_eq, not_or] at hpass
      cases hl' : l.mode <;> cases mode <;> simp_all
    refine ⟨h.known, ?_, ?_⟩
    · intro l hl
      rcases List.mem_append.mp hl with hl | hl
      · exact h.locked l hl
      · rw [List.mem_singleton.mp hl]
        exact hopen
    · intro l hl l' hl' hfile
      rcases List.mem_append.mp hl with hl | hl
      · rcases List.mem_append.mp hl' with hl' | hl'
        · exact h.compatible l hl l' hl' hfile
        · obtain rfl := List.mem_singleton.mp hl'
          exact .inr (hnew l hl hfile)
      · obtain rfl := List.mem_singleton.mp hl
        rcases List.mem_append.mp hl' with hl' | hl'
        · exact .inr (hnew l' hl' hfile.symm).symm
        · exact .inl (List.mem_singleton.mp hl').symm

end

end Kernel

end Flock

end SummitFlow
