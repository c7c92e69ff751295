import SummitFlow.ForStd.Run
import SummitFlow.Tasks.ScratchRetention

/-!
# What scratch retention removes

`_tree_stats` takes the newest of the times that it sees: `os.walk` says nothing of a directory
that it cannot list, and a file that cannot be statted is passed over.  `remove_entry` stops at
such a place, but what it met before is gone by then.  So an entry is removed only when all of it
is old, if the walk sees something new in each entry that has something new in it.
-/

namespace SummitFlow.ScratchRetention

mutual

/-- A node and all below it. -/
def Node.all : Node → List Node
  | .leaf file kind => [.leaf file kind]
  | .dir file opened children => .dir file opened children :: allOf children

def allOf : List Node → List Node
  | [] => []
  | child :: rest => Node.all child ++ allOf rest

end

theorem Node.self_mem_all (node : Node) : node ∈ node.all := by
  cases node with
  | leaf file kind =>
    rw [Node.all]
    exact List.mem_cons_self
  | dir file opened children =>
    rw [Node.all]
    exact List.mem_cons_self

/-! ## Age -/

/-- The loop takes the newest time of what can be statted. -/
theorem countAll_newest {maxEntries device : Nat} {stats last : TreeStats} {nodes : List Node}
    (h : countAll maxEntries device stats nodes = .ok (some last)) :
    stats.newest ≤ last.newest ∧
      ∀ n ∈ nodes, n.file.access.lstat = none → n.activity ≤ last.newest := by
  induction nodes generalizing stats with
  | nil =>
    cases h
    exact ⟨le_refl _, (fun _ hn => nomatch hn)⟩
  | cons node rest ih =>
    rw [countAll] at h
    split at h
    · cases h
    split at h
    · next error herror =>
      obtain ⟨hstart, hrest⟩ := ih h
      refine ⟨hstart, ?_⟩
      intro n hn hstat
      obtain rfl | hn := List.mem_cons.mp hn
      · rw [herror] at hstat
        cases hstat
      · exact hrest n hn hstat
    · split at h
      · cases h
      · obtain ⟨hstart, hrest⟩ := ih h
        have hboth := max_le_iff.mp hstart
        refine ⟨hboth.1, ?_⟩
        intro n hn hstat
        obtain rfl | hn := List.mem_cons.mp hn
        · exact hboth.2
        · exact hrest n hn hstat

theorem treeStats_newest {maxEntries : Nat} {node : Node} {stats : TreeStats}
    (h : treeStats maxEntries node = .ok (some stats)) :
    ∀ n ∈ node :: walk node, n.file.access.lstat = none → n.activity ≤ stats.newest := by
  unfold treeStats at h
  split at h
  · cases h
  · obtain ⟨hstart, hwalk⟩ := countAll_newest h
    intro n hn hstat
    obtain rfl | hn := List.mem_cons.mp hn
    · exact hstart
    · exact hwalk n hn hstat

/-- Whenever something in the entry was used after the cutoff, the walk sees something that
    was. -/
def Shows (cutoff : Int) (entry : Node) : Prop :=
  (∃ n ∈ entry.all, cutoff < n.activity) →
    ∃ n ∈ entry :: walk entry, n.file.access.lstat = none ∧ cutoff < n.activity

theorem Shows.old {cutoff : Int} {entry : Node} (h : Shows cutoff entry) {maxEntries : Nat}
    {stats : TreeStats} (hstats : treeStats maxEntries entry = .ok (some stats))
    (hold : ¬ cutoff < stats.newest) : ∀ n ∈ entry.all, n.activity ≤ cutoff := by
  intro n hn
  by_contra hnew
  obtain ⟨seen, hseen, hstat, hafter⟩ := h ⟨n, hn, by omega⟩
  have := treeStats_newest hstats seen hseen hstat
  omega

/-! ## Removal -/

/-- All that was removed is in the tree, on one device and one mount. -/
def Removal.Stays (removal : Removal) (tree : List Node) (device mount : Nat) : Prop :=
  ∀ n ∈ removal.removed, n ∈ tree ∧ n.file.info.dev = device ∧ n.file.mount = mount

section

variable {tree : List Node} {device mount : Nat}

theorem stop_stays (error : OSError) : (Removal.stop error).Stays tree device mount :=
  fun _ hn => nomatch hn

theorem Removal.Stays.andThen {first second : Removal} (hfirst : first.Stays tree device mount)
    (hsecond : second.Stays tree device mount) :
    (first.andThen second).Stays tree device mount := by
  unfold Removal.andThen
  split
  · exact hfirst
  · intro n hn
    rcases List.mem_append.mp hn with hn | hn
    · exact hfirst n hn
    · exact hsecond n hn

theorem Removal.Stays.mono {removal : Removal} {larger : List Node}
    (h : removal.Stays tree device mount) (hsub : ∀ n ∈ tree, n ∈ larger) :
    removal.Stays larger device mount :=
  fun n hn => ⟨hsub n (h n hn).1, (h n hn).2⟩

theorem unlink_stays {node : Node} (hmem : node ∈ tree) (hdevice : node.file.info.dev = device) :
    (unlink mount node).Stays tree device mount := by
  unfold unlink
  split
  · exact stop_stays _
  · next hmount =>
    split
    · exact stop_stays _
    · intro n hn
      rw [List.mem_singleton.mp hn]
      exact ⟨hmem, hdevice, not_not.mp hmount⟩

end

mutual

theorem removeChild_stays (device mount : Nat) (node : Node) :
    (removeChild device mount node).Stays node.all device mount := by
  cases node with
  | leaf file kind =>
    rw [removeChild]
    split
    · exact stop_stays _
    split
    · exact stop_stays _
    · next hdevice => exact unlink_stays (Node.self_mem_all _) (not_not.mp hdevice)
  | dir file opened children =>
    rw [removeChild]
    split
    · exact stop_stays _
    split
    · exact stop_stays _
    next hdevice =>
    split
    · exact stop_stays _
    split
    · exact stop_stays _
    split
    · exact stop_stays _
    split
    · exact stop_stays _
    · -- below the directory by induction, then the directory itself
      have hchildren := emptyDir_stays device mount children
      apply Removal.Stays.andThen
      · apply hchildren.mono
        intro n hn
        rw [Node.all]
        exact List.mem_cons_of_mem _ hn
      · exact unlink_stays (Node.self_mem_all _) (not_not.mp hdevice)

theorem emptyDir_stays (device mount : Nat) (children : List Node) :
    (emptyDir device mount children).Stays (allOf children) device mount := by
  cases children with
  | nil =>
    rw [emptyDir]
    exact fun _ hn => nomatch hn
  | cons child rest =>
    rw [emptyDir, allOf]
    apply Removal.Stays.andThen
    · exact (removeChild_stays device mount child).mono fun n hn => List.mem_append_left _ hn
    · exact (emptyDir_stays device mount rest).mono fun n hn => List.mem_append_right _ hn

end

def Outcome.removed : Outcome → List Node
  | .kept _ => []
  | .failed _ removed => removed
  | .deleted _ removed => removed

def denied : Option OSError := some ⟨13, "Permission denied"⟩

end SummitFlow.ScratchRetention
