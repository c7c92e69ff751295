import Mathlib.Data.List.Infix
import SummitFlow.Python.PathStack
import SummitFlow.Services.PublicationGuard

/-!
# What the guard's decisions owe to the working directory

A directory deep below `/tmp`, under a name no path of interest has, gives the guard no
reason to block: a relative target stays below `/tmp`, is no protected root, and its
repository is disposable.  What is blocked there is blocked for the text of the command,
and then it is blocked in every directory.  `Tracks` relates the two runs: as long as the
relative moves of a command do not leave the deep directory, whatever the first run's
directory ends in, the other run's ends in as well.
-/

namespace SummitFlow.Guard

open PosixPath

/-! ## Deep directories -/

/-- A name that is longer than the path of the home directory. -/
def deepName (host : Host) : List Char :=
  List.replicate ((normpath (expanduser host.users "~")).length + 1) 'q'

/-- The components of a directory `k` levels below the deep name and then down `s`. -/
def deepStack (host : Host) (k : Nat) (s : List (List Char)) : List (List Char) :=
  s ++ (List.replicate k ['q'] ++ [deepName host, ['t', 'm', 'p']])

def deep (host : Host) (k : Nat) (s : List (List Char)) : String := ofStack (deepStack host k s)

/-- Dropping at the end stops at a character that stays. -/
theorem prefix_rdropWhile {p : Char → Bool} (init : List Char) {x : Char} (hx : p x = false)
    (more : List Char) : init ++ [x] <+: (init ++ [x] ++ more).rdropWhile p := by
  induction more using List.reverseRecOn with
  | nil =>
    rw [List.append_nil, List.rdropWhile_concat_neg _ _ _ (by simp [hx])]
  | append_singleton more y ih =>
    rw [← List.append_assoc, List.rdropWhile_concat]
    split
    · exact ih
    · rw [List.append_assoc]
      exact List.prefix_append _ _

section

variable (host : Host)

theorem deepName_proper : Proper (deepName host) := by
  have hall : ∀ c ∈ deepName host, c = 'q' := fun c hc => List.eq_of_mem_replicate hc
  have hmem : 'q' ∈ deepName host := by simp [deepName]
  refine ⟨?_, ?_, ?_, ?_⟩
  · exact List.ne_nil_of_mem hmem
  · intro h
    simp [h] at hmem
  · intro h
    simp [h] at hmem
  · intro h
    exact absurd (hall _ h) (by decide)

theorem deepStack_proper (k : Nat) {s : List (List Char)} (hs : ∀ c ∈ s, Proper c) :
    ∀ c ∈ deepStack host k s, Proper c := by
  have hq : Proper ['q'] := by constructor <;> decide
  have htmp : Proper ['t', 'm', 'p'] := by constructor <;> decide
  intro c hc
  simp only [deepStack, List.mem_append, List.mem_cons, List.not_mem_nil, or_false] at hc
  rcases hc with hc | hc | rfl | rfl
  · exact hs c hc
  · rw [List.eq_of_mem_replicate hc]
    exact hq
  · exact deepName_proper host
  · exact htmp

theorem deepStack_ne_nil (k : Nat) (s : List (List Char)) : deepStack host k s ≠ [] := by
  simp [deepStack]

theorem isAbsolute_deep (k : Nat) (s : List (List Char)) : isAbsolute (deep host k s) = true :=
  isAbsolute_ofStack _

/-- How the path of a deep directory starts. -/
theorem toList_deep (k : Nat) (s : List (List Char)) :
    ∃ rest, (deep host k s).toList = '/' :: 't' :: 'm' :: 'p' :: '/' :: (deepName host ++ rest) := by
  have hrev : (deepStack host k s).reverse =
      ['t', 'm', 'p'] :: deepName host :: (List.replicate k ['q'] ++ s.reverse) := by
    simp [deepStack]
  unfold deep
  rw [toList_ofStack, hrev]
  cases List.replicate k ['q'] ++ s.reverse with
  | nil => exact ⟨[], by simp [List.intercalate, List.intersperse]⟩
  | cons next comps =>
    exact ⟨'/' :: ['/'].intercalate (next :: comps), by simp [List.intercalate, List.intersperse]⟩

/-- The text of a root parts from that of a deep directory in its first two characters. -/
def partsFromDeep (root : String) : Bool :=
  !(root.toList.take 2).isPrefixOf ['/', 't'] &&
    !((Str.rstripSlash root ++ "/").toList.take 2).isPrefixOf ['/', 't']

theorem under_deep_eq_false {root : String} (h : partsFromDeep root = true) (k : Nat)
    (s : List (List Char)) : under (deep host k s) root = false := by
  obtain ⟨rest, hrest⟩ := toList_deep host k s
  have htake : (deep host k s).toList.take 2 = ['/', 't'] := by rw [hrest]; rfl
  simp only [partsFromDeep, Bool.and_eq_true, Bool.not_eq_true'] at h
  unfold under
  rw [Bool.or_eq_false_iff]
  constructor
  · rw [beq_eq_false_iff_ne]
    rintro rfl
    rw [htake] at h
    exact absurd h.1 (by decide)
  · rw [Bool.eq_false_iff]
    intro hstart
    have hpre : (Str.rstripSlash root ++ "/").toList <+: (deep host k s).toList :=
      List.isPrefixOf_iff_prefix.mp hstart
    have htwo : (Str.rstripSlash root ++ "/").toList.take 2 <+: (deep host k s).toList.take 2 :=
      List.prefix_take_iff.mpr ⟨(List.take_prefix 2 _).trans hpre, List.length_take_le 2 _⟩
    rw [htake, ← List.isPrefixOf_iff_prefix, h.2] at htwo
    cases htwo

theorem not_mounted_deep (k : Nat) (s : List (List Char)) :
    (mountedStorageRoots ++ proxmoxDataRoots).any (under (deep host k s)) = false := by
  have hparts : ∀ root ∈ mountedStorageRoots ++ proxmoxDataRoots, partsFromDeep root = true := by decide
  rw [List.any_eq_false]
  intro root hroot
  rw [under_deep_eq_false host (hparts root hroot)]
  exact Bool.false_ne_true

theorem disposable_deep (k : Nat) (s : List (List Char)) :
    disposableRoots.any (under (deep host k s)) = true := by
  obtain ⟨rest, hrest⟩ := toList_deep host k s
  have htmp : under (deep host k s) "/tmp" = true := by
    have hroot : (Str.rstripSlash "/tmp" ++ "/").toList = ['/', 't', 'm', 'p', '/'] := by decide
    simp [under, Str.startswith, hrest, hroot]
  simp [disposableRoots, htmp]

theorem count_slash_deep (k : Nat) (s : List (List Char)) : 1 < (deep host k s).toList.count '/' := by
  obtain ⟨rest, hrest⟩ := toList_deep host k s
  rw [hrest]
  simp

theorem deep_ne_home (k : Nat) (s : List (List Char)) :
    deep host k s ≠ normpath (expanduser host.users "~") := by
  intro h
  obtain ⟨rest, hrest⟩ := toList_deep host k s
  have hlen := congrArg List.length hrest
  rw [h] at hlen
  simp only [List.length_cons, List.length_append, deepName, List.length_replicate,
    String.length_toList] at hlen
  omega

/-- The parent of a deep directory lies below `/tmp` too. -/
theorem dirname_deep (k : Nat) (s : List (List Char)) :
    ['/', 't', 'm', 'p'] <+: (dirname (deep host k s)).toList := by
  obtain ⟨rest, hrest⟩ := toList_deep host k s
  have hhead : ['/', 't', 'm', 'p', '/'] <+: (deep host k s).toList.rdropWhile (· != '/') := by
    rw [hrest]
    exact prefix_rdropWhile ['/', 't', 'm', 'p'] rfl _
  obtain ⟨more, hmore⟩ := hhead
  have htrim : ['/', 't', 'm', 'p'] <+:
      ((deep host k s).toList.rdropWhile (· != '/')).rdropWhile (· == '/') := by
    rw [← hmore]
    exact prefix_rdropWhile ['/', 't', 'm'] rfl ('/' :: more)
  unfold dirname
  dsimp only
  rw [String.toList_ofList]
  split
  · next hnil =>
    rw [hnil] at htrim
    exact absurd htrim (by decide)
  · exact htrim

/-- A deep directory is no protected root. -/
theorem not_protected_deep (k : Nat) (s : List (List Char)) :
    protectedDeletionRoot host (deep host k s) = false := by
  have hcount := count_slash_deep host k s
  have hhome := deep_ne_home host k s
  have hparent : ["/home", "/srv", "/srv/workspaces/projects"].contains
      (dirname (deep host k s)) = false := by
    have hpre := dirname_deep host k s
    have hall : ∀ p ∈ ["/home", "/srv", "/srv/workspaces/projects"],
        ¬ ['/', 't', 'm', 'p'] <+: p.toList := by decide
    rw [List.contains_eq_any_beq, List.any_eq_false]
    intro p hp heq
    exact hall p hp (by simpa [beq_iff_eq.mp heq] using hpre)
  have hprojects : deep host k s ≠ "/srv/workspaces/projects" := by
    intro h
    obtain ⟨rest, hrest⟩ := toList_deep host k s
    rw [h] at hrest
    have htwo : ['/', 's'] = ['/', 't'] := congrArg (List.take 2) hrest
    exact absurd htwo (by decide)
  unfold protectedDeletionRoot
  rw [not_mounted_deep, hparent]
  simp [hhome, hprojects, hcount]

end

/-! ## Snapshot names -/

theorem mem_lowerChar_slash {c : Char} (h : '/' ∈ Str.lowerChar c) : c = '/' := by
  unfold Str.lowerChar at h
  split at h
  · next hc =>
    -- an upper-case letter becomes a lower-case one
    rw [List.mem_singleton] at h
    have hletters : ∀ n ≤ 90, 65 ≤ n → '/' ≠ Char.ofNat (n + 32) := by decide
    exact absurd h (hletters c.toNat hc.2 hc.1)
  · split at h
    · exact absurd h (by decide)
    · split at h
      · exact absurd h (by decide)
      · exact (List.mem_singleton.mp h).symm

/-- Lower case does not move slashes. -/
theorem splitOnChar_lower (cs : List Char) :
    Str.splitOnChar '/' (cs.flatMap Str.lowerChar) =
      (Str.splitOnChar '/' cs).map (·.flatMap Str.lowerChar) := by
  induction cs with
  | nil => rfl
  | cons c cs ih =>
    rw [List.flatMap_cons]
    by_cases hc : c = '/'
    · subst hc
      show Str.splitOnChar '/' ('/' :: cs.flatMap Str.lowerChar) = _
      rw [Str.splitOnChar_cons_self, Str.splitOnChar_cons_self, ih]
      rfl
    · have hlow : '/' ∉ Str.lowerChar c := fun h => hc (mem_lowerChar_slash h)
      have hself : '/' ∉ [c] := by simpa using Ne.symm hc
      obtain ⟨piece, pieces, hpieces, hall⟩ := Str.splitOnChar_append_of_not_mem hself cs
      obtain ⟨low, lows, hlows, halllow⟩ :=
        Str.splitOnChar_append_of_not_mem hlow (cs.flatMap Str.lowerChar)
      rw [hlows, hpieces, List.map_cons, List.cons.injEq] at ih
      rw [halllow, show c :: cs = [c] ++ cs from rfl, hall, List.map_cons, List.flatMap_append,
        ih.1, ih.2]
      simp

/-- A directory name that marks snapshots. -/
def isSnapshotName (comp : List Char) : Bool :=
  let part := String.ofList (comp.flatMap Str.lowerChar)
  part == ".btrbk" || part == ".snapshots" || Str.contains part "snap" || Str.contains part "btrbk"

theorem snapshotParts_eq (text : String) : snapshotParts text = (pieces text).any isSnapshotName := by
  unfold snapshotParts pieces
  rw [Str.lower, String.toList_ofList, splitOnChar_lower, List.any_map]
  rfl

theorem mem_of_contains {cs : List Char} {sub : String} {c : Char} (hc : c ∈ sub.toList)
    (h : Str.contains (String.ofList cs) sub = true) : c ∈ cs := by
  unfold Str.contains at h
  rw [String.toList_ofList, List.any_eq_true] at h
  obtain ⟨tail, htail, hpre⟩ := h
  have hsub := (List.isPrefixOf_iff_prefix.mp hpre).subset hc
  exact (List.mem_tails _ _ |>.mp htail).subset hsub

/-- Every snapshot name has one of two letters. -/
theorem letter_of_isSnapshotName {comp : List Char} (h : isSnapshotName comp = true) :
    's' ∈ comp.flatMap Str.lowerChar ∨ 'b' ∈ comp.flatMap Str.lowerChar := by
  have hof : ∀ {name : String}, String.ofList (comp.flatMap Str.lowerChar) = name →
      comp.flatMap Str.lowerChar = name.toList := by
    rintro _ rfl
    simp
  simp only [isSnapshotName, Bool.or_eq_true, beq_iff_eq] at h
  rcases h with ((h | h) | h) | h
  · exact .inr (by rw [hof h]; decide)
  · exact .inl (by rw [hof h]; decide)
  · exact .inl (mem_of_contains (by decide) h)
  · exact .inr (mem_of_contains (by decide) h)

section

variable (host : Host)

/-- The components of a deep directory that mark snapshots are the last ones. -/
theorem snapshotParts_deep {k : Nat} {s : List (List Char)} (hs : ∀ c ∈ s, Proper c)
    (h : snapshotParts (deep host k s) = true) : ∃ comp ∈ s, isSnapshotName comp = true := by
  rw [snapshotParts_eq, List.any_eq_true] at h
  obtain ⟨comp, hcomp, hname⟩ := h
  have hsplit : pieces (deep host k s) = [] :: (deepStack host k s).reverse := by
    unfold pieces deep
    rw [toList_ofStack, Str.splitOnChar_cons_self, Str.splitOnChar_intercalate]
    · simpa using deepStack_ne_nil host k s
    · exact fun c hc => (deepStack_proper host k hs c (List.mem_reverse.mp hc)).no_slash
  have hq : ∀ n, isSnapshotName (List.replicate n 'q') = false := by
    intro n
    have hletters : (List.replicate n 'q').flatMap Str.lowerChar = List.replicate n 'q' := by
      induction n with
      | zero => rfl
      | succ n ih => rw [List.replicate_succ, List.flatMap_cons, ih]; rfl
    rw [Bool.eq_false_iff]
    intro hname
    rcases letter_of_isSnapshotName hname with hmem | hmem <;> rw [hletters] at hmem <;>
      exact absurd (List.eq_of_mem_replicate hmem) (by decide)
  rw [hsplit] at hcomp
  simp only [deepStack, List.mem_cons, List.mem_reverse, List.mem_append, List.not_mem_nil,
    or_false] at hcomp
  rcases hcomp with rfl | hcomp | hcomp | rfl | rfl
  · exact absurd hname (by decide)
  · exact ⟨comp, hcomp, hname⟩
  · rw [List.eq_of_mem_replicate hcomp, show ['q'] = List.replicate 1 'q' from rfl, hq] at hname
    cases hname
  · rw [deepName, hq] at hname
    cases hname
  · exact absurd hname (by decide)

end

/-! ## Two runs side by side -/

/-- The directories of two runs: the same one, or a deep one that has `n` more levels to
    leave and ends in what the other one ends in. -/
inductive Tracks (host : Host) (n : Nat) : String → String → Prop where
  | same (a : String) : Tracks host n a a
  | deep {k : Nat} {s : List (List Char)} {b : String} (hk : n ≤ k) (hs : ∀ c ∈ s, Proper c)
      (hb : isAbsolute b = true) (hend : s <+: stack b) : Tracks host n (deep host k s) b

section

variable {host : Host}

theorem Tracks.mono {m n : Nat} (hmn : m ≤ n) {a b : String} (h : Tracks host n a b) :
    Tracks host m a b := by
  cases h with
  | same => exact .same a
  | deep hk hs hb hend => exact .deep (hmn.trans hk) hs hb hend

/-- One component of a move. -/
theorem normStep_deepStack (host : Host) {k : Nat} {s st : List (List Char)} (hs : ∀ c ∈ s, Proper c)
    (hst : ∀ c ∈ st, Proper c) (hend : s <+: st) {comp : List Char} (hcomp : '/' ∉ comp) :
    ∃ k' s', k ≤ k' ∧ normStep true (deepStack host (k + 1) s) comp = deepStack host k' s' ∧
      (∀ c ∈ s', Proper c) ∧ s' <+: normStep true st comp := by
  by_cases hskip : comp = [] ∨ comp = ['.']
  · refine ⟨k + 1, s, Nat.le_succ k, ?_, hs, ?_⟩
    · simp [normStep, hskip]
    · simpa [normStep, hskip] using hend
  · by_cases hdots : comp = ['.', '.']
    · subst hdots
      cases s with
      | nil =>
        -- up from the deep directory itself
        refine ⟨k, [], le_rfl, ?_, by simp, List.nil_prefix⟩
        simp [normStep, deepStack, List.replicate_succ]
      | cons last rest =>
        have hlast : last ≠ ['.', '.'] := (hs last List.mem_cons_self).ne_dots
        obtain ⟨more, rfl⟩ := hend
        refine ⟨k + 1, rest, Nat.le_succ k, ?_, fun c hc => hs c (List.mem_cons_of_mem _ hc), ?_⟩
        · simp [normStep, deepStack, hlast]
        · simp [normStep, hlast]
    · rw [not_or] at hskip
      have hproper : Proper comp := ⟨hskip.1, hskip.2, hdots, hcomp⟩
      refine ⟨k + 1, comp :: s, Nat.le_succ k, ?_, ?_, ?_⟩
      · rw [normStep_of_proper hproper]
        rfl
      · intro c hc
        rcases List.mem_cons.mp hc with rfl | hc
        · exact hproper
        · exact hs c hc
      · rw [normStep_of_proper hproper]
        exact List.cons_prefix_cons.mpr ⟨rfl, hend⟩

/-- A relative move; every component may go up one level. -/
theorem foldl_normStep_deepStack (host : Host) {n k : Nat} {s st comps : List (List Char)}
    (hk : n + comps.length ≤ k) (hs : ∀ c ∈ s, Proper c) (hst : ∀ c ∈ st, Proper c)
    (hend : s <+: st) (hcomps : ∀ c ∈ comps, '/' ∉ c) :
    ∃ k' s', n ≤ k' ∧ comps.foldl (normStep true) (deepStack host k s) = deepStack host k' s' ∧
      (∀ c ∈ s', Proper c) ∧ s' <+: comps.foldl (normStep true) st := by
  induction comps generalizing k s st with
  | nil => exact ⟨k, s, hk, rfl, hs, hend⟩
  | cons comp comps ih =>
    rw [List.length_cons] at hk
    obtain ⟨j, rfl⟩ : ∃ j, k = j + 1 := ⟨k - 1, by omega⟩
    have hcomp := hcomps comp List.mem_cons_self
    obtain ⟨k', s', hk', heq, hs', hend'⟩ := normStep_deepStack host hs hst hend hcomp
    rw [List.foldl_cons, List.foldl_cons, heq]
    exact ih (by omega) hs' (normStep_proper hst hcomp) hend'
      (fun c hc => hcomps c (List.mem_cons_of_mem _ hc))

/-- Both runs resolve the same path. -/
theorem Tracks.move {n : Nat} {path a b : String}
    (h : Tracks host (n + (pieces path).length) a b) :
    Tracks host n (normpath (join a path)) (normpath (join b path)) := by
  cases habs : isAbsolute path with
  | true =>
    rw [join_of_isAbsolute habs, join_of_isAbsolute habs]
    exact .same _
  | false =>
    cases h with
    | same => exact .same _
    | @deep k s _ hk hs hb hend =>
      have hpieces : ∀ c ∈ pieces path, '/' ∉ c := fun _ => Str.not_mem_of_mem_splitOnChar
      have hproper := deepStack_proper host k hs
      obtain ⟨k', s', hk', heq, hs', hend'⟩ :=
        foldl_normStep_deepStack host hk hs (stack_proper b) hend hpieces
      have hmoved : normpath (join (Guard.deep host k s) path) = Guard.deep host k' s' := by
        rw [Guard.deep, normpath_join_ofStack hproper (deepStack_ne_nil host k s) habs, heq]
        rfl
      rw [hmoved]
      refine .deep hk' hs' (isAbsolute_normpath (isAbsolute_join hb path)) ?_
      rw [stack_normpath (isAbsolute_join hb path), stack_join hb habs]
      exact hend'

/-- The levels `resolve` may go up. -/
def moves (host : Host) (path : String) : Nat := (pieces (expanduser host.users path)).length

theorem Tracks.resolve {n : Nat} {path a b : String} (h : Tracks host (n + moves host path) a b) :
    Tracks host n (resolve host a path) (resolve host b path) :=
  h.move

theorem workingDirectory_of_isAbsolute (host : Host) {path : String} (h : isAbsolute path = true) :
    workingDirectory host (some path) = normpath path := by
  simp [workingDirectory, ne_empty_of_isAbsolute h, expanduser_of_isAbsolute _ h]

theorem workingDirectory_deep (host : Host) (k : Nat) {s : List (List Char)}
    (hs : ∀ c ∈ s, Proper c) : workingDirectory host (some (deep host k s)) = deep host k s := by
  rw [workingDirectory_of_isAbsolute host (isAbsolute_deep host k s)]
  exact normpath_ofStack (deepStack_proper host k hs) (deepStack_ne_nil host k s)

/-- A directory that is passed to a nested evaluation. -/
theorem Tracks.workingDirectory {n : Nat} {a b : String} (h : Tracks host n a b) :
    Tracks host n (workingDirectory host (some a)) (workingDirectory host (some b)) := by
  cases h with
  | same => exact .same _
  | @deep k s _ hk hs hb hend =>
    rw [workingDirectory_deep host k hs, workingDirectory_of_isAbsolute host hb]
    exact .deep hk hs (isAbsolute_normpath hb) (by rwa [stack_normpath hb])

/-! ## Decisions -/

/-- What holds in a deep directory with enough levels holds in every directory it tracks. -/
def Carried (host : Host) (P Q : String → Prop) : Prop :=
  ∃ n, ∀ a b, Tracks host n a b → P a → Q b

/-- A decision that a deep directory does not add to. -/
def Stable (host : Host) {α : Type} (decide : String → Option α) : Prop :=
  Carried host (fun w => (decide w).isSome = true) (fun w => (decide w).isSome = true)

theorem Carried.imp {P Q P' Q' : String → Prop} (h : Carried host P Q) (hP : ∀ w, P' w → P w)
    (hQ : ∀ w, Q w → Q' w) : Carried host P' Q' := by
  obtain ⟨n, hn⟩ := h
  exact ⟨n, fun a b hab hp => hQ b (hn a b hab (hP a hp))⟩

theorem Carried.or {P Q P' Q' : String → Prop} (h : Carried host P Q) (h' : Carried host P' Q') :
    Carried host (fun w => P w ∨ P' w) (fun w => Q w ∨ Q' w) := by
  obtain ⟨n, hn⟩ := h
  obtain ⟨n', hn'⟩ := h'
  refine ⟨max n n', ?_⟩
  rintro a b hab (hp | hp)
  · exact .inl (hn a b (hab.mono (le_max_left n n')) hp)
  · exact .inr (hn' a b (hab.mono (le_max_right n n')) hp)

theorem Carried.exists_mem {α : Type} {P Q : α → String → Prop} {l : List α}
    (h : ∀ x ∈ l, Carried host (P x) (Q x)) :
    Carried host (fun w => ∃ x ∈ l, P x w) (fun w => ∃ x ∈ l, Q x w) := by
  induction l with
  | nil => exact ⟨0, by simp⟩
  | cons x l ih =>
    have hl := ih (fun y hy => h y (List.mem_cons_of_mem _ hy))
    simpa only [List.exists_mem_cons_iff] using (h x List.mem_cons_self).or hl

theorem Stable.const {α : Type} (d : Option α) : Stable host (fun _ => d) :=
  ⟨0, fun _ _ _ h => h⟩

theorem Stable.findSome {α β : Type} {decide : α → String → Option β} {l : List α}
    (h : ∀ x ∈ l, Stable host (decide x)) :
    Stable host (fun w => l.findSome? fun x => decide x w) := by
  simpa only [Stable, List.findSome?_isSome_iff] using Carried.exists_mem h

theorem Stable.ite {α : Type} {p : String → Bool}
    (h : Carried host (fun w => p w = true) (fun w => p w = true)) (d : α) :
    Stable host (fun w => if p w = true then some d else none) :=
  h.imp (fun w hw => by simpa using hw) (fun w hw => by simp [hw])

/-- What is asked of the target of a deletion, when a deep target says yes only for what it
    ends in. -/
def OfTarget (host : Host) (P : String → Prop) : Prop := ∀ a b, Tracks host 0 a b → P a → P b

theorem deletionTarget_eq (host : Host) (token : String) :
    ∃ path : Option String, ∀ w,
      deletionTarget host token w = path.map fun path => normpath (join w path) := by
  unfold deletionTarget
  dsimp only
  split
  · exact ⟨none, fun _ => rfl⟩
  · exact ⟨some _, fun _ => rfl⟩

theorem OfTarget.carried {P : String → Prop} (h : OfTarget host P) (token : String) :
    Carried host (fun w => ∃ target ∈ deletionTarget host token w, P target)
      (fun w => ∃ target ∈ deletionTarget host token w, P target) := by
  obtain ⟨path, hpath⟩ := deletionTarget_eq host token
  simp only [hpath]
  cases path with
  | none => exact ⟨0, by simp⟩
  | some path =>
    refine ⟨0 + (pieces path).length, fun a b hab => ?_⟩
    simpa using h _ _ hab.move

theorem OfTarget.stable {P : String → Prop} [DecidablePred P] (h : OfTarget host P) {α : Type}
    (d : String → α) (token : String) :
    Stable host (fun w => (deletionTarget host token w).bind fun target =>
      if P target then some (d target) else none) := by
  have hiff : ∀ w, ((deletionTarget host token w).bind fun target =>
      if P target then some (d target) else none).isSome = true ↔
      ∃ target ∈ deletionTarget host token w, P target := by
    intro w
    cases deletionTarget host token w <;> simp
  exact (h.carried token).imp (fun w => (hiff w).mp) (fun w => (hiff w).mpr)

theorem ofTarget_of_not_deep {P : String → Prop} (h : ∀ k s, ¬ P (deep host k s)) :
    OfTarget host P := by
  intro a b hab hp
  cases hab with
  | same => exact hp
  | deep => exact absurd hp (h _ _)

theorem irreversibleRmDecision_stable (tokens : List String) :
    Stable host (irreversibleRmDecision host tokens) := by
  have htarget : OfTarget host fun target => target ≠ "" ∧ protectedDeletionRoot host target = true :=
    ofTarget_of_not_deep fun k s h => by simp [not_protected_deep] at h
  cases tokens with
  | nil => exact .const none
  | cons rm args =>
    unfold irreversibleRmDecision
    by_cases hname : pathName rm ≠ "rm"
    · simp only [if_pos hname]
      exact .const none
    · simp only [if_neg hname]
      by_cases hrec : ¬ (rmOperands args).1 = true
      · simp only [if_pos hrec]
        exact .const none
      · simp only [if_neg hrec]
        exact .findSome fun operand _ => htarget.stable _ operand

theorem findDecision_stable (tokens : List String) : Stable host (findDecision host tokens) := by
  unfold findDecision
  dsimp only
  split
  · exact .const none
  · refine .findSome fun start _ => OfTarget.stable ?_ _ start
    refine ofTarget_of_not_deep fun k s h => ?_
    rw [not_mounted_deep, not_protected_deep] at h
    simp at h

/-- Components that mark a snapshot are in both directories. -/
theorem snapshotTarget_ofTarget (host : Host) : OfTarget host fun target =>
    (under target snapshotStore || protectedDeletionRoot host target || snapshotParts target) = true := by
  intro a b hab h
  cases hab with
  | same => exact h
  | @deep k s _ _ hs hb hend =>
    have hstore : under (deep host k s) snapshotStore = false :=
      under_deep_eq_false host (by decide) k s
    simp only [hstore, not_protected_deep, Bool.false_or] at h
    obtain ⟨comp, hcomp, hname⟩ := snapshotParts_deep host hs h
    have hparts : snapshotParts b = true := by
      rw [snapshotParts_eq, List.any_eq_true]
      exact ⟨comp, mem_pieces_of_mem_stack (hend.subset hcomp), hname⟩
    simp [hparts]

theorem btrfsDecision_stable (tokens : List String) : Stable host (btrfsDecision host tokens) := by
  have htarget : ∀ raw, Carried host (fun w => snapshotTarget host raw w = true)
      (fun w => snapshotTarget host raw w = true) := by
    intro raw
    obtain ⟨path, hpath⟩ := deletionTarget_eq host raw
    have hcarried := (snapshotTarget_ofTarget host).carried raw
    unfold snapshotTarget
    cases path with
    | none =>
      simp only [hpath, Option.map_none]
      exact ⟨0, fun _ _ _ h => h⟩
    | some path => simpa [hpath] using hcarried
  unfold btrfsDecision
  split
  · split
    · exact .const none
    · next target targets _ _ =>
      have hany := Carried.exists_mem (l := target :: targets) fun raw _ => htarget raw
      exact .ite (by simpa only [List.any_eq_true] using hany) _
  · exact .const none

theorem irreversibleSystemDecision_stable (tokens : List String) :
    Stable host (irreversibleSystemDecision host tokens) := by
  cases tokens with
  | nil => exact .const none
  | cons token args =>
    unfold irreversibleSystemDecision
    dsimp only
    by_cases hrm : pathName token = "rm"
    · simp only [if_pos hrm]
      exact irreversibleRmDecision_stable _
    by_cases hfind : pathName token = "find"
    · simp only [if_neg hrm, if_pos hfind]
      exact findDecision_stable _
    by_cases hbtrfs : pathName token = "btrfs"
    · simp only [if_neg hrm, if_neg hfind, if_pos hbtrfs]
      exact btrfsDecision_stable _
    -- the other programs do not look at the directory
    simp only [if_neg hrm, if_neg hfind, if_neg hbtrfs]
    exact .const _

/-- Two invocations that differ in the directory only. -/
inductive SameInvocation (host : Host) :
    Option (String × List String × String) → Option (String × List String × String) → Prop where
  | none : SameInvocation host none none
  | some (subcommand : String) (args : List String) {a b : String} (h : Tracks host 0 a b) :
      SameInvocation host (some (subcommand, args, a)) (some (subcommand, args, b))

/-- Both runs of `git_invocation` read the same subcommand. -/
theorem gitInvocationLoop_tracks (host : Host) : ∀ tokens, ∃ n, ∀ a b, Tracks host n a b →
    SameInvocation host (gitInvocationLoop host a tokens) (gitInvocationLoop host b tokens)
  | [] => ⟨0, fun _ _ _ => .none⟩
  | [token] => by
    refine ⟨0, fun a b hab => ?_⟩
    simp only [gitInvocationLoop]
    split
    · exact .none
    · exact .some token [] hab
  | token :: value :: rest => by
    obtain ⟨n, hn⟩ := gitInvocationLoop_tracks host rest
    obtain ⟨n', hn'⟩ := gitInvocationLoop_tracks host (value :: rest)
    by_cases hC : token = "-C"
    · refine ⟨n + moves host value, fun a b hab => ?_⟩
      simp only [gitInvocationLoop, if_pos hC]
      exact hn _ _ hab.resolve
    by_cases hattached : Str.startswith token "-C" = true
    · refine ⟨n' + moves host (Str.removeprefix token "-C"), fun a b hab => ?_⟩
      simp only [gitInvocationLoop, if_neg hC, if_pos hattached]
      exact hn' _ _ hab.resolve
    by_cases hvalue : token ∈ gitGlobalOptionsWithValue
    · refine ⟨n, fun a b hab => ?_⟩
      simp only [gitInvocationLoop, if_neg hC, if_neg hattached, if_pos hvalue]
      exact hn a b hab
    by_cases hoption : Str.startswith token "-" = true
    · refine ⟨n', fun a b hab => ?_⟩
      simp only [gitInvocationLoop, if_neg hC, if_neg hattached, if_neg hvalue, if_pos hoption]
      exact hn' a b hab
    · refine ⟨0, fun a b hab => ?_⟩
      simp only [gitInvocationLoop, if_neg hC, if_neg hattached, if_neg hvalue, if_neg hoption]
      exact .some token (value :: rest) hab

theorem gitInvocation_tracks (host : Host) (tokens : List String) : ∃ n, ∀ a b, Tracks host n a b →
    SameInvocation host (gitInvocation host tokens a) (gitInvocation host tokens b) := by
  unfold gitInvocation
  split
  · exact ⟨0, fun _ _ _ => .none⟩
  · exact ⟨0, fun _ _ _ => .none⟩
  · split
    · exact ⟨0, fun _ _ _ => .none⟩
    · exact gitInvocationLoop_tracks host _

theorem irreversibleGitDecision_disposable {subcommand text : String} {args : List String}
    (h : (irreversibleGitDecision subcommand args text false).isSome = true) (shared : Bool) :
    (irreversibleGitDecision subcommand args text shared).isSome = true := by
  have hpush : subcommand = "push" ∧ forcePushesSharedMain args = true := by
    by_contra hno
    simp [irreversibleGitDecision, hno] at h
  simp [irreversibleGitDecision, hpush]

theorem gitDecision_stable (tokens : List String) :
    Stable host (fun w => (gitInvocation host tokens w).bind fun (subcommand, args, gitCwd) =>
      irreversibleGitDecision subcommand args (normalizeSegment tokens)
        (!disposableRoots.any (under gitCwd))) := by
  obtain ⟨n, hn⟩ := gitInvocation_tracks host tokens
  refine ⟨n, fun a b hab h => ?_⟩
  dsimp only at h ⊢
  have hsame := hn a b hab
  generalize gitInvocation host tokens a = x at h hsame
  generalize gitInvocation host tokens b = y at hsame ⊢
  cases hsame with
  | none => exact h
  | some subcommand args hdirs =>
    simp only [Option.bind_some] at h ⊢
    cases hdirs with
    | same => exact h
    | deep =>
      rw [disposable_deep] at h
      exact irreversibleGitDecision_disposable h _

theorem irreversibleSegmentDecision_stable (tokens : List String) :
    Stable host (irreversibleSegmentDecision host tokens) := by
  have hsystem : Stable host (irreversibleSystemDecision host tokens) :=
    irreversibleSystemDecision_stable tokens
  have hor := Carried.or hsystem (gitDecision_stable tokens)
  have hiff : ∀ w, (irreversibleSegmentDecision host tokens w).isSome = true ↔
      (irreversibleSystemDecision host tokens w).isSome = true ∨
      ((gitInvocation host tokens w).bind fun (subcommand, args, gitCwd) =>
        irreversibleGitDecision subcommand args (normalizeSegment tokens)
          (!disposableRoots.any (under gitCwd))).isSome = true := by
    intro w
    unfold irreversibleSegmentDecision
    cases irreversibleSystemDecision host tokens w <;> simp
  exact hor.imp (fun w => (hiff w).mp) (fun w => (hiff w).mpr)

/-! ## Segments and nested commands -/

/-- How the second run may answer to what a segment made of the first. -/
inductive Judged.Follows (host : Host) (n : Nat) : Judged → Judged → Prop where
  | blocked (x : Judged) (decision : Decision) : Judged.Follows host n x (.blocked decision)
  | pass {a b : String} (h : Tracks host n a b) : Judged.Follows host n (.pass a) (.pass b)

theorem judgeSegment_blocked {evaluate : String → String → Decision} {w : String}
    {segment : List String} {decision : Decision}
    (h : judgeSegment host evaluate w segment = .blocked decision) : decision.blocked = true := by
  have hof : ∀ {d : Decision}, Judged.of w d = .blocked decision → decision.blocked = true := by
    intro d hd
    unfold Judged.of at hd
    split at hd
    · cases hd
      assumption
    · cases hd
  unfold judgeSegment at h
  split at h
  · cases h
  · dsimp only at h
    split at h
    · cases h
    · split at h
      · split at h
        · exact hof h
        · cases h
      · split at h
        · split at h
          · exact hof h
          · cases h
        · split at h
          · cases h
            rfl
          · cases h

theorem Judged.Follows.of {n : Nat} {a b : String} (hab : Tracks host n a b) {x y : Decision}
    (h : x.blocked = true → y.blocked = true) : Judged.Follows host n (.of a x) (.of b y) := by
  unfold Judged.of
  by_cases hy : y.blocked = true
  · rw [if_pos hy]
    exact .blocked _ _
  · have hx : ¬ x.blocked = true := fun hx => hy (h hx)
    rw [if_neg hy, if_neg hx]
    exact .pass hab

section

variable {evaluate evaluate' : String → String → Decision}
  (he : ∀ text, Carried host (fun w => (evaluate text w).blocked = true)
    (fun w => (evaluate' text w).blocked = true))

include he

/-- One segment. -/
theorem judgeSegment_follows (m : Nat) (segment : List String) : ∃ n, ∀ a b, Tracks host n a b →
    Judged.Follows host m (judgeSegment host evaluate a segment)
      (judgeSegment host evaluate' b segment) := by
  unfold judgeSegment
  cases unwrap segment with
  | nil => exact ⟨m, fun _ _ hab => .pass hab⟩
  | cons arg rest =>
    dsimp only
    by_cases hcd : executableOf arg = "cd"
    · simp only [if_pos hcd]
      unfold changeDirectory
      dsimp only
      split
      · exact ⟨m, fun _ _ hab => .pass hab⟩
      · exact ⟨m + moves host _, fun _ _ hab => .pass hab.resolve⟩
    simp only [if_neg hcd]
    by_cases hshell : (shellExecutables.contains (executableOf arg) || executableOf arg == "eval") = true
    · simp only [if_pos hshell]
      cases nestedCommand (executableOf arg) (arg :: rest) with
      | none => exact ⟨m, fun _ _ hab => .pass hab⟩
      | some nested =>
        obtain ⟨n, hn⟩ := he nested
        exact ⟨max m n, fun a b hab => .of (hab.mono (le_max_left m n))
          (hn a b (hab.mono (le_max_right m n)))⟩
    simp only [if_neg hshell]
    by_cases hssh : executableOf arg = "ssh"
    · simp only [if_pos hssh]
      cases sshRemoteCommand (arg :: rest) with
      | none => exact ⟨m, fun _ _ hab => .pass hab⟩
      | some remote =>
        -- the remote directory is the same in both runs
        obtain ⟨n, hn⟩ := he remote
        exact ⟨m, fun a b hab => .of hab (hn remoteCwd remoteCwd (.same remoteCwd))⟩
    simp only [if_neg hssh]
    obtain ⟨n, hn⟩ : Stable host (irreversibleSegmentDecision host (arg :: rest)) :=
      irreversibleSegmentDecision_stable _
    refine ⟨max m n, fun a b hab => ?_⟩
    have hdecide := hn a b (hab.mono (le_max_right m n))
    cases hb : irreversibleSegmentDecision host (arg :: rest) b with
    | some decision => exact .blocked _ _
    | none =>
      cases ha : irreversibleSegmentDecision host (arg :: rest) a with
      | some decision => simp [ha, hb] at hdecide
      | none => exact .pass (hab.mono (le_max_left m n))

/-- The segments in order. -/
theorem judgeSegments_carried (segs : List (List String)) :
    Carried host (fun w => (judgeSegments host evaluate w segs).blocked = true)
      (fun w => (judgeSegments host evaluate' w segs).blocked = true) := by
  induction segs with
  | nil => exact ⟨0, fun _ _ _ h => h⟩
  | cons segment segs ih =>
    obtain ⟨m, hm⟩ := ih
    obtain ⟨n, hn⟩ := judgeSegment_follows he m segment
    refine ⟨n, fun a b hab h => ?_⟩
    have hfollows := hn a b hab
    simp only [judgeSegments] at h ⊢
    cases hb : judgeSegment host evaluate' b segment with
    | blocked decision => exact judgeSegment_blocked hb
    | pass b' =>
      rw [hb] at hfollows
      cases ha : judgeSegment host evaluate a segment with
      | blocked decision =>
        rw [ha] at hfollows
        cases hfollows
      | pass a' =>
        rw [ha] at h hfollows
        cases hfollows with
        | pass htracks => exact hm a' b' htracks h

theorem nested_carried (texts : List String) :
    Carried host (fun w => ∃ text ∈ texts, (evaluate text w).blocked = true)
      (fun w => ∃ text ∈ texts, (evaluate' text w).blocked = true) :=
  .exists_mem fun text _ => he text

end

/-- The texts of a command that are judged on their own, in its directory. -/
def nestedTexts (host : Host) (command : String) : List String :=
  ((splitHeredocs host command.toList).2.1 ++
    substitutions (splitHeredocs host command.toList).1).map String.ofList

/-- The segments of a command. -/
def commandSegments (host : Host) (command : String) : List (List String) :=
  (segments (splitHeredocs host command.toList).1).map (·.map String.ofList)

theorem judge_eq (evaluate : String → String → Decision) (command w : String) :
    judge host evaluate command w =
      match judgeNested (evaluate · w) (nestedTexts host command) with
      | some decision => decision
      | none => judgeSegments host evaluate w (commandSegments host command) := rfl

/-- A command is blocked for a nested text or for its segments. -/
theorem judge_blocked_iff (evaluate : String → String → Decision) (command w : String) :
    (judge host evaluate command w).blocked = true ↔
      (∃ text ∈ nestedTexts host command, (evaluate text w).blocked = true) ∨
      (judgeSegments host evaluate w (commandSegments host command)).blocked = true := by
  rw [judge_eq, judgeNested]
  cases hfind : ((nestedTexts host command).map (evaluate · w)).find? Decision.blocked with
  | some decision =>
    have hblocked : decision.blocked = true := List.find?_some hfind
    have hmem := List.mem_of_find?_eq_some hfind
    obtain ⟨text, htext, rfl⟩ := List.mem_map.mp hmem
    simp only [hblocked, true_iff]
    exact .inl ⟨text, htext, hblocked⟩
  | none =>
    rw [List.find?_eq_none] at hfind
    have hno : ¬ ∃ text ∈ nestedTexts host command, (evaluate text w).blocked = true := by
      rintro ⟨text, htext, hblocked⟩
      exact hfind _ (List.mem_map_of_mem htext) hblocked
    simp only [hno, false_or]

/-- The recursion: more depth only adds reasons to block. -/
theorem evaluateTo_carried (host : Host) {d d' : Nat} (hd : d ≤ d') (command : String) :
    Carried host (fun w => (evaluateTo host d command w).blocked = true)
      (fun w => (evaluateTo host d' command w).blocked = true) := by
  induction d generalizing d' command with
  | zero => exact ⟨0, fun _ _ _ h => nomatch h⟩
  | succ d ih =>
    obtain ⟨e, rfl⟩ : ∃ e, d' = e + 1 := ⟨d' - 1, by omega⟩
    have hrec := fun text => ih (show d ≤ e by omega) text
    obtain ⟨n, hn⟩ := Carried.or (nested_carried hrec (nestedTexts host command))
      (judgeSegments_carried hrec (commandSegments host command))
    refine ⟨n, fun a b hab h => ?_⟩
    simp only [evaluateTo, judge_blocked_iff] at h ⊢
    exact hn _ _ hab.workingDirectory h

end

end SummitFlow.Guard
