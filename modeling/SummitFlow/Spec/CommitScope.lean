import SummitFlow.Cli.CommitWorkflow
import Mathlib.Data.List.Infix

/-!
# What a commit contains

The scope of a commit is judged, and later commands stage and commit what they find.  A
path is pending when one of these commands would take a change of it into the commit.  As
long as every pending path is in the judged scope, so is every path that the commit changes,
whatever the other sessions do in between.
-/

namespace SummitFlow.CommitWorkflow

open Git Script

/-! ## Pending paths -/

/-- The pathspecs that a name of the scope may have become. -/
def readings (patterns : List String) (name : String) : List String :=
  if hasPattern name then (":(literal)" ++ name) :: (if name ∈ patterns then [name] else [])
  else [name]

/-- A path that git reaches from a name of the scope. -/
def reached (host : Host) (scope patterns : List String) (path : String) : Bool :=
  scope.any fun name => host.rules.covered (readings patterns name) path

/-- A path that the commands would change in the commit.  With selected files they go by the
    pathspecs of the scope, else by the whole index and everything that `git add` finds. -/
def pending (host : Host) (judged : Judged) (patterns : List String) (c : Checkout)
    (path : String) : Bool :=
  if judged.selected then
    reached host judged.scope patterns path &&
      (decide (c.index.lookup path ≠ c.headTree.lookup path) ||
        c.known path && decide (c.work.lookup path ≠ c.headTree.lookup path))
  else if judged.skipped.any fun name => under name path then
    decide (c.index.lookup path ≠ c.headTree.lookup path)
  else decide (c.staged host.rules path ≠ c.headTree.lookup path)

/-- Until the commit, every pending path is in the scope that was judged. -/
def Contained (host : Host) (s : Session) : Prop :=
  ∀ judged, s.judged = some judged → s.commits = [] →
    ∀ path, pending host judged s.patterns s.checkout path = true → path ∈ judged.scope

theorem mem_paths_of_pending {host : Host} {judged : Judged} {patterns : List String}
    {c : Checkout} {path : String} (h : pending host judged patterns c path = true) :
    path ∈ c.paths := by
  by_contra hout
  obtain ⟨hhead, hindex, hwork⟩ := not_mem_paths hout
  have hstaged : c.staged host.rules path = none := by
    unfold Checkout.staged
    rw [hwork, ite_self]
  simp [pending, hhead, hindex, hwork, hstaged] at h

instance (host : Host) (s : Session) : Decidable (Contained host s) :=
  decidable_of_iff (∀ judged ∈ s.judged, s.commits = [] → ∀ path ∈ s.checkout.paths,
      pending host judged s.patterns s.checkout path = true → path ∈ judged.scope) <| by
    constructor
    · intro h judged hjudged hfresh path hpending
      exact h judged hjudged hfresh path (mem_paths_of_pending hpending) hpending
    · intro h judged hjudged hfresh path _ hpending
      exact h judged hjudged hfresh path hpending

/-- Every commit changes paths of the judged scope only. -/
def Within (s : Session) : Prop :=
  ∀ made ∈ s.commits, ∃ judged, s.judged = some judged ∧
    ∀ path ∈ changedPaths made.parent made.tree, path ∈ judged.scope

section

variable {host : Host}

/-! ## What the others do -/

/-- The others edit, and what is pending stays in the scope. -/
def Others (host : Host) : Session → Session → Prop :=
  Relation.ReflTransGen fun s t => Contained host t ∧ ∃ e, t = s.edit e

/-- What an edit does not change. -/
theorem edit_keeps (s : Session) (e : Edit) :
    (s.edit e).judged = s.judged ∧ (s.edit e).patterns = s.patterns ∧
      (s.edit e).commits = s.commits ∧ (s.edit e).checkout.head = s.checkout.head := by
  cases e with
  | write path blob => exact ⟨rfl, rfl, rfl, rfl⟩
  | delete path => exact ⟨rfl, rfl, rfl, rfl⟩
  | stage path => exact ⟨rfl, rfl, rfl, rfl⟩

/-- A property that edits keep while what is pending stays in the scope. -/
theorem Others.keeps {P : Session → Prop}
    (hP : ∀ s e, P s → Contained host (s.edit e) → P (s.edit e)) {s t : Session}
    (h : Others host s t) (hs : P s) : P t := by
  induction h with
  | refl => exact hs
  | tail _ hstep ih =>
    obtain ⟨hcontained, e, rfl⟩ := hstep
    exact hP _ e ih hcontained

/-- No commit yet. -/
def Fresh (s : Session) : Prop := s.commits = []

/-- Judged and not committed, on a HEAD with the given tree. -/
structure Open (judged : Judged) (head : Tree) (s : Session) : Prop where
  judged : s.judged = some judged
  fresh : s.commits = []
  head : s.checkout.headTree = head

variable {judged : Judged} {head : Tree}

theorem Fresh.others {s t : Session} (hs : Fresh s) (h : Others host s t) : Fresh t :=
  h.keeps (fun s e hs _ => (edit_keeps s e).2.2.1.trans hs) hs

theorem Open.edit {s : Session} (hs : Open judged head s) (e : Edit) : Open judged head (s.edit e) := by
  obtain ⟨hjudged, -, hcommits, hhead⟩ := edit_keeps s e
  refine ⟨hjudged.trans hs.judged, hcommits.trans hs.fresh, ?_⟩
  rw [Checkout.headTree, hhead]
  exact hs.head

theorem Open.others {s t : Session} (hs : Open judged head s) (h : Others host s t) :
    Open judged head t :=
  h.keeps (fun _ e hs _ => hs.edit e) hs

theorem Within.edit {s : Session} (hs : Within s) (e : Edit) : Within (s.edit e) := by
  obtain ⟨hjudged, -, hcommits, -⟩ := edit_keeps s e
  intro made hmade
  rw [hcommits] at hmade
  rw [hjudged]
  exact hs made hmade

/-- Only names that git was given as patterns are added. -/
def Reads (s : Session) (_ : Unit) (t : Session) : Prop :=
  s.patterns ⊆ t.patterns ∧ t = { s with patterns := t.patterns }

/-- While what is pending stays in the scope, commits stay within it. -/
abbrev Guarded (host : Host) {α : Type} (Q : α → Session → Prop) (c : Act α) (s : Session) : Prop :=
  SafeIn (Contained host) (Others host) (fun s _ t => Within s → Within t) Q (fun _ _ => True) c s

/-- What neither the others nor a read ends. -/
structure Lasting (host : Host) (P : Session → Prop) : Prop where
  others : ∀ s t, P s → Others host s t → P t
  reads : ∀ s t, P s → Reads s () t → P t

theorem Reads.within {s t : Session} (h : Reads s () t) (hs : Within s) : Within t := by
  rw [h.2]
  exact hs

theorem Lasting.and {P P' : Session → Prop} (h : Lasting host P) (h' : Lasting host P') :
    Lasting host fun s => P s ∧ P' s where
  others := fun s t hs hst => ⟨h.others s t hs.1 hst, h'.others s t hs.2 hst⟩
  reads := fun s t hs hst => ⟨h.reads s t hs.1 hst, h'.reads s t hs.2 hst⟩

theorem others_refl (s : Session) : Others host s s := Relation.ReflTransGen.refl

theorem Guarded.bind {α β : Type} {Q : α → Session → Prop} {Q' : β → Session → Prop} {c : Act α}
    {k : α → Act β} {s : Session} (h : Guarded host Q c s)
    (hk : ∀ a t, Q a t → Guarded host Q' (k a) t) : Guarded host Q' (c >>= k) s :=
  SafeIn.bind others_refl h hk

theorem guarded_pure {α : Type} {P : Session → Prop} (hP : Lasting host P) {a : α} {s : Session}
    (hs : P s) : Guarded host (fun _ => P) (pure a) s :=
  safeIn_pure fun t ht _ => hP.others s t hs ht

/-- The pathspecs are readings of the names. -/
def Known (names specs : List String) (s : Session) : Prop :=
  ∀ spec ∈ specs, ∃ name ∈ names, spec ∈ readings s.patterns name

/-- What is staged is in the scope. -/
def StagedWithin (judged : Judged) (s : Session) : Prop :=
  ∀ path, s.checkout.index.lookup path ≠ s.checkout.headTree.lookup path → path ∈ judged.scope

theorem lookup_setEntry {tree : Tree} {path other : String} {blob : Option String} :
    (setEntry tree path blob).lookup other = if other = path then blob else tree.lookup other := by
  unfold setEntry
  cases blob with
  | some blob =>
    by_cases h : other = path
    · rw [if_pos h, h]
      exact Dict.lookup_set_self path blob tree
    · rw [if_neg h]
      exact Dict.lookup_set_of_ne h blob tree
  | none => exact Dict.lookup_filter_ne other path tree

/-- Without selected files, what `git add` would take or the index holds in a skipped
    directory is pending. -/
theorem pending_whole {c : Checkout} {patterns : List String} {path : String}
    (h : judged.selected = false) :
    pending host judged patterns c path =
      decide ((if judged.skipped.any fun name => under name path then c.index.lookup path
        else c.staged host.rules path) ≠ c.headTree.lookup path) := by
  unfold pending
  rw [h]
  simp only [Bool.false_eq_true, if_false]
  split
  · rfl
  · rfl

/-- An edit stages nothing that is not pending afterwards. -/
theorem StagedWithin.edit {s : Session} (hwhole : judged.selected = false) (hopen : Open judged head s)
    (hs : StagedWithin judged s) (e : Edit) (h : Contained host (s.edit e)) :
    StagedWithin judged (s.edit e) := by
  cases e with
  | write path blob => exact hs
  | delete path => exact hs
  | stage path =>
    intro other hother
    by_contra hout
    have hopen' := hopen.edit (.stage path)
    have hpending : pending host judged (s.edit (.stage path)).patterns
        (s.edit (.stage path)).checkout other = false := by
      rw [Bool.eq_false_iff]
      exact fun htrue => hout (h judged hopen'.judged hopen'.fresh other htrue)
    rw [pending_whole hwhole, decide_eq_false_iff_not, not_not] at hpending
    split at hpending
    next => exact hother hpending
    next =>
      -- outside the skipped directories, what was staged is what `git add` takes
      have hindex : (s.edit (.stage path)).checkout.index.lookup other =
          if other = path then s.checkout.work.lookup path else s.checkout.index.lookup other :=
        lookup_setEntry
      by_cases hpath : other = path
      · subst hpath
        rw [if_pos rfl] at hindex
        have hstaged : (s.edit (.stage other)).checkout.staged host.rules other =
            s.checkout.work.lookup other := by
          unfold Checkout.staged
          rw [hindex]
          show (if (s.checkout.work.lookup other).isSome || _ then s.checkout.work.lookup other
            else none) = _
          cases hwork : s.checkout.work.lookup other with
          | some blob => rfl
          | none => exact ite_self none
        rw [hstaged] at hpending
        exact hother (hindex.trans hpending)
      · rw [if_neg hpath] at hindex
        exact hout (hs other (hindex ▸ hother))

/-- Staging is no commit. -/
theorem Open.add {s : Session} (hs : Open judged head s) (selected : String → Bool) :
    Open judged head { s with checkout := s.checkout.add host.rules selected } :=
  ⟨hs.judged, hs.fresh, hs.head⟩

theorem Reads.same (s : Session) (l : Unit) (t : Session) (h : Reads s l t) :
    t.commits = s.commits ∧ t.judged = s.judged := by
  rw [h.2]
  exact ⟨rfl, rfl⟩

end

/-! ## A race -/

/-- A machine without ignored files where a pathspec is a file or a directory. -/
def plainHost : Host where
  rules := {
    covers := fun spec path => spec = "." || under (Str.removeprefix spec ":(literal)") path
    ignored := fun _ _ => false
    status := fun c _ => (changedPaths c.headTree c.work).map fun path => (path, " M") }
  existsPath tree path := tree.any fun entry => under path entry.1
  relative _ := none
  users := ⟨"/home/user", fun _ => none⟩
  fingerprint c := (c.headTree ++ c.index ++ c.work).foldr (fun entry text => entry.1 ++ entry.2 ++ text) ""
  buildOutput := ["dist"]

/-- A commit of the whole tree, or of `a.txt`. -/
def request (paths : List String) : Call where
  repo := "repo"
  repoPath := "/repo"
  message := "change"
  paths := paths

end SummitFlow.CommitWorkflow
