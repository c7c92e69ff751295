import SummitFlow.ForStd.Dict
import SummitFlow.ForStd.SortedBy
import SummitFlow.Python.Str
import Mathlib.Data.List.Dedup
import Mathlib.Data.String.Basic

/-!
# A git checkout

HEAD, the index and the working tree of a checkout, and what the git commands that the
commit workflow runs read and change of them.  A tree maps paths to modes and blobs; a blob
stands for its content.  How git reads a pathspec, which files it ignores and what it prints
as status are parameters.
-/

namespace SummitFlow.Git

/-! ## Trees -/

/-- Paths with their modes and blobs. -/
abbrev Tree := List (String × String)

/-- The paths of two trees, sorted. -/
def treePaths (t u : Tree) : List String :=
  sortBy (fun path => path) (t.map Prod.fst ++ u.map Prod.fst).dedup

/-- The tree with the given entries at some paths. -/
def Tree.ofPaths (paths : List String) (entry : String → Option String) : Tree :=
  paths.filterMap fun path => (entry path).map fun blob => (path, blob)

/-- `git diff --name-only` of two trees. -/
def changedPaths (t u : Tree) : List String :=
  (treePaths t u).filter fun path => t.lookup path ≠ u.lookup path

theorem mem_treePaths {t u : Tree} {path : String} :
    path ∈ treePaths t u ↔ path ∈ t.map Prod.fst ∨ path ∈ u.map Prod.fst := by
  rw [treePaths, mem_sortBy, List.mem_dedup, List.mem_append]

structure Commit where
  sha : String
  tree : Tree
deriving DecidableEq, Repr

structure Checkout where
  /-- none before the first commit -/
  head : Option Commit
  index : Tree
  work : Tree
deriving DecidableEq, Repr

/-- The tree of HEAD, empty before the first commit. -/
def Checkout.headTree (c : Checkout) : Tree := (c.head.map fun commit => commit.tree).getD []

/-- How git reads a pathspec and the ignore rules of a working tree, and the paths and codes
    of `git status --porcelain=v1 --untracked-files=all` for pathspecs (all paths for none). -/
structure Rules where
  covers : String → String → Bool
  ignored : Tree → String → Bool
  status : Checkout → List String → List (String × String)

variable (rules : Rules)

/-- A path that one of the pathspecs covers. -/
def Rules.covered (specs : List String) (path : String) : Bool :=
  specs.any fun spec => rules.covers spec path

/-- `path` is `directory` or below it. -/
def under (directory path : String) : Bool :=
  path = directory || Str.startswith path (directory ++ "/")

/-- A path that is in the index or in HEAD. -/
def Checkout.known (c : Checkout) (path : String) : Bool :=
  (c.index.lookup path).isSome || (c.headTree.lookup path).isSome

/-! ## Commands that read -/

/-- `git ls-files --cached`. -/
def Checkout.cached (c : Checkout) (specs : List String) : List String :=
  (c.index.map Prod.fst).filter (rules.covered specs)

/-- `git ls-files --others --exclude-standard`. -/
def Checkout.others (c : Checkout) (specs : List String) : List String :=
  (c.work.map Prod.fst).filter fun path =>
    rules.covered specs path && !(c.index.lookup path).isSome && !rules.ignored c.work path

/-- What `git add` leaves in the index at a path it covers. -/
def Checkout.staged (c : Checkout) (path : String) : Option String :=
  if (c.index.lookup path).isSome || !rules.ignored c.work path then c.work.lookup path else none

/-- `git add`, on the paths it covers. -/
def Checkout.add (c : Checkout) (selected : String → Bool) : Checkout :=
  { c with
    index := Tree.ofPaths (treePaths c.index c.work) fun path =>
      if selected path then c.staged rules path else c.index.lookup path }

/-- The paths of a checkout. -/
def Checkout.paths (c : Checkout) : List String := treePaths (c.headTree ++ c.index) c.work

section

variable {rules} {c : Checkout} {path : String}

theorem not_mem_paths (h : path ∉ c.paths) :
    c.headTree.lookup path = none ∧ c.index.lookup path = none ∧ c.work.lookup path = none := by
  rw [Checkout.paths, mem_treePaths, List.map_append, List.mem_append, not_or, not_or] at h
  exact ⟨Dict.lookup_eq_none_of_notMem h.1.1, Dict.lookup_eq_none_of_notMem h.1.2,
    Dict.lookup_eq_none_of_notMem h.2⟩

end

end SummitFlow.Git
