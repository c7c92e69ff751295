import SummitFlow.Python.PathText

/-!
# Pure paths

`pathlib.PurePosixPath` by its anchor and the names after it.
-/

namespace SummitFlow

structure PurePath where
  /-- the slashes it starts with -/
  slashes : Nat
  names : List (List Char)
deriving DecidableEq, Repr

namespace PurePath

/-- `Path(text)`: empty components and `.` vanish. -/
def parse (text : List Char) : PurePath where
  slashes := PosixPath.leadingSlashes (String.ofList text)
  names := (Str.splitOnChar '/' text).filter fun name => name ≠ [] && name ≠ ['.']

/-- `str(path)`. -/
def text (path : PurePath) : List Char := (PosixPath.render path.slashes path.names.reverse).toList

/-- `path == root or root in path.parents`. -/
def within (path root : PurePath) : Bool :=
  path.slashes = root.slashes && root.names.isPrefixOf path.names

/-- `len(path.parts)`. -/
def partCount (path : PurePath) : Nat := (if path.slashes = 0 then 0 else 1) + path.names.length

/-- `root / path.relative_to(point)`. -/
def moved (path point root : PurePath) : PurePath :=
  ⟨root.slashes, root.names ++ path.names.drop point.names.length⟩

/-- A file name. -/
def IsName (name : List Char) : Prop := name ≠ [] ∧ '/' ∉ name ∧ name ≠ ['.']

/-- A path that names a file: it starts with one slash, or with a name. -/
structure Written (path : PurePath) : Prop where
  names : ∀ name ∈ path.names, IsName name
  start : path.slashes = 1 ∨ path.slashes = 0 ∧ path.names ≠ []

theorem Written.named {path : PurePath} (h : path.Written) :
    ∀ name ∈ path.names.reverse, PosixPath.Named name := by
  intro name hname
  obtain ⟨hne, hslash, -⟩ := h.names name (List.mem_reverse.mp hname)
  exact ⟨hne, hslash⟩

theorem Written.text_eq {path : PurePath} (h : path.Written) :
    path.text = List.replicate path.slashes '/' ++ ['/'].intercalate path.names := by
  have hstart : path.slashes ≠ 0 ∨ path.names.reverse ≠ [] := by
    rcases h.start with hone | ⟨-, hne⟩
    · exact .inl (by omega)
    · exact .inr (by simpa using hne)
  rw [text, PosixPath.toList_render hstart h.named, List.reverse_reverse]

/-- The first character of the names is no slash. -/
theorem Written.intercalate_head {path : PurePath} (h : path.Written) (hne : path.names ≠ []) :
    ∃ c cs, ['/'].intercalate path.names = c :: cs ∧ c ≠ '/' := by
  obtain ⟨name, names, hnames⟩ := List.exists_cons_of_ne_nil hne
  obtain ⟨hname, hslash, -⟩ := h.names name (hnames ▸ List.mem_cons_self)
  obtain ⟨c, cs, rfl⟩ := List.exists_cons_of_ne_nil hname
  have hc : c ≠ '/' := fun heq => hslash (heq ▸ List.mem_cons_self)
  rw [hnames]
  cases names with
  | nil => exact ⟨c, cs, List.intercalate_singleton, hc⟩
  | cons next names =>
    rw [List.intercalate_cons_of_ne_nil (List.cons_ne_nil _ _)]
    exact ⟨c, _, rfl, hc⟩

theorem Written.leadingSlashes {path : PurePath} (h : path.Written) :
    PosixPath.leadingSlashes (String.ofList path.text) = path.slashes := by
  rw [h.text_eq]
  rcases h.start with hone | ⟨hzero, hne⟩
  · rw [hone]
    by_cases hne : path.names = []
    · rw [hne]
      decide
    · obtain ⟨c, cs, htext, hc⟩ := h.intercalate_head hne
      rw [htext]
      simp [PosixPath.leadingSlashes, Str.startswith, Ne.symm hc]
  · obtain ⟨c, cs, htext, hc⟩ := h.intercalate_head hne
    rw [hzero, htext]
    simp [PosixPath.leadingSlashes, Str.startswith, Ne.symm hc]

theorem Written.text_ne_nil {path : PurePath} (h : path.Written) : path.text ≠ [] := by
  rw [h.text_eq]
  rcases h.start with hone | ⟨-, hne⟩
  · rw [hone]
    simp
  · obtain ⟨c, cs, htext, -⟩ := h.intercalate_head hne
    rw [htext]
    simp

/-- A written path is read as it is. -/
theorem Written.parse_text {path : PurePath} (h : path.Written) : parse path.text = path := by
  have hslashes := h.leadingSlashes
  have hnames : (Str.splitOnChar '/' path.text).filter (fun name => name ≠ [] && name ≠ ['.']) =
      path.names := by
    have hself : path.names.filter (fun name => name ≠ [] && name ≠ ['.']) = path.names := by
      rw [List.filter_eq_self]
      intro name hname
      obtain ⟨hne, -, hdot⟩ := h.names name hname
      simp [hne, hdot]
    have hnone : ∀ n, (List.replicate n ([] : List Char)).filter
        (fun name => name ≠ [] && name ≠ ['.']) = [] := by
      intro n
      simp
    rw [h.text_eq, PosixPath.splitOnChar_replicate, List.filter_append, hnone, List.nil_append]
    by_cases hne : path.names = []
    · rw [hne]
      rfl
    · rw [Str.splitOnChar_intercalate hne fun name hname => (h.names name hname).2.1, hself]
  unfold parse
  rw [hslashes, hnames]

end PurePath

end SummitFlow
