import SummitFlow.Python.PosixPath

/-!
# Absolute paths as stacks of components

`normpath` keeps the components of an absolute path on a stack.  Joining a relative path
goes on from the stack of the directory, and normalizing keeps the stack, so what a
sequence of relative moves does is read off the stacks alone.
-/

namespace SummitFlow.PosixPath

/-- A component `normpath` keeps as it is. -/
structure Proper (comp : List Char) : Prop where
  ne_nil : comp ≠ []
  ne_dot : comp ≠ ['.']
  ne_dots : comp ≠ ['.', '.']
  no_slash : '/' ∉ comp

/-- The pieces of a path between its slashes. -/
def pieces (path : String) : List (List Char) := Str.splitOnChar '/' path.toList

/-- The components an absolute path keeps, last first. -/
def stack (path : String) : List (List Char) := (pieces path).foldl (normStep true) []

/-- The path with one leading slash and these components. -/
def ofStack (st : List (List Char)) : String := String.ofList ('/' :: ['/'].intercalate st.reverse)

@[simp] theorem normStep_nil (rooted : Bool) (st : List (List Char)) : normStep rooted st [] = st := by
  simp [normStep]

theorem normStep_of_proper {comp : List Char} (h : Proper comp) (rooted : Bool)
    (st : List (List Char)) : normStep rooted st comp = comp :: st := by
  simp [normStep, h.ne_nil, h.ne_dot, h.ne_dots]

theorem normStep_proper {st : List (List Char)} (hst : ∀ c ∈ st, Proper c) {comp : List Char}
    (hcomp : '/' ∉ comp) : ∀ c ∈ normStep true st comp, Proper c := by
  unfold normStep
  split
  · exact hst
  · next hkeep =>
    rw [not_or] at hkeep
    split
    · next hdots =>
      intro c hc
      rcases List.mem_cons.mp hc with rfl | hc
      · exact ⟨hkeep.1, hkeep.2, hdots, hcomp⟩
      · exact hst c hc
    · cases st with
      | nil => simp
      | cons last rest =>
        have hlast := (hst last List.mem_cons_self).ne_dots
        simp only [hlast, if_false]
        exact fun c hc => hst c (List.mem_cons_of_mem _ hc)

theorem foldl_normStep_proper {st : List (List Char)} (hst : ∀ c ∈ st, Proper c)
    {comps : List (List Char)} (hcomps : ∀ c ∈ comps, '/' ∉ c) :
    ∀ c ∈ comps.foldl (normStep true) st, Proper c := by
  induction comps generalizing st with
  | nil => exact hst
  | cons comp comps ih =>
    exact ih (normStep_proper hst (hcomps comp List.mem_cons_self))
      (fun c hc => hcomps c (List.mem_cons_of_mem _ hc))

/-- Proper components are pushed one after the other. -/
theorem foldl_normStep_of_proper {comps : List (List Char)} (h : ∀ c ∈ comps, Proper c)
    (st : List (List Char)) : comps.foldl (normStep true) st = comps.reverse ++ st := by
  induction comps generalizing st with
  | nil => rfl
  | cons comp comps ih =>
    rw [List.foldl_cons, normStep_of_proper (h comp List.mem_cons_self),
      ih (fun c hc => h c (List.mem_cons_of_mem _ hc)), List.reverse_cons, List.append_assoc]
    rfl

theorem stack_proper (path : String) : ∀ c ∈ stack path, Proper c :=
  foldl_normStep_proper (by simp) (fun _ => Str.not_mem_of_mem_splitOnChar)

theorem isAbsolute_iff {path : String} :
    isAbsolute path = true ↔ ∃ cs, path.toList = '/' :: cs := by
  have hslash : "/".toList = ['/'] := rfl
  unfold isAbsolute Str.startswith
  rw [hslash]
  cases hpath : path.toList with
  | nil => simp
  | cons c cs =>
    have hhead : ('/' = c) ↔ c = '/' := eq_comm
    simp [hhead]

/-- The slashes that start an absolute path do not matter to its stack. -/
theorem foldl_replicate_nil (n : Nat) (st : List (List Char)) :
    (List.replicate n []).foldl (normStep true) st = st := by
  induction n with
  | zero => rfl
  | succ n ih => rw [List.replicate_succ, List.foldl_cons, normStep_nil, ih]

theorem splitOnChar_replicate (sep : Char) (n : Nat) (cs : List Char) :
    Str.splitOnChar sep (List.replicate n sep ++ cs) =
      List.replicate n [] ++ Str.splitOnChar sep cs := by
  induction n with
  | zero => rfl
  | succ n ih => rw [List.replicate_succ, List.cons_append, Str.splitOnChar_cons_self, ih]; rfl

/-- Slashes and then proper components: these are the stack. -/
theorem foldl_slashes_intercalate {st : List (List Char)} (hst : ∀ c ∈ st, Proper c) (n : Nat) :
    (Str.splitOnChar '/' (List.replicate n '/' ++ ['/'].intercalate st.reverse)).foldl
      (normStep true) [] = st := by
  rw [splitOnChar_replicate, List.foldl_append, foldl_replicate_nil]
  by_cases hnil : st = []
  · subst hnil
    rfl
  · have hsplit : Str.splitOnChar '/' (['/'].intercalate st.reverse) = st.reverse :=
      Str.splitOnChar_intercalate (by simpa using hnil)
        (fun c hc => (hst c (List.mem_reverse.mp hc)).no_slash)
    rw [hsplit, foldl_normStep_of_proper (fun c hc => hst c (List.mem_reverse.mp hc))]
    simp

theorem leadingSlashes_pos {path : String} (h : isAbsolute path = true) :
    leadingSlashes path ≠ 0 := by
  unfold leadingSlashes
  rw [show Str.startswith path "/" = true from h]
  split <;> simp

theorem toList_normpath {path : String} (h : isAbsolute path = true) :
    (normpath path).toList =
      List.replicate (leadingSlashes path) '/' ++ ['/'].intercalate (stack path).reverse := by
  have hpos := leadingSlashes_pos h
  have hrooted : (leadingSlashes path != 0) = true := by simpa using hpos
  unfold normpath
  simp only [hrooted]
  have hne : (List.replicate (leadingSlashes path) '/' ++
      ['/'].intercalate ((Str.splitOnChar '/' path.toList).foldl (normStep true) []).reverse).isEmpty
        = false := by
    obtain ⟨n, hn⟩ := Nat.exists_eq_succ_of_ne_zero hpos
    rw [hn, List.replicate_succ]
    rfl
  rw [hne]
  simp [stack, pieces]

theorem isAbsolute_normpath {path : String} (h : isAbsolute path = true) :
    isAbsolute (normpath path) = true := by
  obtain ⟨n, hn⟩ := Nat.exists_eq_succ_of_ne_zero (leadingSlashes_pos h)
  rw [isAbsolute_iff, toList_normpath h, hn, List.replicate_succ]
  exact ⟨_, rfl⟩

/-- Normalizing keeps the stack. -/
theorem stack_normpath {path : String} (h : isAbsolute path = true) :
    stack (normpath path) = stack path := by
  unfold stack pieces
  rw [toList_normpath h]
  exact foldl_slashes_intercalate (stack_proper path) _

theorem mem_of_mem_foldl_normStep {comps st : List (List Char)} {comp : List Char}
    (h : comp ∈ comps.foldl (normStep true) st) : comp ∈ st ∨ comp ∈ comps := by
  induction comps generalizing st with
  | nil => exact .inl h
  | cons c comps ih =>
    rcases ih h with hmem | hmem
    · unfold normStep at hmem
      split at hmem
      · exact .inl hmem
      · split at hmem
        · rcases List.mem_cons.mp hmem with rfl | hmem
          · exact .inr List.mem_cons_self
          · exact .inl hmem
        · split at hmem
          · simp at hmem
          · split at hmem
            · rcases List.mem_cons.mp hmem with rfl | hmem
              · exact .inr List.mem_cons_self
              · exact .inl hmem
            · exact .inl (List.mem_cons_of_mem _ hmem)
    · exact .inr (List.mem_cons_of_mem _ hmem)

/-- The components of the stack stand between slashes of the path. -/
theorem mem_pieces_of_mem_stack {path : String} {comp : List Char} (h : comp ∈ stack path) :
    comp ∈ pieces path := by
  rcases mem_of_mem_foldl_normStep h with hmem | hmem
  · cases hmem
  · exact hmem

/-! ## Joins -/

theorem join_of_isAbsolute {path : String} (h : isAbsolute path = true) (root : String) :
    join root path = path := by
  simp [join, h]

theorem toList_join {root path : String} (hroot : root ≠ "") (h : isAbsolute path = false) :
    (join root path).toList = root.toList ++ path.toList ∧ Str.endswith root "/" = true ∨
      (join root path).toList = root.toList ++ '/' :: path.toList := by
  unfold join
  rw [h]
  simp only [Bool.false_eq_true, if_false, hroot, false_or]
  split
  · next hends => exact .inl ⟨by simp, hends⟩
  · exact .inr (by simp)

theorem ne_empty_of_isAbsolute {path : String} (h : isAbsolute path = true) : path ≠ "" := by
  rintro rfl
  cases h

theorem isAbsolute_join {root : String} (hroot : isAbsolute root = true) (path : String) :
    isAbsolute (join root path) = true := by
  cases h : isAbsolute path with
  | true => rw [join_of_isAbsolute h, h]
  | false =>
    obtain ⟨cs, hcs⟩ := isAbsolute_iff.mp hroot
    rw [isAbsolute_iff]
    rcases toList_join (ne_empty_of_isAbsolute hroot) h with ⟨heq, -⟩ | heq
    · exact ⟨cs ++ path.toList, by rw [heq, hcs]; rfl⟩
    · exact ⟨cs ++ '/' :: path.toList, by rw [heq, hcs]; rfl⟩

/-- A relative path moves on from the directory it is joined to. -/
theorem stack_join {root path : String} (hroot : isAbsolute root = true)
    (h : isAbsolute path = false) :
    stack (join root path) = (pieces path).foldl (normStep true) (stack root) := by
  unfold stack pieces
  rcases toList_join (ne_empty_of_isAbsolute hroot) h with ⟨heq, hends⟩ | heq
  · -- the directory ends in a slash, and the empty piece after it vanishes
    obtain ⟨init, hinit⟩ : ∃ init, root.toList = init ++ ['/'] := by
      have hsuffix : ['/'] <:+ root.toList := by
        simpa [Str.endswith, List.isSuffixOf_iff_suffix] using hends
      obtain ⟨init, hinit⟩ := hsuffix
      exact ⟨init, hinit.symm⟩
    rw [heq, hinit, List.append_assoc, List.singleton_append, Str.splitOnChar_append,
      Str.splitOnChar_append, List.foldl_append, List.foldl_append]
    rfl
  · rw [heq, Str.splitOnChar_append, List.foldl_append]

/-! ## Canonical paths -/

@[simp] theorem toList_ofStack (st : List (List Char)) :
    (ofStack st).toList = '/' :: ['/'].intercalate st.reverse := by
  simp [ofStack]

theorem isAbsolute_ofStack (st : List (List Char)) : isAbsolute (ofStack st) = true :=
  isAbsolute_iff.mpr ⟨_, toList_ofStack st⟩

theorem stack_ofStack {st : List (List Char)} (hst : ∀ c ∈ st, Proper c) :
    stack (ofStack st) = st := by
  unfold stack pieces
  rw [toList_ofStack]
  exact foldl_slashes_intercalate hst 1

/-- The text of a path with components does not start with two slashes. -/
theorem toList_ofStack_cons {st : List (List Char)} (hst : ∀ c ∈ st, Proper c) (hne : st ≠ []) :
    ∃ c cs, c ≠ '/' ∧ (ofStack st).toList = '/' :: c :: cs := by
  rw [toList_ofStack]
  cases hrev : st.reverse with
  | nil => exact absurd (List.reverse_eq_nil_iff.mp hrev) hne
  | cons comp comps =>
    have hcomp : Proper comp := hst comp (List.mem_reverse.mp (hrev ▸ List.mem_cons_self))
    cases hchars : comp with
    | nil => exact absurd hchars hcomp.ne_nil
    | cons c cs =>
      have hslash := hcomp.no_slash
      rw [hchars, List.mem_cons, not_or] at hslash
      have hhead : ∃ rest, ['/'].intercalate ((c :: cs) :: comps) = c :: rest := by
        cases comps with
        | nil => exact ⟨cs, by simp [List.intercalate]⟩
        | cons next comps => exact ⟨_, by simp [List.intercalate, List.intersperse]; rfl⟩
      obtain ⟨rest, hrest⟩ := hhead
      exact ⟨c, rest, fun h => hslash.1 h.symm, by rw [hrest]⟩

theorem leadingSlashes_of_single {path : String} {c : Char} {cs : List Char} (hc : c ≠ '/')
    (h : path.toList = '/' :: c :: cs) : leadingSlashes path = 1 := by
  simp [leadingSlashes, Str.startswith, h, Ne.symm hc]

theorem normpath_of_single {path : String} {c : Char} {cs : List Char} (hc : c ≠ '/')
    (h : path.toList = '/' :: c :: cs) : normpath path = ofStack (stack path) := by
  have habs : isAbsolute path = true := isAbsolute_iff.mpr ⟨_, h⟩
  rw [← String.toList_inj, toList_normpath habs, leadingSlashes_of_single hc h, toList_ofStack]
  rfl

theorem normpath_ofStack {st : List (List Char)} (hst : ∀ c ∈ st, Proper c) (hne : st ≠ []) :
    normpath (ofStack st) = ofStack st := by
  obtain ⟨c, cs, hc, hcs⟩ := toList_ofStack_cons hst hne
  rw [normpath_of_single hc hcs, stack_ofStack hst]

/-- A relative move from a path with components. -/
theorem normpath_join_ofStack {st : List (List Char)} (hst : ∀ c ∈ st, Proper c) (hne : st ≠ [])
    {path : String} (h : isAbsolute path = false) :
    normpath (join (ofStack st) path) = ofStack ((pieces path).foldl (normStep true) st) := by
  obtain ⟨c, cs, hc, hcs⟩ := toList_ofStack_cons hst hne
  have habs := isAbsolute_ofStack st
  have hhead : ∃ rest, (join (ofStack st) path).toList = '/' :: c :: rest := by
    rcases toList_join (ne_empty_of_isAbsolute habs) h with ⟨heq, -⟩ | heq
    · exact ⟨cs ++ path.toList, by rw [heq, hcs]; rfl⟩
    · exact ⟨cs ++ '/' :: path.toList, by rw [heq, hcs]; rfl⟩
  obtain ⟨rest, hrest⟩ := hhead
  rw [normpath_of_single hc hrest, stack_join habs h, stack_ofStack hst]

theorem expanduser_of_isAbsolute (users : Users) {path : String} (h : isAbsolute path = true) :
    expanduser users path = path := by
  obtain ⟨cs, hcs⟩ := isAbsolute_iff.mp h
  simp [expanduser, hcs]

end SummitFlow.PosixPath
