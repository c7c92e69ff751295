import SummitFlow.Python.Lines
import SummitFlow.Tasks.ScratchMounts

/-!
# What a mount table says of a scratch entry

The kernel writes the blanks and the backslash of a file name as octal escapes, and every
other character as it is.  `_mount_table` splits the table at all characters that Python
takes for line ends and blanks, so a table is read back when its names have no blank but
space, tab and newline.  For such a table `mount_skip_reason` lets an entry go only when no
mount is at or below it and no mount of its filesystem shows it or a part of it.
-/

namespace SummitFlow.ScratchRetention

/-! ## The kernel's table -/

/-- `mangle` of the kernel: blanks and backslashes as octal escapes. -/
def escapeChar (c : Char) : List Char :=
  if c = ' ' then ['\\', '0', '4', '0']
  else if c = '\t' then ['\\', '0', '1', '1']
  else if c = '\n' then ['\\', '0', '1', '2']
  else if c = '\\' then ['\\', '1', '3', '4']
  else [c]

def kernelEscape (name : List Char) : List Char := name.flatMap escapeChar

/-- A mount: `tail` are the fields after the mount point. -/
structure Mount where
  id : Nat
  parent : Nat
  major : Nat
  minor : Nat
  root : PurePath
  point : PurePath
  tail : List (List Char)
  root_written : root.Written
  point_written : point.Written

def Mount.device (m : Mount) : List Char := Nat.toDigits 10 m.major ++ ':' :: Nat.toDigits 10 m.minor

/-- The fields up to the mount point. -/
def Mount.head (m : Mount) : List (List Char) :=
  [Nat.toDigits 10 m.id, Nat.toDigits 10 m.parent, m.device, kernelEscape m.root.text,
    kernelEscape m.point.text]

def Mount.line (m : Mount) : List Char :=
  m.head.flatMap (· ++ [' ']) ++ [' '].intercalate (m.tail.map kernelEscape)

/-- `/proc/self/mountinfo`. -/
def mountinfoText (mounts : List Mount) : String :=
  String.ofList (mounts.flatMap fun m => m.line ++ ['\n'])

/-- The names of a mount have no blank that the kernel leaves as it is, and the fields after
    them no such line end. -/
structure Legible (m : Mount) : Prop where
  names : ∀ c ∈ m.root.text ++ m.point.text, Str.isSpace c = true → c = ' ' ∨ c = '\t' ∨ c = '\n'
  tail : ∀ field ∈ m.tail, ∀ c ∈ field, Str.isLineBreak c = true → c = '\n'

/-- Names without blanks are legible. -/
theorem legible_of_all {m : Mount}
    (hnames : (m.root.text ++ m.point.text).all (fun c => !Str.isSpace c) = true)
    (htail : (m.tail.all fun field => field.all fun c => !Str.isLineBreak c) = true) :
    Legible m := by
  constructor
  · intro c hc hspace
    have hplain := List.all_eq_true.mp hnames c hc
    rw [hspace] at hplain
    cases hplain
  · intro field hfield c hc hbreak
    have hplain := List.all_eq_true.mp (List.all_eq_true.mp htail field hfield) c hc
    rw [hbreak] at hplain
    cases hplain

def Mount.row (m : Mount) : MountRow := ⟨m.device, m.root, m.point⟩

/-! ## Reading the table -/

theorem unescape_cons {c : Char} (h : c ≠ '\\') (cs : List Char) :
    unescape (c :: cs) = c :: unescape cs := by
  rw [unescape]
  intro a b d rest heq
  exact absurd heq h

theorem unescape_escapeChar (c : Char) (cs : List Char) :
    unescape (escapeChar c ++ cs) = c :: unescape cs := by
  unfold escapeChar
  split
  · next h => rw [h]; rfl
  split
  · next h => rw [h]; rfl
  split
  · next h => rw [h]; rfl
  split
  · next h => rw [h]; rfl
  · next h => exact unescape_cons h cs

/-- What the kernel escapes is read back. -/
theorem unescape_kernelEscape (name : List Char) : unescape (kernelEscape name) = name := by
  induction name with
  | nil => rfl
  | cons c name ih =>
    show unescape (escapeChar c ++ kernelEscape name) = c :: name
    rw [unescape_escapeChar, ih]

theorem mem_escapeChar {c d : Char} (h : d ∈ escapeChar c) :
    d = c ∧ c ≠ ' ' ∧ c ≠ '\t' ∧ c ≠ '\n' ∨ d ∈ ['\\', '0', '1', '2', '3', '4'] := by
  unfold escapeChar at h
  split at h
  · right
    simp only [List.mem_cons, List.not_mem_nil, or_false] at h ⊢
    tauto
  split at h
  · right
    simp only [List.mem_cons, List.not_mem_nil, or_false] at h ⊢
    tauto
  split at h
  · right
    simp only [List.mem_cons, List.not_mem_nil, or_false] at h ⊢
    tauto
  split at h
  · right
    simp only [List.mem_cons, List.not_mem_nil, or_false] at h ⊢
    tauto
  · next h₁ h₂ h₃ _ => exact .inl ⟨List.mem_singleton.mp h, h₁, h₂, h₃⟩

theorem kernelEscape_plain {name : List Char}
    (h : ∀ c ∈ name, Str.isSpace c = true → c = ' ' ∨ c = '\t' ∨ c = '\n') :
    ∀ c ∈ kernelEscape name, Str.isSpace c = false := by
  intro c hc
  obtain ⟨d, hd, hc⟩ := List.mem_flatMap.mp hc
  rcases mem_escapeChar hc with ⟨rfl, hspace, htab, hnewline⟩ | hdigit
  · cases hblank : Str.isSpace c with
    | false => rfl
    | true =>
      have := h c hd hblank
      simp [hspace, htab, hnewline] at this
  · have hall : ∀ c ∈ ['\\', '0', '1', '2', '3', '4'], Str.isSpace c = false := by
      simp [Str.isSpace]
    exact hall c hdigit

theorem isSpace_of_isLineBreak {c : Char} (h : Str.isLineBreak c = true) : Str.isSpace c = true := by
  unfold Str.isLineBreak at h
  unfold Str.isSpace
  simp only [Bool.or_eq_true, Bool.and_eq_true, decide_eq_true_eq, beq_iff_eq] at h ⊢
  omega

theorem digits_plain {n : Nat} : ∀ c ∈ Nat.toDigits 10 n, Str.isSpace c = false := by
  intro c hc
  have hdigit := Nat.isDigit_of_mem_toDigits (by decide) (by decide) hc
  have hzero : '0'.toNat = 48 := rfl
  have hnine : '9'.toNat = 57 := rfl
  rw [Char.isDigit_iff_toNat, hzero, hnine] at hdigit
  unfold Str.isSpace
  simp only [Bool.or_eq_false_iff, Bool.and_eq_false_iff, decide_eq_false_iff_not, beq_eq_false_iff_ne]
  omega

theorem device_plain (m : Mount) : ∀ c ∈ m.device, Str.isSpace c = false := by
  intro c hc
  unfold Mount.device at hc
  simp only [List.mem_append, List.mem_cons] at hc
  obtain hmajor | rfl | hminor := hc
  · exact digits_plain c hmajor
  · decide
  · exact digits_plain c hminor

theorem Legible.root_plain {m : Mount} (h : Legible m) :
    ∀ c ∈ kernelEscape m.root.text, Str.isSpace c = false :=
  kernelEscape_plain fun c hc => h.names c (List.mem_append_left _ hc)

theorem Legible.point_plain {m : Mount} (h : Legible m) :
    ∀ c ∈ kernelEscape m.point.text, Str.isSpace c = false :=
  kernelEscape_plain fun c hc => h.names c (List.mem_append_right _ hc)

theorem kernelEscape_ne_nil {name : List Char} (h : name ≠ []) : kernelEscape name ≠ [] := by
  intro hnil
  have hname := unescape_kernelEscape name
  rw [hnil] at hname
  exact h hname.symm

/-- No field up to the mount point is empty or has a blank in it. -/
theorem Legible.head_plain {m : Mount} (h : Legible m) :
    ∀ field ∈ m.head, field ≠ [] ∧ ∀ c ∈ field, Str.isSpace c = false := by
  unfold Mount.head
  simp only [List.mem_cons, List.not_mem_nil, or_false, forall_eq_or_imp, forall_eq]
  refine ⟨⟨Nat.toDigits_ne_nil, digits_plain⟩, ⟨Nat.toDigits_ne_nil, digits_plain⟩,
    ⟨?_, device_plain m⟩, ⟨?_, h.root_plain⟩, ⟨?_, h.point_plain⟩⟩
  · simp [Mount.device]
  · exact kernelEscape_ne_nil m.root_written.text_ne_nil
  · exact kernelEscape_ne_nil m.point_written.text_ne_nil

/-- The words of fields that are each followed by a blank. -/
theorem wordsAux_fields {fields : List (List Char)}
    (h : ∀ field ∈ fields, field ≠ [] ∧ ∀ c ∈ field, Str.isSpace c = false) (rest : List Char) :
    Str.wordsAux [] (fields.flatMap (· ++ [' ']) ++ rest) = fields ++ Str.wordsAux [] rest := by
  induction fields with
  | nil => rfl
  | cons field fields ih =>
    obtain ⟨hne, hplain⟩ := h field List.mem_cons_self
    have hshape : (field :: fields).flatMap (· ++ [' ']) ++ rest =
        field ++ ' ' :: (fields.flatMap (· ++ [' ']) ++ rest) := by simp
    rw [hshape, Str.wordsAux_word hplain _ _ (.inr hne),
      ih fun f hf => h f (List.mem_cons_of_mem _ hf)]
    rfl

/-- A line of a legible mount is read as its row. -/
theorem Legible.mountRow_line {m : Mount} (h : Legible m) : mountRow m.line = some m.row := by
  unfold mountRow Mount.line
  rw [wordsAux_fields h.head_plain]
  show some (⟨m.device, PurePath.parse (unescape (kernelEscape m.root.text)),
    PurePath.parse (unescape (kernelEscape m.point.text))⟩ : MountRow) = some m.row
  rw [unescape_kernelEscape, unescape_kernelEscape, m.root_written.parse_text,
    m.point_written.parse_text]
  rfl

theorem isLineBreak_eq_false {c : Char} (h : Str.isSpace c = false) : Str.isLineBreak c = false := by
  cases hbreak : Str.isLineBreak c with
  | false => rfl
  | true => rw [isSpace_of_isLineBreak hbreak] at h; cases h

theorem kernelEscape_oneLine {name : List Char}
    (h : ∀ c ∈ name, Str.isLineBreak c = true → c = '\n') :
    ∀ c ∈ kernelEscape name, Str.isLineBreak c = false := by
  intro c hc
  obtain ⟨d, hd, hc⟩ := List.mem_flatMap.mp hc
  rcases mem_escapeChar hc with ⟨rfl, -, -, hnewline⟩ | hdigit
  · cases hbreak : Str.isLineBreak c with
    | false => rfl
    | true => exact absurd (h c hd hbreak) hnewline
  · have hall : ∀ c ∈ ['\\', '0', '1', '2', '3', '4'], Str.isLineBreak c = false := by
      simp [Str.isLineBreak]
    exact hall c hdigit

/-- The line of a legible mount is one line. -/
theorem Legible.line_oneLine {m : Mount} (h : Legible m) :
    ∀ c ∈ m.line, Str.isLineBreak c = false := by
  have hblank : Str.isLineBreak ' ' = false := by decide
  intro c hc
  unfold Mount.line at hc
  rcases List.mem_append.mp hc with hhead | htail
  · obtain ⟨field, hfield, hc⟩ := List.mem_flatMap.mp hhead
    rcases List.mem_append.mp hc with hc | hc
    · exact isLineBreak_eq_false ((h.head_plain field hfield).2 c hc)
    · rwa [List.mem_singleton.mp hc]
  · rcases Str.mem_intercalate htail with ⟨field, hfield, hc⟩ | hc
    · obtain ⟨raw, hraw, rfl⟩ := List.mem_map.mp hfield
      exact kernelEscape_oneLine (h.tail raw hraw) c hc
    · rwa [hc]

theorem splitlinesAux_lines {mounts : List Mount} (h : ∀ m ∈ mounts, Legible m) :
    Str.splitlinesAux [] (mounts.flatMap fun m => m.line ++ ['\n']) = mounts.map Mount.line := by
  induction mounts with
  | nil => rfl
  | cons m mounts ih =>
    have hshape : ((m :: mounts).flatMap fun m => m.line ++ ['\n']) =
        m.line ++ '\n' :: mounts.flatMap fun m => m.line ++ ['\n'] := by simp
    rw [hshape, Str.splitlinesAux_line (h m List.mem_cons_self).line_oneLine,
      ih fun n hn => h n (List.mem_cons_of_mem _ hn)]
    rfl

theorem return_not_mem {mounts : List Mount} (h : ∀ m ∈ mounts, Legible m) :
    '\r' ∉ mounts.flatMap fun m => m.line ++ ['\n'] := by
  intro hmem
  obtain ⟨m, hm, hc⟩ := List.mem_flatMap.mp hmem
  rcases List.mem_append.mp hc with hc | hc
  · have := (h m hm).line_oneLine _ hc
    simp [Str.isLineBreak] at this
  · exact absurd (List.mem_singleton.mp hc) (by decide)

/-- A table of legible mounts is read as it is. -/
theorem mountTable_mountinfoText {mounts : List Mount} (h : ∀ m ∈ mounts, Legible m) :
    mountTable (some (mountinfoText mounts)) = some (mounts.map Mount.row) := by
  unfold mountTable mountinfoText
  rw [Option.map_some, String.toList_ofList, Str.newlines_of_not_mem (return_not_mem h),
    splitlinesAux_lines h, List.filterMap_map]
  have hrows : ∀ m ∈ mounts, (mountRow ∘ Mount.line) m = some m.row :=
    fun m hm => (h m hm).mountRow_line
  rw [List.filterMap_congr hrows, ← List.filterMap_eq_map]
  rfl

/-! ## The mount that holds a path -/

section

variable {α : Type} {point : α → PurePath} {mounts : List α} {path : PurePath} {mount other : α}

/-- The deepest mount at or above the path, and the last of equally deep ones. -/
def Holder (point : α → PurePath) (mounts : List α) (path : PurePath) (mount : α) : Prop :=
  ∃ before after, mounts = before ++ mount :: after ∧ path.within (point mount) = true ∧
    (∀ other ∈ before, path.within (point other) = true →
      (point other).partCount ≤ (point mount).partCount) ∧
    ∀ other ∈ after, path.within (point other) = true →
      (point other).partCount < (point mount).partCount

theorem Holder.deepest (h : Holder point mounts path mount) :
    ∀ other ∈ mounts, path.within (point other) = true →
      (point other).partCount ≤ (point mount).partCount := by
  obtain ⟨before, after, rfl, -, hbefore, hafter⟩ := h
  intro other hother hholds
  rcases List.mem_append.mp hother with hother | hother
  · exact hbefore other hother hholds
  · rcases List.mem_cons.mp hother with rfl | hother
    · exact Nat.le_refl _
    · exact Nat.le_of_lt (hafter other hother hholds)

/-- A mount that does not hold the path, or a less deep one, changes nothing. -/
theorem Holder.skip (h : Holder point mounts path mount)
    (hother : path.within (point other) = true →
      (point other).partCount < (point mount).partCount) :
    Holder point (mounts ++ [other]) path mount := by
  obtain ⟨before, after, rfl, hholds, hbefore, hafter⟩ := h
  refine ⟨before, after ++ [other], by simp, hholds, hbefore, ?_⟩
  intro next hnext habove
  rcases List.mem_append.mp hnext with hnext | hnext
  · exact hafter next hnext habove
  · rw [List.mem_singleton.mp hnext] at habove ⊢
    exact hother habove

/-- A mount that holds the path as deep as the others is the last of them. -/
theorem Holder.last (hholds : path.within (point mount) = true)
    (hdeep : ∀ other ∈ mounts, path.within (point other) = true →
      (point other).partCount ≤ (point mount).partCount) :
    Holder point (mounts ++ [mount]) path mount :=
  ⟨mounts, [], rfl, hholds, hdeep, (fun _ hother => nomatch hother)⟩

theorem Holder.mem (h : Holder point mounts path mount) : mount ∈ mounts := by
  obtain ⟨before, after, rfl, -⟩ := h
  simp

theorem Holder.above (h : Holder point mounts path mount) :
    path.within (point mount) = true := by
  obtain ⟨_, _, -, hholds, -⟩ := h
  exact hholds

/-- One mount holds a path. -/
theorem Holder.unique (h : Holder point mounts path mount) (h' : Holder point mounts path other) :
    mount = other := by
  have hle := h.deepest other h'.mem h'.above
  have hge := h'.deepest mount h.mem h.above
  obtain ⟨before, after, hsplit, habove, -, hafter⟩ := h
  obtain ⟨before', after', hsplit', habove', -, hafter'⟩ := h'
  -- neither comes after the other, since a later one would be less deep
  rw [hsplit, List.append_eq_append_iff] at hsplit'
  obtain ⟨between, rfl, hrest⟩ | ⟨between, rfl, hrest⟩ := hsplit'
  · cases between with
    | nil => exact (List.cons.inj hrest).1
    | cons next between =>
      obtain ⟨-, hlast⟩ := List.cons.inj hrest
      have := hafter other (by rw [hlast]; simp) habove'
      omega
  · cases between with
    | nil => exact (List.cons.inj hrest).1.symm
    | cons next between =>
      obtain ⟨-, hlast⟩ := List.cons.inj hrest
      have := hafter' mount (by rw [hlast]; simp) habove
      omega

theorem holder_map {β : Type} {f : β → α} {all : List β} :
    Holder point (all.map f) path mount ↔
      ∃ origin, f origin = mount ∧ Holder (point ∘ f) all path origin := by
  constructor
  · rintro ⟨before, after, hsplit, hholds, hbefore, hafter⟩
    obtain ⟨first, rest, rfl, rfl, hrest⟩ := List.map_eq_append_iff.mp hsplit
    obtain ⟨origin, last, rfl, rfl, rfl⟩ := List.map_eq_cons_iff.mp hrest
    exact ⟨origin, rfl, first, last, rfl, hholds, List.forall_mem_map.mp hbefore,
      List.forall_mem_map.mp hafter⟩
  · rintro ⟨origin, rfl, before, after, rfl, hholds, hbefore, hafter⟩
    exact ⟨before.map f, after.map f, by simp, hholds, List.forall_mem_map.mpr hbefore,
      List.forall_mem_map.mpr hafter⟩

end

/-- What the loop has found of the rows so far. -/
def Found (path : PurePath) (rows : List MountRow) : Option MountRow → Prop
  | none => ∀ row ∈ rows, path.within row.point = false
  | some row => Holder MountRow.point rows path row

theorem found_deeper {path : PurePath} {rows : List MountRow} {holder : Option MountRow}
    (h : Found path rows holder) (row : MountRow) :
    Found path (rows ++ [row]) (deeper path holder row) := by
  unfold deeper
  cases hholds : path.within row.point with
  | false =>
    -- the loop passes over a mount that does not hold the path
    rw [Bool.false_and, if_neg (by decide)]
    cases holder with
    | none =>
      intro mount hmount
      rcases List.mem_append.mp hmount with hmount | hmount
      · exact h mount hmount
      · rwa [List.mem_singleton.mp hmount]
    | some held => exact Holder.skip h fun habove => by rw [hholds] at habove; cases habove
  | true =>
    rw [Bool.true_and]
    cases holder with
    | none =>
      show Holder MountRow.point (rows ++ [row]) path row
      apply Holder.last hholds
      intro other hother habove
      rw [h other hother] at habove
      cases habove
    | some held =>
      simp only [Option.all_some, decide_eq_true_eq]
      split
      · next hle =>
        apply Holder.last hholds
        intro other hother habove
        exact Nat.le_trans (Holder.deepest h other hother habove) hle
      · next hlt => exact Holder.skip h fun _ => by omega

/-- The loop finds the mount that holds the path. -/
theorem found_foldl (path : PurePath) (rows : List MountRow) :
    Found path rows (rows.foldl (deeper path) none) := by
  suffices hrun : ∀ (after before : List MountRow) (holder : Option MountRow),
      Found path before holder → Found path (before ++ after) (after.foldl (deeper path) holder) by
    have hstart : Found path [] none := fun _ hrow => nomatch hrow
    exact hrun rows [] none hstart
  intro after
  induction after with
  | nil =>
    intro before holder h
    rwa [List.append_nil]
  | cons row after ih =>
    intro before holder h
    have hstep := ih (before ++ [row]) _ (found_deeper h row)
    rwa [List.append_assoc] at hstep

/-! ## Letting an entry go -/

theorem device_inj {m n : Mount} :
    m.device = n.device ↔ m.major = n.major ∧ m.minor = n.minor := by
  have hcolon : ∀ k, ':' ∉ Nat.toDigits 10 k := by
    intro k hmem
    have hdigit := Nat.isDigit_of_mem_toDigits (by decide) (by decide) hmem
    exact absurd hdigit (by decide)
  have hsplit : ∀ l : Mount, Str.splitOnChar ':' l.device =
      [Nat.toDigits 10 l.major, Nat.toDigits 10 l.minor] := by
    intro l
    have hshape : l.device =
        [':'].intercalate [Nat.toDigits 10 l.major, Nat.toDigits 10 l.minor] := by
      rw [List.intercalate_cons_of_ne_nil (List.cons_ne_nil _ _), List.intercalate_singleton]
      simp [Mount.device]
    rw [hshape, Str.splitOnChar_intercalate (List.cons_ne_nil _ _)]
    intro piece hpiece
    simp only [List.mem_cons, List.not_mem_nil, or_false] at hpiece
    obtain rfl | rfl := hpiece
    · exact hcolon l.major
    · exact hcolon l.minor
  constructor
  · intro h
    have hpieces := hsplit m
    rw [h, hsplit n, List.cons.injEq, List.cons.injEq] at hpieces
    have hvalue : ∀ {a b : Nat}, Nat.toDigits 10 a = Nat.toDigits 10 b → a = b := by
      intro a b hab
      rw [← Nat.ofDigitChars_ten_toDigits (n := a), hab, Nat.ofDigitChars_ten_toDigits]
    exact ⟨(hvalue hpieces.1).symm, (hvalue hpieces.2.1).symm⟩
  · rintro ⟨hmajor, hminor⟩
    unfold Mount.device
    rw [hmajor, hminor]

/-- No mount is at or below the path, and no mount of its filesystem shows it or a part of it. -/
structure Clear (mounts : List Mount) (path : PurePath) : Prop where
  outside : ∀ m ∈ mounts, m.point.within path = false
  unshown : ∃ holder, Holder Mount.point mounts path holder ∧ ∀ other ∈ mounts,
    other.major = holder.major → other.minor = holder.minor →
      other.root.within (path.moved holder.point holder.root) = false

/-- What `mount_skip_reason` makes of the rows it has read. -/
theorem mountSkipReason_eq_none_iff {realpath : PurePath → PurePath} {mountinfo : Option String}
    {rows : List MountRow} (htable : mountTable mountinfo = some rows) (path : PurePath) :
    mountSkipReason realpath mountinfo path = none ↔
      (∀ row ∈ rows, row.point.within (realpath path) = false) ∧
      ∃ holder, Holder MountRow.point rows (realpath path) holder ∧ ∀ other ∈ rows,
        other.device = holder.device →
          other.root.within ((realpath path).moved holder.point holder.root) = false := by
  have hfound := found_foldl (realpath path) rows
  unfold mountSkipReason
  rw [htable]
  generalize realpath path = target at *
  dsimp only
  generalize rows.foldl (deeper target) none = held at *
  split
  · next inside hinside =>
    have hin := List.find?_some hinside
    have hmem := List.mem_of_find?_eq_some hinside
    constructor
    · intro h
      cases h
    · intro h
      rw [h.1 inside hmem] at hin
      cases hin
  · next hinside =>
    have houtside : ∀ row ∈ rows, row.point.within target = false := by
      simpa using List.find?_eq_none.mp hinside
    cases held with
    | none =>
      constructor
      · intro h
        cases h
      · intro ⟨_, holder, hholder, _⟩
        have habove := hholder.above
        rw [hfound holder hholder.mem] at habove
        cases habove
    | some held =>
      dsimp only
      split
      · next shown hshown =>
        have hshows := List.find?_some hshown
        have hmem := List.mem_of_find?_eq_some hshown
        rw [Bool.and_eq_true, decide_eq_true_eq] at hshows
        constructor
        · intro h
          cases h
        · intro ⟨_, holder, hholder, hunshown⟩
          rw [hholder.unique hfound] at hunshown
          rw [hunshown shown hmem hshows.1] at hshows
          cases hshows.2
      · next hshown =>
        constructor
        · intro _
          have hunshown := List.find?_eq_none.mp hshown
          refine ⟨houtside, held, hfound, ?_⟩
          intro other hother hdevice
          have hnot := hunshown other hother
          simpa [hdevice] using hnot
        · intro _
          rfl

/-- For a table of legible mounts `mount_skip_reason` lets an entry go exactly when its real
    path is clear of them. -/
theorem mountSkipReason_clear {mounts : List Mount} (hlegible : ∀ m ∈ mounts, Legible m)
    {realpath : PurePath → PurePath} {path : PurePath} (hreal : realpath path = path) :
    mountSkipReason realpath (some (mountinfoText mounts)) path = none ↔ Clear mounts path := by
  rw [mountSkipReason_eq_none_iff (mountTable_mountinfoText hlegible), hreal]
  constructor
  · intro ⟨houtside, row, hrow, hunshown⟩
    obtain ⟨holder, rfl, hholder⟩ := holder_map.mp hrow
    refine ⟨List.forall_mem_map.mp houtside, holder, hholder, ?_⟩
    intro other hother hmajor hminor
    exact hunshown other.row (List.mem_map_of_mem hother) (device_inj.mpr ⟨hmajor, hminor⟩)
  · intro ⟨houtside, holder, hholder, hunshown⟩
    refine ⟨List.forall_mem_map.mpr houtside, holder.row, holder_map.mpr ⟨holder, rfl, hholder⟩, ?_⟩
    rw [List.forall_mem_map]
    intro other hother hdevice
    obtain ⟨hmajor, hminor⟩ := device_inj.mp hdevice
    exact hunshown other hother hmajor hminor

def diskMount : Mount where
  id := 22
  parent := 1
  major := 8
  minor := 1
  root := ⟨1, []⟩
  point := ⟨1, []⟩
  tail := ["rw,relatime".toList, "-".toList, "ext4".toList, "/dev/sda1".toList, "rw".toList]
  root_written := ⟨(fun _ hname => nomatch hname), .inl rfl⟩
  point_written := ⟨(fun _ hname => nomatch hname), .inl rfl⟩

/-- A mount of its own filesystem at an entry of the scratch root. -/
def entryMount (entry : List Char) (h : PurePath.IsName entry) : Mount where
  id := 61
  parent := 22
  major := 0
  minor := 45
  root := ⟨1, []⟩
  point := ⟨1, ["scratch".toList, entry]⟩
  tail := ["rw".toList, "-".toList, "tmpfs".toList, "tmpfs".toList, "rw".toList]
  root_written := ⟨(fun _ hname => nomatch hname), .inl rfl⟩
  point_written := by
    have hscratch : PurePath.IsName "scratch".toList := by unfold PurePath.IsName; decide
    constructor
    · intro name hname
      obtain rfl | hname := List.mem_cons.mp hname
      · exact hscratch
      · rw [List.mem_singleton.mp hname]
        exact h
    · exact .inl rfl

theorem isName_job : PurePath.IsName "job".toList := by unfold PurePath.IsName; decide

theorem isName_broken : PurePath.IsName "job\u00a0one".toList := by unfold PurePath.IsName; decide

theorem mountSkipReason_clear_entry :
    (∀ m ∈ [diskMount, entryMount "job".toList isName_job], Legible m) ∧
    (mountSkipReason id (some (mountinfoText
      [diskMount, entryMount "job".toList isName_job]))
      ⟨1, ["scratch".toList, "old".toList]⟩ = none ↔
      Clear [diskMount, entryMount "job".toList isName_job]
        ⟨1, ["scratch".toList, "old".toList]⟩) := by
  have hlegible : ∀ m ∈ [diskMount, entryMount "job".toList isName_job],
      Legible m := by
    intro m hm
    obtain rfl | hm := List.mem_cons.mp hm
    · exact legible_of_all (by decide +kernel) (by decide +kernel)
    · rw [List.mem_singleton.mp hm]
      exact legible_of_all (by decide +kernel) (by decide +kernel)
  exact ⟨hlegible, mountSkipReason_clear hlegible rfl⟩

/-- A no-break space in a mount point ends the field, so the mount at the entry is read as one
    beside it. -/
theorem mount_at_entry_overlooked :
    ¬ ∀ (mounts : List Mount) (realpath : PurePath → PurePath) (path : PurePath),
      realpath path = path → mountSkipReason realpath (some (mountinfoText mounts)) path = none →
        Clear mounts path := by
  intro h
  have hclear := h [diskMount, entryMount "job\u00a0one".toList isName_broken] id
    ⟨1, ["scratch".toList, "job\u00a0one".toList]⟩ rfl (by decide +kernel)
  have hat := hclear.outside (entryMount "job\u00a0one".toList isName_broken) (by simp)
  exact absurd hat (by decide +kernel)

end SummitFlow.ScratchRetention
