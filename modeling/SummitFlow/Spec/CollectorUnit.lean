import SummitFlow.Python.Lines
import SummitFlow.Cli.HostMonitorDeploy
import SummitFlow.Python.PathText

/-!
# The unit of a release

A unit that the deployment writes runs from its release directory and from no other.
-/

namespace SummitFlow.HostMonitorDeploy

/-! ## Lines -/

/-- A text on one line. -/
def OneLine (text : String) : Prop := ∀ c ∈ text.toList, Str.isLineBreak c = false

theorem OneLine.append {s t : String} (hs : OneLine s) (ht : OneLine t) : OneLine (s ++ t) := by
  intro c hc
  rw [String.toList_append, List.mem_append] at hc
  exact hc.elim (hs c) (ht c)

theorem oneLine_of_noBreak {text : String} (h : text.toList.all (!Str.isLineBreak ·) = true) :
    OneLine text := by
  intro c hc
  simpa using List.all_eq_true.mp h c hc

/-- Lines that are ended each. -/
theorem splitlines_join {lines : List String} (h : ∀ line ∈ lines, OneLine line) :
    Str.splitlines (String.join (lines.map (· ++ "\n"))) = lines := by
  have hchars : Str.splitlinesAux [] (String.join (lines.map (· ++ "\n"))).toList =
      lines.map String.toList := by
    induction lines with
    | nil => rfl
    | cons line lines ih =>
      have htext : (String.join ((line :: lines).map (· ++ "\n"))).toList =
          line.toList ++ '\n' :: (String.join (lines.map (· ++ "\n"))).toList := by
        simp
      rw [htext, Str.splitlinesAux_line (h line List.mem_cons_self),
        ih fun other hother => h other (List.mem_cons_of_mem _ hother)]
      rfl
  unfold Str.splitlines
  rw [hchars, List.map_map]
  have hid : String.ofList ∘ String.toList = id := by
    funext s
    simp
  rw [hid, List.map_id]

/-! ## Release directories -/

/-- A text that is a component of a path, and one word. -/
structure Word (text : String) : Prop where
  nonempty : text ≠ ""
  plain : ∀ c ∈ text.toList, c ≠ '/' ∧ c ≠ '.' ∧ Str.isSpace c = false

theorem isSpace_of_isLineBreak {c : Char} (h : Str.isLineBreak c = true) : Str.isSpace c = true := by
  simp only [Str.isLineBreak, Str.isSpace, Bool.or_eq_true, Bool.and_eq_true, decide_eq_true_eq,
    beq_iff_eq] at h ⊢
  omega

theorem oneLine_of_noSpace {text : String} (h : ∀ c ∈ text.toList, Str.isSpace c = false) :
    OneLine text := by
  intro c hc
  cases hbreak : Str.isLineBreak c with
  | false => rfl
  | true =>
    have hspace := h c hc
    rw [isSpace_of_isLineBreak hbreak] at hspace
    cases hspace

theorem validTransaction_word {machine : Machine} {transaction : String}
    (h : validTransaction machine transaction = true) : Word transaction := by
  unfold validTransaction at h
  simp only [Bool.and_eq_true, decide_eq_true_eq, List.all_eq_true] at h
  exact ⟨h.1.1, fun c hc => machine.plain c (h.1.2 c hc)⟩

/-- The components above the release directories, last first. -/
def releaseStack : List (List Char) :=
  ["releases".toList, "summitflow-host-monitor".toList, "lib".toList, "local".toList, "usr".toList]

theorem releasePath_eq (name : String) :
    releasePath name = PosixPath.ofStack (name.toList :: releaseStack) := by
  rw [← String.toList_inj, PosixPath.toList_ofStack, List.reverse_cons,
    Str.intercalate_append (by decide) (by simp), List.intercalate_singleton]
  unfold releasePath
  rw [String.toList_append]
  have hbase : "/usr/local/lib/summitflow-host-monitor/releases/".toList =
      '/' :: (['/'].intercalate releaseStack.reverse ++ ['/']) := by decide
  rw [hbase]
  simp

theorem pathStr_ofStack {st : List (List Char)} (hst : ∀ c ∈ st, PosixPath.Proper c)
    (hne : st ≠ []) : PosixPath.pathStr (PosixPath.ofStack st) = PosixPath.ofStack st := by
  obtain ⟨c, cs, hc, hcs⟩ := PosixPath.toList_ofStack_cons hst hne
  have hpieces : Str.splitOnChar '/' (PosixPath.ofStack st).toList = [] :: st.reverse := by
    rw [PosixPath.toList_ofStack, Str.splitOnChar_cons_self,
      Str.splitOnChar_intercalate (by simpa using hne)
        (fun c hc => (hst c (List.mem_reverse.mp hc)).no_slash)]
  have hkept : (([] : List Char) :: st.reverse).filter (fun comp => comp != [] && comp != ['.']) =
      st.reverse := by
    rw [List.filter_cons_of_neg (by decide), List.filter_eq_self]
    intro comp hcomp
    have hproper := hst comp (List.mem_reverse.mp hcomp)
    simp [hproper.ne_nil, hproper.ne_dot]
  have htext : List.replicate 1 '/' ++ ['/'].intercalate st.reverse =
      (PosixPath.ofStack st).toList := (PosixPath.toList_ofStack st).symm
  unfold PosixPath.pathStr
  dsimp only
  rw [hpieces, hkept, PosixPath.leadingSlashes_of_single hc hcs, htext, hcs, ← hcs,
    String.ofList_toList]
  simp [hcs]

theorem render_eq_ofStack {st : List (List Char)} (hst : ∀ c ∈ st, PosixPath.Proper c)
    (hne : st ≠ []) : PosixPath.render 1 st = PosixPath.ofStack st := by
  have hnamed : ∀ c ∈ st, PosixPath.Named c := fun c hc => ⟨(hst c hc).ne_nil, (hst c hc).no_slash⟩
  rw [← String.toList_inj, PosixPath.toList_render (.inr hne) hnamed, PosixPath.toList_ofStack]
  rfl

/-- The parent of a path with two components or more. -/
theorem parent_ofStack {c : List Char} {st : List (List Char)}
    (hst : ∀ x ∈ c :: st, PosixPath.Proper x) (hne : st ≠ []) :
    parent (PosixPath.ofStack (c :: st)) = PosixPath.ofStack st := by
  have hrest : ∀ x ∈ st, PosixPath.Proper x := fun x hx => hst x (List.mem_cons_of_mem _ hx)
  have hdir : PosixPath.dirname (PosixPath.ofStack (c :: st)) = PosixPath.ofStack st := by
    rw [← render_eq_ofStack hst (List.cons_ne_nil _ _), PosixPath.dirname_render 1 hne,
      render_eq_ofStack hrest hne]
    exact fun x hx => ⟨(hst x hx).ne_nil, (hst x hx).no_slash⟩
  have hnonempty : PosixPath.ofStack st ≠ "" := by
    intro hempty
    have htext := PosixPath.toList_ofStack st
    rw [hempty] at htext
    cases htext
  unfold parent
  dsimp only
  rw [pathStr_ofStack hst (List.cons_ne_nil _ _), hdir, if_neg hnonempty]

theorem Word.proper {name : String} (h : Word name) : PosixPath.Proper name.toList where
  ne_nil := fun hnil => h.nonempty (String.toList_eq_nil_iff.mp hnil)
  ne_dot := fun hdot => (h.plain '.' (by simp [hdot])).2.1 rfl
  ne_dots := fun hdots => (h.plain '.' (by simp [hdots])).2.1 rfl
  no_slash := fun hslash => (h.plain '/' hslash).1 rfl

theorem proper_releaseStack : ∀ c ∈ releaseStack, PosixPath.Proper c := by
  intro c hc
  unfold releaseStack at hc
  simp only [List.mem_cons, List.not_mem_nil, or_false] at hc
  obtain rfl | rfl | rfl | rfl | rfl := hc
  all_goals exact ⟨by decide, by decide, by decide, by decide⟩

/-- What runs from a release directory. -/
theorem parent_release {name : String} (h : Word name) :
    parent (releasePath name ++ "/summitflow-host-monitor") = releasePath name := by
  have hstack : ∀ c ∈ name.toList :: releaseStack, PosixPath.Proper c := by
    intro c hc
    rcases List.mem_cons.mp hc with rfl | hc
    · exact h.proper
    · exact proper_releaseStack c hc
  have hprogram : PosixPath.Proper "summitflow-host-monitor".toList :=
    ⟨by decide, by decide, by decide, by decide⟩
  rw [releasePath_eq]
  have hne : name.toList :: releaseStack ≠ [] := List.cons_ne_nil _ _
  generalize name.toList :: releaseStack = st at hstack hne ⊢
  have hpath : PosixPath.ofStack st ++ "/summitflow-host-monitor" =
      PosixPath.ofStack ("summitflow-host-monitor".toList :: st) := by
    rw [← String.toList_inj, String.toList_append, PosixPath.toList_ofStack,
      PosixPath.toList_ofStack, List.reverse_cons, Str.intercalate_append (by simpa using hne)
        (List.cons_ne_nil _ _), List.intercalate_singleton]
    rfl
  rw [hpath]
  apply parent_ofStack _ hne
  intro x hx
  rcases List.mem_cons.mp hx with rfl | hx
  · exact hprogram
  · exact hstack x hx

/-! ## The lines of a unit -/

theorem oneLine_toString (n : Nat) : OneLine (toString n) := by
  intro c hc
  have hdigit : c.isDigit = true := by
    have hc : c ∈ (Nat.repr n).toList := hc
    rw [Nat.toList_repr] at hc
    exact Nat.isDigit_of_mem_toDigits (by decide) (by decide) hc
  unfold Char.isDigit at hdigit
  rw [Bool.and_eq_true, decide_eq_true_eq, decide_eq_true_eq] at hdigit
  have hlow : 48 ≤ c.toNat := hdigit.1
  have hhigh : c.toNat ≤ 57 := hdigit.2
  simp only [Str.isLineBreak, Bool.or_eq_false_iff, Bool.and_eq_false_iff, decide_eq_false_iff_not,
    beq_eq_false_iff_ne]
  omega

theorem noSpace_of_all {t : String} (h : (t.toList.all fun c => !Str.isSpace c) = true) :
    ∀ c ∈ t.toList, Str.isSpace c = false := by
  intro c hc
  have hc' := List.all_eq_true.mp h c hc
  rwa [Bool.not_eq_true'] at hc'

theorem noSpace_releasePath {name : String} (h : Word name) :
    ∀ c ∈ (releasePath name).toList, Str.isSpace c = false := by
  intro c hc
  unfold releasePath at hc
  rw [String.toList_append, List.mem_append] at hc
  rcases hc with hc | hc
  · exact noSpace_of_all (t := "/usr/local/lib/summitflow-host-monitor/releases/")
      (by decide +kernel) c hc
  · exact (h.plain c hc).2.2

theorem oneLine_unitLines (uid gid : Nat) {name : String} (h : Word name) :
    ∀ line ∈ unitLines uid gid (releasePath name), OneLine line := by
  have hrelease := oneLine_of_noSpace (noSpace_releasePath h)
  have huid := oneLine_toString uid
  have hgid := oneLine_toString gid
  generalize releasePath name = release at hrelease ⊢
  unfold unitLines
  simp only [List.forall_mem_cons]
  repeat' apply And.intro
  -- the parts of a line are fixed, or one of the three
  all_goals repeat' with_reducible apply OneLine.append
  all_goals with_reducible first | exact hrelease | exact huid | exact hgid | simp | skip
  all_goals exact oneLine_of_noBreak (by decide)

theorem startswith_append_false {a p : String} (h : p.toList.isPrefixOf a.toList = false)
    (h' : a.toList.isPrefixOf p.toList = false) (b : String) :
    Str.startswith (a ++ b) p = false := by
  rw [Bool.eq_false_iff] at h h' ⊢
  unfold Str.startswith
  rw [Ne, List.isPrefixOf_iff_prefix] at h h' ⊢
  intro hprefix
  rw [String.toList_append] at hprefix
  rcases List.prefix_or_prefix_of_prefix hprefix (List.prefix_append _ _) with hp | ha
  · exact h hp
  · exact h' ha

/-- The line of a unit that says what it runs. -/
theorem execLines_unitText (uid gid : Nat) {name : String} (h : Word name) :
    ∃ arguments, execLines (unitText uid gid (releasePath name)) =
      ["ExecStart=" ++ (releasePath name ++ ("/summitflow-host-monitor --state-dir " ++ arguments))]
        := by
  have huser := @startswith_append_false "User=" "ExecStart=" (by decide) (by decide)
  have hgroup := @startswith_append_false "Group=" "ExecStart=" (by decide) (by decide)
  have hdirectory := @startswith_append_false "WorkingDirectory=" "ExecStart=" (by decide) (by decide)
  have hruntime := @startswith_append_false "Environment=XDG_RUNTIME_DIR=/run/user/" "ExecStart="
    (by decide) (by decide)
  have hbus := @startswith_append_false
    "Environment=DBUS_SESSION_BUS_ADDRESS=unix:path=/run/user/" "ExecStart=" (by decide) (by decide)
  have hexec : ∀ rest, Str.startswith ("ExecStart=" ++ rest) "ExecStart=" = true := by
    intro rest
    rw [Str.startswith, String.toList_append, List.isPrefixOf_iff_prefix]
    exact List.prefix_append _ _
  unfold execLines unitText
  rw [splitlines_join (oneLine_unitLines uid gid h)]
  unfold unitLines
  -- the other fixed lines are decided
  simp +decide only [String.append_assoc, List.filter_cons, List.filter_nil, huser, hgroup,
    hdirectory, hruntime, hbus, hexec, Bool.false_eq_true, if_false, if_true]
  exact ⟨_, rfl⟩

theorem removeprefix_append (p rest : String) : Str.removeprefix (p ++ rest) p = rest := by
  have hstarts : Str.startswith (p ++ rest) p = true := by
    rw [Str.startswith, String.toList_append, List.isPrefixOf_iff_prefix]
    exact List.prefix_append _ _
  unfold Str.removeprefix
  rw [if_pos hstarts, String.toList_append, List.drop_left, String.ofList_toList]

/-- A unit of the deployment runs from its release directory. -/
theorem execDirs_unitText (uid gid : Nat) {name : String} (h : Word name) :
    execDirs (unitText uid gid (releasePath name)) = [releasePath name] := by
  obtain ⟨arguments, hlines⟩ := execLines_unitText uid gid h
  have hdrop : Str.removeprefix ("ExecStart=" ++
      (releasePath name ++ ("/summitflow-host-monitor --state-dir " ++ arguments))) "ExecStart=" =
      releasePath name ++ ("/summitflow-host-monitor --state-dir " ++ arguments) :=
    removeprefix_append _ _
  have hword : (releasePath name ++ ("/summitflow-host-monitor --state-dir " ++ arguments)).toList =
      (releasePath name ++ "/summitflow-host-monitor").toList ++
        ' ' :: ("--state-dir " ++ arguments).toList := by
    simp
  have hplain : ∀ c ∈ (releasePath name ++ "/summitflow-host-monitor").toList,
      Str.isSpace c = false := by
    intro c hc
    rw [String.toList_append, List.mem_append] at hc
    rcases hc with hc | hc
    · exact noSpace_releasePath h c hc
    · exact noSpace_of_all (t := "/summitflow-host-monitor") (by decide +kernel) c hc
  have hdir : execDir ("ExecStart=" ++
      (releasePath name ++ ("/summitflow-host-monitor --state-dir " ++ arguments))) =
      some (releasePath name) := by
    unfold execDir
    rw [hdrop, hword, Str.wordsAux_word hplain [] _ (.inr (by simp)), List.reverse_nil, List.nil_append,
      List.head?_cons, Option.map_some, String.ofList_toList, parent_release h]
  unfold execDirs
  rw [hlines, List.filterMap_cons, hdir, List.filterMap_nil]

end SummitFlow.HostMonitorDeploy
