import SummitFlow.Services.CommandGuard

/-!
# Three readings of a git command line

The parsers walk over the global options in the same way, apart from `--super-prefix`:
the shared helper and the command guard skip its value, and the publication guard takes
the value for the subcommand.  The command guard also expands the home directory of a
`-C` and raises when there is none.
-/

namespace SummitFlow.Guard

open PosixPath (Users)

/-- The subcommand an invocation names. -/
def subcommandOf (invocation : Option (String × List String × String)) : Option String :=
  invocation.map (·.1)

@[simp] theorem subcommandOf_none : subcommandOf none = none := rfl

@[simp] theorem subcommandOf_some (subcommand : String) (args : List String) (cwd : String) :
    subcommandOf (some (subcommand, args, cwd)) = some subcommand := rfl

/-- A `-C` directory whose home, if it names one, is known. -/
def homeKnown (users : Users) (path : String) : Bool := (pathExpanduser users path).isOk

/-- The global options of a command line, up to its subcommand: no `--super-prefix` with a
    value, and every `-C` directory with a known home. -/
def plainOptions (users : Users) : List String → Bool
  | [] => true
  | [token] =>
    if Str.startswith token "-C" && token != "-C" then
      homeKnown users (String.ofList (token.toList.drop 2))
    else true
  | token :: value :: rest =>
    if token = "-C" then homeKnown users value && plainOptions users rest
    else if Str.startswith token "-C" then
      homeKnown users (String.ofList (token.toList.drop 2)) && plainOptions users (value :: rest)
    else if token ∈ gitGlobalOptionsWithValue then
      token != "--super-prefix" && plainOptions users rest
    else if Str.startswith token "-" then plainOptions users (value :: rest)
    else true

/-- The options with a value that both guards know. -/
theorem mem_publicationGitOptions {token : String} (h : token ≠ "--super-prefix") :
    token ∈ publicationGitOptions ↔ token = "-C" ∨ token ∈ gitGlobalOptionsWithValue := by
  simp only [publicationGitOptions, gitGlobalOptionsWithValue, List.mem_cons, List.not_mem_nil, or_false]
  grind

theorem startswith_of_option {token : String}
    (h : token ∈ gitGlobalOptionsWithValue) : Str.startswith token "-" = true := by
  have hall : ∀ token ∈ gitGlobalOptionsWithValue, Str.startswith token "-" = true := by decide
  exact hall token h

/-- What starts with an option and `=` starts with a dash. -/
theorem startswith_of_isPrefix {token option : String} (hdash : Str.startswith option "-" = true)
    (h : Str.startswith token (option ++ "=") = true) : Str.startswith token "-" = true := by
  unfold Str.startswith at hdash h ⊢
  rw [List.isPrefixOf_iff_prefix] at hdash h ⊢
  rw [String.toList_append] at h
  exact hdash.trans ((List.prefix_append _ _).trans h)

theorem startswith_dash {token : String} (h : Str.startswith token "-C" = true) :
    Str.startswith token "-" = true := by
  unfold Str.startswith at h ⊢
  rw [List.isPrefixOf_iff_prefix] at h ⊢
  exact (show "-".toList <+: "-C".toList by decide).trans h

theorem changeGitDirectory_ok {users : Users} {path : String} (h : homeKnown users path = true)
    (resolvePath : String → String) (gitCwd : String) :
    ∃ dir, changeGitDirectory users resolvePath gitCwd path = .ok dir := by
  unfold homeKnown at h
  unfold changeGitDirectory
  cases hpath : pathExpanduser users path with
  | error e =>
    rw [hpath] at h
    cases h
  | ok target => exact ⟨_, rfl⟩

/-- An attached `-C` is no option of its own. -/
theorem not_mem_of_attached {token : String} (hC : token ≠ "-C")
    (h : Str.startswith token "-C" = true) : token ∉ publicationGitOptions := by
  have hall : ∀ token ∈ publicationGitOptions, Str.startswith token "-C" = true → token = "-C" := by
    decide
  exact fun hmem => hC (hall token hmem h)

/-- The publication guard stops where the helper stops. -/
theorem publicationSubcommand_eq (host : Host) {users : Users} {args : List String}
    (h : plainOptions users args = true) (cwd : String) :
    publicationSubcommand args = subcommandOf (gitInvocationLoop host cwd args) := by
  fun_induction plainOptions users args generalizing cwd with
  | case1 => rfl
  | case2 token hattached =>
    simp only [Bool.and_eq_true] at hattached
    simp [publicationSubcommand, gitInvocationLoop, startswith_dash hattached.1]
  | case3 token hattached =>
    simp only [publicationSubcommand, gitInvocationLoop]
    split <;> rfl
  | case4 value rest ih =>
    rw [Bool.and_eq_true] at h
    have hrest := ih h.2 (resolve host cwd value)
    have hdash : Str.startswith "-C" "-" = true := by decide
    simpa [publicationSubcommand, gitInvocationLoop, publicationGitOptions, hdash] using hrest
  | case5 token value rest hC hattached ih =>
    rw [Bool.and_eq_true] at h
    have hrest := ih h.2 (resolve host cwd (Str.removeprefix token "-C"))
    simpa [publicationSubcommand, gitInvocationLoop, hC, hattached, startswith_dash hattached,
      not_mem_of_attached hC hattached] using hrest
  | case6 token value rest hC hattached hvalue ih =>
    rw [Bool.and_eq_true, bne_iff_ne] at h
    have hmem : token ∈ publicationGitOptions := (mem_publicationGitOptions h.1).mpr (.inr hvalue)
    have hrest := ih h.2 cwd
    simpa [publicationSubcommand, gitInvocationLoop, hC, hattached, hvalue, hmem,
      startswith_of_option hvalue] using hrest
  | case7 token value rest hC hattached hvalue hoption ih =>
    have hsuper : token ≠ "--super-prefix" := by
      rintro rfl
      exact hvalue (by decide)
    have hmem : token ∉ publicationGitOptions := by
      rw [mem_publicationGitOptions hsuper]
      exact fun hor => hor.elim hC hvalue
    have hrest := ih h cwd
    simpa [publicationSubcommand, gitInvocationLoop, hC, hattached, hvalue, hoption, hmem] using hrest
  | case8 token value rest hC hattached hvalue hoption =>
    simp [publicationSubcommand, gitInvocationLoop, hC, hattached, hvalue, hoption]

/-- The command guard stops where the helper stops. -/
theorem guardInvocationLoop_eq (host : Host) {users : Users} {args : List String}
    (h : plainOptions users args = true) (resolvePath : String → String) (gitCwd cwd : String) :
    (guardInvocationLoop users resolvePath gitCwd args).map subcommandOf =
      .ok (subcommandOf (gitInvocationLoop host cwd args)) := by
  fun_induction plainOptions users args generalizing gitCwd cwd with
  | case1 => rfl
  | case2 token hattached =>
    obtain ⟨dir, hdir⟩ := changeGitDirectory_ok h resolvePath gitCwd
    have hboth := hattached
    rw [Bool.and_eq_true] at hboth
    simp [guardInvocationLoop, gitInvocationLoop, hattached, hdir, startswith_dash hboth.1]
    rfl
  | case3 token hattached =>
    simp only [guardInvocationLoop, gitInvocationLoop, hattached]
    by_cases hoption : Str.startswith token "-" = true
    · simp [hoption]
      rfl
    · simp [hoption]
      rfl
  | case4 value rest ih =>
    rw [Bool.and_eq_true] at h
    obtain ⟨dir, hdir⟩ := changeGitDirectory_ok h.1 resolvePath gitCwd
    have hrest := ih h.2 dir (resolve host cwd value)
    simpa [guardInvocationLoop, gitInvocationLoop, hdir, bind, Except.bind] using hrest
  | case5 token value rest hC hattached ih =>
    rw [Bool.and_eq_true] at h
    obtain ⟨dir, hdir⟩ := changeGitDirectory_ok h.1 resolvePath gitCwd
    have hrest := ih h.2 dir (resolve host cwd (Str.removeprefix token "-C"))
    simpa [guardInvocationLoop, gitInvocationLoop, hC, hattached, hdir, bind, Except.bind] using hrest
  | case6 token value rest hC hattached hvalue ih =>
    rw [Bool.and_eq_true] at h
    have hrest := ih h.2 gitCwd cwd
    simpa [guardInvocationLoop, gitInvocationLoop, hC, hattached, hvalue] using hrest
  | case7 token value rest hC hattached hvalue hoption ih =>
    have hrest := ih h gitCwd cwd
    simpa [guardInvocationLoop, gitInvocationLoop, hC, hattached, hvalue, hoption] using hrest
  | case8 token value rest hC hattached hvalue hoption =>
    have hassigned : (gitGlobalOptionsWithValue.any fun option =>
        Str.startswith token (option ++ "=")) = false := by
      rw [List.any_eq_false]
      intro option hmem hstart
      exact hoption (startswith_of_isPrefix (startswith_of_option hmem) hstart)
    have hflag : token ∉ gitGlobalFlags := by
      have hall : ∀ flag ∈ gitGlobalFlags, Str.startswith flag "-" = true := by decide
      exact fun hmem => hoption (hall token hmem)
    simp [guardInvocationLoop, gitInvocationLoop, hC, hattached, hvalue, hoption, hassigned, hflag]
    rfl

/-- `git` is no wrapper. -/
theorem unwrapSegment_git (args : List String) : unwrapSegment ("git" :: args) = "git" :: args := by
  have hassign : isAssignment "git" = false := by decide
  have hlead : Str.casefold (PosixPath.pathName "git") = "git" := by decide
  have honce : unwrapOnce "git" args = none := by
    simp [unwrapOnce, commandWrappers, optionWrappers]
  simp [unwrapSegment, unwrapSegmentWithPrivilege, hassign, unwrapLoop, hlead, honce]

/-- The three parsers read the same subcommand, or none, from a command line with plain
    options. -/
theorem git_parsers_agree (host : Host) (resolvePath : String → String) (cwd path : String)
    (args : List String) (h : plainOptions host.users args = true) :
    publicationSubcommand args = subcommandOf (gitInvocation host ("git" :: args) cwd) ∧
      (guardInvocation host.users resolvePath ("git" :: args) path).map subcommandOf =
        .ok (subcommandOf (gitInvocation host ("git" :: args) cwd)) := by
  have hname : PosixPath.pathName "git" = "git" := by decide
  cases args with
  | nil =>
    constructor
    · rfl
    · unfold guardInvocation
      rw [unwrapSegment_git]
      rfl
  | cons token rest =>
    have hhelper : gitInvocation host ("git" :: token :: rest) cwd =
        gitInvocationLoop host cwd (token :: rest) := by
      simp [gitInvocation, hname]
    have hguard : guardInvocation host.users resolvePath ("git" :: token :: rest) path =
        guardInvocationLoop host.users resolvePath path (token :: rest) := by
      simp [guardInvocation, unwrapSegment_git]
    rw [hhelper, hguard]
    exact ⟨publicationSubcommand_eq host h cwd, guardInvocationLoop_eq host h resolvePath path cwd⟩

/-- A host with one home directory. -/
def agentUsers : Users := ⟨"/home/agent", fun _ => none⟩

/-- A push behind other options. -/
theorem git_parsers_agree_push :
    plainOptions agentUsers ["-C", "~/src", "-c", "a=b", "--no-pager", "push"] = true ∧
      publicationSubcommand ["-C", "~/src", "-c", "a=b", "--no-pager", "push"] =
        subcommandOf (gitInvocation ⟨agentUsers, "/srv", fun _ => false⟩
          ["git", "-C", "~/src", "-c", "a=b", "--no-pager", "push"] "/srv") := by
  have hplain : plainOptions agentUsers ["-C", "~/src", "-c", "a=b", "--no-pager", "push"] = true := by
    decide
  exact ⟨hplain,
    (git_parsers_agree ⟨agentUsers, "/srv", fun _ => false⟩ id "/srv" "/srv" _ hplain).1⟩

/-- The value of `--super-prefix` is a subcommand for the publication guard only, and an
    unknown user stops the command guard. -/
theorem git_parsers_disagree :
    (publicationSubcommand ["--super-prefix", "x/", "push"] = some "x/" ∧
      subcommandOf (gitInvocation ⟨agentUsers, "/srv", fun _ => false⟩
        ["git", "--super-prefix", "x/", "push"] "/srv") = some "push") ∧
    (guardInvocation agentUsers id ["git", "-C", "~nobody", "push"] "/srv" =
        .error (.runtimeError "Could not determine home directory.") ∧
      subcommandOf (gitInvocation ⟨agentUsers, "/srv", fun _ => false⟩
        ["git", "-C", "~nobody", "push"] "/srv") = some "push") := by
  refine ⟨⟨by decide, by decide⟩, ?_, by decide⟩
  rfl

end SummitFlow.Guard
