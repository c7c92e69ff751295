import Mathlib.Data.List.Destutter
import SummitFlow.Python.PosixPath
import SummitFlow.Python.Shlex

/-!
# The irreversible-command policy

Model of the part of `backend/app/services/_command_guard_helpers.py` the live hook
uses: peeling wrappers off an argument vector, and the rules that decide whether an
unwrapped argument vector destroys something without recovery.  All of it is string
and path logic; what it asks the host for is in `Host`.
-/

namespace SummitFlow.Guard

open PosixPath (Users normpath expanduser pathName dirname)

/-- The host the hook runs on: its users, `os.getcwd()`, and which characters outside
    ASCII `\w` matches. -/
structure Host where
  users : Users
  getcwd : String
  unicodeWord : Char → Bool

/-- `CommandGuardDecision`. -/
structure Decision where
  blocked : Bool
  code : Option String
  message : Option String
  source : Option String
  command : String
deriving DecidableEq, Repr

/-- `CommandGuardDecision(False, None, None, None, "")`. -/
def Decision.pass : Decision := ⟨false, none, none, none, ""⟩

/-- `shlex.join(list(segment))`. -/
def normalizeSegment (segment : List String) : String := Shlex.join segment

/-- `os.path.normpath(os.path.join(cwd, os.path.expanduser(path)))`. -/
def resolve (host : Host) (cwd path : String) : String :=
  normpath (PosixPath.join cwd (expanduser host.users path))

/-! ## Wrappers -/

/-- `[A-Za-z_]`. -/
def isNameStart (c : Char) : Bool := c.isAlpha || c == '_'

/-- `[A-Za-z0-9_]`. -/
def isNameChar (c : Char) : Bool := c.isAlphanum || c == '_'

/-- `_ASSIGNMENT_RE.match`: a name and `=`, then no line break but a final one. -/
def isAssignment (token : String) : Bool :=
  match token.toList with
  | [] => false
  | c :: cs =>
    isNameStart c &&
    match cs.dropWhile isNameChar with
    | '=' :: value => decide (value.dropWhile (· != '\n') = [] ∨ value.dropWhile (· != '\n') = ['\n'])
    | _ => false

def commandWrappers : List String := ["command", "builtin", "nohup"]

def optionWrappers : List String := ["nice", "stdbuf", "timeout"]

def envOptionsWithValue : List String :=
  ["-u", "--unset", "-C", "--chdir", "-S", "--split-string", "--argv0"]

def sudoOptionsWithValue : List String :=
  ["-u", "--user", "-g", "--group", "-h", "--host", "-p", "--prompt", "-C", "--close-from",
   "-T", "--command-timeout", "-R", "--chroot", "-D", "--chdir"]

def uvOptionsWithValue : List String :=
  ["--extra", "--no-extra", "--group", "--no-group", "--only-group", "--env-file", "-w", "--with",
   "--with-editable", "--with-requirements", "--package", "--python-platform", "--index",
   "--default-index", "-i", "--index-url", "--extra-index-url", "-f", "--find-links",
   "--index-strategy", "--keyring-provider", "--upgrade-group", "--resolution", "--prerelease",
   "--fork-strategy", "--exclude-newer", "--exclude-newer-package", "--no-sources-package",
   "--reinstall-package", "--link-mode", "--config-settings-package",
   "--no-build-isolation-package", "--no-build-package", "--no-binary-package", "--cache-dir",
   "--refresh-package", "-p", "--python", "--color", "--allow-insecure-host", "--directory",
   "--project", "--config-file", "-P", "--upgrade-package", "-C", "--config-setting", "--from",
   "-c", "--constraints", "-b", "--build-constraints", "--overrides", "--torch-backend"]

def wrapperOptionsWithValue : List String :=
  ["-n", "--adjustment", "-s", "--signal", "-k", "--kill-after"]

def shellExecutables : List String := ["bash", "sh", "zsh", "ksh"]

/-- The options and assignments after `env` or `sudo`. -/
def skipAssigned (valueOptions : List String) : List String → List String
  | [] => []
  | [t] =>
    if t = "--" then []
    else if Str.startswith t "-" || isAssignment t then []
    else [t]
  | t :: value :: rest =>
    if t = "--" then value :: rest
    else if t ∈ valueOptions then skipAssigned valueOptions rest
    else if Str.startswith t "-" || isAssignment t then skipAssigned valueOptions (value :: rest)
    else t :: value :: rest

/-- The options after `exec`: `-a` takes a name. -/
def skipExec : List String → List String
  | [] => []
  | [t] => if Str.startswith t "-" then [] else [t]
  | t :: value :: rest =>
    if Str.startswith t "-" then
      if t = "--" then value :: rest
      else if Str.endswith t "a" then skipExec rest
      else skipExec (value :: rest)
    else t :: value :: rest

/-- `_skip_uv_options`, on the tokens from the index on. -/
def skipUvOptions : List String → List String
  | [] => []
  | [t] => if Str.startswith t "-" then [] else [t]
  | t :: value :: rest =>
    if Str.startswith t "-" then
      if t = "--" then value :: rest
      else if t ∈ uvOptionsWithValue then skipUvOptions rest
      else skipUvOptions (value :: rest)
    else t :: value :: rest

/-- `_uv_command`, on the tokens after `uv`. -/
def uvCommand (args : List String) : Option (List String) :=
  match skipUvOptions args with
  | "run" :: rest => some (skipUvOptions rest)
  | "tool" :: rest =>
    match skipUvOptions rest with
    | "run" :: rest => some (skipUvOptions rest)
    | _ => none
  | _ => none

/-- The options after `nice`, `stdbuf` and `timeout`. -/
def skipWrapperOptions : List String → List String
  | [] => []
  | [t] => if Str.startswith t "-" then [] else [t]
  | t :: value :: rest =>
    if Str.startswith t "-" then
      if t ∈ wrapperOptionsWithValue then skipWrapperOptions rest
      else skipWrapperOptions (value :: rest)
    else t :: value :: rest

/-- One round of the loop of `unwrap_segment_with_privilege`: the tokens after a wrapper,
    `none` when the first token is no wrapper. -/
def unwrapOnce (lead : String) (args : List String) : Option (List String) :=
  if lead = "env" then some (skipAssigned envOptionsWithValue args)
  else if lead = "sudo" then some (skipAssigned sudoOptionsWithValue args)
  else if lead ∈ commandWrappers then some args
  else if lead = "exec" then some (skipExec args)
  else if lead = "uv" then uvCommand args
  else if lead = "uvx" then some (skipUvOptions args)
  else if lead = "timeout" then some ((skipWrapperOptions args).drop 1)
  else if lead ∈ optionWrappers then some (skipWrapperOptions args)
  else none

/-- The loop of `unwrap_segment_with_privilege`; every round drops a token, so the number
    of tokens bounds the rounds. -/
def unwrapLoop : Nat → List String → Bool → List String × Bool
  | 0, tokens, privileged => (tokens, privileged)
  | _ + 1, [], privileged => ([], privileged)
  | n + 1, token :: args, privileged =>
    let lead := Str.casefold (pathName token)
    match unwrapOnce lead args with
    | some rest => unwrapLoop n rest (privileged || lead == "sudo")
    | none => (token :: args, privileged)

/-- `unwrap_segment_with_privilege`. -/
def unwrapSegmentWithPrivilege (segment : List String) : List String × Bool :=
  unwrapLoop segment.length (segment.dropWhile isAssignment) false

/-- `unwrap_segment`. -/
def unwrapSegment (segment : List String) : List String := (unwrapSegmentWithPrivilege segment).1

/-- `shell_exec_args`. -/
def shellExecArgs : List String → Option String
  | [] => none
  | [_] => none
  | arg :: value :: rest =>
    if arg = "-c" then some value
    else if Str.startswith arg "-" && 'c' ∈ arg.toList.drop 1 then some value
    else shellExecArgs (value :: rest)

def sshOptionsWithValue : List Char := "BbcDEeFIiJLlmOoPpQRSWw".toList

/-- Whether an `ssh` option token takes the next argument: its first letter that takes a
    value is its last one. -/
def sshTakesNext (token : String) : Bool :=
  match (token.toList.drop 1).dropWhile (· ∉ sshOptionsWithValue) with
  | [_] => true
  | _ => false

/-- The options after `ssh`. -/
def skipSsh : List String → List String
  | [] => []
  | [t] => if Str.startswith t "-" then [] else [t]
  | t :: value :: rest =>
    if Str.startswith t "-" then
      if t = "--" then value :: rest
      else if sshTakesNext t then skipSsh rest
      else skipSsh (value :: rest)
    else t :: value :: rest

/-- `ssh_remote_command`, on the whole argument vector. -/
def sshRemoteCommand (args : List String) : Option String :=
  match (skipSsh (args.drop 1)).drop 1 with
  | [] => none
  | remote => some (" ".intercalate remote)

/-! ## Flags and operands -/

/-- `git_has_flag`. -/
def gitHasFlag (args flags : List String) : Bool :=
  args.any fun arg => flags.contains arg || flags.any fun flag => Str.startswith arg (flag ++ "=")

/-- `_short_flags`. -/
def shortFlags (args : List String) : List Char :=
  (args.takeWhile (· != "--")).flatMap fun arg =>
    if Str.startswith arg "-" && !Str.startswith arg "--" then arg.toList.drop 1 else []

/-- `_positionals`. -/
def positionals (valueOptions : List String) : List String → List String
  | [] => []
  | [arg] => if arg ∈ valueOptions ∨ Str.startswith arg "-" then [] else [arg]
  | arg :: value :: rest =>
    if arg ∈ valueOptions then positionals valueOptions rest
    else if Str.startswith arg "-" then positionals valueOptions (value :: rest)
    else arg :: positionals valueOptions (value :: rest)

/-- `git_paths_after_double_dash`. -/
def gitPathsAfterDoubleDash (args : List String) : List String :=
  ((args.dropWhile (· != "--")).drop 1).filter fun token => !Str.startswith token "-"

/-- `strip_git_option_values`. -/
def stripGitOptionValues (valueFlags : List String) : List String → List String
  | [] => []
  | [t] =>
    if t ∈ valueFlags then []
    else if valueFlags.any fun flag => Str.startswith t (flag ++ "=") then []
    else [t]
  | t :: value :: rest =>
    if t ∈ valueFlags then stripGitOptionValues valueFlags rest
    else if valueFlags.any fun flag => Str.startswith t (flag ++ "=") then
      stripGitOptionValues valueFlags (value :: rest)
    else t :: stripGitOptionValues valueFlags (value :: rest)

/-- `git_restore_paths`. -/
def gitRestorePaths (args : List String) : List String × Bool :=
  if gitHasFlag args ["--staged"] && !gitHasFlag args ["--worktree"] then ([], true)
  else
    let cleaned := stripGitOptionValues ["--source", "--pathspec-from-file"] args
    let explicit := gitPathsAfterDoubleDash cleaned
    if explicit ≠ [] then (explicit, false)
    else (cleaned.filter fun token => !Str.startswith token "-", false)

/-- `force_pushes_shared_main`. -/
def forcePushesSharedMain (args : List String) : Bool :=
  gitHasFlag args ["-f", "--force"] && args.any fun arg =>
    ["main", "master", "origin/main", "origin/master"].contains arg ||
      Str.endswith arg ":main" || Str.endswith arg ":master"

/-! ## Git -/

def gitGlobalOptionsWithValue : List String :=
  ["-c", "--config-env", "--exec-path", "--git-dir", "--namespace", "--super-prefix", "--work-tree"]

def disposableRoots : List String := ["/tmp", "/var/tmp", "/dev/shm", "/srv/scratch"]

def mountedStorageRoots : List String := ["/mnt", "/media"]

def proxmoxDataRoots : List String := ["/var/lib/vz", "/etc/pve"]

def broadPathspecs : List String := [".", "./", ":/", ":/*", ":(top)", "*"]

def stashReadOrApply : List String := ["list", "show", "apply", "pop", "branch", "create", "store"]

/-- `_under`. -/
def under (path root : String) : Bool :=
  path == root || Str.startswith path (Str.rstripSlash root ++ "/")

/-- The loop of `git_invocation`, on the tokens from the index on. -/
def gitInvocationLoop (host : Host) : String → List String → Option (String × List String × String)
  | _, [] => none
  | cwd, [token] =>
    if Str.startswith token "-" then none else some (token, [], cwd)
  | cwd, token :: value :: rest =>
    if token = "-C" then gitInvocationLoop host (resolve host cwd value) rest
    else if Str.startswith token "-C" then
      gitInvocationLoop host (resolve host cwd (Str.removeprefix token "-C")) (value :: rest)
    else if token ∈ gitGlobalOptionsWithValue then gitInvocationLoop host cwd rest
    else if Str.startswith token "-" then gitInvocationLoop host cwd (value :: rest)
    else some (token, value :: rest, cwd)

/-- `git_invocation`. -/
def gitInvocation (host : Host) (tokens : List String) (cwd : String) :
    Option (String × List String × String) :=
  match tokens with
  | [] | [_] => none
  | git :: args => if pathName git ≠ "git" then none else gitInvocationLoop host cwd args

/-- `_git_blocked`. -/
def gitBlocked (code message command : String) : Decision :=
  ⟨true, some code, some message, some "git", command⟩

/-- `irreversible_git_decision`. -/
def irreversibleGitDecision (subcommand : String) (args : List String) (segmentText : String)
    (sharedCheckout : Bool) : Option Decision :=
  if subcommand = "push" ∧ forcePushesSharedMain args then
    some (gitBlocked "git_force_push_main"
      "BLOCKED:git push --force main:Force push to main/master destroys shared history; publish with 'st vcs publish'."
      segmentText)
  else if ¬ sharedCheckout then none
  else if subcommand = "reset" ∧ gitHasFlag args ["--hard"] then
    some (gitBlocked "git_reset_hard"
      "BLOCKED:git reset --hard:Discards every agent's uncommitted work in this shared checkout; restore only your files with 'git restore -- <path>' or checkpoint with 'st commit --paths <path>'."
      segmentText)
  else if subcommand = "clean" then
    if ('f' ∈ shortFlags args ∨ gitHasFlag args ["--force"]) ∧
        ¬ ('n' ∈ shortFlags args ∨ gitHasFlag args ["--dry-run"]) then
      some (gitBlocked "git_clean_fd"
        "BLOCKED:git clean:Permanently deletes untracked files other agents may own; remove your own files by explicit path (rm <path>), preview with 'git clean -n'."
        segmentText)
    else none
  else if subcommand = "checkout" then
    if args.take 1 = ["."] ∨ (gitPathsAfterDoubleDash args).any (broadPathspecs.contains ·) then
      some (gitBlocked "git_checkout_all"
        "BLOCKED:git checkout .:Discards every agent's uncommitted changes in this shared checkout; name your own files: 'git checkout -- <path>'."
        segmentText)
    else none
  else if subcommand = "restore" then
    let (paths, stagingOnly) := gitRestorePaths args
    if ¬ stagingOnly ∧ paths.any (broadPathspecs.contains ·) then
      some (gitBlocked "git_restore_all"
        "BLOCKED:git restore .:Discards every agent's uncommitted changes in this shared checkout; name your own files: 'git restore -- <path>'."
        segmentText)
    else none
  else if subcommand = "stash" then
    let action := match args with
      | arg :: _ => if Str.startswith arg "-" then "push" else arg
      | [] => "push"
    if action ∈ ["drop", "clear"] then
      some (gitBlocked "git_stash_drop"
        "BLOCKED:git stash drop/clear:Permanently deletes stashed work; leave stashes in place and inspect them with 'git stash list' / 'git stash show'."
        segmentText)
    else if action ∉ stashReadOrApply then
      some (gitBlocked "git_stash"
        "BLOCKED:git stash:Sweeps other agents' uncommitted changes out of this shared checkout; checkpoint your own files with 'st commit --paths <path>' instead."
        segmentText)
    else none
  else none

/-! ## Recursive deletes -/

/-- `token` with a leading `$HOME` or `${HOME}` replaced. -/
def expandHomeVariable (host : Host) (token : String) : String :=
  let home := expanduser host.users "~"
  ["$\x7bHOME\x7d", "$HOME"].foldl (fun token var =>
    if token = var ∨ Str.startswith token (var ++ "/") then
      home ++ Str.removeprefix token var
    else token) token

/-- The loop that judges `dir/*` and `dir/.*` as `dir`; every round drops a character, so
    the length bounds the rounds. -/
def stripGlobs : Nat → String → String
  | 0, token => token
  | n + 1, token =>
    if token = "*" ∨ token = ".*" then stripGlobs n "."
    else if Str.endswith token "/*" ∨ Str.endswith token "/.*" then
      let head := String.ofList ((token.toList.rdropWhile (· != '/')).dropLast)
      stripGlobs n (if head = "" then "/" else head)
    else token

/-- Whether the shell would still expand something in the text. -/
def unresolved (token : String) : Bool := token.toList.any fun c => c == '$' || c == '`'

/-- `_deletion_target`. -/
def deletionTarget (host : Host) (token cwd : String) : Option String :=
  let token := expanduser host.users (expandHomeVariable host token)
  if unresolved token then none
  else some (normpath (PosixPath.join cwd (stripGlobs token.length token)))

/-- `protected_deletion_root`. -/
def protectedDeletionRoot (host : Host) (target : String) : Bool :=
  target.toList.count '/' ≤ 1 || target == normpath (expanduser host.users "~") ||
    ["/home", "/srv", "/srv/workspaces/projects"].contains (dirname target) ||
    target == "/srv/workspaces/projects" ||
    (mountedStorageRoots ++ proxmoxDataRoots).any (under target)

/-- The option loop of `irreversible_rm_decision`: whether it is recursive, and the
    operands. -/
def rmOperands : List String → Bool × List String
  | [] => (false, [])
  | token :: rest =>
    if token = "--" then (false, rest)
    else
      let (recursive, operands) := rmOperands rest
      if Str.startswith token "--" then (recursive || token == "--recursive", operands)
      else if Str.startswith token "-" ∧ token ≠ "-" then
        (recursive || (token.toList.drop 1).any fun c => c == 'r' || c == 'R', operands)
      else (recursive, token :: operands)

/-- `irreversible_rm_decision`. -/
def irreversibleRmDecision (host : Host) (tokens : List String) (cwd : String) : Option Decision :=
  match tokens with
  | [] => none
  | rm :: args =>
    if pathName rm ≠ "rm" then none
    else
      let (recursive, operands) := rmOperands args
      if ¬ recursive then none
      else operands.findSome? fun operand =>
        (deletionTarget host operand cwd).bind fun target =>
          if target ≠ "" ∧ protectedDeletionRoot host target then
            some ⟨true, some "rm_protected_root",
              some ("BLOCKED:rm -r " ++ target ++ ":Recursive delete of a protected root (home, /srv, workspace or project root, mounted storage) is irreversible; delete the specific subpaths you own instead."),
              some "dangerous", normalizeSegment tokens⟩
          else none

/-! ## Disks, snapshots, backups and guests -/

def diskAdvice : String :=
  "destroys every byte on a real disk and agents never run it; practice on an image file or loop device under /srv/scratch, or ask the owner to run it."

def harmlessDevices : List String :=
  ["/dev/null", "/dev/zero", "/dev/full", "/dev/random", "/dev/urandom", "/dev/stdin",
   "/dev/stdout", "/dev/stderr", "/dev/tty"]

def partedWrites : List String :=
  ["mklabel", "mktable", "mkpart", "mkpartfs", "mkfs", "rm", "resize", "resizepart", "rescue",
   "name", "set", "toggle", "disk_set", "disk_toggle", "type", "move", "cp"]

def sgdiskReadOnly : List String :=
  ["-p", "--print", "-i", "--info", "-v", "--verify", "-O", "--print-mbr", "-b", "--backup", "-L",
   "--list-types", "-P", "--pretend", "-V", "--version", "-?", "--help", "-a", "--set-alignment"]

/-- `_PARTITIONER_READ_ONLY`. -/
def partitionerReadOnly : String → Option (List String)
  | "fdisk" => some ["-l", "--list", "-x", "--list-details"]
  | "sfdisk" => some ["-l", "--list", "-d", "--dump", "-J", "--json", "-s", "--show-size", "-V",
      "--verify", "-g", "--show-geometry", "-F", "--list-free", "-n", "--no-act"]
  | "gdisk" => some ["-l"]
  | "cfdisk" => some []
  | _ => none

def cryptsetupDestructive : List String := ["luksformat", "erase", "lukserase", "lukskillslot"]

def formatters : List String := ["mke2fs", "mkswap", "mkdosfs", "mkntfs", "mkexfatfs"]

def snapshotStore : String := "/mnt/summitflow-native"

def resticOptionsWithValue : List String :=
  ["-r", "--repo", "--repository-file", "-p", "--password-file", "--password-command", "--cacert",
   "--cache-dir", "-o", "--option", "--limit-upload", "--limit-download", "--tls-client-cert",
   "--pack-size", "--compression", "--key-hint", "--retry-lock", "--stuck-request-timeout",
   "--http-user-agent"]

def rcloneDestructive : List String :=
  ["delete", "purge", "deletefile", "cleanup", "rmdirs", "rmdir"]

def rcloneMirrors : List String := ["sync", "move"]

def rcloneOptionsWithValue : List String :=
  ["--config", "--transfers", "--checkers", "--exclude", "--include", "--filter", "--exclude-from",
   "--include-from", "--filter-from", "--files-from", "--backup-dir", "--suffix", "--log-file",
   "--log-level", "--bwlimit", "--max-age", "--min-age", "--max-size", "--min-size",
   "--max-delete", "--max-transfer", "--compare-dest", "--copy-dest", "--tpslimit", "--retries",
   "--low-level-retries", "--timeout", "--contimeout", "--stats", "--order-by",
   "--drive-root-folder-id", "--user-agent"]

def btrbkOptionsWithValue : List String :=
  ["-c", "--config", "-l", "--loglevel", "--format", "--lockfile", "--override"]

def findGlobalOptions : List String := ["-H", "-L", "-P"]

def findSelective : List String :=
  ["-name", "-iname", "-path", "-ipath", "-wholename", "-iwholename", "-regex", "-iregex",
   "-lname", "-ilname", "-empty", "-samefile", "-inum"]

def deletingExecutables : List String := ["rm", "rmdir", "unlink", "shred"]

/-- `re.sub(r"[^a-z0-9]+", "_", label.lower()).strip("_")`. -/
def slug (label : String) : String :=
  let isPlain (c : Char) := c.isLower || c.isDigit
  let marked := (Str.lower label).toList.map fun c => if isPlain c then c else '_'
  String.ofList ((marked.destutter fun a b => ¬ (a = '_' ∧ b = '_')).dropWhile (· == '_')
    |>.rdropWhile (· == '_'))

/-- `_system_blocked`. -/
def systemBlocked (label reason : String) (tokens : List String) : Decision :=
  ⟨true, some ("irreversible_" ++ slug label), some ("BLOCKED:" ++ label ++ ":" ++ reason),
    some "dangerous", normalizeSegment tokens⟩

/-- `_real_device`. -/
def realDevice (token : String) : Bool :=
  let value := if Str.startswith token "of=" || Str.startswith token "if="
    then String.ofList (token.toList.drop 3) else token
  if unresolved value then true
  else if !Str.startswith value "/dev/" then false
  else
    let path := normpath value
    !harmlessDevices.contains path &&
      !(["/dev/fd/", "/dev/shm/", "/dev/pts/", "/dev/loop"].any (Str.startswith path))

/-- `_device_operands`. -/
def deviceOperands (args : List String) : Bool :=
  args.any fun arg => !Str.startswith arg "-" && realDevice arg

/-- Whether an `sgdisk` option changes the table: a short option by its letter, a long one by
    its name. -/
def sgdiskWrites (option : String) : Bool :=
  !sgdiskReadOnly.contains (if Str.startswith option "--" then option
    else String.ofList (option.toList.take 2))

/-- `_disk_decision`. -/
def diskDecision (name : String) (tokens : List String) : Option Decision :=
  let args := tokens.drop 1
  if Str.startswith name "mkfs" || formatters.contains name || name == "blkdiscard" then
    if deviceOperands args then
      some (systemBlocked name ("Formatting or discarding a device " ++ diskAdvice) tokens)
    else none
  else if name = "wipefs" then
    let flags := shortFlags args
    let erasing := 'a' ∈ flags || 'o' ∈ flags || gitHasFlag args ["--all", "--offset"]
    let dryRun := 'n' ∈ flags || gitHasFlag args ["--no-act"]
    if erasing && !dryRun && deviceOperands args then
      some (systemBlocked "wipefs" ("Erasing filesystem signatures " ++ diskAdvice ++
        " List with plain 'wipefs <dev>'.") tokens)
    else none
  else if name = "dd" then
    if args.any fun arg => Str.startswith arg "of=" && realDevice arg then
      some (systemBlocked "dd of=/dev" ("Writing raw data to a device " ++ diskAdvice ++
        " Write to a regular file instead.") tokens)
    else none
  else if name = "parted" then
    if deviceOperands args && args.any fun arg => partedWrites.contains (Str.lower arg) then
      some (systemBlocked "parted" ("Changing a partition table " ++ diskAdvice ++
        " Inspect with 'parted -l' or 'parted <dev> print'.") tokens)
    else none
  else if name = "sgdisk" then
    let options := (args.filter fun arg => Str.startswith arg "-").map Str.beforeEquals
    if options.any sgdiskWrites && !options.contains "-P" && !options.contains "--pretend" &&
        deviceOperands args then
      some (systemBlocked "sgdisk" ("Changing a GPT " ++ diskAdvice ++
        " Inspect with 'sgdisk -p <dev>'.") tokens)
    else none
  else match partitionerReadOnly name with
  | some readOnly =>
    if !(args.any fun arg => readOnly.contains (Str.beforeEquals arg)) && deviceOperands args then
      some (systemBlocked name ("Repartitioning a disk " ++ diskAdvice ++
        " Inspect with 'lsblk' or 'fdisk -l'.") tokens)
    else none
  | none =>
    if name == "cryptsetup" && (args.any fun arg => cryptsetupDestructive.contains (Str.lower arg)) &&
        deviceOperands args then
      some (systemBlocked "cryptsetup"
        ("Formatting or erasing a LUKS header makes the data unrecoverable; it " ++ diskAdvice) tokens)
    else none

/-- The directory names of a path that mark snapshots. -/
def snapshotParts (text : String) : Bool :=
  (Str.splitOnChar '/' (Str.lower text).toList).any fun part =>
    let part := String.ofList part
    part == ".btrbk" || part == ".snapshots" || Str.contains part "snap" || Str.contains part "btrbk"

/-- `_snapshot_target`. -/
def snapshotTarget (host : Host) (raw cwd : String) : Bool :=
  match deletionTarget host raw cwd with
  | some target =>
    under target snapshotStore || protectedDeletionRoot host target || snapshotParts target
  | none => snapshotParts raw

/-- `_btrfs_decision`. -/
def btrfsDecision (host : Host) (tokens : List String) (cwd : String) : Option Decision :=
  match positionals ["-i", "--subvolid", "--format"] (tokens.drop 1) with
  | group :: action :: target :: targets =>
    if group.length < 2 || !Str.startswith "subvolume" group || !Str.startswith "delete" action then
      none
    else if (target :: targets).any fun t => snapshotTarget host t cwd then
      some (systemBlocked "btrfs subvolume delete"
        "Deleting btrbk/snapper snapshots or subvolumes on protected storage destroys backup history; snapshot retention belongs to btrbk/snapper. Inspect with 'btrfs subvolume list'."
        tokens)
    else none
  | _ => none

/-- `_restic_decision`. -/
def resticDecision (tokens : List String) : Option Decision :=
  match positionals resticOptionsWithValue (tokens.drop 1) with
  | [] => none
  | word :: words =>
    let dryRun := gitHasFlag tokens ["--dry-run"] || 'n' ∈ shortFlags (tokens.drop 1)
    if ((word == "forget" || word == "prune") && !dryRun) ||
        (word == "key" && (words.take 1 == ["remove"] || words.take 1 == ["rm"])) then
      some (systemBlocked ("restic " ++ word)
        "Permanently deletes backup snapshots, data, or keys; retention runs only from the scheduled SummitFlow backup jobs. Inspect with 'restic snapshots' or preview with '--dry-run'."
        tokens)
    else none

/-- `_RCLONE_REMOTE.match`. -/
def rcloneRemote (host : Host) (arg : String) : Bool :=
  match arg.toList with
  | [] => false
  | c :: cs =>
    isNameChar c &&
    match cs.dropWhile fun c =>
      isNameChar c || c == '.' || c == ' ' || c == '-' || (128 ≤ c.toNat && host.unicodeWord c) with
    | ':' :: _ => true
    | _ => false

/-- `_rclone_decision`. -/
def rcloneDecision (host : Host) (tokens : List String) : Option Decision :=
  let args := tokens.drop 1
  match args.find? fun arg => rcloneDestructive.contains arg || rcloneMirrors.contains arg with
  | none => none
  | some command =>
    if gitHasFlag args ["--dry-run"] || args.contains "-n" then none
    else
      let operands := positionals rcloneOptionsWithValue ((args.dropWhile (· != command)).drop 1)
      if rcloneMirrors.contains command then
        match operands with
        | _ :: destination :: _ =>
          if rcloneRemote host destination then
            some (systemBlocked ("rclone " ++ command)
              "Mirroring onto a remote deletes destination files that the source lacks (offsite backups such as summitflow-drive live there); offsite uploads run only from the scheduled backup jobs. Preview with --dry-run, or use 'rclone copy', which never deletes."
              tokens)
          else none
        | _ => none
      else if operands.any (rcloneRemote host) then
        some (systemBlocked ("rclone " ++ command)
          "Deletes files on a remote (offsite backups such as summitflow-drive live there); offsite expiry runs only from the scheduled backup jobs. Inspect with 'rclone ls'/'rclone lsd' or add --dry-run."
          tokens)
      else none

/-- `_btrbk_decision`. -/
def btrbkDecision (tokens : List String) : Option Decision :=
  let dryRun := gitHasFlag (tokens.drop 1) ["--dry-run"] || 'n' ∈ shortFlags (tokens.drop 1)
  match positionals btrbkOptionsWithValue (tokens.drop 1) with
  | word :: _ =>
    if (word == "clean" || word == "prune") && !dryRun then
      some (systemBlocked ("btrbk " ++ word)
        "Deletes btrbk snapshots and backups outside the scheduled retention run; preview with 'btrbk -n' / '--dry-run' or inspect with 'btrbk list'."
        tokens)
    else none
  | [] => none

/-- `_dmsetup_decision`. -/
def dmsetupDecision (tokens : List String) : Option Decision :=
  match positionals ["-j", "--major", "-m", "--minor", "-u", "--uuid"] (tokens.drop 1) with
  | [] => none
  | word :: targets =>
    if word ≠ "remove" ∧ word ≠ "remove_all" then none
    else if word = "remove_all" ∨ targets = [] ∨
        targets.any fun target => !Str.contains (Str.lower target) "loop" then
      some (systemBlocked ("dmsetup " ++ word)
        "Tearing down a device-mapper device (LUKS, LVM) under a mounted system can corrupt or strand its data; only loop-backed scratch mappings may be removed. Inspect with 'dmsetup ls'."
        tokens)
    else none

/-- The arguments of `find` after its global options. -/
def findArguments (args : List String) : List String :=
  let args := args.dropWhile fun arg => findGlobalOptions.contains arg || Str.startswith arg "-O"
  if args.take 1 = ["-D"] then args.drop 2 else args

/-- A starting point of `find`. -/
def findStart (arg : String) : Bool :=
  !Str.startswith arg "-" && !(["(", "!", ","].contains arg)

/-- The action of a `find` expression deletes what it finds. -/
def findDeletes : List String → Bool
  | [] => false
  | [arg] => arg == "-delete"
  | arg :: value :: rest =>
    arg == "-delete" ||
      (["-exec", "-execdir", "-ok", "-okdir"].contains arg &&
        deletingExecutables.contains (pathName value)) ||
      findDeletes (value :: rest)

/-- `_find_decision`. -/
def findDecision (host : Host) (tokens : List String) (cwd : String) : Option Decision :=
  let args := findArguments (tokens.drop 1)
  let starts := args.takeWhile findStart
  let expression := args.dropWhile findStart
  if ¬ findDeletes expression then none
  else
    let selective := expression.any (findSelective.contains ·)
    (if starts = [] then ["."] else starts).findSome? fun start =>
      (deletionTarget host start cwd).bind fun target =>
        if (mountedStorageRoots ++ proxmoxDataRoots).any (under target) ∨
            (protectedDeletionRoot host target ∧ ¬ selective) then
          some (systemBlocked ("find " ++ target ++ " -delete")
            "Bulk delete across a protected root (home, /srv, workspace or project root, mounted storage) is irreversible; narrow it with -name/-path to files you own, or delete specific subpaths."
            tokens)
        else none

def proxmoxAdvice : String :=
  "destroys Proxmox/LVM/ZFS storage or guests with no undo; VM and storage lifecycle is owner-run. Inspect with 'qm list', 'pct list', 'lvs', 'zfs list', or 'pvesm status'."

/-- `_proxmox_decision`. -/
def proxmoxDecision (name : String) (tokens : List String) : Option Decision :=
  let words := positionals [] (tokens.drop 1)
  if (name == "qm" || name == "pct") && words.take 1 == ["destroy"] then
    some (systemBlocked (name ++ " destroy") ("This " ++ proxmoxAdvice) tokens)
  else if ["lvremove", "vgremove", "pvremove"].contains name &&
      !gitHasFlag (tokens.drop 1) ["-t", "--test"] then
    some (systemBlocked name ("This " ++ proxmoxAdvice) tokens)
  else if (name == "zfs" || name == "zpool") && words.take 1 == ["destroy"] &&
      !(shortFlags (tokens.drop 1)).contains 'n' then
    some (systemBlocked (name ++ " destroy") ("This " ++ proxmoxAdvice) tokens)
  else if name == "pvesm" && words.take 1 == ["free"] then
    some (systemBlocked "pvesm free" ("This " ++ proxmoxAdvice) tokens)
  else if name == "pvesh" && words.take 1 == ["delete"] then
    some (systemBlocked "pvesh delete" ("This API call " ++ proxmoxAdvice) tokens)
  else none

/-- `irreversible_system_decision`. -/
def irreversibleSystemDecision (host : Host) (tokens : List String) (cwd : String) :
    Option Decision :=
  match tokens with
  | [] => none
  | token :: _ =>
    let name := pathName token
    if name = "rm" then irreversibleRmDecision host tokens cwd
    else if name = "find" then findDecision host tokens cwd
    else if name = "btrfs" then btrfsDecision host tokens cwd
    else if name = "restic" then resticDecision tokens
    else if name = "rclone" then rcloneDecision host tokens
    else if name = "btrbk" then btrbkDecision tokens
    else if name = "dmsetup" then dmsetupDecision tokens
    else (diskDecision name tokens).or (proxmoxDecision name tokens)

/-- `irreversible_segment_decision`. -/
def irreversibleSegmentDecision (host : Host) (tokens : List String) (cwd : String) :
    Option Decision :=
  match irreversibleSystemDecision host tokens cwd with
  | some decision => some decision
  | none =>
    (gitInvocation host tokens cwd).bind fun (subcommand, args, gitCwd) =>
      irreversibleGitDecision subcommand args (normalizeSegment tokens)
        (!disposableRoots.any (under gitCwd))

end SummitFlow.Guard
