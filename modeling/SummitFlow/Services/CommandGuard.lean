import SummitFlow.Python.Error
import SummitFlow.Services.PublicationGuard

/-!
# The git argument parsers

Three places read the subcommand of a `git` command line: `git_invocation` of the shared
helpers, the loop of `evaluate_publication_command`, and `_git_invocation` of
`backend/app/services/command_guard.py`.  Here are the last two.  The working directory
`_git_invocation` keeps is resolved against the file system, so resolving is a parameter.
-/

namespace SummitFlow.Guard

open PosixPath (Users expanduser pathStr isAbsolute)

/-- The options the loop of `evaluate_publication_command` takes a value for. -/
def publicationGitOptions : List String :=
  ["-C", "-c", "--git-dir", "--work-tree", "--config-env", "--namespace", "--exec-path"]

/-- The token the loop of `evaluate_publication_command` stops at, on the tokens after
    `git`. -/
def publicationSubcommand : List String → Option String
  | [] => none
  | [token] => if Str.startswith token "-" then none else some token
  | token :: value :: rest =>
    if Str.startswith token "-" then
      if token ∈ publicationGitOptions then publicationSubcommand rest
      else publicationSubcommand (value :: rest)
    else some token

/-- `Path(path).expanduser()`: an unknown user is an error. -/
def pathExpanduser (users : Users) (path : String) : Except PyError String :=
  let text := pathStr path
  if Str.startswith text "~" then
    let home := expanduser users (String.ofList (text.toList.takeWhile (· != '/')))
    if Str.startswith home "~" then .error (.runtimeError "Could not determine home directory.")
    else .ok (pathStr (home ++ String.ofList (text.toList.dropWhile (· != '/'))))
  else .ok text

def gitGlobalFlags : List String :=
  ["--bare", "--glob-pathspecs", "--icase-pathspecs", "--literal-pathspecs",
   "--no-optional-locks", "--no-pager", "--noglob-pathspecs", "--paginate", "-p"]

section

variable (users : Users) (resolvePath : String → String)

/-- `git_cwd` after a `-C`. -/
def changeGitDirectory (gitCwd path : String) : Except PyError String := do
  let target ← pathExpanduser users path
  return resolvePath (if isAbsolute target then target else PosixPath.join gitCwd target)

/-- The loop of `_git_invocation`, on the tokens from the index on. -/
def guardInvocationLoop : String → List String → Except PyError (Option (String × List String × String))
  | _, [] => .ok none
  | gitCwd, [token] => do
    if Str.startswith token "-C" && token != "-C" then
      let _ ← changeGitDirectory users resolvePath gitCwd (String.ofList (token.toList.drop 2))
      return none
    else if Str.startswith token "-" then return none
    else return some (token, [], gitCwd)
  | gitCwd, token :: value :: rest => do
    if token = "-C" then
      guardInvocationLoop (← changeGitDirectory users resolvePath gitCwd value) rest
    else if Str.startswith token "-C" then
      guardInvocationLoop
        (← changeGitDirectory users resolvePath gitCwd (String.ofList (token.toList.drop 2)))
        (value :: rest)
    else if token ∈ gitGlobalOptionsWithValue then guardInvocationLoop gitCwd rest
    else if gitGlobalOptionsWithValue.any fun option => Str.startswith token (option ++ "=") then
      guardInvocationLoop gitCwd (value :: rest)
    else if token ∈ gitGlobalFlags then guardInvocationLoop gitCwd (value :: rest)
    else if Str.startswith token "-" then guardInvocationLoop gitCwd (value :: rest)
    else return some (token, value :: rest, gitCwd)

/-- `_git_invocation`. -/
def guardInvocation (segment : List String) (cwd : String) :
    Except PyError (Option (String × List String × String)) :=
  match unwrapSegment segment with
  | [] | [_] => .ok none
  | git :: args => if git ≠ "git" then .ok none else guardInvocationLoop users resolvePath cwd args

end

end SummitFlow.Guard
