import SummitFlow.ForStd.Descent
import SummitFlow.Python.Re
import SummitFlow.Services.PublicationGuard

/-!
# The live publication hook

Model of `evaluate_publication_command` and what it calls in
`backend/app/services/_publication_guard.py`: text that disables the hooks, `git push`, the
`gh` subcommands that publish and direct requests to the API of GitHub.
-/

namespace SummitFlow.Guard

/-- `_READ_ONLY`. -/
def readOnly : List String := ["rg", "grep", "cat", "less", "head", "tail", "echo", "printf"]

/-- `_HTTP_CLIENTS`. -/
def httpClients : List String := ["curl", "wget", "http", "https", "xh", "xhs"]

/-- `_HTTP_BODY_OPTIONS`. -/
def httpBodyOptions : List String :=
  ["--data", "--data-raw", "--data-binary", "--data-urlencode", "--json", "--form",
   "--upload-file", "--post-data", "--post-file", "--body-data", "--body-file"]

/-- `_MUTATING_VERBS`. -/
def mutatingVerbs : List String := ["POST", "PUT", "PATCH", "DELETE"]

/-- `_blocked`. -/
def publicationBlocked (code message : String) : Decision :=
  ⟨true, some code, some message, some "publication", ""⟩

def hookDisable : Decision :=
  publicationBlocked "hook_disable" "Publication hooks must remain enabled."

def directPublication : Decision :=
  publicationBlocked "direct_publication" "Use the canonical ST publication workflow."

/-! ## Expressions -/

/-- `_DISABLE.search`. -/
def disablesHooks (host : Host) (text : String) : Bool :=
  Re.search ⟨true, isWord host⟩
    (r"(?:--no-verify|--dangerously-bypass-hook-trust|--disable-hooks)\b" ++
      r#"|(?:SF_COMMAND_GUARD_DISABLE|GIT_ALLOW_SECRET|SECRETGUARD_DISABLE)\s*=\s*["']?1"# ++
      r"|(?:core\.hookspath|hooks\.enabled)\s*=" ++
      r"|(?:--disable\s+hooks|features\.hooks\s*=\s*false)\b" ++
      r"|(?:git\s+config\b[^\n]*(?:--unset|--remove-section)[^\n]*(?:core\.hooks|hooks))") text

/-- `_MUTATING_METHOD.search`. -/
def mutatingMethod (host : Host) (text : String) : Bool :=
  Re.search ⟨true, isWord host⟩
    r#"(?:-X(?:=|\s*)|--(?:method|request)(?:=|\s+))["']?(?:POST|PUT|PATCH|DELETE)\b"# text

/-- `_GITHUB_API.search`. -/
def githubApi (host : Host) (text : String) : Bool :=
  Re.search ⟨false, isWord host⟩ r"\b(?:api|uploads)\.github\.com\b" text

/-- `_publication_endpoint`. -/
def publicationEndpoint (host : Host) (text : String) : Bool :=
  let search := fun expression => Re.search ⟨false, isWord host⟩ expression text
  search r"/(?:git/(?:refs|commits|trees|blobs)|contents|releases|pulls/[^\s]+/merge)\b" ||
    search r"/(?:branches/[^\s]+/protection|rulesets|(?:[^\s]+/)?archive)\b" ||
    search r"\b(?:archived|visibility|public)\s*="

/-! ## Commands that publish -/

/-- `_has_option`. -/
def hasOption (args short long : List String) : Bool :=
  args.any fun arg =>
    short.contains arg || long.contains arg ||
      (long.any fun flag => Str.startswith arg (flag ++ "=")) ||
      short.any fun flag => Str.startswith arg flag && !Str.startswith arg "--"

/-- A request that writes over GraphQL. -/
def graphqlMutation (text : String) : Bool :=
  Str.contains text "mutation" && Str.contains text "graphql"

/-- `git config` of the hooks' directory, other than a read of it. -/
def configuresHooks (executable : String) (args : List String) : Bool :=
  executable == "git" && args.contains "config" &&
    (args.any fun arg => Str.lower arg == "core.hookspath") &&
    !(["--get", "--get-all", "--get-regexp"].any args.contains)

def gitOptionsWithValue : List String :=
  ["-C", "-c", "--git-dir", "--work-tree", "--config-env", "--namespace", "--exec-path"]

/-- The options after `git`. -/
def skipGitOptions : List String → List String
  | [] => []
  | [t] => if Str.startswith t "-" then [] else [t]
  | t :: value :: rest =>
    if Str.startswith t "-" then
      if t ∈ gitOptionsWithValue then skipGitOptions rest else skipGitOptions (value :: rest)
    else t :: value :: rest

/-- `git push` and `git send-pack`. -/
def gitPublishes (args : List String) : Bool :=
  match skipGitOptions (args.drop 1) with
  | [] => false
  | subcommand :: _ => ["push", "send-pack"].contains subcommand

/-- The subcommands of `gh` that publish. -/
def ghPublishes (host : Host) (args : List String) : Bool :=
  match args with
  | _ :: command :: subcommand :: rest =>
    let blocked := (command == "pr" && subcommand == "merge") ||
      (command == "release" && ["create", "edit", "delete", "upload"].contains subcommand) ||
      (command == "repo" &&
        ["create", "delete", "archive", "unarchive", "rename"].contains subcommand) ||
      (command == "repo" && subcommand == "edit" && args.contains "--visibility")
    if command = "api" then
      let text := Str.lower (normalizeSegment (subcommand :: rest))
      -- `gh` sends POST whenever a field or an input is given
      let mutation :=
        hasOption (subcommand :: rest) ["-f", "-F"] ["--field", "--raw-field", "--input"] ||
          mutatingMethod host (normalizeSegment args)
      blocked || (mutation && publicationEndpoint host text) || graphqlMutation text
    else blocked
  | _ => false

/-- Direct requests to GitHub, which skip the verifier of pushes. -/
def httpPublishes (host : Host) (args : List String) : Bool :=
  let text := Str.lower (normalizeSegment (args.drop 1))
  githubApi host text &&
    (((mutatingMethod host (normalizeSegment args) ||
        ((args.drop 1).any fun arg => mutatingVerbs.contains (Str.upper arg)) ||
        hasOption (args.drop 1) ["-d", "-F", "-T"] httpBodyOptions) &&
        publicationEndpoint host text) ||
      graphqlMutation text)

/-- The command of a segment publishes by itself. -/
def publishesDirectly (host : Host) (executable : String) (args : List String) : Bool :=
  (executable == "git" && gitPublishes args) ||
    (executable == "jj" && (args.drop 1).contains "push") ||
    (executable == "gh" && ghPublishes host args) ||
    (httpClients.contains executable && decide (1 < args.length) && httpPublishes host args)

/-! ## Evaluation -/

/-- The command that a shell or `eval` of a segment runs. -/
def shellCommand (executable : String) (args : List String) : Option String :=
  if shellExecutables.contains executable || executable == "eval" then
    (nestedCommand executable args).filter (· ≠ "")
  else none

/-- One segment; `evaluate` judges the command nested in it. -/
def publicationSegment (host : Host) (evaluate : String → Decision) (segment : List String) :
    Option Decision :=
  match unwrap segment with
  | [] => none
  | arg :: rest =>
    let args := arg :: rest
    let executable := executableOf arg
    if readOnly.contains executable then none
    -- the whole segment is searched, with the assignments and wrappers before the command
    else if disablesHooks host (normalizeSegment segment) then some hookDisable
    else if configuresHooks executable args then some hookDisable
    else
      (((shellCommand executable args).map evaluate).filter Decision.blocked).or
        (if publishesDirectly host executable args then some directPublication else none)

/-- The body of `evaluate_publication_command`. -/
def judgePublication (host : Host) (evaluate : String → Decision) (command : String) : Decision :=
  let (kept, shellBodies, dataBodies) := splitHeredocs host command.toList
  if dataBodies.any fun body => disablesHooks host (String.ofList body) then hookDisable
  else
    match judgeNested evaluate ((shellBodies ++ substitutions kept).map String.ofList) with
    | some decision => decision
    | none =>
      (((segments kept).map (·.map String.ofList)).findSome?
        (publicationSegment host evaluate)).getD .pass

/-- `evaluate_publication_command`.  A nested command is shorter than the one it stands in, so
    the length of the command bounds the depth of the recursion. -/
def evaluatePublicationCommand (host : Host) (command : String) : Decision :=
  unfolded (judgePublication host) (fun _ => .pass) (command.length + 1) command

end SummitFlow.Guard
