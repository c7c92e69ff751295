import SummitFlow.Services.CommandGuardHelpers

/-!
# The live irreversible-command hook

Model of `evaluate_irreversible_command` and what it calls in
`backend/app/services/_publication_guard.py`: removing here-document bodies line by
line, collecting command substitutions, splitting the rest into segments with `shlex`
and judging each segment in the directory the `cd`s before it lead to.  Regular
expressions are the scanners they describe; each match of the source's expressions is
determined by its start, so none of them backtracks.
-/

namespace SummitFlow.Guard

open PosixPath (normpath expanduser pathName)

def remoteCwd : String := "/root"

def dataSinks : List String := ["cat", "tee"]

def shellKeywords : List String :=
  ["if", "then", "elif", "else", "do", "while", "until", "!", "time"]

def xargsValueOptions : List String :=
  ["-a", "-d", "-E", "-I", "-L", "-n", "-P", "-s", "--arg-file", "--delimiter", "--max-args",
   "--max-procs", "--max-lines", "--max-chars", "--process-slot-var"]

/-- `Path(token).name.lower()`. -/
def executableOf (token : String) : String := Str.lower (pathName token)

/-! ## Unwrapping -/

/-- The options after `xargs`. -/
def skipXargs : List String → List String
  | [] => []
  | [t] => if Str.startswith t "-" then [] else [t]
  | t :: value :: rest =>
    if Str.startswith t "-" then
      if t ∈ xargsValueOptions then skipXargs rest else skipXargs (value :: rest)
    else t :: value :: rest

/-- The loop of `_unwrap`; every round drops a token. -/
def unwrapKeywords : Nat → List String → List String
  | 0, args => args
  | _ + 1, [] => []
  | n + 1, arg :: args =>
    if arg ∈ shellKeywords then unwrapKeywords n (unwrapSegment args)
    else if executableOf arg = "xargs" then unwrapKeywords n (unwrapSegment (skipXargs args))
    else arg :: args

/-- `_unwrap`. -/
def unwrap (segment : List String) : List String :=
  unwrapKeywords segment.length (unwrapSegment segment)

/-- `_nested_command`. -/
def nestedCommand (executable : String) (args : List String) : Option String :=
  if executable = "eval" then
    let text := " ".intercalate (args.drop 1)
    if text = "" then none else some text
  else shellExecArgs (args.drop 1)

/-! ## Substitutions -/

/-- The text up to the first of some characters, when that is `stop`. -/
def bodyUntil (stop : Char) (ends : List Char) (rest : List Char) : Option (List Char) :=
  if (rest.dropWhile (· ∉ ends)).head? = some stop then some (rest.takeWhile (· ∉ ends)) else none

/-- The body of a substitution that starts here: `\$\(([^()]*)\)` or a pair of backticks. -/
def substitutionAt : List Char → Option (List Char)
  | '$' :: '(' :: rest => bodyUntil ')' ['(', ')'] rest
  | '`' :: rest => bodyUntil '`' ['`'] rest
  | _ => none

/-- How many characters the match has around its body. -/
def substitutionMarks : List Char → Nat
  | '$' :: _ => 3
  | _ => 2

/-- `re.finditer`: the first argument counts the characters of the last match still to
    pass. -/
def scanSubstitutions : Nat → List Char → List (List Char)
  | _, [] => []
  | skip + 1, _ :: cs => scanSubstitutions skip cs
  | 0, c :: cs =>
    match substitutionAt (c :: cs) with
    | some body => body :: scanSubstitutions (body.length + substitutionMarks (c :: cs) - 1) cs
    | none => scanSubstitutions 0 cs

/-- `_substitutions`. -/
def substitutions (command : List Char) : List (List Char) := scanSubstitutions 0 command

/-! ## Here-documents -/

/-- A match of `_HEREDOC` in a line: where it starts and ends, the `-`, the delimiter and
    whether the delimiter was bare, so that the shell expands the body. -/
structure Heredoc where
  start : Nat
  stop : Nat
  dash : Bool
  delimiter : List Char
  bare : Bool
deriving DecidableEq, Repr

/-- `\w`. -/
def isWord (host : Host) (c : Char) : Bool := isNameChar c || (128 ≤ c.toNat && host.unicodeWord c)

/-- The delimiter at the start of the text, the number of characters it takes and whether
    it is bare. -/
def delimiterAt (host : Host) : List Char → Option (List Char × Nat × Bool)
  | '\'' :: rest => quoted '\'' rest
  | '"' :: rest => quoted '"' rest
  | '\\' :: rest => (bareWord rest).map fun word => (word, word.length + 1, false)
  | text => (bareWord text).map fun word => (word, word.length, true)
where
  quoted (mark : Char) (rest : List Char) : Option (List Char × Nat × Bool) :=
    let word := rest.takeWhile (· != mark)
    if word ≠ [] ∧ rest.dropWhile (· != mark) ≠ [] then some (word, word.length + 2, false) else none
  bareWord : List Char → Option (List Char)
    | [] => none
    | c :: cs =>
      if isNameStart c then
        some (c :: cs.takeWhile fun c => isWord host c || c == '.' || c == '-')
      else none

/-- A match of `_HEREDOC` at the start of the text: the `-`, the delimiter, its bareness
    and the length of the match. -/
def heredocAt (host : Host) : List Char → Option (Bool × List Char × Bool × Nat)
  | '<' :: '<' :: rest =>
    let dash := rest.head? = some '-'
    let rest := if dash then rest.drop 1 else rest
    let blanks := rest.takeWhile fun c => c == ' ' || c == '\t'
    (delimiterAt host (rest.drop blanks.length)).map fun (word, length, bare) =>
      (dash, word, bare, 2 + (if dash then 1 else 0) + blanks.length + length)
  | _ => none

/-- `_HEREDOC.finditer(line)`: `before` is the character before the text, `skip` what is
    left of the last match. -/
def scanHeredocs (host : Host) : Nat → Nat → Option Char → List Char → List Heredoc
  | _, _, _, [] => []
  | skip + 1, index, _, c :: cs => scanHeredocs host skip (index + 1) (some c) cs
  | 0, index, before, c :: cs =>
    if before.any fun b => b == '<' || isWord host b then
      scanHeredocs host 0 (index + 1) (some c) cs
    else match heredocAt host (c :: cs) with
    | some (dash, word, bare, length) =>
      ⟨index, index + length, dash, word, bare⟩ ::
        scanHeredocs host (length - 1) (index + 1) (some c) cs
    | none => scanHeredocs host 0 (index + 1) (some c) cs

/-- `re.split(r"\$\(|`|\(|;|&&|\|\||\|", text)[-1]`. -/
def lastPiece : List Char → List Char → List Char
  | piece, [] => piece
  | _, '&' :: '&' :: cs => lastPiece [] cs
  | piece, c :: cs =>
    if c == '`' || c == '(' || c == ';' || c == '|' then lastPiece [] cs
    else lastPiece (piece ++ [c]) cs

/-- `re.split(r";|&&|\|\|", text)[0]`. -/
def firstPipeline : List Char → List Char
  | [] => []
  | ';' :: _ => []
  | '&' :: '&' :: _ => []
  | '|' :: '|' :: _ => []
  | c :: cs => c :: firstPipeline cs

/-- `prefix[:max(prefix.rfind("$("), prefix.rfind("`"))]`, `none` when neither occurs. -/
def beforeLastSubstitution : List Char → Option (List Char)
  | [] => none
  | c :: cs =>
    match beforeLastSubstitution cs with
    | some rest => some (c :: rest)
    | none => if c = '`' ∨ (c = '$' ∧ cs.head? = some '(') then some [] else none

/-- `_inert_output`. -/
def inertOutput (line : List Char) : Bool :=
  match beforeLastSubstitution line with
  | none => true
  | some outer =>
    let piece := (lastPiece [] outer).map fun c => if c == '"' || c == '\'' then ' ' else c
    let words := (Str.wordsAux [] piece).map fun word => executableOf (String.ofList word)
    !words.isEmpty && !words.any fun word =>
      shellExecutables.contains word || ["eval", "source", "."].contains word

/-- What reads a here-document's body. -/
inductive Consumer where
  | shell | other | data
deriving DecidableEq, Repr

/-- Whether a shell stands downstream in the pipeline; a part that cannot be lexed counts
    as one. -/
def pipedIntoShell (downstream : List (List Char)) : Bool :=
  downstream.any fun part =>
    match Shlex.split (Str.strip (String.ofList part)) with
    | none => true
    | some words =>
      match unwrap words with
      | [] => false
      | piped :: _ => shellExecutables.contains (executableOf piped)

/-- `ssh host <<EOF` and `ssh host bash <<EOF` run the body as remote commands. -/
def sshReadsCommands (args : List String) : Bool :=
  match (sshRemoteCommand args).map fun remote => Str.wordsAux [] remote.toList with
  | none | some [] => true
  | some (word :: words) =>
    shellExecutables.contains (executableOf (String.ofList word)) &&
      !(word :: words).contains "-c".toList

/-- `cat` and `tee` that only write the body somewhere. -/
def inertSink (executable : String) (args : List String) (line before pipeline : List Char)
    (start : Nat) : Bool :=
  let writesFile :=
    if executable = "cat" then (before ++ (Str.splitOnChar '|' pipeline).headD []).contains '>'
    else (args.drop 1).any fun arg => !Str.startswith arg "-"
  writesFile || (executable = "cat" && inertOutput (line.take start))

/-- `_heredoc_consumer`. -/
def heredocConsumer (line : List Char) (heredoc : Heredoc) : Consumer :=
  let before := lastPiece [] (line.take heredoc.start)
  let pipeline := firstPipeline (line.drop heredoc.stop)
  match Shlex.split (String.ofList before) with
  | none => .other
  | some words =>
    let args := unwrap words
    let executable := match args with
      | [] => ""
      | arg :: _ => executableOf arg
    let downstream := (Str.splitOnChar '|' pipeline).drop 1
    if pipedIntoShell downstream then .shell
    else if shellExecutables.contains executable && (shellExecArgs (args.drop 1)).isNone then .shell
    else if executable = "ssh" ∧ sshReadsCommands args then .shell
    else if dataSinks.contains executable &&
        inertSink executable args line before pipeline heredoc.start && downstream.isEmpty then .data
    else .other

/-- Where the line loop of `_split_heredocs` is: the lines kept, the bodies found, the
    here-documents of the current command line whose bodies are still to be read with what
    reads them, and the lines of the first of these. -/
structure HeredocState where
  kept : List (List Char)
  shellBodies : List (List Char)
  dataBodies : List (List Char)
  pending : List (Heredoc × Consumer)
  body : List (List Char)

def HeredocState.initial : HeredocState where
  kept := []
  shellBodies := []
  dataBodies := []
  pending := []
  body := []

/-- The end of a body: a bare delimiter's body still has its substitutions expanded. -/
def HeredocState.close (s : HeredocState) (heredoc : Heredoc) (kind : Consumer)
    (rest : List (Heredoc × Consumer)) : HeredocState :=
  let text := ['\n'].intercalate s.body
  let expanded := if heredoc.bare then substitutions text else []
  { s with
    shellBodies := s.shellBodies ++ (expanded ++ if kind = .shell then [text] else [])
    dataBodies := s.dataBodies ++ (if kind = .other then [text] else [])
    pending := rest
    body := [] }

/-- The here-documents a command line announces; the first one decides what reads them. -/
def announced (host : Host) (line : List Char) : List (Heredoc × Consumer) :=
  match scanHeredocs host 0 0 none line with
  | [] => []
  | heredoc :: rest =>
    let kind := heredocConsumer line heredoc
    (heredoc :: rest).map fun heredoc => (heredoc, kind)

/-- The line that ends the body; `<<-` allows tabs before it. -/
def Heredoc.endsAt (heredoc : Heredoc) (line : List Char) : Bool :=
  (if heredoc.dash then line.dropWhile (· == '\t') else line) == heredoc.delimiter

/-- One line. -/
def HeredocState.line (host : Host) (s : HeredocState) (line : List Char) : HeredocState :=
  match s.pending with
  | [] => { s with kept := s.kept ++ [line], pending := announced host line }
  | (heredoc, kind) :: rest =>
    if heredoc.endsAt line then
      { s with kept := s.kept ++ [line] }.close heredoc kind rest
    else { s with body := s.body ++ [line] }

/-- The end of the text closes the bodies that are still open. -/
def HeredocState.finish (s : HeredocState) : HeredocState :=
  s.pending.foldl (fun s p => s.close p.1 p.2 []) s

/-- `_split_heredocs`: the command without bodies, the shell bodies and the data bodies. -/
def splitHeredocs (host : Host) (command : List Char) :
    List Char × List (List Char) × List (List Char) :=
  let s := ((Str.splitOnChar '\n' command).foldl (HeredocState.line host) .initial).finish
  (['\n'].intercalate s.kept, s.shellBodies, s.dataBodies)

/-! ## Segments -/

/-- The lexer of `_segments`. -/
def segmentLexer : Shlex.Config := ⟨[' ', '\t', '\r'], [';', '&', '|', '\n'], true⟩

/-- The lexer of `split_shell_segments`. -/
def fallbackLexer : Shlex.Config := ⟨[' ', '\t', '\r', '\n'], [';', '&', '|'], true⟩

/-- A token made of separator characters only. -/
def isSeparator (token : List Char) : Bool :=
  !token.isEmpty && token.all fun c => c == ';' || c == '&' || c == '|' || c == '\n'

/-- The tokens between separators, without empty groups; `current` is the group so far. -/
def groupTokens (separator : List Char → Bool) :
    List (List Char) → List (List Char) → List (List (List Char))
  | current, [] => if current.isEmpty then [] else [current]
  | current, token :: tokens =>
    if separator token then
      if current.isEmpty then groupTokens separator [] tokens
      else current :: groupTokens separator [] tokens
    else groupTokens separator (current ++ [token]) tokens

/-- `_SHELL_SEPARATORS`. -/
def shellSeparators : List (List Char) := [[';'], ['&', '&'], ['|', '|'], ['|']]

/-- `split_shell_segments`. -/
def splitShellSegments (command : List Char) : List (List (List Char)) :=
  match Shlex.tokens fallbackLexer command with
  | none => [[command]]
  | some tokens => groupTokens (shellSeparators.contains ·) [] tokens

/-- The cleanup of one segment: grouping characters around it go. -/
def cleanSegment (segment : List (List Char)) : Option (List (List Char)) :=
  match segment.dropWhile fun token => token == ['('] || token == ['{'] || token == ['!'] with
  | [] => none
  | first :: rest =>
    let segment := first.dropWhile (fun c => c == '(' || c == '{') :: rest
    let segment := segment.dropLast ++
      [(segment.getLast?.getD []).rdropWhile fun c => c == ')' || c == '}']
    let words := segment.filter (· ≠ [])
    some (if words = [] then segment else words)

/-- `_segments`. -/
def segments (command : List Char) : List (List (List Char)) :=
  match Shlex.tokens segmentLexer command with
  | none => splitShellSegments command
  | some tokens => (groupTokens isSeparator [] tokens).filterMap cleanSegment

/-! ## Evaluation -/

/-- The directory after a `cd`; a target the shell still expands leaves it where it is. -/
def changeDirectory (host : Host) (working : String) (args : List String) : String :=
  let target := ((args.drop 1).find? fun arg => !Str.startswith arg "-").getD "~"
  if unresolved target then working else resolve host working target

/-- What a segment asks for. -/
inductive Judged where
  | pass (working : String)
  | blocked (decision : Decision)

/-- The decision of a nested evaluation. -/
def Judged.of (working : String) (decision : Decision) : Judged :=
  if decision.blocked then .blocked decision else .pass working

/-- One segment in a directory; `evaluate` judges the commands nested in it. -/
def judgeSegment (host : Host) (evaluate : String → String → Decision) (working : String)
    (segment : List String) : Judged :=
  match unwrap segment with
  | [] => .pass working
  | arg :: rest =>
    let args := arg :: rest
    let executable := executableOf arg
    if executable = "cd" then .pass (changeDirectory host working args)
    else if shellExecutables.contains executable || executable == "eval" then
      match nestedCommand executable args with
      | some nested => .of working (evaluate nested working)
      | none => .pass working
    else if executable = "ssh" then
      match sshRemoteCommand args with
      | some remote => .of working (evaluate remote remoteCwd)
      | none => .pass working
    else
      match irreversibleSegmentDecision host args working with
      -- the command is not reflected: it may hold credentials
      | some decision => .blocked { decision with blocked := true, command := "" }
      | none => .pass working

/-- The segments in order, each in the directory the ones before it lead to. -/
def judgeSegments (host : Host) (evaluate : String → String → Decision) :
    String → List (List String) → Decision
  | _, [] => .pass
  | working, segment :: rest =>
    match judgeSegment host evaluate working segment with
    | .blocked decision => decision
    | .pass working => judgeSegments host evaluate working rest

/-- The first nested text that is blocked. -/
def judgeNested (evaluate : String → Decision) (texts : List String) : Option Decision :=
  (texts.map evaluate).find? Decision.blocked

/-- The body of `evaluate_irreversible_command` in a directory. -/
def judge (host : Host) (evaluate : String → String → Decision) (command : String)
    (working : String) : Decision :=
  let (kept, shellBodies, _) := splitHeredocs host command.toList
  match judgeNested (evaluate · working) ((shellBodies ++ substitutions kept).map String.ofList) with
  | some decision => decision
  | none => judgeSegments host evaluate working ((segments kept).map (·.map String.ofList))

/-- `os.path.normpath(os.path.expanduser(cwd)) if cwd else os.getcwd()`. -/
def workingDirectory (host : Host) (cwd : Option String) : String :=
  match cwd with
  | none => host.getcwd
  | some cwd => if cwd = "" then host.getcwd else normpath (expanduser host.users cwd)

/-- The recursion of `evaluate_irreversible_command`, to a depth. -/
def evaluateTo (host : Host) : Nat → String → String → Decision
  | 0, _, _ => .pass
  | depth + 1, command, cwd =>
    judge host (evaluateTo host depth) command (workingDirectory host (some cwd))

/-- `evaluate_irreversible_command`.  A nested command is shorter than the one it stands in,
    so the length of the command bounds the depth of the recursion. -/
def evaluateIrreversibleCommand (host : Host) (command : String) (cwd : Option String) : Decision :=
  judge host (evaluateTo host command.length) command (workingDirectory host cwd)

end SummitFlow.Guard
