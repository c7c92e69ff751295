import SummitFlow.Cli.NativePlan
import SummitFlow.ForStd.SortedBy
import SummitFlow.Python.Re
import Mathlib.Data.String.Basic

/-!
# The inputs of a stage

Model of `_glob_pattern`, `_selected` and `stage_inputs` (`backend/cli/commands/check_native.py`):
a path glob is written as a regular expression, which has to match a whole tracked path.
-/

namespace SummitFlow.NativeCheck

/-- What the loop of `_glob_pattern` meets in a pattern. -/
inductive GlobToken where
  /-- `**/` -/
  | directories
  /-- `**` -/
  | anything
  /-- `*` -/
  | part
  /-- `?` -/
  | character
  | itself (c : Char)
deriving DecidableEq, Repr

/-- The rounds of the loop. -/
def globTokens : List Char → List GlobToken
  | [] => []
  | '*' :: '*' :: '/' :: cs => .directories :: globTokens cs
  | '*' :: '*' :: cs => .anything :: globTokens cs
  | '*' :: cs => .part :: globTokens cs
  | '?' :: cs => .character :: globTokens cs
  | c :: cs => .itself c :: globTokens cs

/-- What a round appends to the expression. -/
def GlobToken.expression : GlobToken → List Char
  | directories => "(?:.*/)?".toList
  | anything => ".*".toList
  | part => "[^/]*".toList
  | character => "[^/]".toList
  | itself c => Re.escape c

/-- A literal directory also selects everything beneath it. -/
def beneath : List Char := "(?:/.*)?".toList

/-- The expression of `_glob_pattern`. -/
def globExpression (pattern : String) : List Char :=
  let pattern := Str.rstripSlash pattern
  let expression := (globTokens pattern.toList).flatMap GlobToken.expression
  if Str.endswith pattern "*" then expression else expression ++ beneath

/-- No flags; the expressions have no `\b`. -/
def globFlags : Re.Flags := ⟨false, fun _ => false⟩

/-- `_glob_pattern`. -/
def globPattern (pattern : String) : Option (Regex Char) :=
  Re.compile globFlags (globExpression pattern)

/-- `_selected`. -/
def selected (path : String) (patterns : List String) : Bool :=
  patterns.any fun pattern => (globPattern pattern).any fun r => r.fullmatch path.toList

/-- `stage_inputs`, with the tracked files of the tree by their paths. -/
def stageInputs {α : Type} (stage : Stage) (tree : List (String × α)) : List String :=
  sortBy id ((tree.map Prod.fst).filter fun path =>
    selected path stage.inputs && !selected path stage.exclude)

end SummitFlow.NativeCheck
