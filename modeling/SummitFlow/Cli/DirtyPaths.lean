import SummitFlow.Python.TextMode

/-!
# Dirty paths

Model of `dirty_paths` of `backend/cli/lib/coord.py`, which reads the output of
`git status --porcelain=v1 -z`, and of that output: an entry is two status letters, a blank
and a path, and after it the path it was renamed or copied from, each ended by a NUL.
-/

namespace SummitFlow.Coord

/-- The fields that are left of the output, one at a time; `source` is what `next` gives. -/
def dirtyItems : List (List Char) → List (List Char)
  | [] => []
  | item :: items =>
    if item.length < 4 then dirtyItems items
    else if item.head? = some 'R' ∨ item.head? = some 'C' then
      match items with
      | [] => [item.drop 3]
      | source :: rest =>
        if item.head? = some 'R' ∧ source ≠ [] then item.drop 3 :: source :: dirtyItems rest
        else item.drop 3 :: dirtyItems rest
    else item.drop 3 :: dirtyItems items

/-- `dirty_paths`; `status` is what git prints, or `none` when it fails. -/
def dirtyPaths (status : Option String) : Option (List String) :=
  status.map fun stdout =>
    (dirtyItems (Str.splitOnChar '\x00' (Str.newlines stdout.toList))).map String.ofList

/-! ## What git prints -/

/-- The letters of a status. -/
def statusLetters : List Char := [' ', 'M', 'T', 'A', 'D', 'R', 'C', 'U', '?', '!']

/-- An entry has a source path exactly when a letter says so. -/
def sourced (x y : Char) : Bool := x == 'R' || x == 'C' || y == 'R' || y == 'C'

/-- A path as the file system has it, which has a character and no NUL. -/
structure FilePath where
  text : String
  nonempty : text.toList ≠ []
  noNul : '\x00' ∉ text.toList

structure StatusEntry where
  x : Char
  y : Char
  path : FilePath
  source : Option FilePath
  letters : x ∈ statusLetters ∧ y ∈ statusLetters
  sourced : source.isSome = sourced x y

namespace StatusEntry

/-- The fields of an entry. -/
def fields (e : StatusEntry) : List (List Char) :=
  (e.x :: e.y :: ' ' :: e.path.text.toList) :: (e.source.map fun s => s.text.toList).toList

/-- The entry with the source path after a rename, and without it after a copy. -/
def paths (e : StatusEntry) : List String :=
  e.path.text :: if e.x = 'R' ∨ e.y = 'R' then (e.source.map FilePath.text).toList else []

end StatusEntry

/-- The output of `git status --porcelain=v1 -z`. -/
def porcelain (entries : List StatusEntry) : String :=
  String.ofList ((entries.flatMap StatusEntry.fields).flatMap fun field => field ++ ['\x00'])

end SummitFlow.Coord
