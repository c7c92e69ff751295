import SummitFlow.Python.Str

/-!
# POSIX paths

`os.path.normpath` and the joins the modelled code makes, on the components between
slashes.
-/

namespace SummitFlow.PosixPath

/-- `os.path.isabs`. -/
def isAbsolute (path : String) : Bool := Str.startswith path "/"

/-- One component of `normpath`: empty ones and `.` vanish, `..` drops the component
    before it where there is one to drop.  `rooted` says that the path is absolute;
    `kept` holds the components so far, last first. -/
def normStep (rooted : Bool) (kept : List (List Char)) (comp : List Char) : List (List Char) :=
  if comp = [] ∨ comp = ['.'] then kept
  else if comp ≠ ['.', '.'] then comp :: kept
  else match kept with
  | [] => if rooted then [] else [comp]
  | last :: rest => if last = ['.', '.'] then comp :: kept else rest

/-- The slashes a normalized path starts with: two only when there were exactly two. -/
def leadingSlashes (path : String) : Nat :=
  if Str.startswith path "//" && !Str.startswith path "///" then 2
  else if Str.startswith path "/" then 1
  else 0

/-- `os.path.normpath`. -/
def normpath (path : String) : String :=
  let slashes := leadingSlashes path
  let comps := ((Str.splitOnChar '/' path.toList).foldl (normStep (slashes != 0)) []).reverse
  let text := List.replicate slashes '/' ++ ['/'].intercalate comps
  if text.isEmpty then "." else String.ofList text

/-- `str(Path(path))`: empty components and `.` vanish, `..` stays. -/
def pathStr (path : String) : String :=
  let comps := (Str.splitOnChar '/' path.toList).filter fun comp => comp != [] && comp != ['.']
  let text := List.replicate (leadingSlashes path) '/' ++ ['/'].intercalate comps
  if text.isEmpty then "." else String.ofList text

/-- `os.path.join(root, path)`. -/
def join (root path : String) : String :=
  if isAbsolute path then path
  else if root = "" ∨ Str.endswith root "/" then root ++ path
  else root ++ "/" ++ path

/-- `os.path.dirname`. -/
def dirname (path : String) : String :=
  let head := path.toList.rdropWhile (· != '/')
  let trimmed := head.rdropWhile (· == '/')
  String.ofList (if trimmed = [] then head else trimmed)

/-- `Path(path).name`. -/
def pathName (path : String) : String :=
  let comps := (Str.splitOnChar '/' path.toList).filter fun comp => comp != [] && comp != ['.']
  String.ofList (comps.getLast?.getD [])

/-- The users of a host: `$HOME` (or the caller's home in the password file) and the
    other home directories. -/
structure Users where
  home : String
  homeOf : String → Option String

/-- `os.path.expanduser`. -/
def expanduser (users : Users) (path : String) : String :=
  match path.toList with
  | '~' :: rest =>
    let user := rest.takeWhile (· != '/')
    let rest := rest.dropWhile (· != '/')
    match (if user = [] then some users.home else users.homeOf (String.ofList user)) with
    | none => path
    | some home =>
      let expanded := Str.rstripSlash home ++ String.ofList rest
      if expanded = "" then "/" else expanded
  | _ => path

example : normpath "/a//b/../c/." = "/a/c" := by decide

example : normpath "../../a" = "../../a" := by decide

end SummitFlow.PosixPath
