import SummitFlow.Python.PurePath
import SummitFlow.Python.TextMode

/-!
# Mounts at a scratch entry

Model of the mount table of `backend/app/tasks/_retention_scratch.py` and of
`mount_skip_reason`, which keeps an entry that a mount is at, below or of.
-/

namespace SummitFlow.ScratchRetention

/-! ## The mount table -/

def octalDigit (c : Char) : Option Nat :=
  if '0' ≤ c ∧ c ≤ '7' then some (c.toNat - 48) else none

/-- `_unescape`: three octal digits after a backslash are the code of a character. -/
def unescape : List Char → List Char
  | '\\' :: a :: b :: c :: cs =>
    match octalDigit a, octalDigit b, octalDigit c with
    | some x, some y, some z => Char.ofNat ((x * 8 + y) * 8 + z) :: unescape cs
    | _, _, _ => '\\' :: unescape (a :: b :: c :: cs)
  | c :: cs => c :: unescape cs
  | [] => []

/-- A row of the mount table. -/
structure MountRow where
  device : List Char
  root : PurePath
  point : PurePath
deriving DecidableEq, Repr

/-- The fields of a line, if it has more than four. -/
def mountRow (line : List Char) : Option MountRow :=
  match Str.wordsAux [] line with
  | _ :: _ :: device :: root :: point :: _ =>
    some ⟨device, PurePath.parse (unescape root), PurePath.parse (unescape point)⟩
  | _ => none

/-- `_mount_table` of what is read of the file, if it can be read. -/
def mountTable (mountinfo : Option String) : Option (List MountRow) :=
  mountinfo.map fun content =>
    (Str.splitlinesAux [] (Str.newlines content.toList)).filterMap mountRow

/-! ## The reason to keep an entry -/

/-- The deepest mount so far that holds the path; of two equally deep ones the later. -/
def deeper (target : PurePath) (holder : Option MountRow) (mount : MountRow) : Option MountRow :=
  if target.within mount.point &&
      holder.all (fun held => held.point.partCount ≤ mount.point.partCount) then some mount
  else holder

/-- `mount_skip_reason`. -/
def mountSkipReason (realpath : PurePath → PurePath) (mountinfo : Option String) (path : PurePath) :
    Option String :=
  match mountTable mountinfo with
  | none => some "mount table unreadable"
  | some table =>
    let target := realpath path
    match table.find? fun mount => mount.point.within target with
    | some inside => some ("mount point " ++ String.ofList inside.point.text ++ " inside")
    | none =>
      match table.foldl (deeper target) none with
      | none => some "no mount holds it"
      | some holder =>
        let source := target.moved holder.point holder.root
        match table.find? fun other => other.device = holder.device && other.root.within source with
        | some shown => some ("bind-mounted at " ++ String.ofList shown.point.text)
        | none => none

end SummitFlow.ScratchRetention
