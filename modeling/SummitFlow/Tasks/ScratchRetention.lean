import SummitFlow.ForStd.SortedBy
import SummitFlow.Tasks.ScratchMounts
import Mathlib.Data.String.Basic

/-!
# Scratch retention

Model of the age review and the cleanup of `backend/app/tasks/_retention_scratch.py`.  The
scratch root is a tree that nobody else changes while retention runs.  Each of its files says
what the kernel answers to this account: a file may not be statted, a directory not listed or
opened, a name not removed.  Times are in nanoseconds.  `symlink_references` and
`open_scratch_paths` look at the rest of the machine; what they find, and the mount tables
that are read, are `Surroundings`.
-/

namespace SummitFlow.ScratchRetention

/-! ## The tree -/

structure OSError where
  errno : Nat
  strerror : String
deriving DecidableEq, Repr

def eBusy : Nat := 16
def eXDev : Nat := 18
/-- What `lstat` reads. -/
structure Stat where
  dev : Nat
  ino : Nat
  uid : Nat
  mtime : Int
  ctime : Int
  atime : Int
  size : Nat
deriving DecidableEq, Repr

/-- The errors with which the kernel answers this account, if any. -/
structure Access where
  lstat : Option OSError
  list : Option OSError
  /-- the directory is opened, and the mount id of the open directory read -/
  enter : Option OSError
  /-- the name is unlinked, or the empty directory removed -/
  remove : Option OSError
deriving DecidableEq, Repr

structure File where
  name : List Char
  info : Stat
  /-- the id of the mount that the name leads to -/
  mount : Nat
  access : Access
deriving DecidableEq, Repr

inductive Kind where
  | plain
  /-- a symbolic link, to a directory or not -/
  | link (directory : Bool)
deriving DecidableEq, Repr

inductive Node where
  | leaf (file : File) (kind : Kind)
  /-- `opened` are the device and the inode that the open directory shows; an automount may
      show others than the name -/
  | dir (file : File) (opened : Nat × Nat) (children : List Node)

namespace Node

def file : Node → File
  | leaf file _ => file
  | dir file _ _ => file

def isDir : Node → Bool
  | leaf _ _ => false
  | dir _ _ _ => true

def isSymlink : Node → Bool
  | leaf _ (.link _) => true
  | _ => false

/-- `os.walk` lists the name among the directories. -/
def listedAsDir : Node → Bool
  | leaf _ (.link directory) => directory
  | leaf _ .plain => false
  | dir _ _ _ => true

/-- `_activity`: the times of a directory are refreshed by the scan itself. -/
def activity (node : Node) : Int :=
  let info := node.file.info
  if node.isDir then max info.mtime info.ctime else max (max info.mtime info.ctime) info.atime

end Node

/-! ## Age -/

mutual

/-- What `os.walk` lists below a node, in this order. -/
def walk : Node → List Node
  | .leaf _ _ => []
  | .dir file _ children =>
    match file.access.list with
    | some _ => []
    | none => children.filter Node.listedAsDir ++ children.filter (!·.listedAsDir) ++ walkAll children

def walkAll : List Node → List Node
  | [] => []
  | child :: rest => walk child ++ walkAll rest

end

structure TreeStats where
  newest : Int
  size : Nat
  count : Nat
deriving DecidableEq, Repr

/-- The loop of `_tree_stats`: a file that cannot be statted is passed over. -/
def countAll (maxEntries device : Nat) : TreeStats → List Node → Except OSError (Option TreeStats)
  | stats, [] => .ok (some stats)
  | stats, node :: rest =>
    let count := stats.count + 1
    if maxEntries < count then .ok none
    else match node.file.access.lstat with
      | some _ => countAll maxEntries device { stats with count } rest
      | none =>
        if node.file.info.dev ≠ device then .error ⟨eXDev, "another filesystem inside"⟩
        else countAll maxEntries device
          ⟨max stats.newest node.activity, stats.size + node.file.info.size, count⟩ rest

/-- `_tree_stats`. -/
def treeStats (maxEntries : Nat) (node : Node) : Except OSError (Option TreeStats) :=
  match node.file.access.lstat with
  | some error => .error error
  | none =>
    countAll maxEntries node.file.info.dev ⟨node.activity, node.file.info.size, 1⟩ (walk node)

/-! ## Removal -/

/-- What was removed, and the error that stopped the removal. -/
structure Removal where
  removed : List Node
  error : Option OSError

def Removal.stop (error : OSError) : Removal := ⟨[], some error⟩

/-- The second removal follows the first, if that is not stopped. -/
def Removal.andThen (first : Removal) (second : Removal) : Removal :=
  match first.error with
  | some _ => first
  | none => ⟨first.removed ++ second.removed, second.error⟩

/-- `os.unlink` or `os.rmdir` in a directory on the mount: a mount point is busy. -/
def unlink (mount : Nat) (node : Node) : Removal :=
  if node.file.mount ≠ mount then .stop ⟨eBusy, "Device or resource busy"⟩
  else match node.file.access.remove with
    | some error => .stop error
    | none => ⟨[node], none⟩

mutual

/-- A step of the loop of `_empty_dir`. -/
def removeChild (device mount : Nat) : Node → Removal
  | .leaf file kind =>
    match file.access.lstat with
    | some error => .stop error
    | none =>
      if file.info.dev ≠ device then .stop ⟨eXDev, "another filesystem inside"⟩
      else unlink mount (.leaf file kind)
  | .dir file opened children =>
    match file.access.lstat with
    | some error => .stop error
    | none =>
      if file.info.dev ≠ device then .stop ⟨eXDev, "another filesystem inside"⟩
      else match file.access.enter with
        | some error => .stop error
        | none =>
          if opened ≠ (file.info.dev, file.info.ino) then
            .stop ⟨eXDev, "changed or another filesystem"⟩
          else if file.mount ≠ mount then .stop ⟨eXDev, "mount point inside"⟩
          else match file.access.list with
            | some error => .stop error
            | none =>
              (emptyDir device mount children).andThen (unlink mount (.dir file opened children))

/-- `_empty_dir` of the files that were listed. -/
def emptyDir (device mount : Nat) : List Node → Removal
  | [] => ⟨[], none⟩
  | child :: rest => (removeChild device mount child).andThen (emptyDir device mount rest)

end

/-! ## The scratch root -/

structure Root where
  path : PurePath
  info : Stat
  mount : Nat
  access : Access
  children : List Node
  names_nodup : (children.map fun child => child.file.name).Nodup

/-- The path of a child of the root. -/
def Root.at (root : Root) (name : List Char) : PurePath :=
  ⟨root.path.slashes, root.path.names ++ [name]⟩

def Root.lookup (root : Root) (path : PurePath) : Option Node :=
  root.children.find? fun child => root.at child.file.name = path

structure ScratchSkip where
  path : PurePath
  reason : String

def cutoff (now : Int) (maxAgeHours : Nat) : Int := now - maxAgeHours * 3600 * 1000000000

inductive Outcome where
  | kept (reason : String)
  | failed (error : OSError) (removed : List Node)
  | deleted (size : Nat) (removed : List Node)

structure ScratchApply where
  status : String
  deletedPaths : List PurePath
  bytesReclaimed : Nat
  kept : List ScratchSkip
  /-- the number of entries the review left as they are -/
  skipped : Nat
  complete : Bool
  /-- what was removed, by entry -/
  removals : List (PurePath × List Node)

def ScratchApply.record (result : ScratchApply) (path : PurePath) : Outcome → ScratchApply
  | .kept reason => { result with kept := result.kept ++ [⟨path, reason⟩] }
  | .failed error removed =>
    { result with
      status := "partial"
      kept := result.kept ++ [⟨path, "delete failed: " ++ error.strerror⟩]
      removals := result.removals ++ [(path, removed)] }
  | .deleted size removed =>
    { result with
      deletedPaths := result.deletedPaths ++ [path]
      bytesReclaimed := result.bytesReclaimed + size
      removals := result.removals ++ [(path, removed)] }

end SummitFlow.ScratchRetention
