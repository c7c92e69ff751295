import Mathlib.Data.List.Sort
import SummitFlow.ForStd.Digits
import SummitFlow.ForStd.Flock
import SummitFlow.ForStd.Run
import SummitFlow.Python.Error
import SummitFlow.Python.Str

/-!
# Heavy-work lanes

Model of `backend/app/utils/heavy_work.py`.  A call of `heavy_work` runs one system
call after the other: its `Position` is the statement it is about to run, and
`Position.next` gives the system call together with where the call goes on its answer.
The calls of any number of processes interleave between system calls, and between any
two of them a process can fork, close what it inherited, or be killed.

Clock, `uuid4`, the memory gates and the end of a body are answered by an `Input`.  The
record of a lane's holder is only shown to the user: of the functions that read and write
it there is the metadata lock they take.
-/

namespace SummitFlow.HeavyWork

open Flock (Mode Attempt Kernel)

inductive Lane where
  | heavy | heavy2 | light
deriving DecidableEq, Repr

inductive WorkClass where
  | heavy | light
deriving DecidableEq, Repr

def Lane.name : Lane → String
  | .heavy => "heavy"
  | .heavy2 => "heavy2"
  | .light => "light"

def WorkClass.name : WorkClass → String
  | .heavy => "heavy"
  | .light => "light"

/-- The lane named like the class. -/
def WorkClass.lane : WorkClass → Lane
  | .heavy => .heavy
  | .light => .light

/-- `_lane_class`. -/
def laneClass : Lane → WorkClass
  | .light => .light
  | _ => .heavy

/-- `_token_lane`. -/
def tokenLane (token : String) : Lane :=
  let head := String.ofList (token.toList.takeWhile (· != ':'))
  if head = "light" then .light else if head = "heavy2" then .heavy2 else .heavy

/-- The files of the lock directory.  A lock file is never removed, so its name stands for
    it; a ticket is known by its inode. -/
inductive File where
  | admission (lane : Lane)
  | activity (lane : Lane)
  | depth (lane : Lane) (n : Nat)
  | queue
  | ticket (inode : Nat)
deriving DecidableEq, Repr

/-! ## Tokens -/

/-- What the token in `ST_HEAVY_LEASE` says. -/
structure Claim where
  generation : String
  fd : Nat
  depth : Nat
  branch : Nat
deriving DecidableEq, Repr

/-- The characters `str.isdigit` accepts that are no decimal digits. -/
def digitRanges : List (Nat × Nat) :=
  [(0xb2, 0xb3), (0xb9, 0xb9), (0x1369, 0x1371), (0x19da, 0x19da), (0x2070, 0x2070),
   (0x2074, 0x2079), (0x2080, 0x2089), (0x2460, 0x2468), (0x2474, 0x247c), (0x2488, 0x2490),
   (0x24ea, 0x24ea), (0x24f5, 0x24fd), (0x24ff, 0x24ff), (0x2776, 0x277e), (0x2780, 0x2788),
   (0x278a, 0x2792), (0x10a40, 0x10a43), (0x10e60, 0x10e68), (0x11052, 0x1105a),
   (0x1f100, 0x1f10a)]

/-- `text.isdigit()`. -/
def isdigit (cs : List Char) : Bool :=
  !cs.isEmpty && cs.all fun c => (Str.digitValue c).isSome ||
    digitRanges.any fun r => r.1 ≤ c.toNat && c.toNat ≤ r.2

/-- `[0-9a-f]`. -/
def isHex (c : Char) : Bool := c.isDigit || ('a' ≤ c && c ≤ 'f')

/-- `[0-9a-f]{32}`. -/
def isHex32 (cs : List Char) : Bool := cs.length == 32 && cs.all isHex

/-- `int(text)`. -/
def int (cs : List Char) : Except PyError Nat :=
  match Str.intOf cs with
  | some n => .ok n
  | none => .error (.valueError "invalid literal for int() with base 10")

/-- The parts of the token of a lane, when it is one that another process may have
    given to this one. -/
def parseToken (token : String) (lane : Lane) (pid : Nat) : Except PyError (Option Claim) :=
  let token := if lane = .heavy then token else Str.removeprefix token (lane.name ++ ":")
  match Str.splitOnChar ':' token.toList with
  | [owner, start, uuid, fd, depth, branch] =>
    if !([owner, start, fd, depth, branch].all fun part => isdigit part && part.length ≤ 20) ||
        !isHex32 uuid then .ok none
    else do
      let inheritedFd ← int fd
      let depth ← int depth
      let branchFd ← int branch
      if inheritedFd < 3 ∨ branchFd < 3 then return none
      if (← int owner) = pid then return none
      return some ⟨String.ofList (owner ++ ':' :: start ++ ':' :: uuid), inheritedFd, depth,
        branchFd⟩
  | _ => .ok none

/-! ## Tickets -/

/-- `uuid.uuid4().hex`. -/
abbrev Uuid := { cs : List Char // isHex32 cs = true }

/-- `f"wait-{work_class}-{order:020d}-{uuid4().hex}.json"`. -/
def ticketName (c : WorkClass) (order : Nat) (uuid : Uuid) : String :=
  String.ofList (("wait-" ++ c.name ++ "-").toList ++ zfill 20 order ++ '-' :: uuid.val ++
    ".json".toList)

/-- `glob(f"wait-{work_class}-*.json")`. -/
def globMatches (c : WorkClass) (name : String) : Bool :=
  Str.startswith name ("wait-" ++ c.name ++ "-") && Str.endswith name ".json"

/-- `re.fullmatch(rf"wait-{work_class}-[0-9]{20}-[0-9a-f]{32}\.json", name)`. -/
def validName (c : WorkClass) (name : String) : Bool :=
  let head := ("wait-" ++ c.name ++ "-").toList
  let rest := name.toList.drop head.length
  head.isPrefixOf name.toList && (rest.take 20).length == 20 && (rest.take 20).all Char.isDigit &&
    rest[20]? == some '-' && isHex32 ((rest.drop 21).take 32) && rest.drop 53 == ".json".toList

/-- `int(name.split("-")[2])`. -/
def orderOf (name : String) : Option Nat :=
  (Str.splitOnChar '-' name.toList)[2]?.bind Str.intOf

/-- What `_live_identity` reads of a waiter's record. -/
structure Identity where
  pid : Nat
  start : String
deriving DecidableEq, Repr

/-- A ticket in the lock directory; `record` is its content, `none` before it is written. -/
structure WaitFile where
  name : String
  inode : Nat
  record : Option Identity
deriving DecidableEq, Repr

/-! ## Statements of a call -/

/-- Which descriptors of a lane's two locks: those of the token's lane (`held`), those
    opened for the requested class (`fresh`), or those of the spare lane. -/
inductive Pair where
  | held | fresh | spare
deriving DecidableEq, Repr

/-- The local variables that have a descriptor. -/
inductive Var where
  | admission (p : Pair)
  | activity (p : Pair)
  | branch
  | queue
  | waiter
  | probe
deriving DecidableEq, Repr

/-- `(lane, admission, descriptor)`. -/
structure Slot where
  lane : Lane
  pair : Pair
deriving DecidableEq, Repr

def Slot.admission (slot : Slot) : Var := .admission slot.pair

def Slot.activity (slot : Slot) : Var := .activity slot.pair

/-- What a call closes at its end, after the branch. -/
def Slot.vars (slot : Slot) : List Var := [slot.activity, slot.admission]

/-- The slot `_wait_owner` is called with: the lane of the requested class, with the
    descriptors opened first or with those opened instead of them. -/
structure Home where
  workClass : WorkClass
  reopened : Bool
deriving DecidableEq, Repr

def Home.slot (home : Home) : Slot := ⟨home.workClass.lane, if home.reopened then .fresh else .held⟩

/-- The slot `_wait_owner` tries: its own, or the spare one. -/
def Home.pick (home : Home) (spare : Bool) : Slot := if spare then ⟨.heavy2, .spare⟩ else home.slot

/-- The ticket of a waiter. -/
structure Ticket where
  home : Home
  order : Nat
  uuid : Uuid
deriving DecidableEq

def Ticket.workClass (ticket : Ticket) : WorkClass := ticket.home.workClass

def Ticket.name (ticket : Ticket) : String :=
  ticketName ticket.workClass ticket.order ticket.uuid

/-- Why a call takes the metadata lock. -/
inductive Errand where
  /-- `_wait_owner` issues its ticket. -/
  | issue (home : Home)
  /-- The loop of `_wait_owner` looks whether it is the first waiter. -/
  | elect (ticket : Ticket)
  /-- The `finally` of `_wait_owner` removes the ticket. -/
  | retire (ticket : Ticket)
  /-- `_write_holder`. -/
  | record (slot : Slot) (generation : String)
  /-- `_verified_holder`, for `lane_activity` with these lanes left. -/
  | inspect (lanes : List Lane)
deriving DecidableEq

/-- The loop of `_waiters`: the path it is at, those left and the live ones so far. -/
structure Scan where
  errand : Errand
  path : String
  rest : List String
  kept : List String
deriving DecidableEq

/-- A process in the walk of `_inherited`, with what `_process` said of it. -/
structure Ancestor where
  pid : Nat
  parent : Nat
  start : String
  seen : List Nat
deriving DecidableEq, Repr

/-- The reads of `_inherited` on one ancestor. -/
inductive Look where
  | holder | holderInfo | branch | branchInfo | stable
deriving DecidableEq, Repr

/-- The statement a call is about to run. -/
inductive Position where
  | openAdmission (lane : Lane)
  | openActivity (lane : Lane)
  | readText (lane : Lane) (claim : Claim)
  | branchExists (lane : Lane) (claim : Claim)
  | process (lane : Lane) (claim : Claim) (pid : Nat) (seen : List Nat)
  | look (lane : Lane) (claim : Claim) (a : Ancestor) (look : Look) (good : Bool)
  | lockShared (lane : Lane) (claim : Claim) (a : Ancestor)
  | recheck (lane : Lane) (claim : Claim)
  | openBranch (slot : Slot) (generation : String) (depth : Nat)
  | waitBranch (slot : Slot) (generation : String) (depth : Nat)
  | reopenAdmission
  | reopenActivity
  | closeActivity
  | closeAdmission
  | openSpareAdmission (home : Home)
  | openSpareActivity (home : Home)
  | openQueue (errand : Errand)
  | lockQueue (errand : Errand)
  | list (errand : Errand)
  | probeOpen (scan : Scan)
  | probeLock (scan : Scan)
  | probeRecord (scan : Scan)
  | probeStatus (scan : Scan) (identity : Identity)
  | probeUnlink (scan : Scan)
  | probeClose (scan : Scan) (live : Bool)
  | probeFail (scan : Scan)
  | order (home : Home) (names : List String)
  | create (ticket : Ticket)
  | lockTicket (ticket : Ticket)
  | sign (ticket : Ticket)
  | leaveQueue (errand : Errand)
  | failQueue (errand : Errand)
  | queue (ticket : Ticket)
  | tryAdmission (ticket : Ticket) (spare : Bool)
  | tryActivity (ticket : Ticket) (spare : Bool)
  | giveBack (ticket : Ticket) (spare : Bool)
  | askSpare (ticket : Ticket)
  | unlinkTicket (ticket : Ticket) (spare : Bool)
  | unlinkOwn (ticket : Ticket)
  | leaveOwner (home : Home) (spare : Bool)
  | closeWaiter (home : Home) (spare : Bool)
  | closeOtherAdmission (home : Home) (spare : Bool)
  | closeOtherActivity (home : Home) (spare : Bool)
  | generate (slot : Slot)
  | truncate (slot : Slot) (generation : String)
  | writeText (slot : Slot) (generation : String)
  | downgrade (slot : Slot) (generation : String)
  | working (slot : Slot) (generation : String) (branch : List Var)
  | closing (v : Var) (vs : List Var) (lanes : List Lane)
  | watchAdmission (lane : Lane) (lanes : List Lane)
  | watchActivity (lane : Lane) (lanes : List Lane)
  | watchLock (lanes : List Lane)
  | watchUnlock (lanes : List Lane)

/-- The arguments of a call: its process, the class it asks for and its token. -/
structure Args where
  pid : Nat
  requested : WorkClass
  token : String
deriving DecidableEq, Repr

/-- What the environment answers. -/
structure Input where
  /-- The number of a new descriptor. -/
  fd : Nat
  /-- `_open_lane` raises. -/
  fails : Bool
  /-- `time.monotonic_ns()`. -/
  clock : Nat
  uuid : Uuid
  /-- `admission_state().admit`. -/
  admits : Bool
  /-- `_spare_capacity()`. -/
  spare : Bool
  /-- The body of the `with` statement is over. -/
  leave : Bool

/-- The fields of `/proc/<pid>/stat` that are read. -/
structure Process where
  parent : Nat
  start : String
  zombie : Bool
deriving DecidableEq, Repr

/-- System calls. -/
inductive Op where
  | «open» (v : Var) (file : File)
  | openTicket (v : Var) (name : String)
  | close (v : Var)
  | flock (v : Var) (mode : Mode)
  | unlock (v : Var)
  | pread (v : Var)
  | pwrite (v : Var) (text : String)
  | stat (pid : Nat)
  | fdFile (pid fd : Nat)
  | fdLock (pid fd : Nat)
  | exists (file : File)
  | glob (c : WorkClass)
  | sign
  | record
  | unlink (name : String)
  | ask
deriving DecidableEq, Repr

/-- What a system call answers; `ask` also with the start time of the own process. -/
def Op.Answer : Op → Type
  | .open .. | .exists .. => Bool
  | .openTicket .. | .close .. | .unlock .. | .pwrite .. | .sign | .unlink .. => Unit
  | .flock .. => Attempt
  | .pread .. => String
  | .stat .. => Option Process
  | .fdFile .. => Option File
  | .fdLock .. => Option (Option Mode)
  | .glob .. => List String
  | .record => Option Identity
  | .ask => Input × String

/-! ## The program -/

/-- The start of `_wait_owner`. -/
def queueUp (home : Home) : Position :=
  match home.workClass with
  | .heavy => .openSpareAdmission home
  | .light => .openQueue (.issue home)

/-- `_inherited` returned `None`. -/
def notInherited (args : Args) (lane : Lane) : Position :=
  if lane ≠ args.requested.lane then .reopenAdmission else queueUp ⟨args.requested, false⟩

/-- The head of the loop of `_inherited`. -/
def walk (args : Args) (lane : Lane) (claim : Claim) (pid : Nat) (seen : List Nat) : Position :=
  if 1 < pid ∧ pid ∉ seen then .process lane claim pid seen else notInherited args lane

/-- The file behind `branch_info`. -/
def branchFile (lane : Lane) (claim : Claim) : File :=
  if claim.depth = 0 then .admission lane else .depth lane claim.depth

/-- The loop of `lane_activity`. -/
def watch : List Lane → Option Position
  | [] => none
  | lane :: lanes => some (.watchAdmission lane lanes)

/-- Close these descriptors; then the call is over, or `lane_activity` has these lanes left. -/
def closeAll (vs : List Var) (lanes : List Lane) : Option Position :=
  match vs with
  | [] => watch lanes
  | v :: vs => some (.closing v vs lanes)

/-- The descriptors of the spare lane, which heavy work opens. -/
def Home.spareVars (home : Home) : List Var :=
  match home.workClass with
  | .heavy => [.admission .spare, .activity .spare]
  | .light => []

/-- The class whose waiters an errand is about. -/
def Errand.workClass : Errand → WorkClass
  | .issue home => home.workClass
  | .elect ticket | .retire ticket => ticket.workClass
  | .record slot _ => laneClass slot.lane
  | .inspect _ => .heavy

/-- An exception leaves the metadata section. -/
def unwind : Errand → Option Position
  | .issue home => closeAll (home.spareVars ++ home.slot.vars) []
  | .elect ticket => some (.openQueue (.retire ticket))
  | .retire ticket =>
    closeAll (.waiter :: ticket.home.spareVars ++ ticket.home.slot.vars) []
  | .record slot _ => closeAll slot.vars []
  | .inspect _ => closeAll (Slot.vars ⟨.heavy, .held⟩) []

/-- The errand is done and the metadata lock given back. -/
def resume : Errand → Option Position
  | .issue home => closeAll (home.spareVars ++ home.slot.vars) []
  | .elect ticket => some (.queue ticket)
  | .retire ticket =>
    closeAll (.waiter :: ticket.home.spareVars ++ ticket.home.slot.vars) []
  | .record slot generation => some (.working slot generation [])
  | .inspect lanes => closeAll (Slot.vars ⟨.heavy, .held⟩) lanes

/-- Under the metadata lock. -/
def body : Errand → Position
  | .issue home => .list (.issue home)
  | .elect ticket => .list (.elect ticket)
  | .retire ticket => .unlinkOwn ticket
  | errand => .leaveQueue errand

/-- What `_wait_owner` does with the sorted names of the live waiters. -/
def scanned : Errand → List String → Position
  | .issue home, names => .order home names
  | .elect ticket, name :: _ =>
    if name = ticket.name then .tryAdmission ticket false
    else .leaveQueue (.elect ticket)
  | errand, _ => .failQueue errand

/-- The head of the loop of `_waiters`. -/
def scanNext (errand : Errand) (kept : List String) : List String → Position
  | [] => scanned errand (kept.insertionSort (· ≤ ·))
  | path :: rest =>
    if validName errand.workClass path then .probeOpen ⟨errand, path, rest, kept⟩
    else .failQueue errand

/-- `_try_lane` returned `False`. -/
def refused (ticket : Ticket) (spare : Bool) : Position :=
  if !spare ∧ ticket.workClass = .heavy then .askSpare ticket
  else .leaveQueue (.elect ticket)

/-- `max(time.monotonic_ns(), int(names[-1].split("-")[2]) + 1 if names else 0)`. -/
def nextOrder (clock : Nat) (names : List String) : Nat :=
  max clock (((names.getLast?.bind orderOf).map (· + 1)).getD 0)

/-- `_wait_owner` closes the pair of descriptors that it did not choose. -/
def closeOther (home : Home) (spare : Bool) : Position :=
  match home.workClass with
  | .heavy => .closeOtherAdmission home spare
  | .light => .generate (home.pick spare)

/-- `_inherited` after its descriptors are open. -/
def inherited (args : Args) (lane : Lane) : Option Position :=
  match parseToken args.token lane args.pid with
  | .error _ => closeAll (Slot.vars ⟨lane, .held⟩) []
  | .ok none => some (notInherited args lane)
  | .ok (some claim) => some (.readText lane claim)

/-- `_inherited` returned a generation. -/
def joined (args : Args) (lane : Lane) (claim : Claim) : Option Position :=
  if laneClass lane = .light ∧ args.requested = .heavy then
    closeAll (Slot.vars ⟨lane, .held⟩) []
  else some (.openBranch ⟨lane, .held⟩ claim.generation (claim.depth + 1))

/-- The system call a position is at, and where its answer leads; `none` is the end of
    the call. -/
def Position.next (args : Args) : Position → (op : Op) × (op.Answer → Option Position)
  | .openAdmission lane => ⟨.open (.admission .held) (.admission lane), fun
    | true => some (.openActivity lane)
    | false => none⟩
  | .openActivity lane => ⟨.open (.activity .held) (.activity lane), fun
    | true => inherited args lane
    | false => closeAll [.admission .held] []⟩
  | .readText lane claim => ⟨.pread (.admission .held), fun (text : String) =>
    some (if text ≠ claim.generation then notInherited args lane
      else if claim.depth = 0 then walk args lane claim args.pid []
      else .branchExists lane claim)⟩
  | .branchExists lane claim => ⟨.exists (.depth lane claim.depth), fun
    | true => some (walk args lane claim args.pid [])
    | false => some (notInherited args lane)⟩
  | .process lane claim pid seen => ⟨.stat pid, fun
    | none => some (notInherited args lane)
    | some p => some (.look lane claim ⟨pid, p.parent, p.start, pid :: seen⟩ .holder true)⟩
  | .look lane claim a .holder good => ⟨.fdFile a.pid claim.fd, fun
    | none => some (walk args lane claim a.parent a.seen)
    | some file => some (.look lane claim a .holderInfo (good && file = .activity lane))⟩
  | .look lane claim a .holderInfo good => ⟨.fdLock a.pid claim.fd, fun
    | none => some (walk args lane claim a.parent a.seen)
    | some lock => some (.look lane claim a .branch (good && lock = some .shared))⟩
  | .look lane claim a .branch good => ⟨.fdFile a.pid claim.branch, fun
    | none => some (walk args lane claim a.parent a.seen)
    | some file => some (.look lane claim a .branchInfo (good && file = branchFile lane claim))⟩
  | .look lane claim a .branchInfo good => ⟨.fdLock a.pid claim.branch, fun
    | none => some (walk args lane claim a.parent a.seen)
    | some lock => some (.look lane claim a .stable (good && lock = some .exclusive))⟩
  | .look lane claim a .stable good => ⟨.stat a.pid, fun
    | none => some (walk args lane claim a.parent a.seen)
    | some p =>
      if good && p.parent = a.parent && p.start = a.start then some (.lockShared lane claim a)
      else some (walk args lane claim a.parent a.seen)⟩
  | .lockShared lane claim a => ⟨.flock (.activity .held) .shared, fun
    | .granted => some (.recheck lane claim)
    | .busy => some (walk args lane claim a.parent a.seen)
    | .again => some (.lockShared lane claim a)⟩
  | .recheck lane claim => ⟨.pread (.admission .held), fun (text : String) =>
    if text ≠ claim.generation then some (notInherited args lane) else joined args lane claim⟩
  | .openBranch slot generation depth => ⟨.open .branch (.depth slot.lane depth), fun
    | true => some (.waitBranch slot generation depth)
    | false => closeAll slot.vars []⟩
  | .waitBranch slot generation depth => ⟨.flock .branch .exclusive, fun
    | .granted => some (.working slot generation [.branch])
    | _ => some (.waitBranch slot generation depth)⟩
  | .reopenAdmission =>
    ⟨.open (.admission .fresh) (.admission args.requested.lane), fun
    | true => some .reopenActivity
    | false => closeAll [.activity .held, .admission .held] []⟩
  | .reopenActivity =>
    ⟨.open (.activity .fresh) (.activity args.requested.lane), fun
    | true => some .closeActivity
    | false => closeAll [.admission .fresh, .activity .held, .admission .held] []⟩
  | .closeActivity => ⟨.close (.activity .held), fun _ => some .closeAdmission⟩
  | .closeAdmission => ⟨.close (.admission .held), fun _ => some (queueUp ⟨args.requested, true⟩)⟩
  | .openSpareAdmission home => ⟨.open (.admission .spare) (.admission .heavy2), fun
    | true => some (.openSpareActivity home)
    | false => closeAll home.slot.vars []⟩
  | .openSpareActivity home => ⟨.open (.activity .spare) (.activity .heavy2), fun
    | true => some (.openQueue (.issue home))
    | false => closeAll (.admission .spare :: home.slot.vars) []⟩
  | .openQueue errand => ⟨.open .queue .queue, fun
    | true => some (.lockQueue errand)
    | false => unwind errand⟩
  | .lockQueue errand => ⟨.flock .queue .exclusive, fun
    | .granted => some (body errand)
    | _ => some (.lockQueue errand)⟩
  | .list errand => ⟨.glob errand.workClass, fun names => some (scanNext errand [] names)⟩
  | .probeOpen scan => ⟨.openTicket .probe scan.path, fun _ => some (.probeLock scan)⟩
  | .probeLock scan => ⟨.flock .probe .exclusive, fun
    | .granted => some (.probeUnlink scan)
    | .busy => some (.probeRecord scan)
    | .again => some (.probeLock scan)⟩
  | .probeRecord scan => ⟨.record, fun
    | none => some (.probeFail scan)
    | some identity => some (.probeStatus scan identity)⟩
  | .probeStatus scan identity => ⟨.stat identity.pid, fun
    | none => some (.probeUnlink scan)
    | some p =>
      if !p.zombie && p.start = identity.start then some (.probeClose scan true)
      else some (.probeUnlink scan)⟩
  | .probeUnlink scan => ⟨.unlink scan.path, fun _ => some (.probeClose scan false)⟩
  | .probeClose scan live => ⟨.close .probe, fun _ =>
    some (scanNext scan.errand (if live then scan.kept ++ [scan.path] else scan.kept) scan.rest)⟩
  | .probeFail scan => ⟨.close .probe, fun _ => some (.failQueue scan.errand)⟩
  | .order home names => ⟨.ask, fun answer => some (.create
    ⟨home, nextOrder answer.1.clock names, answer.1.uuid⟩)⟩
  | .create ticket => ⟨.openTicket .waiter ticket.name, fun _ =>
    some (.lockTicket ticket)⟩
  | .lockTicket ticket => ⟨.flock .waiter .exclusive, fun
    | .granted => some (.sign ticket)
    | _ => some (.lockTicket ticket)⟩
  | .sign ticket => ⟨.sign, fun _ => some (.leaveQueue (.elect ticket))⟩
  | .leaveQueue errand => ⟨.close .queue, fun _ => resume errand⟩
  | .failQueue errand => ⟨.close .queue, fun _ => unwind errand⟩
  | .queue ticket => ⟨.ask, fun answer =>
    if ticket.workClass = .heavy ∧ !answer.1.admits then some (.queue ticket)
    else some (.openQueue (.elect ticket))⟩
  | .tryAdmission ticket spare => ⟨.flock (ticket.home.pick spare).admission .exclusive, fun
    | .granted => some (.tryActivity ticket spare)
    | .busy => some (refused ticket spare)
    | .again => some (.tryAdmission ticket spare)⟩
  | .tryActivity ticket spare => ⟨.flock (ticket.home.pick spare).activity .exclusive, fun
    | .granted => some (.unlinkTicket ticket spare)
    | .busy => some (.giveBack ticket spare)
    | .again => some (.tryActivity ticket spare)⟩
  | .giveBack ticket spare => ⟨.unlock (ticket.home.pick spare).admission, fun _ =>
    some (refused ticket spare)⟩
  | .askSpare ticket => ⟨.ask, fun answer =>
    if answer.1.spare then some (.tryAdmission ticket true)
    else some (.leaveQueue (.elect ticket))⟩
  | .unlinkTicket ticket spare => ⟨.unlink ticket.name, fun _ =>
    some (.leaveOwner ticket.home spare)⟩
  | .unlinkOwn ticket => ⟨.unlink ticket.name, fun _ =>
    some (.leaveQueue (.retire ticket))⟩
  | .leaveOwner home spare => ⟨.close .queue, fun _ => some (.closeWaiter home spare)⟩
  | .closeWaiter home spare => ⟨.close .waiter, fun _ => some (closeOther home spare)⟩
  | .closeOtherAdmission home spare => ⟨.close (home.pick !spare).admission, fun _ =>
    some (.closeOtherActivity home spare)⟩
  | .closeOtherActivity home spare => ⟨.close (home.pick !spare).activity, fun _ =>
    some (.generate (home.pick spare))⟩
  | .generate slot => ⟨.ask, fun answer => some (.truncate slot
    (toString args.pid ++ ":" ++ answer.2 ++ ":" ++ String.ofList answer.1.uuid.val))⟩
  | .truncate slot generation => ⟨.pwrite slot.admission "", fun _ =>
    some (.writeText slot generation)⟩
  | .writeText slot generation => ⟨.pwrite slot.admission generation, fun _ =>
    some (.downgrade slot generation)⟩
  | .downgrade slot generation => ⟨.flock slot.activity .shared, fun
    | .granted => some (.openQueue (.record slot generation))
    | _ => some (.downgrade slot generation)⟩
  | .working slot generation branch => ⟨.ask, fun answer =>
    if answer.1.leave then closeAll (branch ++ slot.vars) []
    else some (.working slot generation branch)⟩
  | .closing v vs lanes => ⟨.close v, fun _ => closeAll vs lanes⟩
  | .watchAdmission lane lanes => ⟨.open (.admission .held) (.admission lane), fun
    | true => some (.watchActivity lane lanes)
    | false => none⟩
  | .watchActivity lane lanes => ⟨.open (.activity .held) (.activity lane), fun
    | true => some (.watchLock lanes)
    | false => closeAll [.admission .held] []⟩
  | .watchLock lanes => ⟨.flock (.activity .held) .exclusive, fun
    | .granted => some (.watchUnlock lanes)
    | .busy => some (.openQueue (.inspect lanes))
    | .again => some (.watchLock lanes)⟩
  | .watchUnlock lanes => ⟨.unlock (.activity .held), fun _ =>
    closeAll [.activity .held, .admission .held] lanes⟩

/-! ## The system -/

/-- The number of a descriptor and the open file description behind it. -/
structure Handle where
  fd : Nat
  ofd : Nat
deriving DecidableEq, Repr

/-- A call in progress. -/
structure Call where
  args : Args
  vars : Var → Option Handle
  pos : Position

/-- The content of an admission file; `version` counts its changes. -/
structure Text where
  content : String
  version : Nat
deriving DecidableEq, Repr

/-- What an open file description was admitted to: a lane, and the text of its admission
    file then. -/
structure Grant where
  lane : Lane
  text : Text
deriving DecidableEq, Repr

/-- The host.  The last three are no state of it: `grants` says what a descriptor was
    admitted to, `issued` counts the tickets and `numbers` says which of them was the
    call's. -/
structure Sys where
  kernel : Kernel File
  procs : Nat → Option Process
  texts : Lane → Text
  dir : List WaitFile
  calls : Nat → Option Call
  grants : Nat → Option Grant
  issued : Nat
  numbers : Nat → Nat

/-- A host without calls and with an empty lock directory. -/
def Sys.initial : Sys where
  kernel := .empty
  procs := fun pid => if pid = 1 then some ⟨0, "0", false⟩ else none
  texts := fun _ => ⟨"", 0⟩
  dir := []
  calls := fun _ => none
  grants := fun _ => none
  issued := 0
  numbers := fun _ => 0

/-- The file a variable has open. -/
def Sys.fileOf (s : Sys) (vars : Var → Option Handle) (v : Var) : Option File :=
  (vars v).bind fun h => s.kernel.fileOf h.ofd

/-- `open` for a call. -/
def Sys.openFile (s : Sys) (c : Nat) (call : Call) (fd : Nat) (v : Var) (file : File) :
    Sys × (Var → Option Handle) :=
  ({ s with kernel := s.kernel.openFile call.args.pid fd file c },
    Function.update call.vars v (some ⟨fd, s.kernel.opened.length⟩))

/-- The directory with a file of this name, and the inode of it. -/
def Sys.entry (s : Sys) (name : String) : Sys × Nat :=
  match s.dir.find? (·.name = name) with
  | some file => (s, file.inode)
  | none => ({ s with dir := s.dir ++ [⟨name, s.kernel.opened.length, none⟩] },
      s.kernel.opened.length)

/-- Run a system call; `none` when it cannot be answered so. -/
def Sys.exec (s : Sys) (c : Nat) (call : Call) (input : Input) :
    (op : Op) → Option (Sys × (Var → Option Handle) × op.Answer)
  | .open v file =>
    if input.fails then some (s, call.vars, false)
    else if s.kernel.free call.args.pid input.fd then
      let (s, vars) := s.openFile c call input.fd v file
      some (s, vars, true)
    else none
  | .openTicket v name =>
    if s.kernel.free call.args.pid input.fd then
      let (s, inode) := s.entry name
      let (s, vars) := s.openFile c call input.fd v (.ticket inode)
      some (s, vars, ())
    else none
  | .close v =>
    match call.vars v with
    | none => some (s, call.vars, ())
    | some h =>
      some ({ s with kernel := s.kernel.close ⟨call.args.pid, h.fd, h.ofd⟩ },
        Function.update call.vars v none, ())
  | .flock v mode =>
    match call.vars v with
    | none => none
    | some h =>
      let (kernel, attempt) := s.kernel.flock h.ofd mode
      some ({ s with kernel }, call.vars, attempt)
  | .unlock v =>
    match call.vars v with
    | none => none
    | some h => some ({ s with kernel := s.kernel.release h.ofd }, call.vars, ())
  | .pread v =>
    match s.fileOf call.vars v with
    | some (.admission lane) => some (s, call.vars, (s.texts lane).content)
    | _ => none
  | .pwrite v text =>
    match s.fileOf call.vars v with
    | some (.admission lane) =>
      let texts := Function.update s.texts lane ⟨text, (s.texts lane).version + 1⟩
      some ({ s with texts }, call.vars, ())
    | _ => none
  | .stat pid => some (s, call.vars, s.procs pid)
  | .fdFile pid fd => some (s, call.vars, (s.kernel.resolve pid fd).bind s.kernel.fileOf)
  | .fdLock pid fd => some (s, call.vars, (s.kernel.resolve pid fd).map s.kernel.lockOf)
  | .exists file => some (s, call.vars, s.kernel.opened.any (·.file = file))
  | .glob c => some (s, call.vars, (s.dir.map WaitFile.name).filter (globMatches c))
  | .sign =>
    match s.fileOf call.vars .waiter, s.procs call.args.pid with
    | some (.ticket inode), some p =>
      let record : Identity := ⟨call.args.pid, p.start⟩
      let dir := s.dir.map fun file =>
        if file.inode = inode then { file with record := some record } else file
      some ({ s with dir }, call.vars, ())
    | _, _ => none
  | .record =>
    match s.fileOf call.vars .probe with
    | some (.ticket inode) =>
      some (s, call.vars, (s.dir.find? (·.inode = inode)).bind WaitFile.record)
    | _ => none
  | .unlink name => some ({ s with dir := s.dir.filter (·.name ≠ name) }, call.vars, ())
  | .ask =>
    match s.procs call.args.pid with
    | some p => some (s, call.vars, (input, p.start))
    | none => none

/-- The slot and the generation of a call that was admitted. -/
def Position.admitted : Position → Option (Slot × String)
  | .openBranch slot generation _ | .waitBranch slot generation _ | .working slot generation _
  | .openQueue (.record slot generation) | .lockQueue (.record slot generation)
  | .leaveQueue (.record slot generation) => some (slot, generation)
  | _ => none

def Errand.ticket : Errand → Option Ticket
  | .elect ticket | .retire ticket => some ticket
  | _ => none

/-- The ticket of a waiter, from the creation of its file to its removal. -/
def Position.ticket : Position → Option Ticket
  | .lockTicket ticket | .sign ticket | .queue ticket | .tryAdmission ticket _
  | .tryActivity ticket _ | .giveBack ticket _ | .askSpare ticket | .unlinkTicket ticket _
  | .unlinkOwn ticket | .leaveQueue (.elect ticket) => some ticket
  | .openQueue errand | .lockQueue errand | .list errand | .failQueue errand => errand.ticket
  | .probeOpen scan | .probeLock scan | .probeRecord scan | .probeStatus scan _
  | .probeUnlink scan | .probeClose scan _ | .probeFail scan => scan.errand.ticket
  | _ => none

/-- A call that is admitted is granted the lane with the text of its admission file. -/
def Sys.grant (s : Sys) (call : Call) : Nat → Option Grant :=
  match call.pos.admitted with
  | none => s.grants
  | some (slot, _) =>
    match call.vars slot.activity with
    | none => s.grants
    | some h =>
      if s.grants h.ofd = none then
        Function.update s.grants h.ofd (some ⟨slot.lane, s.texts slot.lane⟩)
      else s.grants

/-- The call goes on at its next position. -/
def Sys.place (s : Sys) (c : Nat) (before call : Call) : Sys :=
  let issues := before.pos.ticket = none && call.pos.ticket ≠ none
  { s with
    calls := Function.update s.calls c (some call)
    grants := s.grant call
    issued := if issues then s.issued + 1 else s.issued
    numbers := if issues then Function.update s.numbers c s.issued else s.numbers }

/-- The next statement of a call. -/
def Sys.advance (s : Sys) (c : Nat) (input : Input) : Sys :=
  match s.calls c with
  | none => s
  | some call =>
    let next := call.pos.next call.args
    match s.exec c call input next.1 with
    | none => s
    | some (s, vars, answer) =>
      match next.2 answer with
      | none => { s with calls := Function.update s.calls c none }
      | some pos => s.place c call ⟨call.args, vars, pos⟩

/-- The thread's `_LOCAL.work`, which a fork copies, and its `pid`. -/
structure Local where
  token : String
  workClass : WorkClass
  pid : Nat
deriving DecidableEq, Repr

/-- The token `heavy_work` goes on with; `none` when it reenters its own admission. -/
def enter (existing : Option Local) (environment : String) (pid : Nat)
    (requested : WorkClass) : Except PyError (Option String) :=
  match existing with
  | none => .ok (some environment)
  | some work =>
    if work.pid = pid then
      if work.workClass = .light ∧ requested = .heavy then
        .error (.runtimeError "Light admission cannot be upgraded to heavy work.")
      else .ok none
    else .ok (some work.token)

/-- Steps of the host. -/
inductive Action where
  /-- A thread of a process calls `heavy_work`. -/
  | begin (c pid : Nat) (requested : WorkClass) (existing : Option Local) (environment : String)
  /-- A thread of a process calls `lane_activity`. -/
  | observe (c pid : Nat) (requested : WorkClass)
  | advance (c : Nat) (input : Input)
  | fork (parent child : Nat) (start : String)
  /-- A process ends; its children get another parent. -/
  | kill (pid reaper : Nat)
  /-- The parent of a dead process has waited for it. -/
  | reap (pid : Nat)
  /-- A process closes a descriptor that it inherited. -/
  | drop (pid fd : Nat)

/-- The process is there and not dead. -/
def Sys.alive (s : Sys) (pid : Nat) : Bool := (s.procs pid).any (!·.zombie)

/-- Start a call. -/
def Sys.start (s : Sys) (c : Nat) (args : Args) (pos : Position) : Sys :=
  if s.alive args.pid ∧ (s.calls c).isNone then
    { s with calls := Function.update s.calls c (some ⟨args, fun _ => none, pos⟩) }
  else s

/-- The end of a process. -/
def Sys.kill (s : Sys) (pid reaper : Nat) : Sys :=
  { s with
    kernel := s.kernel.exit pid
    procs := fun q => (s.procs q).map fun p =>
      if q = pid then { p with zombie := true }
      else if p.parent = pid then { p with parent := reaper } else p
    calls := fun c => (s.calls c).filter fun call => call.args.pid ≠ pid }

/-- Close a descriptor that none of the process's own calls uses. -/
def Sys.drop (s : Sys) (pid fd : Nat) : Sys :=
  match s.kernel.resolve pid fd with
  | none => s
  | some ofd =>
    let opener := s.kernel.opened[ofd]?.bind fun o => s.calls o.opener
    if opener.all fun call => call.args.pid ≠ pid then
      { s with kernel := s.kernel.close ⟨pid, fd, ofd⟩ }
    else s

/-- One step of the host. -/
def next (s : Sys) : Action → Sys
  | .begin c pid requested existing environment =>
    match enter existing environment pid requested with
    | .ok (some token) =>
      let lane := if token = "" then requested.lane else tokenLane token
      s.start c ⟨pid, requested, token⟩ (.openAdmission lane)
    | _ => s
  | .observe c pid requested =>
    match requested with
    | .light => s.start c ⟨pid, requested, ""⟩ (.watchAdmission .light [])
    | .heavy => s.start c ⟨pid, requested, ""⟩ (.watchAdmission .heavy [.heavy2])
  | .advance c input => s.advance c input
  | .fork parent child start =>
    if s.alive parent ∧ (s.procs child).isNone then
      { s with
        kernel := s.kernel.fork parent child
        procs := Function.update s.procs child (some ⟨parent, start, false⟩) }
    else s
  | .kill pid reaper => if s.alive pid then s.kill pid reaper else s
  | .reap pid =>
    if (s.procs pid).any (·.zombie) then { s with procs := Function.update s.procs pid none }
    else s
  | .drop pid fd => s.drop pid fd

end SummitFlow.HeavyWork
