import SummitFlow.Spec.GuardLines
import SummitFlow.Spec.ShellText

/-!
# The directory a discard runs in

The guard folds one directory over the segments of a command, and lets a whole-tree
discard pass when that directory is disposable.  The shell has a directory of its own for
every group, pipeline stage and background job, and runs a `cd` after `&&` or `||` only
sometimes.  The discards that pass run in a disposable directory as long as the guard's
directory is the shell's wherever a discard stands.
-/

namespace SummitFlow.Guard

open PosixPath (isAbsolute expanduser_of_isAbsolute join_of_isAbsolute)
open Shell (Level Term Ends Runs Sync Reader)

/-! ## What moves the shell -/

/-- What a simple command does to the directory of the shell. -/
inductive Move where
  | stay
  | goto (target : String)
  | anywhere
deriving DecidableEq, Repr

/-- The shell still makes something else of the word. -/
def expands (word : String) : Bool :=
  word.toList.any (['$', '`', '*', '?', '[', '\x7b'].contains ·)

/-- The operand of `cd`; one that the shell still expands can lead anywhere. -/
def operandMove (target : String) : Move :=
  if target = "-" ∨ expands target then .anywhere else .goto target

/-- The arguments of `cd`. -/
def cdMove : List String → Move
  | [] => .goto "~"
  | arg :: args =>
    if arg = "--" then (args.head?.map operandMove).getD (.goto "~")
    else if Str.startswith arg "-" ∧ arg ≠ "-" then cdMove args
    else operandMove arg

/-- A command with its arguments, in the shell. -/
def shellMove (argv : List String) : Move :=
  match argv.dropWhile fun w => isAssignment w || ["command", "builtin"].contains w with
  | [] => .stay
  | w :: args =>
    if w = "cd" then cdMove args
    else if w ∈ ["pushd", "popd", "eval", "source", "."] then .anywhere
    else .stay

/-- A `~` in quotes stands for itself. -/
def Word.quotedTilde (w : Word) : Bool :=
  match w.first with
  | .bare .. => false
  | _ => w.value.head? == some '~'

/-- What the simple command does to the directory of the shell. -/
def Simple.move (a : Simple) : Move :=
  match shellMove a.argv with
  | .goto target => if a.arguments.any Word.quotedTilde then .anywhere else .goto target
  | move => move

/-- A `cd` that runs moves the shell. -/
def shellMoves (host : Host) (a : Simple) (d d' : String) (ok : Bool) : Prop :=
  match a.move with
  | .stay => d' = d
  | .goto target => d' = resolve host d target ∧ ok = true
  | .anywhere => True

/-! ## What moves the guard -/

/-- The words of the segment the guard makes of a simple command. -/
def Simple.read (a : Simple) : List String := a.cleaned.map String.ofList

/-- What a segment does to the directory of the guard. -/
def guardMove (segment : List String) : Move :=
  match unwrap segment with
  | [] => .stay
  | arg :: args =>
    if executableOf arg = "cd" then
      let target := (args.find? fun arg => !Str.startswith arg "-").getD "~"
      if unresolved target then .stay else .goto target
    else .stay

/-- The directory of the guard after a segment. -/
def guardTrack (host : Host) (w : String) (segment : List String) : String :=
  match guardMove segment with
  | .goto target => resolve host w target
  | _ => w

/-- What is known after a simple command that ends with this success.  A `cd` that both
    read the same way keeps the two directories together, and brings them together when
    the target does not depend on them. -/
def knownAfter (host : Host) (a : Simple) (x : Sync) (ok : Bool) : Sync :=
  if x = .never then .never
  else match a.move with
  | .stay => if guardMove a.read = .stay then x else .lost
  | .anywhere => .lost
  | .goto target =>
    if ok = false then .never
    else if guardMove a.read = .goto target then
      if isAbsolute (PosixPath.expanduser host.users target) then .exact else x
    else .lost

theorem guardTrack_of_stay {host : Host} {w : String} {segment : List String}
    (h : guardMove segment = .stay) : guardTrack host w segment = w := by
  rw [guardTrack, h]

theorem guardTrack_of_goto {host : Host} {w target : String} {segment : List String}
    (h : guardMove segment = .goto target) :
    guardTrack host w segment = resolve host w target := by
  rw [guardTrack, h]

theorem resolve_of_isAbsolute {host : Host} {target : String}
    (h : isAbsolute (PosixPath.expanduser host.users target) = true) (d w : String) :
    resolve host d target = resolve host w target := by
  unfold resolve
  rw [join_of_isAbsolute h, join_of_isAbsolute h]

theorem knownAfter_sound {host : Host} {a : Simple} {x : Sync} {d w d' : String} {ok : Bool}
    (h : shellMoves host a d d' ok) (hx : x.Ok d w) :
    (knownAfter host a x ok).Ok d' (guardTrack host w a.read) := by
  have hpossible : x ≠ .never := by
    rintro rfl
    exact hx
  unfold shellMoves at h
  unfold knownAfter
  rw [if_neg hpossible]
  cases hmove : a.move with
  | anywhere => trivial
  | stay =>
    rw [hmove] at h
    obtain rfl : d' = d := h
    dsimp only
    split
    · rename_i hguard
      rw [guardTrack_of_stay hguard]
      exact hx
    · trivial
  | goto target =>
    rw [hmove] at h
    obtain ⟨rfl, rfl⟩ := h
    dsimp only
    rw [if_neg (by decide : ¬ true = false)]
    split
    · rename_i hguard
      rw [guardTrack_of_goto hguard]
      split
      · rename_i habsolute
        show resolve host d target = resolve host w target
        rw [resolve_of_isAbsolute habsolute d w]
      · cases x with
        | never => exact False.elim hx
        | lost => trivial
        | exact =>
          obtain rfl : d = w := hx
          show resolve host d target = resolve host d target
          rfl
    · trivial

/-- The guard, as a reader of shell scripts. -/
def reader (host : Host) : Reader Simple String where
  moves := shellMoves host
  track w a := guardTrack host w a.read
  still a := guardMove a.read = .stay
  sync := knownAfter host
  close := closing
  sound := knownAfter_sound
  stays _ h := guardTrack_of_stay (of_decide_eq_true h)
  stays_close := by decide +kernel

/-! ## Discards -/

/-- The words of a `git` command before its subcommand. -/
def globalWords (host : Host) (a : Simple) : List Word :=
  match gitInvocation host a.argv "/" with
  | none => []
  | some (_, args, _) => a.words.take (a.words.length - (args.length + 1))

/-- The simple command throws work away in the directory it runs in. -/
def Simple.discards (host : Host) (a : Simple) : Bool :=
  a.argv.head? == some "git" &&
  match gitInvocation host a.argv "/" with
  | none => false
  | some (subcommand, args, _) =>
    subcommand != "push" &&
      (irreversibleGitDecision subcommand args (normalizeSegment a.argv) true).isSome

/-- A global option of `git` that the shell, or `git`, does not take as it is written. -/
def Simple.loose (host : Host) (a : Simple) : Bool :=
  (globalWords host a).any fun w =>
    expands (String.ofList w.value) || w.quotedTilde || Str.startswith (String.ofList w.value) "-C~"

/-- A discard stands where the guard knows the directory, and the guard reads its words. -/
def checked (host : Host) (a : Simple) (x : Sync) : Bool :=
  !a.discards host || x ≠ .lost && a.read == a.argv && !a.loose host

/-- The list of one simple command. -/
def Simple.alone (a : Simple) : Term Simple .list := .chain (.single (.simple a))

end SummitFlow.Guard
