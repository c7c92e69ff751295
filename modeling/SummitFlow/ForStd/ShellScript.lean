import Mathlib.Data.List.Basic

/-!
# Shell scripts and flat readings of them

Commands put together with `;`, `&&`, `||`, `|`, `&`, line breaks and `( )`, and the
directories they run in.  A reader that only sees the flat list of the simple commands
folds one directory over it.  `Reader.after` and `Reader.guarded` follow through the term
whether that directory is the shell's own: what is known of it after a command that
succeeds and after one that fails.
-/

namespace SummitFlow.Shell

/-- What can stand where: a command, a pipeline, a list of pipelines, a script. -/
inductive Level where
  | command | pipeline | list | script
deriving DecidableEq, Repr

/-- Scripts over simple commands from `α`. -/
inductive Term (α : Type) : Level → Type where
  | simple (a : α) : Term α .command
  | group (body : Term α .script) : Term α .command
  | single (c : Term α .command) : Term α .pipeline
  | pipe (c : Term α .command) (rest : Term α .pipeline) : Term α .pipeline
  | chain (p : Term α .pipeline) : Term α .list
  | and (l : Term α .list) (p : Term α .pipeline) : Term α .list
  | or (l : Term α .list) (p : Term α .pipeline) : Term α .list
  | done (l : Term α .list) : Term α .script
  /-- `l &` at the end. -/
  | async (l : Term α .list) : Term α .script
  /-- `l ; rest`, or with a line break for the semicolon. -/
  | seq (l : Term α .list) (newline : Bool) (rest : Term α .script) : Term α .script
  /-- `l & rest`. -/
  | background (l : Term α .list) (rest : Term α .script) : Term α .script

/-! ## Meaning -/

section

variable {α D : Type} (moves : α → D → D → Bool → Prop)

/-- Started in `d`, the command can end in `d'` with this success.  A group, a stage of a
    pipeline and a background job are processes of their own. -/
def Ends : {level : Level} → Term α level → D → D → Bool → Prop
  | _, .simple a, d, d', ok => moves a d d' ok
  | _, .group body, d, d', ok => d' = d ∧ ∃ e, Ends body d e ok
  | _, .single c, d, d', ok => Ends c d d' ok
  | _, .pipe _ _, d, d', _ => d' = d
  | _, .chain p, d, d', ok => Ends p d d' ok
  | _, .and l p, d, d', ok =>
    Ends l d d' false ∧ ok = false ∨ ∃ e, Ends l d e true ∧ Ends p e d' ok
  | _, .or l p, d, d', ok =>
    Ends l d d' true ∧ ok = true ∨ ∃ e, Ends l d e false ∧ Ends p e d' ok
  | _, .done l, d, d', ok => Ends l d d' ok
  | _, .async _, d, d', ok => d' = d ∧ ok = true
  | _, .seq l _ rest, d, d', ok => ∃ e b, Ends l d e b ∧ Ends rest e d' ok
  | _, .background _ rest, d, d', ok => Ends rest d d' ok

/-- Started in `d`, the command can run the simple command `a` in `e`. -/
def Runs : {level : Level} → Term α level → D → α → D → Prop
  | _, .simple b, d, a, e => b = a ∧ e = d
  | _, .group body, d, a, e => Runs body d a e
  | _, .single c, d, a, e => Runs c d a e
  | _, .pipe c rest, d, a, e => Runs c d a e ∨ Runs rest d a e
  | _, .chain p, d, a, e => Runs p d a e
  | _, .and l p, d, a, e => Runs l d a e ∨ ∃ m, Ends moves l d m true ∧ Runs p m a e
  | _, .or l p, d, a, e => Runs l d a e ∨ ∃ m, Ends moves l d m false ∧ Runs p m a e
  | _, .done l, d, a, e => Runs l d a e
  | _, .async l, d, a, e => Runs l d a e
  | _, .seq l _ rest, d, a, e => Runs l d a e ∨ ∃ m b, Ends moves l d m b ∧ Runs rest m a e
  | _, .background l rest, d, a, e => Runs l d a e ∨ Runs rest d a e

end

/-! ## The flat reading -/

section

variable {α : Type}

/-- Every simple command passes. -/
def Term.all (p : α → Bool) : {level : Level} → Term α level → Bool
  | _, .simple a => p a
  | _, .group body => body.all p
  | _, .single c => c.all p
  | _, .pipe c rest => c.all p && rest.all p
  | _, .chain c => c.all p
  | _, .and l c => l.all p && c.all p
  | _, .or l c => l.all p && c.all p
  | _, .done l => l.all p
  | _, .async l => l.all p
  | _, .seq l _ rest => l.all p && rest.all p
  | _, .background l rest => l.all p && rest.all p

/-- The script ends with `&`, so that nothing stands before the parenthesis that closes it. -/
def Term.endsOpen : {level : Level} → Term α level → Bool
  | _, .simple _ => false
  | _, .group _ => false
  | _, .single c => c.endsOpen
  | _, .pipe _ rest => rest.endsOpen
  | _, .chain p => p.endsOpen
  | _, .and _ p => p.endsOpen
  | _, .or _ p => p.endsOpen
  | _, .done l => l.endsOpen
  | _, .async _ => true
  | _, .seq _ _ rest => rest.endsOpen
  | _, .background _ rest => rest.endsOpen

/-- The simple commands in the order in which they are written; `close` is what is read
    where a parenthesis stands alone. -/
def Term.flat (close : α) : {level : Level} → Term α level → List α
  | _, .simple a => [a]
  | _, .group body => body.flat close ++ if body.endsOpen then [close] else []
  | _, .single c => c.flat close
  | _, .pipe c rest => c.flat close ++ rest.flat close
  | _, .chain p => p.flat close
  | _, .and l p => l.flat close ++ p.flat close
  | _, .or l p => l.flat close ++ p.flat close
  | _, .done l => l.flat close
  | _, .async l => l.flat close
  | _, .seq l _ rest => l.flat close ++ rest.flat close
  | _, .background l rest => l.flat close ++ rest.flat close

end

/-- What is known about the directory of the shell: it cannot be here, it is the folded
    one, or it may be any. -/
inductive Sync where
  | never | exact | lost
deriving DecidableEq, Repr

namespace Sync

variable {D : Type}

def Ok : Sync → D → D → Prop
  | .never, _, _ => False
  | .exact, d, w => d = w
  | .lost, _, _ => True

/-- Two ways to get here. -/
def join : Sync → Sync → Sync
  | .never, y => y
  | x, .never => x
  | .exact, .exact => .exact
  | _, _ => .lost

/-- The shell stays and the folded directory may move. -/
def shift (still : Bool) : Sync → Sync
  | .exact => if still then .exact else .lost
  | x => x

theorem Ok.shift {x : Sync} {d w w' : D} (h : x.Ok d w) {still : Bool}
    (hw : still = true → w' = w) : (x.shift still).Ok d w' := by
  cases x with
  | never => exact h
  | lost => trivial
  | exact =>
    cases still with
    | false => trivial
    | true => exact Eq.trans h (hw rfl).symm

end Sync

/-- A reader that folds a directory over the flat list of the simple commands: what the
    commands do to the shell's directory, what it makes of them, which of them it takes
    to move nothing, and what is known after a command from what is known before it. -/
structure Reader (α D : Type) where
  moves : α → D → D → Bool → Prop
  track : D → α → D
  still : α → Bool
  sync : α → Sync → Bool → Sync
  close : α
  sound : ∀ {a x d w d' ok}, moves a d d' ok → x.Ok d w → (sync a x ok).Ok d' (track w a)
  stays : ∀ {a} w, still a = true → track w a = w
  stays_close : still close = true

namespace Reader

variable {α D : Type} (r : Reader α D)

/-- No simple command of it moves the folded directory. -/
def rests {level : Level} (c : Term α level) : Bool := (c.flat r.close).all r.still

/-- What is known after a command that ends with this success. -/
def after : {level : Level} → Term α level → Sync → Bool → Sync
  | _, .simple a, x, ok => r.sync a x ok
  | _, .group body, x, _ => x.shift (r.rests body)
  | _, .single c, x, ok => after c x ok
  | _, .pipe c rest, x, _ => x.shift (r.rests c && r.rests rest)
  | _, .chain p, x, ok => after p x ok
  | _, .and l p, x, true => after p (after l x true) true
  | _, .and l p, x, false =>
    ((after l x false).shift (r.rests p)).join (after p (after l x true) false)
  | _, .or l p, x, true =>
    ((after l x true).shift (r.rests p)).join (after p (after l x false) true)
  | _, .or l p, x, false => after p (after l x false) false
  | _, .done l, x, ok => after l x ok
  | _, .async l, x, true => x.shift (r.rests l)
  | _, .async _, _, false => .never
  | _, .seq l _ rest, x, ok => after rest ((after l x true).join (after l x false)) ok
  | _, .background l rest, x, ok => after rest (x.shift (r.rests l)) ok

/-- Every simple command passes a check that sees what is known where it stands. -/
def guarded (check : α → Sync → Bool) : {level : Level} → Term α level → Sync → Bool
  | _, .simple a, x => check a x
  | _, .group body, x => guarded check body x
  | _, .single c, x => guarded check c x
  | _, .pipe c rest, x => guarded check c x && guarded check rest (x.shift (r.rests c))
  | _, .chain p, x => guarded check p x
  | _, .and l p, x => guarded check l x && guarded check p (r.after l x true)
  | _, .or l p, x => guarded check l x && guarded check p (r.after l x false)
  | _, .done l, x => guarded check l x
  | _, .async l, x => guarded check l x
  | _, .seq l _ rest, x =>
    guarded check l x && guarded check rest ((r.after l x true).join (r.after l x false))
  | _, .background l rest, x => guarded check l x && guarded check rest (x.shift (r.rests l))

/-- The reader comes to the simple command `a` with what is known about the directory `e`
    in which the shell runs it. -/
def Meets (check : α → Sync → Bool) (as : List α) (w : D) (a : α) (e : D) : Prop :=
  ∃ before later x, as = before ++ a :: later ∧ check a x = true ∧
    x.Ok e (before.foldl r.track w)

variable {r} {check : α → Sync → Bool}

theorem Meets.left {as : List α} {w : D} {a : α} {e : D} (h : r.Meets check as w a e)
    (bs : List α) : r.Meets check (as ++ bs) w a e := by
  obtain ⟨before, later, x, rfl, hcheck, hx⟩ := h
  exact ⟨before, later ++ bs, x, by simp, hcheck, hx⟩

theorem Meets.right {bs : List α} (as : List α) {w : D} {a : α} {e : D}
    (h : r.Meets check bs (as.foldl r.track w) a e) : r.Meets check (as ++ bs) w a e := by
  obtain ⟨before, later, x, rfl, hcheck, hx⟩ := h
  exact ⟨as ++ before, later, x, by simp, hcheck, by rw [List.foldl_append]; exact hx⟩

end Reader

end SummitFlow.Shell
