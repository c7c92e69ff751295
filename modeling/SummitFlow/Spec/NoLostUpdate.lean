import SummitFlow.Cli.CoordStore

/-!
# No update is lost through the coordination store

Two things are proved about every interleaving of clients.  A document is always the
initial one with the change functions of the accepted writes applied in their order,
because a change's copy, while it has the current version, is the current document
(`Versioned.CopyOf`).  And a `Conflict` is handled by the function that opened the
change: the stack of a client records which blocks opened a document, `_changes` has
exactly these documents, and `retrying`'s `outer` is what was open below it
(`Client.Ok`), so every function above the opener lets the exception through.
-/

namespace SummitFlow.CoordStore

variable {D V : Type}

/-! ## The stack and the open changes -/

/-- The document a frame opened. -/
def Frame.opens : Frame D V → Option String
  | .opened name _ => some name
  | .joined .. | .retrying .. => none

/-- Whether the frame is a `@retrying` function's. -/
def Frame.isRetrying : Frame D V → Bool
  | .retrying .. => true
  | .opened .. | .joined .. => false

/-- The documents the blocks on the stack have opened. -/
def owned (stack : List (Frame D V)) : List String := stack.filterMap Frame.opens

section

variable (rest : List (Frame D V)) (name : String) (k : V → Prog D V)

@[simp] theorem owned_nil : owned ([] : List (Frame D V)) = [] := rfl

@[simp] theorem owned_opened : owned (.opened name k :: rest) = name :: owned rest := rfl

@[simp] theorem owned_joined : owned (.joined name k :: rest) = owned rest := rfl

@[simp] theorem owned_retrying (outer : String → Bool) (attempt : Nat) (body : Prog D V) :
    owned (.retrying outer attempt body k :: rest) = owned rest := rfl

@[simp] theorem owned_append (inner : List (Frame D V)) :
    owned (inner ++ rest) = owned inner ++ owned rest := by
  simp [owned]

end

/-- A document is opened once, and `outer` is what was open when the function was
    called. -/
def Scoped : List (Frame D V) → Prop
  | [] => True
  | .opened name _ :: rest => name ∉ owned rest ∧ Scoped rest
  | .joined _ _ :: rest => Scoped rest
  | .retrying outer attempt _ _ :: rest =>
    (∀ name, outer name = true ↔ name ∈ owned rest) ∧ attempt < attempts ∧ Scoped rest

theorem Scoped.tail {frame : Frame D V} {rest : List (Frame D V)}
    (h : Scoped (frame :: rest)) : Scoped rest := by
  cases frame with
  | opened name k => exact h.2
  | joined name k => exact h
  | retrying outer attempt body k => exact h.2.2

theorem Scoped.of_append {inner rest : List (Frame D V)} (h : Scoped (inner ++ rest)) :
    Scoped rest := by
  induction inner with
  | nil => exact h
  | cons frame inner ih => exact ih h.tail

/-- What holds of a client between its steps: `_changes` has the documents the stack
    opened, and all of them were opened inside a function that is called from the top. -/
structure Client.Ok (c : Client D V) : Prop where
  nested : Scoped c.stack
  changes : ∀ name, (c.changes name).isSome = true ↔ name ∈ owned c.stack
  root : ∀ frame, c.stack.getLast? = some frame →
    ∃ outer attempt body, frame = .retrying outer attempt body .ret
  top : c.stack = [] → ∀ p, c.control = .run p → ∃ value, p = .ret value

theorem Client.Ok.initial : (Client.initial : Client D V).Ok where
  nested := trivial
  changes := by simp [Client.initial]
  root := by simp [Client.initial]
  top := by simp [Client.initial]

/-- Going on inside the same blocks. -/
theorem Client.Ok.goto {c : Client D V} (h : c.Ok) {c' : Client D V}
    (hchanges : ∀ name, (c'.changes name).isSome = (c.changes name).isSome)
    (hstack : c'.stack = c.stack)
    (htop : c.stack = [] → ∀ p, c'.control = .run p → ∃ value, p = .ret value) : c'.Ok where
  nested := by rw [hstack]; exact h.nested
  changes := by
    intro name
    rw [hstack, hchanges]
    exact h.changes name
  root := by rw [hstack]; exact h.root
  top := by rw [hstack]; exact htop

/-- Going into a block or a call. -/
theorem Client.Ok.push {c : Client D V} (h : c.Ok) (hne : c.stack ≠ []) {c' : Client D V}
    {frame : Frame D V} (hstack : c'.stack = frame :: c.stack)
    (hscoped : Scoped (frame :: c.stack))
    (hchanges : ∀ name, (c'.changes name).isSome = true ↔ name ∈ owned (frame :: c.stack)) :
    c'.Ok where
  nested := by rw [hstack]; exact hscoped
  changes := by rw [hstack]; exact hchanges
  root := by
    rw [hstack, List.getLast?_cons_of_ne_nil hne]
    exact h.root
  top := by
    rw [hstack]
    intro hnil
    cases hnil

/-- Leaving a block or a call. -/
theorem Client.Ok.pop {c : Client D V} (h : c.Ok) {c' : Client D V} {frame : Frame D V}
    (hstack : c.stack = frame :: c'.stack)
    (hchanges : ∀ name, (c'.changes name).isSome = true ↔ name ∈ owned c'.stack)
    (htop : c'.stack = [] → ∀ p, c'.control = .run p → ∃ value, p = .ret value) : c'.Ok where
  nested := by
    have hscoped := h.nested
    rw [hstack] at hscoped
    exact hscoped.tail
  changes := hchanges
  root := by
    intro bottom hbottom
    apply h.root
    rw [hstack, List.getLast?_cons_of_ne_nil]
    · exact hbottom
    · intro hnil
      simp [hnil] at hbottom
  top := htop

/-- The last frame of a nonempty stack returns to the top. -/
theorem Client.Ok.bottom {c : Client D V} (h : c.Ok) {outer : String → Bool} {attempt : Nat}
    {body : Prog D V} {k : V → Prog D V} (hstack : c.stack = [.retrying outer attempt body k]) :
    k = .ret := by
  obtain ⟨_, _, _, heq⟩ := h.root _ (by rw [hstack]; rfl)
  cases heq
  rfl

theorem changes_pop {c : Client D V} {rest : List (Frame D V)} {opened : String}
    (hchanges : ∀ name, (c.changes name).isSome = true ↔ name ∈ opened :: owned rest)
    (hfresh : opened ∉ owned rest) (name : String) :
    (Function.update c.changes opened none name).isSome = true ↔ name ∈ owned rest := by
  by_cases hname : name = opened
  · subst hname
    simp [hfresh]
  · rw [Function.update_of_ne hname, hchanges, List.mem_cons]
    simp [hname]

/-! ## What a step does to one client -/

theorem Client.Ok.return {c : Client D V} (h : c.Ok) (value : V) : (c.return value).Ok := by
  unfold Client.return
  split
  · exact h.goto (fun _ => rfl) rfl (fun _ p hp => by cases hp)
  · next name k rest hstack =>
    have hscoped := h.nested
    have hchanges := h.changes
    rw [hstack] at hscoped hchanges
    refine h.pop hstack (changes_pop hchanges hscoped.1) fun hnil => ?_
    -- a block is never the last frame
    obtain ⟨_, _, _, heq⟩ := h.root (.opened name k) (by rw [hstack, show rest = [] from hnil]; rfl)
    cases heq
  · next name k rest hstack =>
    have hchanges := h.changes
    rw [hstack] at hchanges
    refine h.pop hstack hchanges fun hnil => ?_
    obtain ⟨_, _, _, heq⟩ := h.root (.joined name k) (by rw [hstack, show rest = [] from hnil]; rfl)
    cases heq
  · next outer attempt body k rest hstack =>
    have hchanges := h.changes
    rw [hstack] at hchanges
    refine h.pop hstack hchanges fun hnil p hp => ?_
    have hk : k = .ret := h.bottom (by rw [hstack, show rest = [] from hnil])
    subst hk
    cases hp
    exact ⟨value, rfl⟩

theorem Client.Ok.propagate {c : Client D V} (h : c.Ok) {e : Exc} (he : c.control = .raised e) :
    (c.propagate e).Ok := by
  have hraised : ∀ p, c.control = .run p → ∃ value, p = .ret value := by
    intro p hp
    rw [he] at hp
    cases hp
  unfold Client.propagate
  split
  · exact h.goto (fun _ => rfl) rfl (fun _ p hp => by cases hp)
  · next name k rest hstack =>
    have hscoped := h.nested
    have hchanges := h.changes
    rw [hstack] at hscoped hchanges
    exact h.pop hstack (changes_pop hchanges hscoped.1) fun _ => hraised
  · next name k rest hstack =>
    have hchanges := h.changes
    rw [hstack] at hchanges
    exact h.pop hstack hchanges fun _ => hraised
  · next outer attempt body k rest hstack =>
    have hscoped := h.nested
    have hchanges := h.changes
    rw [hstack] at hscoped hchanges
    have hpop : Client.Ok { c with stack := rest } := h.pop hstack hchanges fun _ => hraised
    split
    · next name =>
      split
      · exact hpop
      · split
        · exact hpop.goto (fun _ => rfl) rfl (fun _ p hp => by cases hp)
        · next hlast =>
          -- the loop goes round: the same frame, one attempt later
          have hattempt : attempt + 1 < attempts := by
            have := hscoped.2.1
            omega
          refine ⟨⟨hscoped.1, hattempt, hscoped.2.2⟩, hchanges, ?_, fun hnil => by cases hnil⟩
          intro frame hframe
          cases hrest : rest with
          | nil =>
            have hk := h.bottom (by rw [hstack, hrest])
            subst hk
            rw [hrest] at hframe
            cases hframe
            exact ⟨_, _, _, rfl⟩
          | cons below rest =>
            apply h.root
            rw [hstack]
            rw [hrest] at hframe ⊢
            exact hframe
    · exact hpop

/-- A step inside a function never finds the stack empty. -/
theorem Client.Ok.stack_ne_nil {c : Client D V} (h : c.Ok) {p : Prog D V}
    (hp : c.control = .run p) (hret : ∀ value, p ≠ .ret value) : c.stack ≠ [] := by
  intro hnil
  obtain ⟨value, rfl⟩ := h.top hnil p hp
  exact hret value rfl

theorem Client.Ok.fetch {c : Client D V} (h : c.Ok) (hne : c.stack ≠ []) (store : Store D)
    (name : String) (net : Net) {k : Versioned D → Client D V} (hk : ∀ cell, (k cell).Ok) :
    (c.fetch store name net k).Ok := by
  cases net with
  | answered => exact hk _
  | refused detail => exact h.goto (fun _ => rfl) rfl (fun hnil => absurd hnil hne)
  | lost detail => exact h.goto (fun _ => rfl) rfl (fun hnil => absurd hnil hne)

theorem Client.Ok.read {c : Client D V} (h : c.Ok) (hne : c.stack ≠ []) (store : Store D)
    (name : String) (k : D → Prog D V) (net : Net) : (c.read store name k net).Ok := by
  unfold Client.read
  split
  · exact h.goto (fun _ => rfl) rfl (fun hnil => absurd hnil hne)
  · exact h.fetch hne store name net fun cell =>
      h.goto (fun _ => rfl) rfl (fun hnil => absurd hnil hne)

theorem Client.Ok.lock {c : Client D V} (h : c.Ok) (hne : c.stack ≠ []) (store : Store D)
    (name : String) (body : Prog D V) (k : V → Prog D V) (net : Net) :
    (c.lock store name body k net).Ok := by
  unfold Client.lock
  split
  · exact h.push hne rfl h.nested h.changes
  · next hnone =>
    have hfresh : name ∉ owned c.stack := by
      rw [← h.changes, hnone]
      simp
    refine h.fetch hne store name net fun cell => h.push hne rfl ⟨hfresh, h.nested⟩ ?_
    intro n
    rw [owned_opened, List.mem_cons, ← h.changes]
    by_cases hn : n = name
    · subst hn
      simp
    · simp [hn]

theorem Client.Ok.write {c : Client D V} (h : c.Ok) (hne : c.stack ≠ []) {name : String}
    {change : Versioned D} (hchange : c.changes name = some change) (doc : D) (k : Prog D V)
    (put : Put) (net : Net) : (c.write name change doc k put net).Ok := by
  have hgo : ∀ c' : Client D V, (∀ n, (c'.changes n).isSome = (c.changes n).isSome) →
      c'.stack = c.stack → c'.Ok :=
    fun c' hchanges hstack => h.goto hchanges hstack (fun hnil => absurd hnil hne)
  unfold Client.write
  split
  · split
    · exact hgo _ (fun _ => rfl) rfl
    · refine hgo _ (fun n => ?_) rfl
      by_cases hn : n = name
      · subst hn
        simp [hchange]
      · simp [hn]
  · exact hgo _ (fun _ => rfl) rfl
  · exact hgo _ (fun _ => rfl) rfl

/-! ## Copies -/

/-- Every change in progress works on a copy of its document. -/
def Client.Copies (store : Store D) (c : Client D V) : Prop :=
  ∀ name change, c.changes name = some change → change.CopyOf (store name)

theorem Client.Copies.initial (store : Store D) : (Client.initial : Client D V).Copies store := by
  intro name change h
  cases h

/-- A step that only drops changes, or starts one on what the store has. -/
theorem Client.Copies.of_changes {store : Store D} {c c' : Client D V} (h : c.Copies store)
    (hsub : ∀ name change, c'.changes name = some change →
      c.changes name = some change ∨ change = store name) : c'.Copies store := by
  intro name change hchange
  rcases hsub name change hchange with hold | rfl
  · exact h name change hold
  · exact Versioned.CopyOf.refl _

theorem Client.Copies.pop {store : Store D} {c : Client D V} (h : c.Copies store) (name : String) :
    (c.pop name).Copies store := by
  apply h.of_changes
  intro n change hn
  left
  by_cases hname : n = name
  · subst hname
    simp [Client.pop] at hn
  · simpa [Client.pop, hname] using hn

theorem Client.Copies.return {store : Store D} {c : Client D V} (h : c.Copies store) (value : V) :
    (c.return value).Copies store := by
  unfold Client.return
  split
  · exact h
  · exact h.pop _
  · exact h
  · exact h

theorem Client.Copies.propagate {store : Store D} {c : Client D V} (h : c.Copies store) (e : Exc) :
    (c.propagate e).Copies store := by
  unfold Client.propagate
  split
  · exact h
  · exact h.pop _
  · exact h
  · split
    · split
      · exact h
      · split <;> exact h
    · exact h

theorem Client.Copies.read {store : Store D} {c : Client D V} (h : c.Copies store) (name : String)
    (k : D → Prog D V) (net : Net) : (c.read store name k net).Copies store := by
  unfold Client.read Client.fetch
  split
  · exact h
  · cases net <;> exact h

theorem Client.Copies.lock {store : Store D} {c : Client D V} (h : c.Copies store) (name : String)
    (body : Prog D V) (k : V → Prog D V) (net : Net) : (c.lock store name body k net).Copies store := by
  unfold Client.lock Client.fetch
  split
  · exact h
  · cases net with
    | answered =>
      apply h.of_changes
      intro n change hn
      by_cases hname : n = name
      · subst hname
        right
        simpa using hn.symm
      · left
        simpa [hname] using hn
    | refused detail => exact h
    | lost detail => exact h

/-! ## The invariant -/

/-- The document after the changes `fs`, in order. -/
def applyAll (doc : D) (fs : List (D → D)) : D := fs.foldl (fun d f => f d) doc

/-- The store is the accepted changes applied to the initial documents; every client
    keeps its changes in order and works on copies. -/
structure Inv (docs : String → D) (s : Sys D V) : Prop where
  version : ∀ name, (s.store name).version = (s.accepted name).length
  doc : ∀ name, (s.store name).doc = applyAll (docs name) (s.accepted name)
  ok : ∀ id, (s.clients id).Ok
  copies : ∀ id, (s.clients id).Copies s.store

theorem Inv.initial (docs : String → D) : Inv docs (Sys.initial docs : Sys D V) :=
  ⟨fun _ => rfl, fun _ => rfl, fun _ => .initial, fun _ => .initial _⟩

theorem Inv.setClient {docs : String → D} {s : Sys D V} (h : Inv docs s) {id : Nat}
    {c : Client D V} (hok : c.Ok) (hcopies : c.Copies s.store) : Inv docs (s.setClient id c) where
  version := h.version
  doc := h.doc
  ok := by
    intro other
    by_cases hid : other = id
    · subst hid
      simpa [Sys.setClient] using hok
    · simpa [Sys.setClient, hid] using h.ok other
  copies := by
    intro other
    by_cases hid : other = id
    · subst hid
      simpa [Sys.setClient] using hcopies
    · simpa [Sys.setClient, hid] using h.copies other

/-- Tether accepts a write against a copy of the current version: its change function was
    applied to the current document. -/
theorem Inv.accept {docs : String → D} {s : Sys D V} (h : Inv docs s) {name : String}
    {change : Versioned D} (hcopy : change.CopyOf (s.store name))
    (hversion : change.version = (s.store name).version) (compute : D → D) :
    Inv docs (s.accept name (compute change.doc) compute) where
  version := by
    intro n
    by_cases hn : n = name
    · subst hn
      simp [Sys.accept, Versioned.replace, h.version n]
    · simpa [Sys.accept, hn] using h.version n
  doc := by
    intro n
    by_cases hn : n = name
    · subst hn
      have hdoc : change.doc = applyAll (docs n) (s.accepted n) :=
        (hcopy.2 hversion).trans (h.doc n)
      simp [Sys.accept, Versioned.replace, applyAll, hdoc]
    · simpa [Sys.accept, hn] using h.doc n
  ok := h.ok
  copies := by
    intro id n copy hcopy
    have hold := h.copies id n copy hcopy
    by_cases hn : n = name
    · subst hn
      simpa [Sys.accept] using hold.replace _
    · simpa [Sys.accept, hn] using hold

/-- The client's side of an accepted write: its change is at the new version. -/
theorem copies_accepted {s : Sys D V} {id : Nat} {name : String} {change : Versioned D}
    {doc : D} {compute : D → D}
    (h : (s.clients id).Copies (s.accept name doc compute).store)
    (hversion : change.version = (s.store name).version) (k : Prog D V) (put : Put) (net : Net) :
    ((s.clients id).write name change doc k put net).Copies (s.accept name doc compute).store := by
  unfold Client.write
  split
  · split
    · exact h
    · apply h.of_changes
      intro n copy hcopy
      by_cases hn : n = name
      · subst hn
        right
        obtain rfl : change.replace doc = copy := by simpa using hcopy
        simp [Sys.accept, Versioned.replace, hversion]
      · left
        simpa [hn] using hcopy
  · exact h
  · exact h

/-- A write that was not accepted leaves the changes as they were. -/
theorem copies_not_accepted {store : Store D} {c : Client D V} (h : c.Copies store) {name : String}
    {change : Versioned D} {doc : D} {k : Prog D V} {put : Put} {net : Net}
    (hnot : put = .conflict ∨ net ≠ .answered) : (c.write name change doc k put net).Copies store := by
  cases net with
  | answered =>
    obtain rfl : put = .conflict := by simpa using hnot
    exact h
  | refused detail => exact h
  | lost detail => exact h

theorem put_accepted {store : Store D} {name : String} {version : Nat}
    (h : store.put name version = .accepted) : version = (store name).version := by
  unfold Store.put at h
  split at h
  · assumption
  · cases h

theorem Inv.write {docs : String → D} {s : Sys D V} (h : Inv docs s) {id : Nat} {name : String}
    {change : Versioned D} (hchange : (s.clients id).changes name = some change)
    (hne : (s.clients id).stack ≠ []) (compute : D → D) (k : Prog D V) (net : Net) :
    Inv docs (s.write id name change compute k net) := by
  have hok := fun put => (h.ok id).write hne hchange (compute change.doc) k put net
  unfold Sys.write
  cases hput : s.store.put name change.version with
  | conflict =>
    have hcopies : ((s.clients id).write name change (compute change.doc) k .conflict net).Copies
        s.store := copies_not_accepted (h.copies id) (.inl rfl)
    cases net <;> exact h.setClient (hok .conflict) hcopies
  | accepted =>
    have hversion := put_accepted hput
    have haccept := h.accept (h.copies id name change hchange) hversion compute
    have hcopies := copies_accepted (haccept.copies id) hversion k .accepted net
    cases net with
    | refused detail =>
      exact h.setClient (hok .accepted) (copies_not_accepted (h.copies id) (.inr (by simp)))
    | answered => exact haccept.setClient (hok .accepted) hcopies
    | lost detail => exact haccept.setClient (hok .accepted) hcopies

theorem Inv.stepClient {docs : String → D} {s : Sys D V} (h : Inv docs s) (id : Nat) (net : Net)
    (value : V) : Inv docs (s.stepClient id net value) := by
  have hok := h.ok id
  have hcopies := h.copies id
  have hgoto : ∀ control, (s.clients id).stack ≠ [] →
      Inv docs (s.setClient id { s.clients id with control := control }) := fun control hne =>
    h.setClient (hok.goto (fun _ => rfl) rfl (fun hnil => absurd hnil hne)) hcopies
  unfold Sys.stepClient
  cases hcontrol : (s.clients id).control with
  | idle => simpa only [hcontrol] using h
  | raised e =>
    simp only [hcontrol]
    exact h.setClient (hok.propagate hcontrol) (hcopies.propagate e)
  | run p =>
    simp only [hcontrol]
    cases p with
    | ret v => exact h.setClient (hok.return v) (hcopies.return v)
    | raise e => exact hgoto _ (hok.stack_ne_nil hcontrol (by simp))
    | input k => exact hgoto _ (hok.stack_ne_nil hcontrol (by simp))
    | read name k =>
      exact h.setClient (hok.read (hok.stack_ne_nil hcontrol (by simp)) _ _ _ _) (hcopies.read _ _ _)
    | lock name body k =>
      exact h.setClient (hok.lock (hok.stack_ne_nil hcontrol (by simp)) _ _ _ _ _)
        (hcopies.lock _ _ _ _)
    | retrying body k =>
      refine h.setClient (hok.push (hok.stack_ne_nil hcontrol (by simp)) rfl ?_ hok.changes) hcopies
      exact ⟨hok.changes, by decide, hok.nested⟩
    | write name compute k =>
      have hne := hok.stack_ne_nil hcontrol (by simp)
      dsimp only
      split
      · exact hgoto _ hne
      · next change hchange => exact h.write hchange hne compute k net

theorem Inv.next {docs : String → D} {s : Sys D V} (h : Inv docs s) (a : Action D V) :
    Inv docs (s.next a) := by
  cases a with
  | step id net value => exact h.stepClient id net value
  | call id body =>
    simp only [Sys.next]
    split
    · next hidle =>
      have hok := h.ok id
      refine h.setClient ?_ (h.copies id)
      refine ⟨⟨hok.changes, by decide, hok.nested⟩, hok.changes, ?_, fun hnil => by cases hnil⟩
      intro frame hframe
      cases hstack : (s.clients id).stack with
      | nil =>
        rw [hstack] at hframe
        cases hframe
        exact ⟨_, _, _, rfl⟩
      | cons below rest =>
        apply hok.root
        rw [hstack] at hframe ⊢
        exact hframe
    · exact h

theorem Inv.run (docs : String → D) (actions : List (Action D V)) :
    Inv docs (run Sys.next (Sys.initial docs) actions) :=
  run_invariant (fun _ a _ h => h.next a) (Inv.initial docs)

/-! ## Who handles a conflict -/

/-- The frame lets a conflict on the document through. -/
def Frame.passes (name : String) : Frame D V → Bool
  | .retrying outer _ _ _ => outer name
  | .opened .. | .joined .. => true

/-- Functions called inside the change of a document let its conflicts through. -/
theorem Scoped.passes {inner below : List (Frame D V)} (h : Scoped (inner ++ below)) {name : String}
    (hname : name ∈ owned below) : ∀ frame ∈ inner, frame.passes name = true := by
  induction inner with
  | nil => simp
  | cons frame inner ih =>
    intro f hf
    rcases List.mem_cons.mp hf with rfl | hf
    · cases f with
      | opened n k => rfl
      | joined n k => rfl
      | retrying outer attempt body k =>
        apply (h.1 name).mpr
        show name ∈ owned (inner ++ below)
        rw [owned_append]
        exact List.mem_append_right _ hname
    · exact ih h.tail f hf

/-- They do not open it either. -/
theorem Scoped.not_owned {inner below : List (Frame D V)} (h : Scoped (inner ++ below))
    {name : String} (hname : name ∈ owned below) : name ∉ owned inner := by
  induction inner with
  | nil => simp
  | cons frame inner ih =>
    have htail := ih h.tail
    cases frame with
    | joined n k => exact htail
    | retrying outer attempt body k => exact htail
    | opened n k =>
      rw [owned_opened, List.mem_cons, not_or]
      refine ⟨?_, htail⟩
      rintro rfl
      apply h.1
      show name ∈ owned (inner ++ below)
      rw [owned_append]
      exact List.mem_append_right _ hname

theorem exists_opened {stack : List (Frame D V)} {name : String} (h : name ∈ owned stack) :
    ∃ inner k below, stack = inner ++ .opened name k :: below := by
  obtain ⟨frame, hframe, hopens⟩ := List.mem_filterMap.mp h
  obtain ⟨inner, below, rfl⟩ := List.append_of_mem hframe
  cases frame with
  | opened n k =>
    cases hopens
    exact ⟨inner, k, below, rfl⟩
  | joined n k => cases hopens
  | retrying outer attempt body k => cases hopens

theorem exists_retrying {below : List (Frame D V)} (h : ∃ frame ∈ below, frame.isRetrying = true) :
    ∃ mid outer attempt body k rest, below = mid ++ .retrying outer attempt body k :: rest ∧
      ∀ frame ∈ mid, frame.isRetrying = false := by
  induction below with
  | nil => simp at h
  | cons frame below ih =>
    by_cases hframe : frame.isRetrying = true
    · cases frame with
      | retrying outer attempt body k => exact ⟨[], outer, attempt, body, k, below, rfl, by simp⟩
      | opened n k => cases hframe
      | joined n k => cases hframe
    · obtain ⟨f, hf, hretry⟩ := h
      rcases List.mem_cons.mp hf with rfl | hf
      · exact absurd hretry hframe
      obtain ⟨mid, outer, attempt, body, k, rest, rfl, hmid⟩ := ih ⟨f, hf, hretry⟩
      refine ⟨frame :: mid, outer, attempt, body, k, rest, rfl, ?_⟩
      simpa [hframe] using hmid

/-- The stack of a client that changes a document: the function that opened the change is
    the innermost one around the block that did. -/
theorem Client.Ok.opener {c : Client D V} (h : c.Ok) {name : String} (hname : name ∈ owned c.stack) :
    ∃ inner k₁ mid outer attempt body k₂ rest,
      c.stack = inner ++ .opened name k₁ :: (mid ++ .retrying outer attempt body k₂ :: rest) ∧
      name ∉ owned inner ∧ ∀ frame ∈ mid, frame.isRetrying = false := by
  obtain ⟨inner, k₁, below, hstack⟩ := exists_opened hname
  have hbelow : ∃ frame ∈ below, frame.isRetrying = true := by
    cases hlast : below.getLast? with
    | none =>
      -- the block would be the bottom of the stack
      obtain rfl : below = [] := List.getLast?_eq_none_iff.mp hlast
      obtain ⟨_, _, _, heq⟩ := h.root (.opened name k₁) (by rw [hstack]; simp)
      cases heq
    | some frame =>
      have hbottom : c.stack.getLast? = some frame := by
        rw [hstack, List.getLast?_append]
        simp [List.getLast?_cons, hlast]
      obtain ⟨_, _, _, rfl⟩ := h.root frame hbottom
      exact ⟨_, List.mem_of_getLast? hlast, rfl⟩
  obtain ⟨mid, outer, attempt, body, k₂, rest, rfl, hmid⟩ := exists_retrying hbelow
  refine ⟨inner, k₁, mid, outer, attempt, body, k₂, rest, hstack, ?_, hmid⟩
  have hscoped := h.nested
  rw [hstack] at hscoped
  exact hscoped.not_owned (by simp)

/-- The client after `n` steps with the conflict raised. -/
def Client.unwind (c : Client D V) (name : String) : Nat → Client D V
  | 0 => c
  | n + 1 => (c.unwind name n).propagate (.conflict name)

/-- The conflict passes frames that let it through, one by one. -/
theorem unwind_passing {c : Client D V} {name : String} {passing rest : List (Frame D V)}
    (hstack : c.stack = passing ++ rest) (hcontrol : c.control = .raised (.conflict name))
    (hpass : ∀ frame ∈ passing, frame.passes name = true) {n : Nat} (hn : n ≤ passing.length) :
    (c.unwind name n).control = .raised (.conflict name) ∧
      (c.unwind name n).stack = passing.drop n ++ rest := by
  induction n with
  | zero => exact ⟨hcontrol, hstack⟩
  | succ n ih =>
    obtain ⟨hc, hs⟩ := ih (by omega)
    have hlt : n < passing.length := hn
    rw [List.drop_eq_getElem_cons hlt, List.cons_append] at hs
    have hframe := hpass passing[n] (List.getElem_mem hlt)
    rw [Client.unwind]
    generalize c.unwind name n = c' at hc hs
    generalize passing[n] = frame at hs hframe
    unfold Client.propagate
    rw [hs]
    cases frame with
    | opened n k => exact ⟨hc, rfl⟩
    | joined n k => exact ⟨hc, rfl⟩
    | retrying outer attempt body k =>
      have houter : outer name = true := hframe
      simp only [houter, if_true]
      exact ⟨hc, trivial⟩

/-- The function that opened the change runs again from its start, or gives up after its
    last attempt. -/
def Client.Handled (c : Client D V) (name : String) (outer : String → Bool) (attempt : Nat)
    (body : Prog D V) (k : V → Prog D V) (rest : List (Frame D V)) : Prop :=
  if attempt + 1 = attempts then
    c.control = .raised (.unavailable (keptChanging name)) ∧ c.stack = rest
  else c.control = .run body ∧ c.stack = .retrying outer (attempt + 1) body k :: rest

theorem propagate_handled {c : Client D V} {name : String} {outer : String → Bool} {attempt : Nat}
    {body : Prog D V} {k : V → Prog D V} {rest : List (Frame D V)}
    (hstack : c.stack = .retrying outer attempt body k :: rest) (houter : outer name = false) :
    (c.propagate (.conflict name)).Handled name outer attempt body k rest := by
  unfold Client.propagate Client.Handled
  rw [hstack]
  simp only [houter, Bool.false_eq_true, if_false]
  split
  · exact ⟨rfl, rfl⟩
  · exact ⟨rfl, rfl⟩

theorem unwind_handled {c : Client D V} {name : String} {passing rest : List (Frame D V)}
    {outer : String → Bool} {attempt : Nat} {body : Prog D V} {k : V → Prog D V}
    (hstack : c.stack = passing ++ .retrying outer attempt body k :: rest)
    (hcontrol : c.control = .raised (.conflict name))
    (hpass : ∀ frame ∈ passing, frame.passes name = true) (houter : outer name = false) :
    (c.unwind name (passing.length + 1)).Handled name outer attempt body k rest := by
  rw [Client.unwind]
  apply propagate_handled _ houter
  rw [(unwind_passing hstack hcontrol hpass (Nat.le_refl _)).2, List.drop_length, List.nil_append]

theorem Client.Handled.busy {c : Client D V} {name : String} {outer : String → Bool} {attempt : Nat}
    {body : Prog D V} {k : V → Prog D V} {rest : List (Frame D V)}
    (h : c.Handled name outer attempt body k rest) : c.control ≠ .idle := by
  unfold Client.Handled at h
  split at h <;> simp [h.1]

theorem Client.Handled.owned {c : Client D V} {name : String} {outer : String → Bool} {attempt : Nat}
    {body : Prog D V} {k : V → Prog D V} {rest : List (Frame D V)}
    (h : c.Handled name outer attempt body k rest) :
    CoordStore.owned c.stack = CoordStore.owned rest := by
  unfold Client.Handled at h
  split at h <;> simp [h.2]

/-- How many steps of the client are among the actions. -/
def stepsOf (id : Nat) : List (Action D V) → Nat
  | [] => 0
  | .step other _ _ :: actions => stepsOf id actions + if other = id then 1 else 0
  | .call _ _ :: actions => stepsOf id actions

/-- Nobody else touches a client. -/
theorem setClient_other (s : Sys D V) {id other : Nat} (hne : other ≠ id) (c : Client D V) :
    (s.setClient id c).clients other = s.clients other := by
  simp [Sys.setClient, hne]

theorem stepClient_other (s : Sys D V) {id other : Nat} (hne : other ≠ id) (net : Net) (value : V) :
    (s.stepClient id net value).clients other = s.clients other := by
  unfold Sys.stepClient
  dsimp only
  split
  all_goals first | rfl | exact setClient_other s hne _ | skip
  split
  · exact setClient_other s hne _
  · unfold Sys.write
    dsimp only
    split <;> exact setClient_other _ hne _

/-- A client in the course of unwinding goes on with it whatever the others do. -/
theorem run_unwind_from {name : String} {id total : Nat} {more : List (Action D V)} {s : Sys D V}
    {start : Client D V} {n : Nat} (hc : s.clients id = start.unwind name n)
    (hraised : ∀ i < total, (start.unwind name i).control = .raised (.conflict name))
    (hend : (start.unwind name total).control ≠ .idle) (hn : n + stepsOf id more ≤ total) :
    (run Sys.next s more).clients id = start.unwind name (n + stepsOf id more) := by
  induction more generalizing s n with
  | nil => exact hc
  | cons a more ih =>
    rw [run_cons]
    cases a with
    | call other body =>
      have hbusy : (start.unwind name n).control ≠ .idle := by
        have hle : n ≤ total := by omega
        rcases Nat.lt_or_eq_of_le hle with hlt | rfl
        · rw [hraised n hlt]
          simp
        · exact hend
      refine ih ?_ hn
      by_cases hid : other = id
      · subst hid
        simp only [Sys.next]
        split
        · next hidle => exact absurd (hc ▸ hidle) hbusy
        · exact hc
      · rw [← hc]
        simp only [Sys.next]
        split
        · exact setClient_other s (Ne.symm hid) _
        · rfl
    | step other net value =>
      by_cases hid : other = id
      · subst hid
        simp only [stepsOf, if_true] at hn ⊢
        have hcontrol := hraised n (by omega)
        rw [← hc] at hcontrol
        rw [show n + (stepsOf other more + 1) = (n + 1) + stepsOf other more by omega]
        refine ih ?_ (by omega)
        simp only [Sys.next, Sys.stepClient, hcontrol, Sys.setClient, Function.update_self]
        rw [hc]
        rfl
      · simp only [stepsOf, hid, if_false, Nat.add_zero] at hn ⊢
        refine ih ?_ hn
        rw [← hc]
        exact stepClient_other s (Ne.symm hid) net value

theorem run_unwind {name : String} {id : Nat} {s : Sys D V} {start : Client D V} (total : Nat)
    (more : List (Action D V)) (hc : s.clients id = start)
    (hraised : ∀ i < total, (start.unwind name i).control = .raised (.conflict name))
    (hend : (start.unwind name total).control ≠ .idle) (hn : stepsOf id more ≤ total) :
    (run Sys.next s more).clients id = start.unwind name (stepsOf id more) := by
  have hfrom := run_unwind_from (n := 0) hc hraised hend (by rw [Nat.zero_add]; exact hn)
  rw [Nat.zero_add] at hfrom
  exact hfrom

/-- The PUT of a stale change raises `Conflict` in the client. -/
theorem stepClient_conflict {s : Sys D V} {id : Nat} {name : String} {compute : D → D}
    {k : Prog D V} {change : Versioned D}
    (hcontrol : (s.clients id).control = .run (.write name compute k))
    (hchange : (s.clients id).changes name = some change)
    (hstale : change.version ≠ (s.store name).version) (value : V) :
    (s.stepClient id .answered value).clients id =
      { s.clients id with control := .raised (.conflict name) } := by
  simp [Sys.stepClient, hcontrol, hchange, Sys.write, Store.put, hstale, Sys.setClient,
    Client.write]

/-- Above the function that opened the change everything lets the conflict through; the
    function itself does not. -/
theorem Client.Ok.opener_catches {c : Client D V} (h : c.Ok) {name : String}
    {inner mid rest : List (Frame D V)} {k₁ k₂ : V → Prog D V} {outer : String → Bool}
    {attempt : Nat} {body : Prog D V}
    (hstack : c.stack = inner ++ .opened name k₁ :: (mid ++ .retrying outer attempt body k₂ :: rest))
    (hmid : ∀ frame ∈ mid, frame.isRetrying = false) :
    (∀ frame ∈ inner ++ .opened name k₁ :: mid, frame.passes name = true) ∧
      outer name = false ∧ name ∉ owned rest := by
  have hscoped := h.nested
  rw [hstack] at hscoped
  have hopened := hscoped.of_append
  have hfresh : name ∉ owned rest := fun hrest => hopened.1 (by simp [hrest])
  have hopener : Scoped (.retrying outer attempt body k₂ :: rest) := hopened.2.of_append
  refine ⟨fun frame hframe => ?_, ?_, hfresh⟩
  · rcases List.mem_append.mp hframe with hframe | hframe
    · exact hscoped.passes (by simp) frame hframe
    · rcases List.mem_cons.mp hframe with rfl | hframe
      · rfl
      · have hnot := hmid frame hframe
        cases frame <;> first | rfl | cases hnot
  · rw [Bool.eq_false_iff, ne_eq, hopener.1]
    exact hfresh

/-- A conflict unwinds to the function that opened the document's change. -/
theorem Inv.conflict {docs : String → D} {s : Sys D V} (h : Inv docs s) {id : Nat} {name : String}
    {compute : D → D} {k : Prog D V} {change : Versioned D}
    (hcontrol : (s.clients id).control = .run (.write name compute k))
    (hchange : (s.clients id).changes name = some change)
    (hstale : change.version ≠ (s.store name).version) :
    ∃ inner k₁ mid outer attempt body k₂ rest,
      (s.clients id).stack =
        inner ++ .opened name k₁ :: (mid ++ .retrying outer attempt body k₂ :: rest) ∧
      name ∉ owned inner ∧ (∀ frame ∈ mid, frame.isRetrying = false) ∧
      ∀ value more,
        let c := (SummitFlow.run Sys.next (s.next (.step id .answered value)) more).clients id
        (stepsOf id more < inner.length + mid.length + 2 → c.control = .raised (.conflict name)) ∧
        (stepsOf id more = inner.length + mid.length + 2 →
          c.changes name = none ∧ c.Handled name outer attempt body k₂ rest) := by
  have howned : name ∈ owned (s.clients id).stack := by
    rw [← (h.ok id).changes, hchange]
    rfl
  obtain ⟨inner, k₁, mid, outer, attempt, body, k₂, rest, hstack, hinner, hmid⟩ :=
    (h.ok id).opener howned
  refine ⟨inner, k₁, mid, outer, attempt, body, k₂, rest, hstack, hinner, hmid, ?_⟩
  obtain ⟨hpass, houter, hfresh⟩ := (h.ok id).opener_catches hstack hmid
  intro value more c
  set s' := s.next (.step id .answered value)
  have hstart : s'.clients id = { s.clients id with control := .raised (.conflict name) } :=
    stepClient_conflict hcontrol hchange hstale value
  have hraised : (s'.clients id).control = .raised (.conflict name) := by rw [hstart]
  have hstack' : (s'.clients id).stack = (inner ++ .opened name k₁ :: mid) ++
      (.retrying outer attempt body k₂ :: rest) := by
    rw [hstart]
    simpa using hstack
  have hlength : (inner ++ .opened name k₁ :: mid).length + 1 = inner.length + mid.length + 2 := by
    simp
    omega
  have hhandled := unwind_handled hstack' hraised hpass houter
  rw [hlength] at hhandled
  have hrun := run_unwind (inner.length + mid.length + 2) more rfl
    (fun n hn => (unwind_passing hstack' hraised hpass (by omega)).1) hhandled.busy
  refine ⟨fun hlt => ?_, fun heq => ?_⟩
  · have hc : c = _ := hrun (Nat.le_of_lt hlt)
    rw [hc]
    exact (unwind_passing hstack' hraised hpass (by omega)).1
  · have hc : c = _ := hrun (Nat.le_of_eq heq)
    rw [heq] at hc
    rw [← hc] at hhandled
    refine ⟨?_, hhandled⟩
    have hok : c.Ok := (run_invariant (fun _ a _ h => h.next a) (h.next _) : Inv docs _).ok id
    rw [← hhandled.owned, ← hok.changes] at hfresh
    simpa using hfresh

end SummitFlow.CoordStore
