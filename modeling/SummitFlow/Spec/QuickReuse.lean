import SummitFlow.Cli.QuickReceipt
import SummitFlow.Python.Str
import Mathlib.Data.List.Dedup

/-!
# Reusing a quick check

A receipt binds the files of a lookup, HEAD, the gate inputs and the gate configuration
files.  A check reads more: the rest of the working tree, and the st code itself.  A reused
receipt stands for the world as it is exactly when that rest did not change either, and
when the check read what was hashed.
-/

namespace SummitFlow.QuickReceipt

/-! ## What a receipt stands for -/

/-- A check finds the same in both worlds. -/
structure SameReads (w w' : World) : Prop where
  entry : ∀ path, w.entry path = w'.entry path
  head : w.head = w'.head
  inputs : w.inputs = w'.inputs
  code : (w.code.map fun file => (file.path, file.content)) =
    w'.code.map fun file => (file.path, file.content)

/-- A quick check as a function of what it reads.  What passes on a scope passes on a part
    of it. -/
structure QuickCheck where
  passes : World → List String → Bool
  reads : ∀ {w w' : World}, SameReads w w' → ∀ files, passes w files = passes w' files
  mono : ∀ {w : World} {files scope : List String}, files ⊆ scope → passes w scope = true →
    passes w files = true

section

variable (sha : Sha)

/-- What the receipt of a lookup leaves open between its run and now: the working tree
    outside the lookup and the gate configuration, the content of the st code, and whether
    the check read what was hashed. -/
structure Unchanged (r : Receipt) (w : World) (files : List String) : Prop where
  elsewhere : ∀ path, path ∉ files →
    (∀ listing, w.listing = some listing → path ∉ configNames listing) →
    r.ran.entry path = w.entry path
  code : (r.ran.code.map fun file => (file.path, file.content)) =
    w.code.map fun file => (file.path, file.content)
  scope : ∀ name ∈ files, r.files.lookup name = some (fileHash sha r.ran name)
  context : ∃ hashed : World, contextHash sha hashed = some r.context ∧
    hashed.head = r.ran.head ∧ hashed.inputs = r.ran.inputs ∧
    ∀ listing, hashed.listing = some listing →
      ∀ name ∈ configNames listing, hashed.entry name = r.ran.entry name

end

/-! ## Hashes -/

section

variable {sha : Sha}

theorem startswith_link (target : String) : Str.startswith ("link:" ++ target) "link:" = true := by
  rw [Str.startswith, List.isPrefixOf_iff_prefix, String.toList_append]
  exact List.prefix_append _ _

theorem link_plain (target : String) : ("link:" ++ target) ≠ "unreadable" ∧
    ("link:" ++ target) ≠ "absent" ∧ ("link:" ++ target) ≠ "other" := by
  have hhead : ∀ text : String, "link:" ++ target = text → text.toList.head? = some 'l' := by
    rintro text rfl
    simp
  exact ⟨fun h => absurd (hhead _ h) (by decide), fun h => absurd (hhead _ h) (by decide),
    fun h => absurd (hhead _ h) (by decide)⟩

/-- Different entries have different hashes. -/
theorem entry_of_fileHash {w w' : World} {name : String}
    (h : fileHash sha w name = fileHash sha w' name) : w.entry name = w'.entry name := by
  have hfile : ∀ content target, sha.content content ≠ "link:" ++ target := by
    intro content target heq
    have hplain := (sha.content_plain content).2.2.2
    rw [heq, startswith_link] at hplain
    cases hplain
  have hinj := sha.content_injective
  unfold fileHash at h
  cases hw : w.entry name with
  | absent => grind [link_plain, Sha.content_plain]
  | unreadable => grind [link_plain, Sha.content_plain]
  | other => grind [link_plain, Sha.content_plain]
  | file content => grind [link_plain, Sha.content_plain, Function.Injective]
  | link target => grind [link_plain, Sha.content_plain, String.append_right_inj]

theorem fileHash_congr {w w' : World} {name : String} (h : w.entry name = w'.entry name) :
    fileHash sha w name = fileHash sha w' name := by
  unfold fileHash
  rw [h]

theorem no_nul_of_mem_configNames {listing name : String} (h : name ∈ configNames listing) :
    '\x00' ∉ name.toList := by
  have hlisted := mem_sortBy.mp (List.mem_filter.mp h).1
  obtain ⟨piece, hpiece, rfl⟩ := List.mem_map.mp (List.mem_filter.mp hlisted).1
  rw [String.toList_ofList]
  exact Str.not_mem_of_mem_splitOnChar hpiece

/-- A list splits at a separator that neither front holds in one way. -/
theorem append_sep_inj {sep : Char} {xs ys as bs : List Char} (hxs : sep ∉ xs) (hys : sep ∉ ys)
    (h : xs ++ sep :: as = ys ++ sep :: bs) : xs = ys ∧ as = bs := by
  induction xs generalizing ys with
  | nil =>
    cases ys with
    | nil => exact ⟨rfl, (List.cons.inj h).2⟩
    | cons y ys =>
      obtain ⟨rfl, -⟩ := List.cons.inj h
      exact absurd List.mem_cons_self hys
  | cons x xs ih =>
    cases ys with
    | nil =>
      obtain ⟨rfl, -⟩ := List.cons.inj h
      exact absurd List.mem_cons_self hxs
    | cons y ys =>
      obtain ⟨rfl, hrest⟩ := List.cons.inj h
      obtain ⟨rfl, hback⟩ := ih (fun hmem => hxs (List.mem_cons_of_mem _ hmem))
        (fun hmem => hys (List.mem_cons_of_mem _ hmem)) hrest
      exact ⟨rfl, hback⟩

/-- A name and a hash with a NUL between them are told apart. -/
theorem named_hash_inj {name name' hash hash' : String} (hname : '\x00' ∉ name.toList)
    (hname' : '\x00' ∉ name'.toList) (h : name ++ "\x00" ++ hash = name' ++ "\x00" ++ hash') :
    name = name' ∧ hash = hash' := by
  have htext : name.toList ++ '\x00' :: hash.toList = name'.toList ++ '\x00' :: hash'.toList := by
    have := congrArg String.toList h
    simpa using this
  obtain ⟨hfront, hback⟩ := append_sep_inj hname hname' htext
  exact ⟨String.toList_inj.mp hfront, String.toList_inj.mp hback⟩

/-- The hashes of gate configuration files bind the files. -/
theorem config_of_hashes {w w' : World} {names names' : List String}
    (hnames : ∀ name ∈ names, '\x00' ∉ name.toList) (hnames' : ∀ name ∈ names', '\x00' ∉ name.toList)
    (h : (names.map fun name => name ++ "\x00" ++ fileHash sha w name) =
      names'.map fun name => name ++ "\x00" ++ fileHash sha w' name) :
    names = names' ∧ ∀ name ∈ names, w.entry name = w'.entry name := by
  induction names generalizing names' with
  | nil =>
    obtain rfl := List.map_eq_nil_iff.mp h.symm
    exact ⟨rfl, fun _ hmem => absurd hmem List.not_mem_nil⟩
  | cons name names ih =>
    cases names' with
    | nil => cases h
    | cons name' names' =>
      obtain ⟨hhead, hrest⟩ := List.cons.inj h
      obtain ⟨rfl, hhash⟩ := named_hash_inj (hnames name List.mem_cons_self)
        (hnames' name' List.mem_cons_self) hhead
      obtain ⟨rfl, hentries⟩ := ih (fun x hx => hnames x (List.mem_cons_of_mem _ hx))
        (fun x hx => hnames' x (List.mem_cons_of_mem _ hx)) hrest
      refine ⟨rfl, fun x hx => ?_⟩
      rcases List.mem_cons.mp hx with rfl | hx
      · exact entry_of_fileHash hhash
      · exact hentries x hx

/-- What a context hash binds. -/
theorem context_binds {w w' : World} {context : String} (h : contextHash sha w = some context)
    (h' : contextHash sha w' = some context) :
    w.head = w'.head ∧ w.inputs = w'.inputs ∧ ∃ listing listing', w.listing = some listing ∧
      w'.listing = some listing' ∧ configNames listing = configNames listing' ∧
      ∀ name ∈ configNames listing, w.entry name = w'.entry name := by
  unfold contextHash configFileHashes at h h'
  cases hhead : w.head with
  | none => simp [hhead] at h
  | some head =>
  cases hinputs : w.inputs with
  | none => simp [hhead, hinputs] at h
  | some inputs =>
  cases hlisting : w.listing with
  | none => simp [hhead, hinputs, hlisting] at h
  | some listing =>
  cases hhead' : w'.head with
  | none => simp [hhead'] at h'
  | some head' =>
  cases hinputs' : w'.inputs with
  | none => simp [hhead', hinputs'] at h'
  | some inputs' =>
  cases hlisting' : w'.listing with
  | none => simp [hhead', hinputs', hlisting'] at h'
  | some listing' =>
    simp only [hhead, hinputs, hlisting, Option.map_some, Option.bind_eq_bind, Option.bind_some,
      Option.some.injEq] at h
    simp only [hhead', hinputs', hlisting', Option.map_some, Option.bind_eq_bind, Option.bind_some,
      Option.some.injEq] at h'
    have hparts := sha.parts_injective (h.trans h'.symm)
    obtain ⟨hheads, hparts⟩ := List.cons.inj hparts
    obtain ⟨hinputsEq, hparts⟩ := List.cons.inj hparts
    obtain ⟨hconfig, -⟩ := List.append_inj' hparts rfl
    obtain ⟨hnames, hentries⟩ := config_of_hashes (fun _ => no_nul_of_mem_configNames)
      (fun _ => no_nul_of_mem_configNames) hconfig
    exact ⟨by rw [hheads], by rw [hinputsEq], listing, listing', rfl, rfl, hnames, hentries⟩

/-! ## Lookups -/

/-- What a lookup found out about the receipt it returns. -/
theorem reusable_some {enabled : Bool} {ttl now : Int} {w : World} {receipts : List Receipt}
    {files : List String} {r : Receipt}
    (h : reusable sha enabled ttl now w receipts files = some r) :
    r ∈ receipts ∧ contextHash sha w = some r.context ∧
      ∀ name ∈ files, r.files.lookup name = some (fileHash sha w name) := by
  unfold reusable at h
  split at h
  · cases h
  · obtain ⟨context, hcontext, hfound⟩ := Option.bind_eq_some_iff.mp h
    unfold reusableFrom at hfound
    have hmatch := List.find?_some hfound
    rw [Bool.and_eq_true, Bool.and_eq_true, decide_eq_true_eq, List.all_eq_true] at hmatch
    refine ⟨List.mem_reverse.mp (List.mem_of_find?_eq_some hfound), ?_, ?_⟩
    · rw [hcontext, hmatch.1.1]
    · intro name hname
      have hentry : (name, fileHash sha w name) ∈ scopeHashes sha w files :=
        List.mem_map.mpr ⟨name, mem_sortBy.mpr (List.mem_dedup.mpr hname), rfl⟩
      exact of_decide_eq_true (hmatch.2 _ hentry)

/-- A returned receipt stands for the world exactly when what it leaves open is unchanged. -/
theorem sameReads_iff {w : World} {files : List String} {r : Receipt}
    (hcontext : contextHash sha w = some r.context)
    (hscope : ∀ name ∈ files, r.files.lookup name = some (fileHash sha w name)) :
    SameReads r.ran w ↔ Unchanged sha r w files := by
  constructor
  · intro h
    refine ⟨fun path _ _ => h.entry path, h.code, ?_, ?_⟩
    · intro name hname
      rw [hscope name hname, fileHash_congr (h.entry name)]
    · exact ⟨w, hcontext, h.head.symm, h.inputs.symm, fun _ _ name _ => (h.entry name).symm⟩
  · intro h
    obtain ⟨hashed, hhashed, hhead, hinputs, hconfig⟩ := h.context
    obtain ⟨hheads, hinputsEq, listing, listing', hlisting, hlisting', hnames, hentries⟩ :=
      context_binds hhashed hcontext
    refine ⟨?_, hhead.symm.trans hheads, hinputs.symm.trans hinputsEq, h.code⟩
    intro path
    by_cases hfile : path ∈ files
    · have heq := (h.scope path hfile).symm.trans (hscope path hfile)
      exact entry_of_fileHash (Option.some.inj heq)
    · by_cases hnamed : path ∈ configNames listing'
      · have hnamed' : path ∈ configNames listing := hnames ▸ hnamed
        rw [← hconfig listing hlisting path hnamed', hentries path hnamed']
      · apply h.elsewhere path hfile
        intro other hother
        rw [hlisting'] at hother
        obtain rfl := Option.some.inj hother
        exact hnamed

/-! ## Histories -/

/-- A receipt comes from a recorded run that passed on its files. -/
def Stands (sha : Sha) (check : QuickCheck) (recorded : List (List String × World))
    (r : Receipt) : Prop :=
  ∃ scope, (scope, r.ran) ∈ recorded ∧ check.passes r.ran scope = true ∧
    ∃ w, r.files = scopeHashes sha w scope

/-- What a check that is under way knows. -/
def PhaseOk (sha : Sha) (check : QuickCheck) (recorded : List (List String × World))
    (files : List String) : Phase → Prop
  | .started => True
  | .hashed _ => True
  | .ready _ hashes => ∃ w, hashes = scopeHashes sha w files
  | .passed _ hashes ran | .sameScope _ hashes ran | .sameContext _ hashes ran =>
    check.passes ran files = true ∧ ∃ w, hashes = scopeHashes sha w files
  | .loaded _ hashes ran receipts =>
    (check.passes ran files = true ∧ ∃ w, hashes = scopeHashes sha w files) ∧
      ∀ r ∈ receipts, Stands sha check recorded r

/-- Every receipt, stored or about to be, comes from a recorded run. -/
structure Recorded (sha : Sha) (check : QuickCheck) (s : System) : Prop where
  receipts : ∀ r ∈ s.receipts, Stands sha check s.recorded r
  phases : ∀ pid files phase, s.checks pid = some (files, phase) →
    PhaseOk sha check s.recorded files phase

variable {check : QuickCheck}

theorem Stands.concat {recorded : List (List String × World)} {r : Receipt}
    (h : Stands sha check recorded r) (entry : List String × World) :
    Stands sha check (recorded ++ [entry]) r := by
  obtain ⟨scope, hmem, hrest⟩ := h
  exact ⟨scope, List.mem_append_left _ hmem, hrest⟩

theorem PhaseOk.concat {recorded : List (List String × World)} {files : List String}
    {phase : Phase} (h : PhaseOk sha check recorded files phase) (entry : List String × World) :
    PhaseOk sha check (recorded ++ [entry]) files phase := by
  cases phase with
  | loaded context hashes ran receipts =>
    exact ⟨h.1, fun r hr => (h.2 r hr).concat entry⟩
  | _ => exact h

theorem mem_addReceipt {receipts : List Receipt} {new r : Receipt}
    (h : r ∈ addReceipt receipts new) : r ∈ receipts ∨ r = new := by
  have hkept := List.mem_of_mem_drop h
  rw [List.mem_append, List.mem_singleton] at hkept
  exact hkept.imp_left fun hmem => (List.mem_filter.mp hmem).1

/-- A check that goes on, or ends, leaves the rest alone. -/
theorem Recorded.setCheck {s : System} (h : Recorded sha check s) (pid : Nat)
    (files : List String) {phase : Option Phase}
    (hphase : ∀ p, phase = some p → PhaseOk sha check s.recorded files p) :
    Recorded sha check (s.setCheck pid files phase) := by
  constructor
  · exact h.receipts
  · intro other files' phase' hother
    show PhaseOk sha check s.recorded files' phase'
    by_cases heq : other = pid
    · subst heq
      simp only [System.setCheck, Function.update_self, Option.map_eq_some_iff,
        Prod.mk.injEq] at hother
      obtain ⟨p, hp, rfl, rfl⟩ := hother
      exact hphase p hp
    · simp only [System.setCheck, Function.update_of_ne heq] at hother
      exact h.phases other files' phase' hother

/-- The next thing a check does keeps receipts recorded. -/
theorem Recorded.advance {s : System} {enabled : Bool} {pid : Nat} {files : List String}
    {phase : Phase} (h : Recorded sha check s) (hphase : PhaseOk sha check s.recorded files phase)
    (now : Int) (fails : Bool) :
    Recorded sha check (s.advance sha check.passes enabled pid files now fails phase) := by
  cases phase with
  | started =>
    apply h.setCheck
    rintro p ⟨⟩
    trivial
  | hashed context =>
    apply h.setCheck
    rintro p ⟨⟩
    exact ⟨s.world, rfl⟩
  | ready context hashes =>
    apply h.setCheck
    intro p hp
    split at hp
    next hpass =>
      obtain rfl := Option.some.inj hp
      exact ⟨hpass, hphase⟩
    next => cases hp
  | passed context hashes ran =>
    apply h.setCheck
    intro p hp
    cases context with
    | none => cases hp
    | some context =>
      simp only at hp
      split at hp
      · cases hp
      · obtain rfl := Option.some.inj hp
        exact hphase
  | sameScope context hashes ran =>
    apply h.setCheck
    intro p hp
    split at hp
    · cases hp
    · obtain rfl := Option.some.inj hp
      exact hphase
  | sameContext context hashes ran =>
    apply h.setCheck
    rintro p ⟨⟩
    exact ⟨hphase, h.receipts⟩
  | loaded context hashes ran receipts =>
    show Recorded sha check (if fails then _ else _)
    cases fails with
    | true => exact h.setCheck pid files (fun p hp => by cases hp)
    | false =>
      -- the new receipt joins what was loaded, the run joins the record
      obtain ⟨⟨hpass, w, rfl⟩, hloaded⟩ := hphase
      have hrest : Recorded sha check (s.setCheck pid files none) :=
        h.setCheck pid files (fun p hp => by cases hp)
      constructor
      · intro r hr
        show Stands sha check (s.recorded ++ [(files, ran)]) r
        rcases mem_addReceipt hr with hmem | rfl
        · exact (hloaded r hmem).concat _
        · exact ⟨files, List.mem_append_right _ List.mem_cons_self, hpass, w, rfl⟩
      · intro other files' phase' hother
        exact (hrest.phases other files' phase' hother).concat _

theorem Recorded.step {s : System} {enabled : Bool} (h : Recorded sha check s) (e : Event) :
    Recorded sha check (s.step sha check.passes enabled e) := by
  cases e with
  | edit w => exact ⟨h.receipts, h.phases⟩
  | start pid files =>
    apply h.setCheck
    rintro p ⟨⟩
    trivial
  | advance pid now fails =>
    unfold System.step
    dsimp only
    split
    next files phase hcheck => exact h.advance (h.phases pid files phase hcheck) now fails
    next => exact h
  | kill pid => exact h.setCheck pid [] (fun p hp => by cases hp)

/-- No receipts yet, and no check under way. -/
def System.fresh (w : World) : System := ⟨w, [], fun _ => none, []⟩

/-- The state after a history of edits and checks. -/
def System.history (sha : Sha) (check : QuickCheck) (enabled : Bool) (w : World)
    (events : List Event) : System :=
  run (System.step sha check.passes enabled) (System.fresh w) events

theorem recorded_history (enabled : Bool) (w : World) (events : List Event) :
    Recorded sha check (System.history sha check enabled w events) := by
  apply run_invariant (fun s e _ h => h.step e)
  exact ⟨fun r hr => absurd hr List.not_mem_nil, fun pid files phase hcheck => by cases hcheck⟩

/-! ## Reuse -/

/-- Some recorded run covered the files and read what a check would read now. -/
def Sound (check : QuickCheck) (s : System) (files : List String) : Prop :=
  ∃ scope ran, (scope, ran) ∈ s.recorded ∧ files ⊆ scope ∧ SameReads ran s.world ∧
    check.passes s.world files = true

/-- A receipt that answers a lookup holds every file of it. -/
theorem subset_of_lookup {w w' : World} {scope files : List String}
    (h : ∀ name ∈ files, (scopeHashes sha w scope).lookup name = some (fileHash sha w' name)) :
    files ⊆ scope := by
  intro name hname
  have hmem := Dict.mem_of_lookup (h name hname)
  obtain ⟨other, hother, heq⟩ := List.mem_map.mp hmem
  obtain ⟨rfl, -⟩ := Prod.mk.inj heq
  exact List.mem_dedup.mp (mem_sortBy.mp hother)

/-- After every history, a reused receipt comes from a recorded run that covered the lookup.
    That run read what a check would read now exactly when what the receipt leaves open is
    unchanged, and then the check would pass. -/
theorem reused_receipt_sound (sha : Sha) (check : QuickCheck) (enabled : Bool) (w : World)
    (events : List Event) (ttl now : Int) (files : List String) (r : Receipt)
    (h : reusable sha enabled ttl now (System.history sha check enabled w events).world
      (System.history sha check enabled w events).receipts files = some r) :
    (∃ scope, (scope, r.ran) ∈ (System.history sha check enabled w events).recorded ∧
      files ⊆ scope) ∧
    (SameReads r.ran (System.history sha check enabled w events).world ↔
      Unchanged sha r (System.history sha check enabled w events).world files) ∧
    (Unchanged sha r (System.history sha check enabled w events).world files →
      Sound check (System.history sha check enabled w events) files) := by
  obtain ⟨hmem, hcontext, hscope⟩ := reusable_some h
  obtain ⟨scope, hrecorded, hpass, before, hfiles⟩ :=
    (recorded_history enabled w events).receipts r hmem
  have hsub : files ⊆ scope := by
    rw [hfiles] at hscope
    exact subset_of_lookup hscope
  have hiff := sameReads_iff hcontext hscope
  refine ⟨⟨scope, hrecorded, hsub⟩, hiff, fun hunchanged => ?_⟩
  have hsame := hiff.mpr hunchanged
  have hnow : check.passes (System.history sha check enabled w events).world files = true := by
    rw [← check.reads hsame files]
    exact check.mono hsub hpass
  exact ⟨scope, r.ran, hrecorded, hsub, hsame, hnow⟩

end

/-! ## A hash to run with -/

/-- A text of a list, between marks. -/
def framed (text : List Char) : List Char := text.flatMap (fun c => ['+', c]) ++ ['.']

theorem framed_inj {xs ys as bs : List Char} (h : framed xs ++ as = framed ys ++ bs) :
    xs = ys ∧ as = bs := by
  induction xs generalizing ys with
  | nil =>
    cases ys with
    | nil => exact ⟨rfl, (List.cons.inj h).2⟩
    | cons y ys => exact absurd (List.cons.inj h).1 (by decide)
  | cons x xs ih =>
    cases ys with
    | nil => exact absurd (List.cons.inj h).1 (by decide)
    | cons y ys =>
      obtain ⟨rfl, hrest⟩ := List.cons.inj (List.cons.inj h).2
      obtain ⟨rfl, hback⟩ := ih hrest
      exact ⟨rfl, hback⟩

theorem framed_flatMap_injective :
    Function.Injective fun parts : List String => parts.flatMap fun part => framed part.toList := by
  intro parts
  induction parts with
  | nil =>
    intro parts' h
    cases parts' with
    | nil => rfl
    | cons part parts' =>
      simp [framed] at h
  | cons part parts ih =>
    intro parts' h
    cases parts' with
    | nil => simp [framed] at h
    | cons part' parts' =>
      simp only [List.flatMap_cons] at h
      obtain ⟨hpart, hrest⟩ := framed_inj h
      rw [String.toList_inj.mp hpart, ih hrest]

/-- The text itself in place of its hash. -/
def plainSha : Sha where
  content text := "sha256:" ++ text
  parts parts := String.ofList (parts.flatMap fun part => framed part.toList)
  content_injective := fun _ _ h => (String.append_right_inj _).mp h
  parts_injective := fun _ _ h => framed_flatMap_injective (String.ofList_injective h)
  content_plain := by
    intro text
    have hhead : ∀ other : String, "sha256:" ++ text = other → other.toList.head? = some 's' := by
      rintro other rfl
      simp
    refine ⟨fun h => absurd (hhead _ h) (by decide), fun h => absurd (hhead _ h) (by decide),
      fun h => absurd (hhead _ h) (by decide), ?_⟩
    rw [Str.startswith, String.toList_append]
    rfl

/-- A check that fails unless `b.py` has its first content, whatever files it runs on. -/
def importCheck : QuickCheck where
  passes w _ := w.entry "b.py" = .file "import this"
  reads := by
    intro w w' h _
    rw [h.entry]
  mono := fun _ hpass => hpass

/-- A checkout with `a.py`, and `b.py` as given. -/
def checkout (b : String) : World where
  entry path :=
    if path = "a.py" then .file "import b" else if path = "b.py" then .file b else .absent
  listing := some "a.py\x00b.py\x00"
  head := some "1f2e3d"
  inputs := some "null"
  code := []
  store := true

/-- One check of `a.py`, from its start until its receipt is written. -/
def oneCheck : List Event :=
  .start 0 ["a.py"] :: List.replicate 7 (.advance 0 100 false)

/-- A second file edited after the run is in no hash: the receipt is reused, no recorded run read
    what is there now, and the check would fail. -/
theorem not_every_reuse_sound :
    ¬ ∀ (sha : Sha) (check : QuickCheck) (enabled : Bool) (w : World) (events : List Event)
      (ttl now : Int) (files : List String) (r : Receipt),
      reusable sha enabled ttl now (System.history sha check enabled w events).world
        (System.history sha check enabled w events).receipts files = some r →
      Sound check (System.history sha check enabled w events) files := by
  intro h
  have hreused : (reusable plainSha true 3600 200
      (System.history plainSha importCheck true (checkout "import this")
        (oneCheck ++ [.edit (checkout "import that")])).world
      (System.history plainSha importCheck true (checkout "import this")
        (oneCheck ++ [.edit (checkout "import that")])).receipts ["a.py"]).isSome = true := by
    decide +kernel
  obtain ⟨r, hr⟩ := Option.isSome_iff_exists.mp hreused
  obtain ⟨_, _, _, _, _, hpass⟩ := h _ _ _ _ _ _ _ _ r hr
  exact absurd hpass (by decide +kernel)

theorem reused_receipt_sound_one_check :
    ∃ r, reusable plainSha true 3600 200
        (System.history plainSha importCheck true (checkout "import this") oneCheck).world
        (System.history plainSha importCheck true (checkout "import this") oneCheck).receipts
        ["a.py"] = some r ∧
      (SameReads r.ran (System.history plainSha importCheck true (checkout "import this")
          oneCheck).world ↔
        Unchanged plainSha r (System.history plainSha importCheck true (checkout "import this")
          oneCheck).world ["a.py"]) := by
  have hreused : (reusable plainSha true 3600 200
      (System.history plainSha importCheck true (checkout "import this") oneCheck).world
      (System.history plainSha importCheck true (checkout "import this") oneCheck).receipts
      ["a.py"]).isSome = true := by decide +kernel
  obtain ⟨r, hr⟩ := Option.isSome_iff_exists.mp hreused
  exact ⟨r, hr, (reused_receipt_sound plainSha importCheck true (checkout "import this") oneCheck
    3600 200 ["a.py"] r hr).2.1⟩

end SummitFlow.QuickReceipt
