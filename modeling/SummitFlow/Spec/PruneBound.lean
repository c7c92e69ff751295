import Mathlib.Data.Finset.Card
import SummitFlow.ForStd.History
import SummitFlow.ForStd.UpdateFirst
import SummitFlow.Spec.RetentionHistory

/-!
# How much a prune run removes

A run of `prune_all` selects at most `max_deletes` points and reaps orphans up to what is
left of that number.  In between it also removes the points of rejected captures, which no
limit counts: `_retention_candidates` adds them to the selection of every scope.  So a run
stays within the number when the selected points and those of the rejected captures do.

A run is followed with the list of the points it removed so far.
-/

namespace SummitFlow.Snapshots

open Script

variable {host : Host}

/-! ## Runs and what they removed -/

/-- The removals among what the actions of a call said. -/
def removals (l : List (Option Removal)) : List Removal := l.filterMap id

theorem removals_concat (l : List (Option Removal)) (o : Option Removal) :
    removals (l ++ [o]) = removals l ++ o.toList := by
  cases o <;> simp [removals]

/-- The exceptions that `_unless_busy` skips; only the locks raise them. -/
def Failure.deferred : Failure → Bool
  | .snapshotError message => Str.startswith message "Deferred:"
  | .other _ => false

section

variable (world : Nat → Outside)

/-- After the removals `rs` the call runs alone; where it ends, `Q` holds of its value, the
    store and all removals, or `E` of its exception. -/
def Leaves {α : Type} (Q : α → Store → List Removal → Prop) (E : Failure → Store → List Removal → Prop)
    (c : Call α) (s : Store) (rs : List Removal) : Prop :=
  ∀ l, removals l = rs → Ends (fun _ w => ∃ k, w = world k) (fun a t l => Q a t (removals l))
    (fun e t l => E e t (removals l)) c s l

variable {world} {α β : Type} {Q : α → Store → List Removal → Prop}
  {E : Failure → Store → List Removal → Prop} {s : Store} {rs : List Removal}

theorem leaves_pure {a : α} (h : Q a s rs) : Leaves world Q E (pure a) s rs := by
  rintro l rfl
  exact ends_pure h

theorem leaves_throw {e : Failure} (h : E e s rs) : Leaves world Q E (throw e : Call α) s rs := by
  rintro l rfl
  exact ends_throw h

theorem leaves_action {f : Store → Outside → Store × Option Removal × Except Failure α}
    (hok : ∀ k a, (f s (world k)).2.2 = .ok a →
      Q a (f s (world k)).1 (rs ++ (f s (world k)).2.1.toList))
    (herror : ∀ k e, (f s (world k)).2.2 = .error e →
      E e (f s (world k)).1 (rs ++ (f s (world k)).2.1.toList)) :
    Leaves world Q E (action f) s rs := by
  rintro l rfl
  apply ends_action
  · rintro w ⟨k, rfl⟩ a ha
    rw [removals_concat]
    exact hok k a ha
  · rintro w ⟨k, rfl⟩ e he
    rw [removals_concat]
    exact herror k e he

theorem leaves_look {f : Store → Outside → Except Failure α}
    (hok : ∀ k a, f s (world k) = .ok a → Q a s rs)
    (herror : ∀ k e, f s (world k) = .error e → E e s rs) : Leaves world Q E (look f) s rs := by
  apply leaves_action
  · intro k a ha
    rw [Option.toList_none, List.append_nil]
    exact hok k a ha
  · intro k e he
    rw [Option.toList_none, List.append_nil]
    exact herror k e he

theorem Leaves.mono {Q' : α → Store → List Removal → Prop} {E' : Failure → Store → List Removal → Prop}
    {c : Call α} (h : Leaves world Q E c s rs) (hQ : ∀ a t rs, Q a t rs → Q' a t rs)
    (hE : ∀ e t rs, E e t rs → E' e t rs) : Leaves world Q' E' c s rs :=
  fun l hl => (h l hl).mono (fun a t l => hQ a t (removals l)) fun e t l => hE e t (removals l)

theorem Leaves.bind {Q' : β → Store → List Removal → Prop} {c : Call α} {k : α → Call β}
    (h : Leaves world Q E c s rs) (hk : ∀ a t rs, Q a t rs → Leaves world Q' E (k a) t rs) :
    Leaves world Q' E (c >>= k) s rs :=
  fun l hl => Ends.bind (h l hl) fun a t l ha => hk a t _ ha l rfl

theorem Leaves.tryCatch {F : Failure → Store → List Removal → Prop} {c : Call α}
    {handler : Failure → Call α} (h : Leaves world Q F c s rs)
    (hhandler : ∀ e t rs, F e t rs → Leaves world Q E (handler e) t rs) :
    Leaves world Q E (Script.tryCatch c handler) s rs :=
  fun l hl => Ends.tryCatch (h l hl) fun e t l he => hhandler e t _ he l rfl

/-- A lock is given back at either end. -/
theorem Leaves.andFinally {c : Call α} {last : Store → Store} (h : Leaves world Q E c s rs)
    (hQ : ∀ a t rs, Q a t rs → Q a (last t) rs) (hE : ∀ e t rs, E e t rs → E e (last t) rs) :
    Leaves world Q E (c.andFinally (.action fun s _ => (last s, none, .ok ()))) s rs := by
  have hlast : ∀ (P : Store → List Removal → Prop) t rs, P (last t) rs →
      Leaves world (fun _ => P) E (.action fun s _ => (last s, none, .ok ())) t rs := by
    intro P t rs hP
    apply leaves_action
    · intro k a _
      rw [Option.toList_none, List.append_nil]
      exact hP
    · intro k e he
      cases he
  have hcaught : Leaves world Q E (Script.tryCatch c fun e =>
      (.action fun s _ => (last s, none, .ok ())) >>= fun _ => .raise e) s rs := by
    apply h.tryCatch
    intro e t rs he
    apply Leaves.bind (hlast (E e) t rs (hE e t rs he))
    intro _ u rs hu
    exact leaves_throw hu
  apply hcaught.bind
  intro a t rs ha
  apply Leaves.bind (hlast (Q a) t rs (hQ a t rs ha))
  intro _ u rs hu
  exact leaves_pure hu

/-- A lock is taken, or the call is deferred. -/
theorem leaves_locked {take : Store → Outside → Store × Option Removal × Except Failure Unit}
    {last : Store → Store} {body : Call α}
    (htake : ∀ w, (∃ e : Failure, e.deferred = true ∧ take s w = (s, none, .error e)) ∨
      ∃ t, SameFiles s t ∧ take s w = (t, none, .ok ()))
    (hlast : ∀ t, SameFiles t (last t)) (hQ : ∀ a s t rs, SameFiles s t → Q a s rs → Q a t rs)
    (hE : ∀ e s t rs, SameFiles s t → E e s rs → E e t rs)
    (hbusy : ∀ e : Failure, e.deferred = true → E e s rs)
    (hbody : ∀ t, SameFiles s t → Leaves world Q E body t rs) :
    Leaves world Q E
      (.action take >>= fun _ => body.andFinally (.action fun s _ => (last s, none, .ok ()))) s rs := by
  apply Leaves.bind (Q := fun _ t rs' => SameFiles s t ∧ rs' = rs)
  · apply leaves_action
    · intro k a ha
      obtain ⟨e, -, heq⟩ | ⟨t, hsame, heq⟩ := htake (world k)
      · rw [heq] at ha
        cases ha
      · rw [heq]
        exact ⟨hsame, List.append_nil _⟩
    · intro k e he
      obtain ⟨e', hdeferred, heq⟩ | ⟨t, -, heq⟩ := htake (world k)
      · rw [heq] at he ⊢
        obtain rfl := Except.error.inj he
        show E e' s (rs ++ [])
        rw [List.append_nil]
        exact hbusy e' hdeferred
      · rw [heq] at he
        cases he
  · rintro _ t _ ⟨hsame, rfl⟩
    apply Leaves.andFinally (hbody t hsame)
    · exact fun a u rs => hQ a u _ rs (hlast u)
    · exact fun e u rs => hE e u _ rs (hlast u)

theorem leaves_physicalLock (hQ : ∀ a s t rs, SameFiles s t → Q a s rs → Q a t rs)
    (hE : ∀ e s t rs, SameFiles s t → E e s rs → E e t rs)
    (hbusy : ∀ e : Failure, e.deferred = true → E e s rs) {pid : Nat} {body : Call α}
    (hbody : ∀ t, SameFiles s t → Leaves world Q E body t rs) :
    Leaves world Q E (physicalLock pid body) s rs := by
  unfold physicalLock
  apply leaves_locked _ _ hQ hE hbusy hbody
  rotate_left
  · exact fun _ => ⟨rfl, rfl⟩
  intro w
  cases hphysical : s.physical with
  | none => exact .inr ⟨{ s with physical := some pid }, ⟨rfl, rfl⟩, rfl⟩
  | some holder => exact .inl ⟨_, by decide +kernel, rfl⟩

theorem leaves_scopeLock (hQ : ∀ a s t rs, SameFiles s t → Q a s rs → Q a t rs)
    (hE : ∀ e s t rs, SameFiles s t → E e s rs → E e t rs)
    (hbusy : ∀ e : Failure, e.deferred = true → E e s rs) {pid : Nat} {project : String}
    {body : Call α} (hbody : ∀ t, SameFiles s t → Leaves world Q E body t rs) :
    Leaves world Q E (scopeLock pid project body) s rs := by
  unfold scopeLock
  apply leaves_locked _ _ hQ hE hbusy hbody
  rotate_left
  · exact fun _ => ⟨rfl, rfl⟩
  intro w
  cases hlock : s.locks project with
  | none =>
    exact .inr ⟨{ s with locks := Function.update s.locks project (some pid) }, ⟨rfl, rfl⟩, rfl⟩
  | some holder => exact .inl ⟨_, by decide +kernel, rfl⟩

/-- No failure of the host is one that a run skips. -/
def Honest (world : Nat → Outside) : Prop :=
  ∀ k failure, (world k).failure = some failure → failure.deferred = false

theorem leaves_raised {f : Store → α} (hok : Q (f s) s rs)
    (herror : ∀ e : Failure, e.deferred = false → E e s rs) (hworld : Honest world) :
    Leaves world Q E (look fun s w => raised w (f s)) s rs := by
  apply leaves_look
  · intro k a ha
    obtain rfl := raised_ok ha
    exact hok
  · intro k e he
    unfold raised at he
    cases hfailure : (world k).failure with
    | none => rw [hfailure] at he; cases he
    | some failure =>
      rw [hfailure] at he
      obtain rfl := Except.error.inj he
      exact herror failure (hworld k failure hfailure)

theorem leaves_saveManifest {Q : Unit → Store → List Removal → Prop} {project : String}
    {entries : List QuickSnapshot} (hok : Q () (s.setManifest project entries) rs)
    (herror : ∀ e : Failure, e.deferred = false → E e s rs) (hworld : Honest world) :
    Leaves world Q E (saveManifest project entries) s rs := by
  apply leaves_action
  · intro k a ha
    cases hfailure : (world k).failure with
    | none => simpa only [hfailure, Option.toList_none, List.append_nil] using hok
    | some failure => rw [hfailure] at ha; cases ha
  · intro k e he
    cases hfailure : (world k).failure with
    | none => rw [hfailure] at he; cases he
    | some failure =>
      rw [hfailure] at he
      obtain rfl := Except.error.inj he
      simpa only [hfailure, Option.toList_none, List.append_nil] using
        herror failure (hworld k failure hfailure)

/-- What all manifests list, in their order. -/
def recordedEntries (s : Store) : List QuickSnapshot := (s.manifests.map Prod.fst).flatMap s.manifest

theorem mem_recordedEntries {e : QuickSnapshot} :
    e ∈ recordedEntries s ↔ ∃ project, e ∈ s.manifest project := by
  rw [recordedEntries, List.mem_flatMap]
  constructor
  · rintro ⟨project, -, he⟩
    exact ⟨project, he⟩
  · rintro ⟨project, he⟩
    exact ⟨project, mem_projects he, he⟩

theorem leaves_readManifests (herror : ∀ e : Failure, e.deferred = false → E e s rs)
    (hworld : Honest world) (projects : List String) :
    Leaves world (fun entries t rs' => t = s ∧ rs' = rs ∧ entries = projects.flatMap s.manifest) E
      (readManifests projects) s rs := by
  induction projects with
  | nil => exact leaves_pure ⟨rfl, rfl, rfl⟩
  | cons project projects ih =>
    unfold readManifests
    apply Leaves.bind (Q := fun entries t rs' => t = s ∧ rs' = rs ∧ entries = s.manifest project)
    · exact leaves_raised ⟨rfl, rfl, rfl⟩ herror hworld
    rintro entries t rs' ⟨rfl, rfl, rfl⟩
    apply Leaves.bind ih
    rintro rest u rs'' ⟨rfl, rfl, rfl⟩
    exact leaves_pure ⟨rfl, rfl, rfl⟩

theorem leaves_allEntries (herror : ∀ e : Failure, e.deferred = false → E e s rs)
    (hworld : Honest world) :
    Leaves world (fun entries t rs' => t = s ∧ rs' = rs ∧ entries = recordedEntries s) E allEntries s
      rs := by
  unfold allEntries
  apply Leaves.bind (Q := fun projects t rs' => t = s ∧ rs' = rs ∧ projects = s.manifests.map Prod.fst)
  · exact leaves_raised ⟨rfl, rfl, rfl⟩ herror hworld
  rintro projects t rs' ⟨rfl, rfl, rfl⟩
  exact leaves_readManifests herror hworld _

end

/-! ## Rejected captures -/

def rejected (entry : QuickSnapshot) : Bool :=
  Str.startswith (entry.deletionError.getD "") rejectedCapture

/-- The entry without what cleaning and failed deletions change. -/
def bare (entry : QuickSnapshot) : QuickSnapshot :=
  { entry with recoveryCopies := [], recoveryPath := none, deletionError := none }

/-- Some manifest records the point. -/
def RecordedIn (host : Host) (s : Store) (key : Path) : Prop :=
  ∃ project, ∃ e ∈ s.manifest project, pointKey host e.snapshotPath = key

/-- The point is that of a rejected capture that nothing but recovery copies holds. -/
def Discarded (host : Host) (now : Int) (s : Store) (key : Path) : Prop :=
  ∃ project, ∃ e ∈ s.manifest project, pointKey host e.snapshotPath = key ∧ rejected e = true ∧
    held now (bare e) = false

/-- The entry was another one before the run, up to cleaning and failed deletions. -/
def Origin (e e₀ : QuickSnapshot) : Prop := bare e = bare e₀ ∧ (rejected e = true → rejected e₀ = true)

theorem Origin.id {e e₀ : QuickSnapshot} (h : Origin e e₀) : e.id = e₀.id := by
  show (bare e).id = (bare e₀).id
  rw [h.1]

theorem Origin.snapshotPath {e e₀ : QuickSnapshot} (h : Origin e e₀) :
    e.snapshotPath = e₀.snapshotPath := by
  show (bare e).snapshotPath = (bare e₀).snapshotPath
  rw [h.1]

theorem Origin.trans {e e' e₀ : QuickSnapshot} (h : Origin e e') (h' : Origin e' e₀) : Origin e e₀ :=
  ⟨h.1.trans h'.1, fun he => h'.2 (h.2 he)⟩

theorem held_bare {now : Int} {e : QuickSnapshot} (h : held now e = false) :
    held now (bare e) = false := by
  unfold held at h ⊢
  simp only [Bool.or_eq_false_iff] at h ⊢
  exact ⟨⟨h.1.1, h.1.2.1, rfl⟩, h.2⟩

theorem origin_cleanup (now : Int) (copyError : Path → Option String) (e : QuickSnapshot) :
    Origin (cleanupRecoveryCopies now copyError e) e := ⟨rfl, id⟩

/-- No failed deletion marks an entry as a rejected capture. -/
def Plain (outcome : Except String Bool) : Prop :=
  ∀ message, outcome = .error message → Str.startswith message rejectedCapture = false

theorem origin_noteFailure {outcomes : List (String × Except String Bool)}
    (h : ∀ outcome ∈ outcomes, Plain outcome.2) (e : QuickSnapshot) :
    Origin (noteFailure outcomes e) e := by
  obtain ⟨error, heq⟩ := noteFailure_eq e outcomes
  refine ⟨by rw [heq]; rfl, ?_⟩
  intro hrejected
  unfold noteFailure at hrejected
  split at hrejected
  · next message hlookup =>
    by_contra hnot
    have hplain := h _ (Dict.mem_of_lookup hlookup) message rfl
    unfold rejected at hrejected hnot
    rw [Option.getD_some, if_neg hnot, hplain] at hrejected
    cases hrejected
  · exact hrejected

/-! ## Deleting the entries of a scope -/

theorem plain_of_head {message text : String} {c : Char} {cs : List Char}
    (hmessage : message.toList = c :: cs) (hc : c ≠ 'C') :
    Str.startswith (message ++ text) rejectedCapture = false := by
  have hprefix : rejectedCapture.toList = 'C' :: "apture not accepted:".toList := rfl
  rw [Str.startswith, String.toList_append, hmessage, hprefix, List.cons_append, List.isPrefixOf]
  simp [Ne.symm hc]

theorem managedLeaf_plain {path : Path} {project : Option String} {message : String}
    (h : managedLeaf host path project = .error message) :
    Str.startswith message rejectedCapture = false := by
  unfold managedLeaf at h
  split at h
  · rw [← Except.error.inj h]
    exact plain_of_head rfl (by decide)
  · dsimp only at h
    generalize (_ && List.all _ plainName) = valid at h
    cases valid with
    | true => cases h
    | false =>
      rw [← Except.error.inj h]
      exact plain_of_head rfl (by decide)

theorem physicalDelete_plain {path : Path} {batch : List QuickSnapshot} {s : Store} {w : Outside}
    {message : String} (h : physicalDelete host path batch s w = (s, none, .error message)) :
    Str.startswith message rejectedCapture = false := by
  unfold physicalDelete at h
  split at h
  · next hleaf =>
    obtain rfl := Except.error.inj (Prod.mk.inj (Prod.mk.inj h).2).2
    exact managedLeaf_plain hleaf
  · rw [← Except.error.inj (Prod.mk.inj (Prod.mk.inj h).2).2, String.append_assoc, String.append_assoc]
    exact plain_of_head rfl (by decide)
  · cases (Prod.mk.inj (Prod.mk.inj h).2).1

/-- What one deletion leaves. -/
theorem deleteEntry_spec (views batch : List QuickSnapshot) (entry : QuickSnapshot) (s : Store)
    (w : Outside) :
    (∃ message, deleteEntry host views batch entry s w = (s, none, .error message) ∧
        Plain (.error message)) ∨
      (deleteEntry host views batch entry s w = (s, none, .ok false) ∧
        (pointKey host entry.snapshotPath ∈ s.points → ∃ other ∈ views,
          pointKey host other.snapshotPath = pointKey host entry.snapshotPath ∧
            other.view ∉ batch.map QuickSnapshot.view)) ∨
      (deleteEntry host views batch entry s w =
          ({ s with points := s.points.filter (· ≠ pointKey host entry.snapshotPath) },
            some ⟨pointKey host entry.snapshotPath, batch⟩, .ok true) ∧
        pointKey host entry.snapshotPath ∈ s.points) := by
  unfold deleteEntry
  dsimp only
  cases hcopy : hasCopy entry with
  | true =>
    rw [if_pos rfl]
    refine .inl ⟨_, rfl, fun message hmessage => ?_⟩
    rw [← Except.error.inj hmessage]
    decide +kernel
  | false =>
    rw [if_neg (by decide)]
    cases hroot : prunableRoot host entry entry.snapshotPath with
    | false =>
      rw [if_pos (by decide)]
      refine .inl ⟨_, rfl, fun message hmessage => ?_⟩
      rw [← Except.error.inj hmessage]
      exact plain_of_head rfl (by decide)
    | true =>
      rw [if_neg (by decide)]
      split
      · next hstays =>
        refine .inr (.inl ⟨rfl, fun hpoint => ?_⟩)
        have hother := hstays.resolve_right (not_not_intro hpoint)
        obtain ⟨other, hmem, hother⟩ := List.any_eq_true.mp hother
        rw [Bool.and_eq_true, decide_eq_true_eq, decide_eq_true_eq] at hother
        exact ⟨other, hmem, hother⟩
      · next hgoes =>
        rw [not_or, not_not] at hgoes
        rcases physicalDelete_cases entry.snapshotPath batch s w with ⟨message, herror⟩ | hgone
        · rw [herror]
          refine .inl ⟨message, rfl, fun message' hmessage => ?_⟩
          obtain rfl := Except.error.inj hmessage
          exact physicalDelete_plain herror
        · rw [hgone]
          exact .inr (.inr ⟨rfl, hgoes.2⟩)

section

variable {world : Nat → Outside} {now : Int} {allowed : List Path} {s₀ : Store}

/-- The removals of a run so far: different points of the store, all gone, that were selected
    or discarded. -/
structure Removed (host : Host) (now : Int) (allowed : List Path) (s₀ s : Store) (rs : List Removal) :
    Prop where
  points : s.points ⊆ s₀.points
  nodup : (rs.map (·.point)).Nodup
  removed : ∀ r ∈ rs, r.point ∈ s₀.points ∧ r.point ∉ s.points ∧
    (r.point ∈ allowed ∨ Discarded host now s₀ r.point)

theorem Removed.of_points {s t : Store} {rs : List Removal} (h : Removed host now allowed s₀ s rs)
    (hpoints : t.points = s.points) : Removed host now allowed s₀ t rs := by
  obtain ⟨hsub, hnodup, hremoved⟩ := h
  rw [← hpoints] at hsub hremoved
  exact ⟨hsub, hnodup, hremoved⟩

/-- One more point goes. -/
theorem Removed.concat {s : Store} {rs : List Removal} (h : Removed host now allowed s₀ s rs)
    {r : Removal} (hpoint : r.point ∈ s.points)
    (hchosen : r.point ∈ allowed ∨ Discarded host now s₀ r.point) :
    Removed host now allowed s₀ { s with points := s.points.filter (· ≠ r.point) } (rs ++ [r]) where
  points := fun key hkey => h.points (List.mem_filter.mp hkey).1
  nodup := by
    rw [List.map_append, List.nodup_append]
    refine ⟨h.nodup, List.nodup_singleton _, ?_⟩
    intro key hkey key' hkey' heq
    obtain ⟨r', hr', rfl⟩ := List.mem_map.mp hkey
    rw [List.map_singleton, List.mem_singleton] at hkey'
    exact (h.removed r' hr').2.1 (heq ▸ hkey' ▸ hpoint)
  removed := by
    intro r' hr'
    rcases List.mem_append.mp hr' with hr' | hr'
    · obtain ⟨hmem, hgone, hchosen'⟩ := h.removed r' hr'
      exact ⟨hmem, fun hkey => hgone (List.mem_filter.mp hkey).1, hchosen'⟩
    · obtain rfl := List.mem_singleton.mp hr'
      refine ⟨h.points hpoint, fun hkey => ?_, hchosen⟩
      simpa using (List.mem_filter.mp hkey).2

/-- The outcome of an entry: its point is gone or another view records it, or the deletion
    failed. -/
def Tried (host : Host) (views batch : List QuickSnapshot) (s : Store) (entry : QuickSnapshot)
    (outcome : String × Except String Bool) : Prop :=
  outcome.1 = entry.id ∧ Plain outcome.2 ∧
    (outcome.2.toBool = true → pointKey host entry.snapshotPath ∈ s.points → ∃ other ∈ views,
      pointKey host other.snapshotPath = pointKey host entry.snapshotPath ∧
        other.view ∉ batch.map QuickSnapshot.view)

/-- How many points went. -/
def wentCount (outcomes : List (String × Except String Bool)) : Nat :=
  outcomes.countP fun outcome => outcome.2 matches .ok true

theorem leaves_deleteEach {views batch entries : List QuickSnapshot} {s : Store} {rs : List Removal}
    (hentries : ∀ e ∈ entries, pointKey host e.snapshotPath ∈ s.points →
      pointKey host e.snapshotPath ∈ allowed ∨ Discarded host now s₀ (pointKey host e.snapshotPath))
    (h : Removed host now allowed s₀ s rs) :
    Leaves world (fun outcomes t rs' => t.manifests = s.manifests ∧ t.points ⊆ s.points ∧
        Removed host now allowed s₀ t rs' ∧ List.Forall₂ (Tried host views batch t) entries outcomes ∧
        rs'.length = rs.length + wentCount outcomes) (fun _ _ _ => False)
      (deleteEach host views batch entries) s rs := by
  induction entries generalizing s rs with
  | nil => exact leaves_pure ⟨rfl, List.Subset.refl _, h, .nil, rfl⟩
  | cons entry entries ih =>
    unfold deleteEach
    apply Leaves.bind (Q := fun outcome t rs' => t.manifests = s.manifests ∧ t.points ⊆ s.points ∧
      Removed host now allowed s₀ t rs' ∧ Tried host views batch t entry (entry.id, outcome) ∧
      rs'.length = rs.length + wentCount [(entry.id, outcome)])
    · apply leaves_action
      · intro k outcome hok
        dsimp only at hok ⊢
        obtain ⟨message, heq, hplain⟩ | ⟨heq, hother⟩ | ⟨heq, hpoint⟩ :=
          @deleteEntry_spec host views batch entry s (world k)
        · rw [heq] at hok ⊢
          obtain rfl := Except.ok.inj hok
          rw [Option.toList_none, List.append_nil]
          refine ⟨rfl, List.Subset.refl _, h, ⟨rfl, hplain, ?_⟩, rfl⟩
          intro hgone
          cases hgone
        · rw [heq] at hok ⊢
          obtain rfl := Except.ok.inj hok
          rw [Option.toList_none, List.append_nil]
          refine ⟨rfl, List.Subset.refl _, h, ⟨rfl, ?_, fun _ => hother⟩, rfl⟩
          intro message hfailed
          cases hfailed
        · rw [heq] at hok ⊢
          obtain rfl := Except.ok.inj hok
          refine ⟨rfl, List.filter_subset_self _, ?_, ⟨rfl, ?_, fun _ hkey => ?_⟩, ?_⟩
          · exact @Removed.concat host now allowed s₀ s rs h ⟨_, batch⟩ hpoint
              (hentries entry List.mem_cons_self hpoint)
          · intro message hfailed
            cases hfailed
          · simp at hkey
          · rw [Option.toList_some, List.length_append]
            rfl
      · intro k e he
        cases he
    · rintro outcome t rs' ⟨hmanifests, hsub, hremoved, htried, hcount⟩
      have hrest := ih (fun e he hpoint => hentries e (List.mem_cons_of_mem _ he) (hsub hpoint)) hremoved
      apply Leaves.bind (hrest.mono (fun _ _ _ h => h) fun _ _ _ => False.elim)
      rintro rest u rs'' ⟨hmanifests', hsub', hremoved', htried', hcount'⟩
      apply leaves_pure
      refine ⟨hmanifests'.trans hmanifests, List.Subset.trans hsub' hsub, hremoved', .cons ?_ htried', ?_⟩
      · exact ⟨htried.1, htried.2.1, fun hok hpoint => htried.2.2 hok (hsub' hpoint)⟩
      · rw [hcount', hcount, Nat.add_assoc]
        congr 1
        unfold wentCount
        rw [← List.countP_append]
        rfl

/-! ## Pruning a scope -/

/-- A candidate whose point is there is selected or a rejected capture. -/
theorem mem_retentionCandidates {points : List Path} {isDir : Path → Bool}
    {entries : List QuickSnapshot} {e : QuickSnapshot}
    (he : e ∈ retentionCandidates host now points isDir allowed entries) :
    e ∈ entries ∧ (pointKey host e.snapshotPath ∈ points →
      pointKey host e.snapshotPath ∈ allowed ∨ rejected e = true ∧ held now e = false) := by
  rcases List.mem_append.mp he with hselected | hdiscarded
  · obtain ⟨hmem, hselected⟩ := List.mem_filter.mp hselected
    rw [Bool.and_eq_true, decide_eq_true_eq] at hselected
    exact ⟨hmem, fun _ => .inl hselected.2⟩
  · obtain ⟨hmem, hdiscarded⟩ := List.mem_filter.mp hdiscarded
    rw [Bool.and_eq_true, discardable, Bool.or_eq_true, Bool.and_eq_true, decide_eq_true_eq,
      Bool.not_eq_true'] at hdiscarded
    refine ⟨hmem, fun hpoint => .inr ⟨?_, hdiscarded.2⟩⟩
    exact hdiscarded.1.resolve_right fun hgone => hgone.2 hpoint

/-- A store within a run: what was removed, and what became of the manifests. -/
structure Pruned (host : Host) (now : Int) (allowed : List Path) (s₀ s : Store) (rs : List Removal) :
    Prop where
  removed : Removed host now allowed s₀ s rs
  distinct : DistinctIds s
  entries : ∀ project, ∀ e ∈ s.manifest project, ∃ e₀ ∈ s₀.manifest project, Origin e e₀
  recorded : ∀ key ∈ s.points, RecordedIn host s₀ key → RecordedIn host s key

section

variable {s : Store} {rs : List Removal}

theorem Pruned.of_manifests {t : Store} {rs' : List Removal} (h : Pruned host now allowed s₀ s rs)
    (hmanifests : t.manifests = s.manifests) (hremoved : Removed host now allowed s₀ t rs')
    (hpoints : t.points ⊆ s.points) : Pruned host now allowed s₀ t rs' := by
  have hsame : ∀ project, t.manifest project = s.manifest project := by
    intro project
    rw [Store.manifest, Store.manifest, hmanifests]
  refine ⟨hremoved, fun project => hsame project ▸ h.distinct project,
    fun project e he => h.entries project e (hsame project ▸ he), ?_⟩
  intro key hkey hrecorded
  obtain ⟨project, e, he, heq⟩ := h.recorded key (hpoints hkey) hrecorded
  exact ⟨project, e, hsame project ▸ he, heq⟩

theorem Pruned.sameFiles {t : Store} (h : Pruned host now allowed s₀ s rs) (hsame : SameFiles s t) :
    Pruned host now allowed s₀ t rs :=
  h.of_manifests hsame.1 (h.removed.of_points hsame.2) (hsame.2 ▸ List.Subset.refl _)

/-- A manifest is rewritten with entries that were there, and its points stay recorded. -/
theorem Pruned.setManifest (h : Pruned host now allowed s₀ s rs) {project : String}
    {entries : List QuickSnapshot} (hids : (entries.map (·.id)).Nodup)
    (hentries : ∀ e ∈ entries, ∃ e₀ ∈ s₀.manifest project, Origin e e₀)
    (hrecorded : ∀ e ∈ s.manifest project, pointKey host e.snapshotPath ∈ s.points →
      (∃ e' ∈ entries, pointKey host e'.snapshotPath = pointKey host e.snapshotPath) ∨
        ∃ project' ≠ project, ∃ e' ∈ s.manifest project',
          pointKey host e'.snapshotPath = pointKey host e.snapshotPath) :
    Pruned host now allowed s₀ (s.setManifest project entries) rs := by
  have hother : ∀ {project' e}, project' ≠ project → e ∈ s.manifest project' →
      e ∈ (s.setManifest project entries).manifest project' := by
    intro project' e hne he
    rw [manifest_setManifest_of_ne s hne]
    exact he
  have hown : ∀ {e}, e ∈ entries → e ∈ (s.setManifest project entries).manifest project := by
    intro e he
    rw [manifest_setManifest_self]
    exact mem_newestFirst.mpr he
  refine ⟨h.removed.of_points rfl, h.distinct.setManifest hids, ?_, ?_⟩
  · intro project' e he
    by_cases hproject : project' = project
    · subst hproject
      rw [manifest_setManifest_self, mem_newestFirst] at he
      exact hentries e he
    · rw [manifest_setManifest_of_ne s hproject] at he
      exact h.entries project' e he
  · intro key hkey hold
    obtain ⟨project', e, he, rfl⟩ := h.recorded key hkey hold
    by_cases hproject : project' = project
    · subst hproject
      obtain ⟨e', he', heq⟩ | ⟨project'', hne, e', he', heq⟩ := hrecorded e he hkey
      · exact ⟨project', e', hown he', heq⟩
      · exact ⟨project'', e', hother hne he', heq⟩
    · exact ⟨project', e, hother hproject he, rfl⟩

/-- A scope is saved without the views that are gone: what another view records stays
    recorded. -/
theorem Pruned.dropViews {project : String} {entries toPrune : List QuickSnapshot}
    {outcomes : List (String × Except String Bool)} (h : Pruned host now allowed s₀ s rs)
    (hmanifest : s.manifest project = newestFirst entries) (hids : (entries.map (·.id)).Nodup)
    (hfrom : ∀ e ∈ entries, ∃ e₀ ∈ s₀.manifest project, Origin e e₀)
    (hprune : ∀ e ∈ toPrune, e ∈ entries)
    (htried : List.Forall₂ (Tried host (recordedEntries s) toPrune s) toPrune outcomes) :
    Pruned host now allowed s₀ (s.setManifest project
      ((entries.map (noteFailure outcomes)).filter fun entry => !viewGone outcomes entry)) rs := by
  have htried' : ∀ o ∈ outcomes, ∃ e ∈ toPrune, Tried host (recordedEntries s) toPrune s e o :=
    fun o ho => exists_of_forall₂ htried ho
  have hgone : ∀ e, viewGone outcomes (noteFailure outcomes e) = viewGone outcomes e := by
    intro e
    rw [viewGone, viewGone, noteFailure_id]
  apply h.setManifest
  · have hsub : (((entries.map (noteFailure outcomes)).filter fun entry =>
        !viewGone outcomes entry).map (·.id)).Sublist
        ((entries.map (noteFailure outcomes)).map (·.id)) := List.filter_sublist.map _
    rw [List.map_map] at hsub
    have hsame : entries.map ((·.id) ∘ noteFailure outcomes) = entries.map (·.id) :=
      List.map_congr_left fun e _ => noteFailure_id e outcomes
    exact (hsame ▸ hsub).nodup hids
  · intro e he
    obtain ⟨e', he', rfl⟩ := List.mem_map.mp (List.mem_filter.mp he).1
    obtain ⟨e₀, he₀, horigin⟩ := hfrom e' he'
    refine ⟨e₀, he₀, (origin_noteFailure (fun o ho => ?_) e').trans horigin⟩
    obtain ⟨e, -, htried⟩ := htried' o ho
    exact htried.2.1
  · intro e he hpoint
    rw [hmanifest, mem_newestFirst] at he
    have hkept : ∀ e ∈ entries, viewGone outcomes e = false → ∃ e' ∈ (entries.map
        (noteFailure outcomes)).filter fun entry => !viewGone outcomes entry,
        pointKey host e'.snapshotPath = pointKey host e.snapshotPath := by
      intro e he hstays
      refine ⟨noteFailure outcomes e, List.mem_filter.mpr ⟨List.mem_map.mpr ⟨e, he, rfl⟩, ?_⟩, ?_⟩
      · rw [hgone, hstays]
        rfl
      · rw [noteFailure_snapshotPath]
    cases hview : viewGone outcomes e with
    | false => exact .inl (hkept e he hview)
    | true =>
      obtain ⟨o, ho, hok⟩ := List.any_eq_true.mp hview
      rw [Bool.and_eq_true, decide_eq_true_eq] at hok
      obtain ⟨e', he', htried⟩ := htried' o ho
      obtain rfl : e' = e := List.inj_on_of_nodup_map hids (hprune e' he') he (htried.1 ▸ hok.1)
      -- the point is still there, so another view records it
      obtain ⟨other, hother, hkey, hview⟩ := htried.2.2 hok.2 hpoint
      obtain ⟨project', hother⟩ := mem_recordedEntries.mp hother
      by_cases hproject : project' = project
      · subst hproject
        rw [hmanifest, mem_newestFirst] at hother
        have huntried : other.id ∉ outcomes.map Prod.fst := by
          intro hmem
          obtain ⟨o', ho', hid⟩ := List.mem_map.mp hmem
          obtain ⟨e'', he'', htried''⟩ := htried' o' ho'
          obtain rfl : e'' = other :=
            List.inj_on_of_nodup_map hids (hprune e'' he'') hother (htried''.1 ▸ hid)
          exact hview (List.mem_map_of_mem he'')
        obtain ⟨e'', he'', hkey'⟩ := hkept other hother (noteFailure_of_notMem huntried).2
        exact .inl ⟨e'', he'', hkey'.trans hkey⟩
      · exact .inr ⟨project', hproject, other, hother, hkey⟩

/-- Dropping the views of a scope: how many points went is counted. -/
theorem leaves_pruneScope (hworld : Honest world) (pid : Nat) (project : String)
    (h : Pruned host now allowed s₀ s rs) :
    Leaves world (fun n t rs' => Pruned host now allowed s₀ t rs' ∧ rs'.length = rs.length + n)
      (fun e t rs' => Pruned host now allowed s₀ t rs' ∧ (e.deferred = true → rs' = rs))
      (pruneScope host pid project now allowed) s rs := by
  have hok : ∀ (n : Nat) (s t : Store) rs', SameFiles s t →
      Pruned host now allowed s₀ s rs' ∧ rs'.length = rs.length + n →
      Pruned host now allowed s₀ t rs' ∧ rs'.length = rs.length + n :=
    fun _ _ _ _ hsame h => ⟨h.1.sameFiles hsame, h.2⟩
  have herror : ∀ (e : Failure) (s t : Store) rs', SameFiles s t →
      Pruned host now allowed s₀ s rs' ∧ (e.deferred = true → rs' = rs) →
      Pruned host now allowed s₀ t rs' ∧ (e.deferred = true → rs' = rs) :=
    fun _ _ _ _ hsame h => ⟨h.1.sameFiles hsame, h.2⟩
  unfold pruneScope
  apply leaves_physicalLock hok herror fun e _ => ⟨h, fun _ => rfl⟩
  intro s₁ hs₁
  replace h := h.sameFiles hs₁
  apply leaves_scopeLock hok herror fun e _ => ⟨h, fun _ => rfl⟩
  intro s₂ hs₂
  replace h := h.sameFiles hs₂
  -- nothing was removed yet, whatever fails
  apply Leaves.bind (Q := fun loaded t rs' => t = s₂ ∧ rs' = rs ∧
    loaded = newestFirst (s₂.manifest project))
  · exact leaves_raised ⟨rfl, rfl, rfl⟩ (fun e _ => ⟨h, fun _ => rfl⟩) hworld
  rintro loaded t rs' ⟨rfl, rfl, rfl⟩
  apply Leaves.bind (Q := fun entries u rs'' => u = t ∧ rs'' = rs' ∧ ∃ copyError,
    entries = (newestFirst (t.manifest project)).map (cleanupRecoveryCopies now copyError))
  · apply leaves_look
    · exact fun k entries hentries => ⟨rfl, rfl, (world k).copyError, (Except.ok.inj hentries).symm⟩
    · intro k e he
      cases he
  rintro entries u rs'' ⟨rfl, rfl, copyError, hentries⟩
  have hids : (entries.map (·.id)).Nodup := by
    rw [hentries, List.map_map]
    exact ((perm_newestFirst _).map _).nodup_iff.mpr (h.distinct project)
  have hfrom : ∀ e ∈ entries, ∃ e₀ ∈ s₀.manifest project, Origin e e₀ := by
    intro e he
    rw [hentries] at he
    obtain ⟨e', he', rfl⟩ := List.mem_map.mp he
    obtain ⟨e₀, he₀, horigin⟩ := h.entries project e' (mem_newestFirst.mp he')
    exact ⟨e₀, he₀, (origin_cleanup now copyError e').trans horigin⟩
  apply Leaves.bind (Q := fun _ v rs' => Pruned host now allowed s₀ v rs' ∧ rs' = rs'' ∧
    v.manifest project = newestFirst entries)
  · apply leaves_saveManifest _ (fun e _ => ⟨h, fun _ => rfl⟩) hworld
    refine ⟨h.setManifest hids hfrom ?_, rfl, manifest_setManifest_self _ _ _⟩
    intro e he _
    left
    rw [hentries]
    exact ⟨_, List.mem_map.mpr ⟨e, mem_newestFirst.mpr he, rfl⟩, rfl⟩
  rintro _ v rs' ⟨hv, rfl, hmanifest⟩
  apply Leaves.bind (Q := fun toPrune x rs'' => x = v ∧ rs'' = rs' ∧ ∀ e ∈ toPrune, e ∈ entries ∧
    (pointKey host e.snapshotPath ∈ v.points →
      pointKey host e.snapshotPath ∈ allowed ∨ Discarded host now s₀ (pointKey host e.snapshotPath)))
  · apply leaves_look
    · intro k toPrune htoPrune
      obtain rfl := Except.ok.inj htoPrune
      refine ⟨rfl, rfl, fun e he => ?_⟩
      obtain ⟨hmem, hchosen⟩ := mem_retentionCandidates he
      refine ⟨hmem, fun hpoint => (hchosen hpoint).imp_right ?_⟩
      rintro ⟨hrejected, hheld⟩
      obtain ⟨e₀, he₀, horigin⟩ := hfrom e hmem
      exact ⟨project, e₀, he₀, by rw [horigin.snapshotPath], horigin.2 hrejected,
        horigin.1 ▸ held_bare hheld⟩
    · intro k e he
      cases he
  rintro toPrune x rs'' ⟨rfl, rfl, hprune⟩
  split
  · exact leaves_pure ⟨hv, rfl⟩
  apply Leaves.bind
  · exact leaves_allEntries (fun e _ => ⟨hv, fun _ => rfl⟩) hworld
  rintro views y rs' ⟨rfl, rfl, rfl⟩
  apply Leaves.bind
  · exact (leaves_deleteEach (fun e he => (hprune e he).2) hv.removed).mono
      (fun _ _ _ h => h) fun _ _ _ => False.elim
  rintro outcomes z rs'' ⟨hmanifests, hsub, hremoved, htried, hcount⟩
  have hz : Pruned host now allowed s₀ z rs'' := hv.of_manifests hmanifests hremoved hsub
  -- an exception from here on is no deferral
  apply Leaves.bind (Q := fun _ t rs₁ => Pruned host now allowed s₀ t rs₁ ∧ rs₁ = rs'')
  · refine leaves_saveManifest ⟨?_, rfl⟩ (fun e he => ⟨hz, fun hdeferred => ?_⟩) hworld
    · have hall : z.manifest = y.manifest := by
        funext project
        rw [Store.manifest, Store.manifest, hmanifests]
      have hsame : recordedEntries y = recordedEntries z := by
        rw [recordedEntries, recordedEntries, hmanifests, hall]
      rw [hsame] at htried
      apply hz.dropViews _ hids hfrom (fun e he => (hprune e he).1) htried
      rw [hall, hmanifest]
    · rw [he] at hdeferred
      cases hdeferred
  · rintro _ t rs₁ ⟨ht, rfl⟩
    exact leaves_pure ⟨ht, hcount⟩

/-- What a deferred call removed is counted as nothing. -/
theorem leaves_unlessBusy {α : Type} {Q : α → Store → List Removal → Prop}
    {P : Store → List Removal → Prop} {skipped : α} {c : Call α}
    (hskipped : ∀ t, P t rs → Q skipped t rs)
    (h : Leaves world Q (fun e t rs' => P t rs' ∧ (e.deferred = true → rs' = rs)) c s rs) :
    Leaves world Q (fun _ => P) (unlessBusy skipped c) s rs := by
  unfold unlessBusy
  apply h.tryCatch
  rintro e t rs' ⟨hP, hsame⟩
  split
  · next message =>
    split
    · next hdeferred =>
      obtain rfl := hsame hdeferred
      exact leaves_pure (hskipped t hP)
    · exact leaves_throw hP
  · exact leaves_throw hP

theorem leaves_pruneScopes (hworld : Honest world) (pid : Nat) (projects : List String)
    (h : Pruned host now allowed s₀ s rs) :
    Leaves world (fun n t rs' => Pruned host now allowed s₀ t rs' ∧ rs'.length = rs.length + n)
      (fun _ t rs' => Pruned host now allowed s₀ t rs') (pruneScopes host pid now allowed projects) s
      rs := by
  induction projects generalizing s rs with
  | nil => exact leaves_pure ⟨h, rfl⟩
  | cons project projects ih =>
    unfold pruneScopes
    apply Leaves.bind (leaves_unlessBusy (fun t ht => ⟨ht, rfl⟩)
      (leaves_pruneScope hworld pid project h))
    rintro deleted t rs' ⟨ht, hdeleted⟩
    apply Leaves.bind (ih ht)
    rintro rest u rs'' ⟨hu, hrest⟩
    apply leaves_pure
    refine ⟨hu, ?_⟩
    rw [hrest, hdeleted, Nat.add_assoc]

/-! ## Reaping orphans -/

/-- Reaping stays within its limit and takes no recorded point. -/
theorem leaves_reapEach {policy : AutosnapshotPolicy} {recorded leaves : List Path}
    (hleaves : ∀ leaf ∈ leaves, pointKey host leaf = leaf) (limit : Nat) :
    Leaves world (fun _ _ rs' => rs'.length ≤ rs.length + limit ∧
        ∀ r ∈ rs', r ∈ rs ∨ r.point ∈ leaves ∧ r.point ∉ recorded) (fun _ _ _ => False)
      (reapEach host policy now recorded leaves limit) s rs := by
  induction leaves generalizing s rs limit with
  | nil =>
    unfold reapEach
    exact leaves_pure ⟨Nat.le_add_right _ _, fun r hr => .inl hr⟩
  | cons leaf leaves ih =>
    cases limit with
    | zero =>
      unfold reapEach
      exact leaves_pure ⟨Nat.le_refl _, fun r hr => .inl hr⟩
    | succ limit =>
      unfold reapEach
      apply Leaves.bind (Q := fun reaped _ rs' =>
        rs'.length ≤ rs.length + (if reaped then 1 else 0) ∧
          ∀ r ∈ rs', r ∈ rs ∨ r.point = leaf ∧ leaf ∉ recorded)
      · apply leaves_action
        · intro k reaped hok
          dsimp only at hok ⊢
          obtain rfl := Except.ok.inj hok
          rcases reapLeaf_cases policy now recorded leaf s (world k) with
            ⟨reaped, hstays⟩ | ⟨hother, hgone⟩
          · rw [hstays, Option.toList_none, List.append_nil]
            exact ⟨Nat.le_add_right _ _, fun r hr => .inl hr⟩
          · rw [hgone, Option.toList_some]
            refine ⟨Nat.le_of_eq List.length_append, fun r hr => ?_⟩
            rcases List.mem_append.mp hr with hr | hr
            · exact .inl hr
            · obtain rfl := List.mem_singleton.mp hr
              exact .inr ⟨hleaves leaf List.mem_cons_self, hother⟩
        · intro k e he
          cases he
      · rintro reaped t rs' ⟨hcount, hrecorded⟩
        apply (ih (fun l hl => hleaves l (List.mem_cons_of_mem _ hl)) _).mono
        · rintro _ u rs'' ⟨hlength, hrest⟩
          refine ⟨?_, fun r hr => ?_⟩
          · cases reaped with
            | true => simp at hcount hlength; omega
            | false => simp at hcount hlength; omega
          · rcases hrest r hr with hr | ⟨hleaf, hother⟩
            · rcases hrecorded r hr with hr | ⟨rfl, hother⟩
              · exact .inl hr
              · exact .inr ⟨List.mem_cons_self, hother⟩
            · exact .inr ⟨List.mem_cons_of_mem _ hleaf, hother⟩
        · exact fun _ _ _ => id

theorem leaves_reapOrphans (hworld : Honest world) (pid : Nat) (policy : AutosnapshotPolicy)
    (limit : Int) (h : Pruned host now allowed s₀ s rs)
    (hkeys : ∀ key ∈ s₀.points, pointKey host key = key) :
    Leaves world (fun _ _ rs' => rs'.length ≤ rs.length + limit.toNat ∧
        ∀ r ∈ rs', r ∈ rs ∨ ¬ RecordedIn host s₀ r.point)
      (fun _ _ rs' => rs' = rs) (reapOrphans host pid policy now limit) s rs := by
  unfold reapOrphans
  split
  · exact leaves_pure ⟨Nat.le_add_right _ _, fun r hr => .inl hr⟩
  apply leaves_physicalLock (fun _ _ _ _ _ hQ => hQ) (fun _ _ _ _ _ hE => hE) fun _ _ => rfl
  intro t ht
  replace h := h.sameFiles ht
  apply Leaves.bind (leaves_allEntries (fun _ _ => rfl) hworld)
  rintro entries u rs' ⟨rfl, rfl, rfl⟩
  apply Leaves.bind (Q := fun leaves v rs'' => v = u ∧ rs'' = rs' ∧ leaves = storeLeaves host u.points)
  · apply leaves_look
    · exact fun k leaves hleaves => ⟨rfl, rfl, (Except.ok.inj hleaves).symm⟩
    · intro k e he
      cases he
  rintro leaves v rs'' ⟨rfl, rfl, rfl⟩
  have hpoints : ∀ leaf ∈ storeLeaves host v.points, leaf ∈ v.points := by
    intro leaf hleaf
    exact (List.mem_filter.mp (mem_sortBy.mp hleaf)).1
  apply (leaves_reapEach (fun leaf hleaf => hkeys leaf (h.removed.points (hpoints leaf hleaf))) _).mono
  · rintro _ x rs' ⟨hlength, hreaped⟩
    refine ⟨hlength, fun r hr => ?_⟩
    rcases hreaped r hr with hr | ⟨hleaf, hother⟩
    · exact .inl hr
    · right
      intro hrecorded
      obtain ⟨project, e, he, hkey⟩ := h.recorded r.point (hpoints _ hleaf) hrecorded
      exact hother (List.mem_map.mpr ⟨e, mem_recordedEntries.mpr ⟨project, he⟩, hkey⟩)
  · exact fun _ _ _ => False.elim

end

/-! ## A run -/

/-- The points a run may select, by what the host shows when the plan is made. -/
def selection (host : Host) (policy : AutosnapshotPolicy) (pressure : Bool) (released : List String)
    (now n : Int) (s : Store) (w : Outside) : List Path :=
  upTo (max 0 n) (planRetention host policy pressure now released s.points w.isDir (recordedEntries s))

attribute [local instance] lawfulBEq_path in
/-- How many points of the store a run selects or discards. -/
noncomputable def chosenCount (host : Host) (now : Int) (s : Store) (selected : List Path) : Nat :=
  open Classical in
  (s.points.toFinset.filter fun key => key ∈ selected ∨ Discarded host now s key).card

theorem chosenCount_le (s : Store) (selected : List Path) :
    chosenCount host now s selected ≤ s.points.length := by
  classical
  unfold chosenCount
  exact (Finset.card_filter_le _ _).trans (List.toFinset_card_le _)

theorem Removed.length_le {s : Store} {rs : List Removal} (h : Removed host now allowed s₀ s rs) :
    rs.length ≤ chosenCount host now s₀ allowed := by
  classical
  have hsub : (rs.map (·.point)).toFinset ⊆
      s₀.points.toFinset.filter fun key => key ∈ allowed ∨ Discarded host now s₀ key := by
    intro key hkey
    obtain ⟨r, hr, rfl⟩ := List.mem_map.mp (List.mem_toFinset.mp hkey)
    obtain ⟨hmem, -, hchosen⟩ := h.removed r hr
    exact Finset.mem_filter.mpr ⟨List.mem_toFinset.mpr hmem, hchosen⟩
  have hcard := Finset.card_le_card hsub
  rw [List.toFinset_card_of_nodup h.nodup, List.length_map] at hcard
  unfold chosenCount
  convert hcard

theorem pruned_start {s : Store} (hdistinct : DistinctIds s) : Pruned host now allowed s s [] where
  removed := ⟨List.Subset.refl _, List.nodup_nil, nofun⟩
  distinct := hdistinct
  entries := fun _ e he => ⟨e, he, rfl, id⟩
  recorded := fun _ _ h => h

/-- What a run removed is at most `max_deletes` points, and of the recorded points none but
    selected and discarded ones. -/
def Bounded (host : Host) (policy : AutosnapshotPolicy) (pressure : Bool) (n : Int)
    (released : List String) (now : Int) (s : Store) (world : Nat → Outside) (rs : List Removal) : Prop :=
  (rs.length : Int) ≤ max 0 n ∧
    ∃ k, ∀ r ∈ rs, RecordedIn host s r.point →
      r.point ∈ selection host policy pressure released now n s (world k) ∨
        Discarded host now s r.point

/-- **A run of `prune_all` stays within `max_deletes` when the points it selects and those of
    rejected captures do, and of the recorded points it removes no others.** -/
theorem pruneAll_bounded (host : Host) (pid : Nat) (policy : AutosnapshotPolicy) (pressure : Bool)
    (n : Int) (scopes released : List String) (now : Int) (s : Store) (world : Nat → Outside)
    (hworld : Honest world) (hdistinct : DistinctIds s)
    (hkeys : ∀ key ∈ s.points, pointKey host key = key)
    (hfew : ∀ k, (chosenCount host now s
      (selection host policy pressure released now n s (world k)) : Int) ≤ max 0 n) :
    Bounded host policy pressure n released now s world
      (removals ((pruneAll host pid policy pressure (some n) scopes released now).log s world)) := by
  have hpruned : ∀ k t rs, Pruned host now (selection host policy pressure released now n s (world k))
      s t rs → Bounded host policy pressure n released now s world rs := by
    intro k t rs h
    have hlength := h.removed.length_le
    have hfew := hfew k
    exact ⟨by omega, k, fun r hr _ => (h.removed.removed r hr).2.2⟩
  have hnone : Bounded host policy pressure n released now s world [] :=
    ⟨Int.le_max_left 0 n, 0, fun r hr => nomatch hr⟩
  have hrun : Leaves world (fun _ _ => Bounded host policy pressure n released now s world)
      (fun _ _ => Bounded host policy pressure n released now s world)
      (pruneAll host pid policy pressure (some n) scopes released now) s [] := by
    unfold pruneAll
    dsimp only
    apply Leaves.bind ((leaves_allEntries (fun _ _ => rfl) hworld).mono (fun _ _ _ h => h)
      (fun _ _ rs (h : rs = []) => h ▸ hnone))
    rintro entries t rs ⟨rfl, rfl, rfl⟩
    apply Leaves.bind (Q := fun prunable u rs => u = t ∧ rs = [] ∧ ∃ k,
      upTo (max 0 n) prunable = selection host policy pressure released now n t (world k))
    · apply leaves_look
      · exact fun k prunable hplan => ⟨rfl, rfl, k, by rw [← Except.ok.inj hplan]; rfl⟩
      · intro k e he
        cases he
    rintro prunable u rs ⟨rfl, rfl, k, hselected⟩
    rw [hselected]
    apply Leaves.bind ((leaves_pruneScopes hworld pid scopes (pruned_start hdistinct)).mono
      (fun _ _ _ h => h) (fun _ t rs h => hpruned k t rs h))
    rintro deleted t rs ⟨ht, hdeleted⟩
    apply leaves_unlessBusy (fun _ h => h)
    apply (leaves_reapOrphans hworld pid policy (max 0 n - deleted) ht hkeys).mono
    · rintro _ u rs' ⟨hlength, hreaped⟩
      have hbound := (hpruned k t rs ht).1
      rw [List.length_nil] at hdeleted
      refine ⟨by omega, k, fun r hr hrecorded => ?_⟩
      rcases hreaped r hr with hr | hother
      · exact (ht.removed.removed r hr).2.2
      · exact absurd hrecorded hother
    · rintro e u rs' rfl
      exact ⟨hpruned k t _ ht, fun _ => rfl⟩
  exact (hrun [] rfl).after (along_of_forall (fun _ k => ⟨k, rfl⟩) _ _)

end

/-! ## A rejected capture -/

/-- The entry of a capture that was not accepted, and whose point could not be removed then. -/
def rejectedEntry : QuickSnapshot where
  id := "1a"
  name := none
  projectId := "app"
  repoRoot := ["srv", "workspaces", "projects", "app"]
  scopePath := ["srv", "workspaces", "projects", "app"]
  scopeType := "project"
  scopeName := "app"
  snapshotPath := ["srv", "workspaces", ".snapshots", "app", "projects", "app", "1a"]
  headOid := none
  createdAt := 0
  source := "auto-periodic"
  lastRecoveredAt := none
  recoveryPath := none
  captureRoot := some ["srv", "workspaces"]
  projectRelativePath := ["projects", "app"]
  sourceDigest := none
  unfinished := some false
  pinReason := none
  pinUntil := none
  recoveryActive := false
  deletionError := some "Capture not accepted: source changed; cleanup failed: busy"
  sharedCapture := false
  recoveryCopies := []

def rejectedStore : Store :=
  ⟨[("app", [rejectedEntry])], [rejectedEntry.snapshotPath], none, fun _ => none⟩

/-- What a run over `rejectedStore` removes. -/
def rejectedRun (n : Int) : List Removal :=
  removals ((pruneAll plainHost 0 defaultPolicy false (some n) ["app"] [] 0).log rejectedStore
    fun _ => quiet "")

theorem pruneAll_bounded_one :
    Bounded plainHost defaultPolicy false 1 [] 0 rejectedStore (fun _ => quiet "") (rejectedRun 1) := by
  apply pruneAll_bounded
  · intro k failure hfailure
    cases hfailure
  · intro project
    unfold Store.manifest rejectedStore
    dsimp only
    rw [Dict.lookup_cons_if]
    split
    · exact List.nodup_singleton _
    · exact List.nodup_nil
  · decide +kernel
  · intro k
    have hcount := @chosenCount_le plainHost 0 rejectedStore
      (selection plainHost defaultPolicy false [] 0 1 rejectedStore (quiet ""))
    have hlength : rejectedStore.points.length = 1 := rfl
    show (chosenCount plainHost 0 rejectedStore _ : Int) ≤ 1
    omega

/-- With `max_deletes=0` the point of a rejected capture is removed. -/
theorem rejected_capture_not_counted :
    ¬ Bounded plainHost defaultPolicy false 0 [] 0 rejectedStore (fun _ => quiet "") (rejectedRun 0) := by
  have hremoved : (rejectedRun 0).length = 1 := by decide +kernel
  intro h
  have hbound := h.1
  rw [hremoved] at hbound
  exact absurd hbound (by decide)

end SummitFlow.Snapshots
