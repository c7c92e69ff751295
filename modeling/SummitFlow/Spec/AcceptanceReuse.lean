import Mathlib
import SummitFlow.Cli.Acceptance
import SummitFlow.Spec.NativeEvidence

/-!
# What a reused receipt says of itself

A call of `_accept_revision` returns the descriptor of a receipt, of one that was stored or
of a new one.  The descriptor is consistent if it names the requested commit, if it is
adequate for task coverage, if its `scope_digest` is that of its `scope`, and if the body
that `_load_receipt` returns has the digest `acceptance_id`.

A new receipt is consistent.  `_accept_revision` replaces the scope of a stored receipt by
the requested one and leaves the digest of the stored scope beside it, so that a stored
receipt gives a consistent descriptor exactly when it fits the call.
-/

namespace SummitFlow.Acceptance

open SummitFlow.Json
open SummitFlow.NativeCheck (require requireSome require_ok requireSome_ok)

/-! ## Objects -/

theorem lookup_update_of_notMem {d updates : Object} {key : String}
    (h : ∀ e ∈ updates, e.1 ≠ key) : (update d updates).lookup key = d.lookup key := by
  induction updates generalizing d with
  | nil => rfl
  | cons e updates ih =>
    have hne : key ≠ e.1 := fun heq => h e List.mem_cons_self heq.symm
    show (update (Dict.set e.1 e.2 d) updates).lookup key = d.lookup key
    rw [ih fun e he => h e (List.mem_cons_of_mem _ he), Dict.lookup_set_of_ne hne]

theorem lookup_update_of_mem {d updates : Object} {e : String × Value} (he : e ∈ updates)
    (hnodup : (updates.map Prod.fst).Nodup) : (update d updates).lookup e.1 = some e.2 := by
  induction updates generalizing d with
  | nil => cases he
  | cons f updates ih =>
    rw [List.map_cons, List.nodup_cons] at hnodup
    show (update (Dict.set f.1 f.2 d) updates).lookup e.1 = some e.2
    rcases List.mem_cons.mp he with rfl | he
    · have hne : ∀ f ∈ updates, f.1 ≠ e.1 := by
        intro f hf heq
        exact hnodup.1 (heq ▸ List.mem_map_of_mem hf)
      rw [lookup_update_of_notMem hne, Dict.lookup_set_self]
    · exact ih he hnodup.2

/-- A key that is left out may be written before. -/
theorem without_set {keys : List String} {key : String} (h : key ∈ keys) (v : Value) (d : Object) :
    without keys (Dict.set key v d) = without keys d := by
  induction d with
  | nil => simp [Dict.set, without, h]
  | cons e d ih =>
    obtain ⟨k, w⟩ := e
    by_cases hk : k = key
    · subst hk
      simp [Dict.set, without, h]
    · rw [Dict.set, if_neg hk]
      unfold without at ih ⊢
      rw [List.filter_cons, List.filter_cons, ih]

theorem without_update {keys : List String} {updates : Object} (h : ∀ e ∈ updates, e.1 ∈ keys)
    (d : Object) : without keys (update d updates) = without keys d := by
  induction updates generalizing d with
  | nil => rfl
  | cons e updates ih =>
    show without keys (update (Dict.set e.1 e.2 d) updates) = without keys d
    rw [ih fun e he => h e (List.mem_cons_of_mem _ he), without_set (h e List.mem_cons_self)]

theorem without_without (ks ks' : List String) (d : Object) :
    without ks (without ks' d) = without (ks ++ ks') d := by
  rw [without, without, without, List.filter_filter]
  congr 1
  funext e
  simp [List.mem_append, not_or]

theorem lookup_without {keys : List String} {key : String} (h : key ∉ keys) (d : Object) :
    (without keys d).lookup key = d.lookup key := by
  induction d with
  | nil => rfl
  | cons e d ih =>
    obtain ⟨k, v⟩ := e
    unfold without at ih ⊢
    rw [List.filter_cons]
    split
    · rw [Dict.lookup_cons_if, Dict.lookup_cons_if, ih]
    · rename_i hk
      have hmem : k ∈ keys := by simpa using hk
      have hne : key ≠ k := by
        rintro rfl
        exact h hmem
      rw [Dict.lookup_cons_if, if_neg hne, ih]

theorem getStr_congr {d d' : Object} {key : String} (h : d.lookup key = d'.lookup key) :
    getStr d key = getStr d' key := by
  rw [getStr, getStr, h]

theorem getStrings_congr {d d' : Object} {key : String} (h : d.lookup key = d'.lookup key) :
    getStrings d key = getStrings d' key := by
  rw [getStrings, getStrings, h]

theorem getDict_congr {d d' : Object} {key : String} (h : d.lookup key = d'.lookup key) :
    getDict d key = getDict d' key := by
  rw [getDict, getDict, h]

/-! ## Lists of strings -/

theorem mapM_str (names : List String) : (names.map Value.str).mapM str? = some names := by
  induction names with
  | nil => rfl
  | cons name names ih => rw [List.map_cons, List.mapM_cons, ih]; rfl

@[simp] theorem strings?_strings (names : List String) : strings? (strings names) = some names :=
  mapM_str names

theorem getStrings_of_lookup {d : Object} {key : String} {names : List String}
    (h : d.lookup key = some (strings names)) : getStrings d key = some names := by
  rw [getStrings, h, Option.bind_some, strings?_strings]

theorem sortKeysItems_str (names : List String) :
    sortKeysItems (names.map Value.str) = names.map Value.str := by
  induction names with
  | nil => rfl
  | cons name names ih => rw [List.map_cons, sortKeysItems, sortKeys, ih] <;> nofun

@[simp] theorem sortKeys_strings (names : List String) : sortKeys (strings names) = strings names := by
  rw [strings, sortKeys, sortKeysItems_str]

theorem eq_of_sortKeys_str {v : Value} {name : String} (h : sortKeys v = .str name) : v = .str name := by
  cases v <;> simp_all [sortKeys]

theorem eq_of_sortKeysItems {items : List Value} {names : List String}
    (h : sortKeysItems items = names.map .str) : items = names.map .str := by
  induction items generalizing names with
  | nil => simpa [sortKeysItems] using h
  | cons v items ih =>
    cases names with
    | nil => cases h
    | cons name names =>
      rw [sortKeysItems, List.map_cons, List.cons.injEq] at h
      rw [List.map_cons, eq_of_sortKeys_str h.1, ih h.2]

/-- What equals a list of strings is that list. -/
theorem eq_of_same_strings {v : Value} {names : List String} (h : same v (strings names) = true) :
    v = strings names := by
  have hkeys : sortKeys v = strings names := by simpa [same] using h
  cases v with
  | arr items =>
    rw [sortKeys, strings, Value.arr.injEq] at hkeys
    rw [strings, eq_of_sortKeysItems hkeys]
  | _ => simp [sortKeys, strings] at hkeys

theorem encodable_strings (names : List String) : (strings names).encodable = true := by
  have hitems : itemsEncodable (names.map Value.str) = true := by
    rw [itemsEncodable_iff]
    intro v hv
    obtain ⟨name, -, rfl⟩ := List.mem_map.mp hv
    rfl
  exact hitems

theorem strings_injective {names names' : List String} (h : strings names = strings names') :
    names = names' := by
  have := congrArg strings? h
  simpa using this

/-! ## Scopes -/

theorem dropWhile_rdropWhile {α : Type} (p : α → Bool) (xs : List α) :
    ((xs.dropWhile p).rdropWhile p).dropWhile p = (xs.dropWhile p).rdropWhile p := by
  rw [List.dropWhile_eq_self_iff]
  intro hpos
  have hprefix : (xs.dropWhile p).rdropWhile p <+: xs.dropWhile p := List.rdropWhile_prefix p _
  have hfull : 0 < (xs.dropWhile p).length := Nat.lt_of_lt_of_le hpos hprefix.length_le
  have hhead := List.dropWhile_get_zero_not p xs hfull
  have heq := hprefix.getElem hpos
  simpa [heq] using hhead

theorem strip_strip (s : String) : Str.strip (Str.strip s) = Str.strip s := by
  unfold Str.strip Str.rstripBy Str.lstripBy
  simp only [String.toList_ofList]
  rw [dropWhile_rdropWhile, List.rdropWhile_idempotent]

/-- The paths of a normalized scope are stripped, not empty, in order and different. -/
theorem mem_normalizeScope {scope : List String} {path : String} :
    path ∈ normalizeScope scope ↔ path ≠ "" ∧ ∃ p ∈ scope, Str.strip p = path := by
  rw [normalizeScope, (perm_sortBy id _).mem_iff, List.mem_dedup, List.mem_filter, List.mem_map]
  simp only [decide_eq_true_eq]
  exact and_comm

theorem nodup_normalizeScope (scope : List String) : (normalizeScope scope).Nodup :=
  (perm_sortBy id _).nodup_iff.mpr (List.nodup_dedup _)

/-- Normalizing again changes nothing. -/
theorem normalizeScope_normalizeScope (scope : List String) :
    normalizeScope (normalizeScope scope) = normalizeScope scope := by
  have hstrip : (normalizeScope scope).map Str.strip = normalizeScope scope := by
    rw [List.map_congr_left (g := id), List.map_id]
    intro path hpath
    obtain ⟨-, p, -, rfl⟩ := mem_normalizeScope.mp hpath
    exact strip_strip p
  have hfilter : (normalizeScope scope).filter (fun path => path ≠ "") = normalizeScope scope := by
    rw [List.filter_eq_self]
    intro path hpath
    exact decide_eq_true (mem_normalizeScope.mp hpath).1
  have hsorted : (normalizeScope scope).Pairwise fun a b => a ≤ b := pairwise_sortBy id _
  calc normalizeScope (normalizeScope scope)
      = sortBy id (((normalizeScope scope).map Str.strip).filter fun path => path ≠ "").dedup := rfl
    _ = sortBy id (normalizeScope scope) := by
        rw [hstrip, hfilter, List.dedup_eq_self.mpr (nodup_normalizeScope scope)]
    _ = normalizeScope scope := List.Pairwise.insertionSort_eq hsorted

theorem scopeDigest_inj {sha : Sha} {scope scope' : List String} :
    scopeDigest sha scope = scopeDigest sha scope' ↔ normalizeScope scope = normalizeScope scope' := by
  constructor
  · intro h
    have htext := sha.json_injective h
    rw [dumps, dumps, sortKeys_strings, sortKeys_strings] at htext
    exact strings_injective (text_injective (encodable_strings _) (encodable_strings _) htext)
  · intro h
    rw [scopeDigest, scopeDigest, h]

/-! ## Plans -/

/-- A plan for task coverage names the scope and the stages it was requested for. -/
theorem coveragePlan_task {sha : Sha} {repo : Repo} {base plan : Object} {scope required : List String}
    (h : coveragePlan sha repo base "task" scope required = .ok plan) :
    scope ≠ [] ∧ plan.lookup "scope" = some (strings scope) ∧
      plan.lookup "required_stages" = some (strings (sortedSet required)) := by
  unfold coveragePlan at h
  obtain ⟨-, -, h⟩ := bind_ok h
  rw [if_neg (by decide)] at h
  obtain ⟨⟨⟩, hscope, h⟩ := bind_ok h
  obtain ⟨head, -, h⟩ := bind_ok h
  obtain ⟨⟨⟩, -, h⟩ := bind_ok h
  obtain ⟨⟨⟩, -, h⟩ := bind_ok h
  have hne : scope ≠ [] := by
    have := require_ok.mp hscope
    intro hnil
    rw [hnil] at this
    cases this
  injection h with h
  rw [← h]
  constructor
  · exact hne
  constructor
  · rw [Dict.lookup_set_of_ne (by decide), lookup_without (by decide)]
    exact @lookup_update_of_mem base _ ("scope", strings scope) (by simp) (by simp)
  · rw [Dict.lookup_set_of_ne (by decide), lookup_without (by decide)]
    exact @lookup_update_of_mem base _ ("required_stages", strings (sortedSet required)) (by simp)
      (by simp)

/-! ## What validation settles -/

/-- A receipt that validates for a revision, with its descriptor. -/
structure Valid (sha : Sha) (repo : Repo) (revision : String) (v w : Object) : Prop where
  id : getStr v "acceptance_id" = some (receiptDigest sha v)
  commit : ∃ commit, repo.commit revision = .ok commit ∧ sourceCommit v = some commit
  coverage : getStr v "coverage" = some "full" ∨ getStr v "coverage" = some "task" ∧
    ∃ plan, getDict v "plan" = some plan ∧ getStrings v "scope" = getStrings plan "scope"
  descriptor : ∃ path, w = descriptor sha v path false

/-- The scope of a task receipt is that of its plan. -/
theorem task_scope {sha : Sha} {repo : Repo} {commit : Option String} {v plan current : Object}
    (hplan : requestedPlan sha repo commit "task" ((getStrings plan "scope").getD [])
      ((getStrings plan "required_stages").getD []) = .ok current)
    (hsame : sameField (v.lookup "scope") (current.lookup "scope") = true) :
    getStrings v "scope" = getStrings plan "scope" := by
  obtain ⟨base, -, hcoverage⟩ := bind_ok hplan
  obtain ⟨hne, hscope, -⟩ := coveragePlan_task hcoverage
  have hv : v.lookup "scope" = some (strings ((getStrings plan "scope").getD [])) := by
    rw [hscope] at hsame
    have heq := eq_of_same_strings hsame
    cases hlookup : v.lookup "scope" with
    | none => rw [hlookup] at heq; cases heq
    | some scope => rw [hlookup] at heq; exact congrArg some heq
  cases hp : getStrings plan "scope" with
  | none => rw [hp] at hne; exact absurd rfl hne
  | some names =>
    rw [hp] at hv
    exact getStrings_of_lookup hv

theorem valid_of_validate {sha : Sha} {repo : Repo} {store : Store} {v w : Object}
    {artifact revision : String}
    (h : validateAcceptanceReceipt sha repo store v artifact revision = .ok w) :
    Valid sha repo revision v w := by
  unfold validateAcceptanceReceipt at h
  obtain ⟨id, hid, h⟩ := bind_ok h
  obtain ⟨⟨⟩, hdigest, h⟩ := bind_ok h
  obtain ⟨⟨⟩, -, h⟩ := bind_ok h
  obtain ⟨coverage, hcoverage, h⟩ := bind_ok h
  obtain ⟨⟨⟩, hkind, h⟩ := bind_ok h
  obtain ⟨source, hsource, h⟩ := bind_ok h
  obtain ⟨inputs, -, h⟩ := bind_ok h
  obtain ⟨plan, hplan, h⟩ := bind_ok h
  obtain ⟨commit, -, h⟩ := bind_ok h
  obtain ⟨tree, -, h⟩ := bind_ok h
  obtain ⟨⟨⟩, hbound, h⟩ := bind_ok h
  obtain ⟨expected, hexpected, h⟩ := bind_ok h
  obtain ⟨⟨⟩, hsame, h⟩ := bind_ok h
  obtain ⟨⟨⟩, -, h⟩ := bind_ok h
  obtain ⟨current, hcurrent, h⟩ := bind_ok h
  obtain ⟨⟨⟩, hscope, h⟩ := bind_ok h
  obtain ⟨⟨⟩, -, h⟩ := bind_ok h
  obtain ⟨items, -, h⟩ := bind_ok h
  obtain ⟨checks, -, h⟩ := bind_ok h
  obtain ⟨⟨⟩, -, h⟩ := bind_ok h
  obtain ⟨⟨⟩, -, h⟩ := bind_ok h
  have hid := requireSome_ok hid
  have hdigest : receiptDigest sha v = id := of_decide_eq_true (require_ok.mp hdigest)
  have hcoverage := requireSome_ok hcoverage
  have hplan := requireSome_ok hplan
  have hbound : getStr source "commit" = some commit := by
    have := require_ok.mp hbound
    rw [Bool.and_eq_true] at this
    exact of_decide_eq_true this.1
  have hsame : expected = commit := of_decide_eq_true (require_ok.mp hsame)
  constructor
  · rw [hid, hdigest]
  · refine ⟨commit, hsame ▸ hexpected, ?_⟩
    rw [sourceCommit, requireSome_ok hsource, Option.bind_some, hbound]
  · rw [hcoverage]
    by_cases hfull : coverage = "full"
    · exact .inl (congrArg some hfull)
    · have htask : coverage = "task" := by
        have := require_ok.mp hkind
        simp only [Bool.or_eq_true, Bool.and_eq_true, decide_eq_true_eq] at this
        exact (this.resolve_left hfull).1
      subst htask
      refine .inr ⟨rfl, plan, hplan, task_scope hcurrent ?_⟩
      simpa using require_ok.mp hscope
  · injection h with h
    exact ⟨_, h.symm⟩

/-! ## Descriptors -/

/-- The descriptor of a receipt is adequate for task coverage: it is a task receipt for the
    scope and the stages, or a full receipt in which every stage passed in full. -/
def Adequate (call : Call) (d : Object) : Prop :=
  getStr d "coverage" = some "task" ∧ scopeOf d = call.normalizedScope ∧
    (∃ plan, getDict d "plan" = some plan ∧ getStrings plan "scope" = some call.normalizedScope ∧
      (getStrings plan "required_stages").getD [] = sortedSet call.requiredStages) ∨
  getStr d "coverage" = some "full" ∧ fullReceiptCovers d call.requiredStages = true

/-- What a descriptor that answers a call says of itself. -/
structure Consistent (sha : Sha) (commit : String) (call : Call) (d : Object) : Prop where
  commit : sourceCommit d = some commit
  coverage : call.coverage = "task" → Adequate call d
  scope : getStr d "scope_digest" = some (scopeDigest sha (scopeOf d))
  digest : getStr d "acceptance_id" = some (receiptDigest sha (loadReceipt d))

/-- The stored receipt fits the call. -/
structure Fits (sha : Sha) (call : Call) (v : Object) : Prop where
  coverage : call.coverage = "task" →
    serves v "task" call.normalizedScope (sortedSet call.requiredStages) = true
  scope : call.normalizedScope = [] ∨ normalizeScope (scopeOf v) = call.normalizedScope
  digest : receiptDigest sha (loadReceipt v) = receiptDigest sha v

theorem fullReceiptCovers_congr {v d : Object} {required required' : List String}
    (hchecks : d.lookup "checks" = v.lookup "checks")
    (hrequired : ∀ name, name ∈ required ↔ name ∈ required') :
    fullReceiptCovers d required = fullReceiptCovers v required' := by
  rw [Bool.eq_iff_iff, fullReceiptCovers, fullReceiptCovers, stagesOf, stagesOf, hchecks,
    List.all_eq_true, List.all_eq_true]
  simp only [hrequired]

theorem mem_sortedSet {names : List String} {name : String} : name ∈ sortedSet names ↔ name ∈ names := by
  rw [sortedSet, (perm_sortBy id _).mem_iff, List.mem_dedup]

/-! ### A stored receipt -/

section

variable {sha : Sha} {repo : Repo} {call : Call} {v : Object} {artifact revision : String}
  {clean : Bool} {n : Nat}

/-- The descriptor of a stored receipt that answers a call. -/
def reusedDescriptor (sha : Sha) (call : Call) (v : Object) (artifact : String) (clean : Bool)
    (n : Nat) : Object :=
  update (descriptor sha v artifact false) (reuseFields call (descriptor sha v artifact false) clean n)

/-- The keys that a stored receipt is given. -/
def given : List String := "task_id" :: "scope" :: added

theorem key_descriptorFields {receipt : Object} {reused : Bool} {e : String × Value}
    (he : e ∈ descriptorFields sha receipt artifact reused) : e.1 ∈ given := by
  simp only [descriptorFields, List.mem_cons, List.not_mem_nil, or_false] at he
  obtain rfl | rfl | rfl | rfl | rfl | rfl | rfl | rfl := he <;> simp [given, added]

theorem key_reuseFields {w : Object} {e : String × Value} (he : e ∈ reuseFields call w clean n) :
    e.1 ∈ given := by
  simp only [reuseFields, List.mem_cons, List.not_mem_nil, or_false] at he
  obtain rfl | rfl | rfl | rfl | rfl := he <;> simp [given, added]

theorem lookup_descriptor {receipt : Object} {reused : Bool} {key : String} (h : key ∉ given) :
    (descriptor sha receipt artifact reused).lookup key = receipt.lookup key := by
  apply lookup_update_of_notMem
  rintro e he rfl
  exact h (key_descriptorFields he)

theorem lookup_reused {key : String} (h : key ∉ given) :
    (reusedDescriptor sha call v artifact clean n).lookup key = v.lookup key := by
  have hkeys : ∀ e ∈ reuseFields call (descriptor sha v artifact false) clean n, e.1 ≠ key := by
    rintro e he rfl
    exact h (key_reuseFields he)
  rw [reusedDescriptor, lookup_update_of_notMem hkeys, lookup_descriptor h]

/-- Nothing that is given to a receipt is digested after it was loaded. -/
theorem receiptDigest_update {d updates : Object} (h : ∀ e ∈ updates, e.1 ∈ given) :
    receiptDigest sha (loadReceipt (update d updates)) = receiptDigest sha (loadReceipt d) := by
  have hkeys : ∀ e ∈ updates, e.1 ∈ undigested ++ added := by
    intro e he
    have hmem := h e he
    simp only [given, List.mem_cons] at hmem
    simp only [undigested, List.mem_append, List.mem_cons]
    tauto
  rw [receiptDigest, receiptDigest, loadReceipt, loadReceipt, without_without, without_without,
    without_update hkeys]

theorem receiptDigest_reused :
    receiptDigest sha (loadReceipt (reusedDescriptor sha call v artifact clean n)) =
      receiptDigest sha (loadReceipt v) := by
  rw [reusedDescriptor, receiptDigest_update fun e he => key_reuseFields he, descriptor,
    receiptDigest_update fun e he => key_descriptorFields he]

theorem scopeDigest_reused :
    getStr (reusedDescriptor sha call v artifact clean n) "scope_digest" =
      some (scopeDigest sha (scopeOf v)) := by
  have hdescriptor : (descriptor sha v artifact false).lookup "scope_digest" =
      some (.str (scopeDigest sha (scopeOf v))) :=
    @lookup_update_of_mem v _ ("scope_digest", .str (scopeDigest sha (scopeOf v)))
      (by simp [descriptorFields]) (by simp [descriptorFields])
  have hkeys : ∀ e ∈ reuseFields call (descriptor sha v artifact false) clean n,
      e.1 ≠ "scope_digest" := by
    intro e he
    simp only [reuseFields, List.mem_cons, List.not_mem_nil, or_false] at he
    obtain rfl | rfl | rfl | rfl | rfl := he <;> simp
  rw [getStr, reusedDescriptor, lookup_update_of_notMem hkeys, hdescriptor]
  rfl

/-- The scope of a reused receipt is the requested one, if one is requested. -/
theorem scopeOf_reused :
    scopeOf (reusedDescriptor sha call v artifact clean n) =
      if call.normalizedScope = [] then scopeOf v else call.normalizedScope := by
  have hdescriptor : (descriptor sha v artifact false).lookup "scope" = v.lookup "scope" := by
    apply lookup_update_of_notMem
    intro e he
    simp only [descriptorFields, List.mem_cons, List.not_mem_nil, or_false] at he
    obtain rfl | rfl | rfl | rfl | rfl | rfl | rfl | rfl := he <;> simp
  have hlookup := @lookup_update_of_mem (descriptor sha v artifact false)
    (reuseFields call (descriptor sha v artifact false) clean n)
    ("scope", if call.normalizedScope ≠ [] then strings call.normalizedScope else
      ((descriptor sha v artifact false).lookup "scope").getD (.arr []))
    (by simp [reuseFields]) (by simp [reuseFields])
  rw [hdescriptor] at hlookup
  rw [scopeOf, getStrings, reusedDescriptor, hlookup, Option.bind_some]
  by_cases hscope : call.normalizedScope = []
  · rw [if_neg (not_not_intro hscope), if_pos hscope, scopeOf, getStrings]
    cases v.lookup "scope" with
    | none => rfl
    | some scope => rfl
  · rw [if_pos hscope, if_neg hscope, strings?_strings]
    rfl

/-- For a receipt that validates, to serve a task call is to be adequate. -/
theorem serves_iff_adequate {w : Object} (hvalid : Valid sha repo revision v w)
    (hscope : call.normalizedScope ≠ []) :
    serves v "task" call.normalizedScope (sortedSet call.requiredStages) = true ↔
      Adequate call (reusedDescriptor sha call v artifact clean n) := by
  have hcoverage : getStr (reusedDescriptor sha call v artifact clean n) "coverage" =
      getStr v "coverage" := getStr_congr (lookup_reused (by simp [given, added]))
  have hplan : getDict (reusedDescriptor sha call v artifact clean n) "plan" = getDict v "plan" :=
    getDict_congr (lookup_reused (by simp [given, added]))
  have hcovers : fullReceiptCovers (reusedDescriptor sha call v artifact clean n) call.requiredStages =
      fullReceiptCovers v (sortedSet call.requiredStages) :=
    fullReceiptCovers_congr (lookup_reused (by simp [given, added])) fun _ => mem_sortedSet.symm
  rw [Adequate, hcoverage, hplan, hcovers, scopeOf_reused, if_neg hscope]
  obtain hfull | ⟨htask, plan, hplan, hsame⟩ := hvalid.coverage
  · rw [serves, hfull]
    simp
  · rw [serves, htask, hplan, hsame]
    simp

/-- A stored receipt gives a consistent descriptor exactly when it fits the call. -/
theorem consistent_reused_iff {w : Object} {commit : String} (hvalid : Valid sha repo revision v w)
    (hcommit : sourceCommit v = some commit)
    (hscope : call.coverage = "task" → call.normalizedScope ≠ []) :
    Consistent sha commit call (reusedDescriptor sha call v artifact clean n) ↔ Fits sha call v := by
  have hid : getStr (reusedDescriptor sha call v artifact clean n) "acceptance_id" =
      some (receiptDigest sha v) := by
    rw [getStr_congr (lookup_reused (by simp [given, added])), hvalid.id]
  constructor
  · intro h
    constructor
    · intro htask
      exact (serves_iff_adequate hvalid (hscope htask)).mpr (h.coverage htask)
    · by_cases hnil : call.normalizedScope = []
      · exact .inl hnil
      · right
        have hdigest := h.scope
        rw [scopeDigest_reused, scopeOf_reused, if_neg hnil, Option.some.injEq, scopeDigest_inj,
          Call.normalizedScope, normalizeScope_normalizeScope] at hdigest
        exact hdigest
    · have hdigest := h.digest
      rw [hid, receiptDigest_reused, Option.some.injEq] at hdigest
      exact hdigest.symm
  · intro h
    constructor
    · have hsource : getDict (reusedDescriptor sha call v artifact clean n) "source" =
          getDict v "source" := getDict_congr (lookup_reused (by simp [given, added]))
      rw [sourceCommit, hsource]
      exact hcommit
    · intro htask
      exact (serves_iff_adequate hvalid (hscope htask)).mp (h.coverage htask)
    · rw [scopeDigest_reused, scopeOf_reused]
      by_cases hnil : call.normalizedScope = []
      · rw [if_pos hnil]
      · rw [if_neg hnil, Option.some.injEq, scopeDigest_inj, h.scope.resolve_left hnil,
          Call.normalizedScope, normalizeScope_normalizeScope]
    · rw [hid, receiptDigest_reused, h.digest]

end

/-! ### A new receipt -/

section

variable {sha : Sha} {repo : Repo} {call : Call} {p : Pending} {checks : List Object}
  {outcome : String × String} {clock : Clock} {path : String}

/-- The receipt of a run. -/
def newReceipt (sha : Sha) (call : Call) (p : Pending) (checks : List Object)
    (outcome : String × String) (clock : Clock) : Object :=
  let body := receiptBody sha call p checks outcome clock
  body ++ [("acceptance_id", .str (receiptDigest sha body))]

/-- A new receipt has no key that loading takes out. -/
theorem loadReceipt_new :
    loadReceipt (newReceipt sha call p checks outcome clock) =
      newReceipt sha call p checks outcome clock := by
  rw [loadReceipt, without, List.filter_eq_self]
  intro e he
  simp only [newReceipt, receiptBody, List.cons_append, List.nil_append, List.mem_cons,
    List.not_mem_nil, or_false] at he
  obtain rfl | rfl | rfl | rfl | rfl | rfl | rfl | rfl | rfl | rfl | rfl | rfl | rfl | rfl | rfl |
    rfl | rfl | rfl := he <;> simp [added]

theorem receiptDigest_new :
    receiptDigest sha (newReceipt sha call p checks outcome clock) =
      receiptDigest sha (receiptBody sha call p checks outcome clock) := by
  rw [receiptDigest, receiptDigest, newReceipt, without, List.filter_append]
  simp [undigested, without]

/-- A receipt of a run that answers its call is consistent. -/
theorem consistent_new {commit : Option String}
    (hplan : requestedPlan sha repo commit call.coverage call.normalizedScope call.requiredStages =
      .ok p.plan) :
    Consistent sha p.before.commit call
      (descriptor sha (newReceipt sha call p checks outcome clock) path false) := by
  have hscope : scopeOf (newReceipt sha call p checks outcome clock) = call.normalizedScope := by
    have hlookup : (newReceipt sha call p checks outcome clock).lookup "scope" =
        some (strings call.normalizedScope) := by simp [newReceipt, receiptBody, List.lookup]
    rw [scopeOf, getStrings_of_lookup hlookup]
    rfl
  have hkept : (descriptor sha (newReceipt sha call p checks outcome clock) path false).lookup "scope" =
      (newReceipt sha call p checks outcome clock).lookup "scope" := by
    apply lookup_update_of_notMem
    intro e he
    simp only [descriptorFields, List.mem_cons, List.not_mem_nil, or_false] at he
    obtain rfl | rfl | rfl | rfl | rfl | rfl | rfl | rfl := he <;> simp
  have hdescribed : scopeOf (descriptor sha (newReceipt sha call p checks outcome clock) path false) =
      call.normalizedScope := by
    rw [← hscope, scopeOf, scopeOf, getStrings_congr hkept]
  constructor
  · have hsource : getDict (descriptor sha (newReceipt sha call p checks outcome clock) path false)
        "source" = getDict (newReceipt sha call p checks outcome clock) "source" :=
      getDict_congr (lookup_descriptor (by simp [given, added]))
    rw [sourceCommit, hsource]
    simp [newReceipt, receiptBody, getDict, getStr, dict?, str?, List.lookup]
  · intro htask
    rw [htask] at hplan
    obtain ⟨base, -, hplan⟩ := bind_ok hplan
    obtain ⟨-, hplanned, hrequired⟩ := coveragePlan_task hplan
    left
    refine ⟨?_, hdescribed, p.plan, ?_, getStrings_of_lookup hplanned, ?_⟩
    · rw [getStr_congr (lookup_descriptor (by simp [given, added]))]
      simp [newReceipt, receiptBody, getStr, str?, List.lookup, htask]
    · rw [getDict_congr (lookup_descriptor (by simp [given, added]))]
      simp [newReceipt, receiptBody, getDict, dict?, List.lookup]
    · rw [getStrings_of_lookup hrequired]
      rfl
  · have hlookup : (descriptor sha (newReceipt sha call p checks outcome clock) path false).lookup
        "scope_digest" = some (.str (scopeDigest sha call.normalizedScope)) := by
      rw [← hscope]
      exact @lookup_update_of_mem _ _ ("scope_digest", .str (scopeDigest sha (scopeOf
        (newReceipt sha call p checks outcome clock)))) (by simp [descriptorFields])
        (by simp [descriptorFields])
    rw [getStr, hlookup, hdescribed]
    rfl
  · rw [descriptor, receiptDigest_update fun e he => key_descriptorFields he, loadReceipt_new,
      receiptDigest_new]
    have hid : (newReceipt sha call p checks outcome clock).lookup "acceptance_id" =
        some (.str (receiptDigest sha (receiptBody sha call p checks outcome clock))) := by
      simp [newReceipt, receiptBody, List.lookup]
    have hlookup := @lookup_descriptor sha path (newReceipt sha call p checks outcome clock) false
      "acceptance_id" (by simp [given, added])
    rw [descriptor] at hlookup
    rw [getStr, hlookup, hid]
    rfl

end

/-! ## Every call -/

section

variable {sha : Sha} {repo after : Repo} {run : List String → Ran} {clock : Clock} {call : Call}
  {store store' : Store} {p : Pending} {commit : String}

theorem pending_ok (h : pending sha repo call = .ok p) :
    repo.commit call.revision = .ok p.before.commit ∧ call.plan sha repo p.before.commit = .ok p.plan := by
  obtain ⟨before, hbefore, h⟩ := bind_ok h
  obtain ⟨head, -, h⟩ := bind_ok h
  obtain ⟨⟨⟩, -, h⟩ := bind_ok h
  obtain ⟨plan, hplan, h⟩ := bind_ok h
  injection h with h
  subst h
  refine ⟨?_, hplan⟩
  unfold sourceIdentity at hbefore
  obtain ⟨commit, hcommit, hbefore⟩ := bind_ok hbefore
  obtain ⟨tree, -, hbefore⟩ := bind_ok hbefore
  obtain ⟨workspace, -, hbefore⟩ := bind_ok hbefore
  obtain ⟨inputs, -, hbefore⟩ := bind_ok hbefore
  obtain ⟨⟨execution, modes⟩, -, hbefore⟩ := bind_ok hbefore
  -- whether the checkout is isolated or not, the commit is the one that was resolved
  have hsource : before.commit = commit := by
    dsimp only at hbefore
    split at hbefore
    · obtain ⟨⟨⟩, -, hbefore⟩ := bind_ok hbefore
      obtain ⟨working, -, hbefore⟩ := bind_ok hbefore
      injection hbefore with hbefore
      rw [← hbefore]
    · obtain ⟨working, -, hbefore⟩ := bind_ok hbefore
      injection hbefore with hbefore
      rw [← hbefore]
  rw [hsource]
  exact hcommit

/-- For task coverage a scope is requested. -/
theorem scope_of_plan {current : Object} (h : call.plan sha repo commit = .ok current)
    (htask : call.coverage = "task") : call.normalizedScope ≠ [] := by
  unfold Call.plan at h
  rw [htask] at h
  obtain ⟨base, -, h⟩ := bind_ok h
  exact (coveragePlan_task h).1

/-- The stored receipt that answers a call, as the store holds it when the call starts. -/
def Answers (sha : Sha) (repo : Repo) (store : Store) (call : Call) (v : Object) : Prop :=
  ∃ p w, pending sha repo call = .ok p ∧ answer sha repo store call p = some (v, w)

theorem toOption_some {α : Type} {x : Except String α} {a : α} (h : x.toOption = some a) :
    x = .ok a := by
  cases x with
  | error reason => cases h
  | ok b => rw [Option.some.inj h]

/-- What answers a call was validated for its commit. -/
theorem answer_ok {v w : Object} (h : answer sha repo store call p = some (v, w)) :
    Valid sha repo p.before.commit v w := by
  unfold answer at h
  split at h
  · cases hkey : receiptForKey sha repo store p.before.commit p.key with
    | some found =>
      rw [hkey] at h
      obtain rfl : found = (v, w) := Option.some.inj h
      obtain ⟨value, -, hkey⟩ := Option.bind_eq_some_iff.mp hkey
      obtain ⟨validated, hvalidated, hkey⟩ := Option.bind_eq_some_iff.mp hkey
      obtain ⟨rfl, rfl⟩ := Prod.mk.inj (Option.some.inj hkey)
      exact valid_of_validate (toOption_some hvalidated)
    | none =>
      rw [hkey] at h
      have h : receiptForCommit sha repo store p.before.commit call = some (v, w) := h
      obtain ⟨name, -, hname⟩ := List.exists_of_findSome?_eq_some h
      obtain ⟨value, -, hname⟩ := Option.bind_eq_some_iff.mp hname
      obtain ⟨-, -, hname⟩ := Option.bind_eq_some_iff.mp hname
      obtain ⟨-, -, hname⟩ := Option.bind_eq_some_iff.mp hname
      obtain ⟨validated, hvalidated, hname⟩ := Option.bind_eq_some_iff.mp hname
      obtain ⟨rfl, rfl⟩ := Prod.mk.inj (Option.some.inj hname)
      exact valid_of_validate (toOption_some hvalidated)
  · cases h

theorem finalize_ok {checks : List Object} {passed : Bool} {d : Object}
    (h : finalize sha after call p checks passed clock store = (.ok d, store')) :
    ∃ outcome path, d = descriptor sha (newReceipt sha call p checks outcome clock) path false := by
  unfold finalize at h
  dsimp only at h
  split at h
  · injection h with h
    injection h with h
    exact ⟨_, _, h.symm⟩
  · cases h

/-- A descriptor that a call returns is that of the receipt that answers it, or of a new one. -/
theorem acceptRevision_ok {d : Object}
    (h : acceptRevision sha repo after run clock call store = (.ok d, store')) :
    ∃ p, pending sha repo call = .ok p ∧
      ((∃ v w n, answer sha repo store call p = some (v, w) ∧
          d = update w (reuseFields call w (p.before.status = "") n)) ∨
        answer sha repo store call p = none ∧ ∃ checks outcome path,
          d = descriptor sha (newReceipt sha call p checks outcome clock) path false) := by
  unfold acceptRevision at h
  cases hp : pending sha repo call with
  | error reason => rw [hp] at h; cases h
  | ok p =>
    rw [hp] at h
    dsimp only at h
    refine ⟨p, rfl, ?_⟩
    cases hanswer : answer sha repo store call p with
    | some found =>
      obtain ⟨v, w⟩ := found
      rw [hanswer] at h
      injection h with h
      injection h with h
      exact .inl ⟨v, w, clock.lookup, rfl, h.symm⟩
    | none =>
      rw [hanswer] at h
      right
      refine ⟨rfl, ?_⟩
      dsimp only at h
      split at h
      · cases h
      · exact ⟨_, finalize_ok h⟩

/-- **A descriptor that a call returns is consistent exactly when the stored receipt that
    answers the call, if one does, fits it.**  `hcommit` is that git resolves the name of a
    commit to itself. -/
theorem acceptRevision_consistent_iff {d : Object}
    (hgit : ∀ name c, repo.commit name = .ok c → repo.commit c = .ok c)
    (h : acceptRevision sha repo after run clock call store = (.ok d, store'))
    (hcommit : repo.commit call.revision = .ok commit) :
    Consistent sha commit call d ↔ ∀ v, Answers sha repo store call v → Fits sha call v := by
  obtain ⟨p, hp, hd⟩ := acceptRevision_ok h
  obtain ⟨hresolved, hplan⟩ := pending_ok hp
  obtain rfl : p.before.commit = commit := by
    rw [hresolved] at hcommit
    exact Except.ok.inj hcommit
  obtain ⟨v, w, n, hanswer, rfl⟩ | ⟨hanswer, checks, outcome, path, rfl⟩ := hd
  · have hvalid := answer_ok hanswer
    obtain ⟨path, rfl⟩ := hvalid.descriptor
    have hsource : sourceCommit v = some p.before.commit := by
      obtain ⟨c, hc, hv⟩ := hvalid.commit
      rw [hgit _ _ hresolved] at hc
      rw [hv, Except.ok.inj hc]
    rw [← reusedDescriptor, consistent_reused_iff hvalid hsource (scope_of_plan hplan)]
    constructor
    · rintro hfits v' ⟨p', w', hp', hanswer'⟩
      obtain rfl : p = p' := Except.ok.inj (hp.symm.trans hp')
      rw [hanswer] at hanswer'
      obtain ⟨rfl, -⟩ := Prod.mk.inj (Option.some.inj hanswer')
      exact hfits
    · intro hfits
      exact hfits v ⟨p, _, hp, hanswer⟩
  · constructor
    · rintro - v' ⟨p', w', hp', hanswer'⟩
      obtain rfl : p = p' := Except.ok.inj (hp.symm.trans hp')
      rw [hanswer] at hanswer'
      cases hanswer'
    · intro _
      exact consistent_new hplan

end

/-! ### A full receipt, reused for a scope -/

/-- A stand-in for SHA-256 that gives one text a name, and every other text as it is. -/
def namingSha (named : List Char) : Sha where
  json := fun cs => if cs = named then "receipt" else String.ofList ('=' :: cs)
  parts := fun _ => "parts"
  json_injective := by
    have hother : ∀ cs : List Char, "receipt" ≠ String.ofList ('=' :: cs) := by
      intro cs h
      have hhead := congrArg (fun s : String => s.toList.head?) h
      simp at hhead
    intro cs cs' h
    dsimp only at h
    split at h <;> split at h
    · next hcs hcs' => rw [hcs, hcs']
    · exact absurd h (hother cs')
    · exact absurd h.symm (hother cs)
    · simpa using congrArg String.toList h

def cleanCommit : String := "8c7d1e5f8c7d1e5f8c7d1e5f8c7d1e5f8c7d1e5f"

/-- A clean checkout of one commit, whose only gate passes. -/
def cleanRepo : Repo where
  commit := fun name => if name ∈ ["HEAD", cleanCommit] then .ok cleanCommit else .error "no commit"
  tree := fun _ => .ok "tree"
  status := ""
  workspace := .ok "workspace"
  sourceInputs := fun _ => .ok [("fingerprint", .str "inputs")]
  sourceExecution := fun _ basis _ =>
    .ok (.obj [("schema_version", .int 1), ("basis", .str basis)], [("fingerprint", .str "modes")])
  materialized := fun _ _ => .ok ()
  workingMaterialization := .ok .null
  projectedModes := fun _ => []
  localInputs := [("fingerprint", .str "local"), ("home_gate_keys", .arr [])]
  outcomeLocalInputs := fun _ inputs => .obj inputs
  lstat := fun _ => none
  projectPlan := fun _ _ =>
    .ok [("commands", .arr [strings ["st", "check"]]), ("fingerprint", .str "plan")]
  scopeMatches := fun _ _ => .ok ()
  gateEvidence := fun _ _ => [("coverage", .str "full"), ("state", .str "pass"), ("stages", .arr [])]
  taskGateEvidence := fun _ _ _ => .error "not asked for"
  validTaskEvidence := fun _ _ _ => .ok ()
  validNativeEvidence := fun _ _ => .ok ()
  retained := fun _ => .ok ()
  directory := "acceptance"

/-- Full acceptance of `HEAD`, for the paths of a scope. -/
def fullCall (scope : List String) : Call := ⟨"HEAD", scope, "", true, "actual", "full", []⟩

/-- The text of the receipt that `fullCall []` leaves in `cleanRepo`. -/
def receiptText : List Char :=
  match pending (namingSha []) cleanRepo (fullCall []) with
  | .ok p =>
    let checks := [(runCheck cleanRepo (fullCall []) p.plan ["st", "check"] ⟨"OK", "", 0⟩).1]
    dumps (.obj (without undigested (receiptBody (namingSha []) (fullCall []) p checks ("success", "")
      ⟨0, 0, "", "", 0⟩)))
  | .error _ => []

def exampleSha : Sha := namingSha receiptText

/-- `fullCall` in `cleanRepo`. -/
def acceptFull (scope : List String) (store : Store) : Except String Object × Store :=
  acceptRevision exampleSha cleanRepo cleanRepo (fun _ => ⟨"OK", "", 0⟩) ⟨0, 0, "", "", 0⟩
    (fullCall scope) store

theorem cleanRepo_commit (name c : String) (h : cleanRepo.commit name = .ok c) :
    cleanRepo.commit c = .ok c := by
  unfold cleanRepo at h ⊢
  dsimp only at h ⊢
  split at h
  · rw [← Except.ok.inj h, if_pos (by decide)]
  · cases h

/-- Whether a call returned a descriptor that `p` holds of. -/
def returned (p : Object → Bool) (result : Except String Object × Store) : Bool :=
  match result.1 with
  | .ok d => p d
  | .error _ => false

theorem exists_of_returned {p : Object → Bool} {result : Except String Object × Store}
    (h : returned p result = true) : ∃ d, result = (.ok d, result.2) ∧ p d = true := by
  obtain ⟨result, store⟩ := result
  cases result with
  | ok d => exact ⟨d, rfl, h⟩
  | error reason => cases h

theorem acceptRevision_consistent_iff_full :
    ∃ d, acceptFull ["a.py"] (acceptFull [] ⟨[], []⟩).2 =
        (.ok d, (acceptFull ["a.py"] (acceptFull [] ⟨[], []⟩).2).2) ∧
      (Consistent exampleSha cleanCommit (fullCall ["a.py"]) d ↔
        ∀ v, Answers exampleSha cleanRepo (acceptFull [] ⟨[], []⟩).2 (fullCall ["a.py"]) v →
          Fits exampleSha (fullCall ["a.py"]) v) := by
  have hreturned : returned (fun _ => true) (acceptFull ["a.py"] (acceptFull [] ⟨[], []⟩).2) = true := by
    decide +kernel
  obtain ⟨d, hd, -⟩ := exists_of_returned hreturned
  exact ⟨d, hd, acceptRevision_consistent_iff cleanRepo_commit hd (by decide)⟩

/-- The descriptor of a full receipt that is reused for a scope has the digest of no scope. -/
theorem stored_digest_kept :
    ∃ d, acceptFull ["a.py"] (acceptFull [] ⟨[], []⟩).2 =
        (.ok d, (acceptFull ["a.py"] (acceptFull [] ⟨[], []⟩).2).2) ∧
      ¬ Consistent exampleSha cleanCommit (fullCall ["a.py"]) d := by
  have hreturned : returned (fun d => getStr d "scope_digest" ≠ some (scopeDigest exampleSha (scopeOf d)))
      (acceptFull ["a.py"] (acceptFull [] ⟨[], []⟩).2) = true := by decide +kernel
  obtain ⟨d, hd, hdigest⟩ := exists_of_returned hreturned
  exact ⟨d, hd, fun h => of_decide_eq_true hdigest h.scope⟩

end SummitFlow.Acceptance
