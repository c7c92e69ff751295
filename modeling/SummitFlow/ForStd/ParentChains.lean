import Mathlib.Data.Fintype.Card
import Mathlib.Data.List.Nodup
import Mathlib.Data.Set.Finite.Basic
import Mathlib.Logic.Relation
import Mathlib.Order.WellFounded

/-!
# Chains of parents

A relation that gives every element one parent at most.  From an element of a finite set the
chain of its parents ends in an element without one, or leads into a cycle.

`Entered` are the elements at which a walk through a list enters what has no such end: those
that no element before them in the list is above.
-/

namespace SummitFlow.ParentChains

open Relation
open scoped List

variable {α : Type} {up : α → α → Prop} {i c x : α} {keys : List α}

/-- Following the parents leads back. -/
def OnCycle (up : α → α → Prop) (i : α) : Prop := TransGen up i i

/-- Following the parents does not end. -/
def Rootless (up : α → α → Prop) (i : α) : Prop := ∀ x, ReflTransGen up i x → ∃ y, up x y

theorem Rootless.of_leads (h : Rootless up i) (hx : ReflTransGen up i x) : Rootless up x :=
  fun y hy => h y (hx.trans hy)

/-! ## Cycles -/

/-- In a finite set, a chain that does not end leads into a cycle. -/
theorem Rootless.leads_to_cycle (h : Rootless up i) (hkeys : ∀ x, ReflTransGen up i x → x ∈ keys) :
    ∃ c, ReflTransGen up i c ∧ OnCycle up c := by
  by_contra hnone
  -- without a cycle, "is above" is a strict order on what the chain passes, and has a top
  let Passed := { x // ReflTransGen up i x }
  let below : Passed → Passed → Prop := fun a b => TransGen up b.1 a.1
  have hfinite : Finite Passed :=
    Set.Finite.subset keys.finite_toSet fun x hx => hkeys x hx
  have htrans : IsTrans Passed below := ⟨fun _ _ _ hab hbc => hbc.trans hab⟩
  have hirrefl : Std.Irrefl below := ⟨fun a ha => hnone ⟨a.1, a.2, ha⟩⟩
  obtain ⟨top, -, htop⟩ := (Finite.wellFounded_of_trans_of_irrefl below).has_min Set.univ
    ⟨⟨i, .refl⟩, trivial⟩
  obtain ⟨y, hy⟩ := h top.1 top.2
  exact htop ⟨y, top.2.tail hy⟩ trivial (.single hy)

section

variable (hup : Relator.RightUnique up)

include hup

/-- What a cycle leads to leads back into it. -/
theorem leads_back (hc : OnCycle up c) (hx : ReflTransGen up c x) : ReflTransGen up x c := by
  induction hx with
  | refl => exact .refl
  | @tail x y _ hstep ih =>
    rcases ReflTransGen.cases_head ih with heq | ⟨z, hz, hrest⟩
    · obtain ⟨z, hz, hrest⟩ := TransGen.head'_iff.mp hc
      exact hup (heq ▸ hz) hstep ▸ hrest
    · exact hup hz hstep ▸ hrest

/-- And so it is on the cycle. -/
theorem OnCycle.of_leads (hc : OnCycle up c) (hx : ReflTransGen up c x) : OnCycle up x :=
  TransGen.trans_left (TransGen.trans_right (leads_back hup hc hx) hc) hx

/-- A chain that leads into a cycle does not end. -/
theorem rootless_of_leads_to_cycle (hi : ReflTransGen up i c) (hc : OnCycle up c) :
    Rootless up i := by
  intro x hx
  have hback : ReflTransGen up x c := by
    rcases ReflTransGen.total_of_right_unique hup hi hx with hcx | hxc
    · exact leads_back hup hc hcx
    · exact hxc
  rcases ReflTransGen.cases_head hback with rfl | ⟨y, hy, -⟩
  · obtain ⟨y, hy, -⟩ := TransGen.head'_iff.mp hc
    exact ⟨y, hy⟩
  · exact ⟨y, hy⟩

end

/-! ## The first in a list -/

/-- Of the elements of a list with a property, one comes first. -/
theorem exists_first {P : α → Prop} (hkeys : keys.Nodup) (hi : i ∈ keys) (hP : P i) :
    ∃ x ∈ keys, P x ∧ (∀ m, [m, x] <+ keys → ¬ P m) ∧ (x = i ∨ [x, i] <+ keys) := by
  induction keys with
  | nil => cases hi
  | cons k keys ih =>
    obtain ⟨hnew, hkeys⟩ := List.nodup_cons.mp hkeys
    by_cases hk : P k
    · refine ⟨k, List.mem_cons_self, hk, ?_, ?_⟩
      · intro m hm
        have hmem : k ∈ keys := by
          rcases List.sublist_cons_iff.mp hm with hrest | ⟨rest, heq, hrest⟩
          · exact hrest.subset (List.mem_cons_of_mem _ List.mem_cons_self)
          · obtain ⟨rfl, rfl⟩ := List.cons.inj heq
            exact hrest.subset List.mem_cons_self
        exact absurd hmem hnew
      · rcases List.mem_cons.mp hi with rfl | hi
        · exact .inl rfl
        · exact .inr ((List.singleton_sublist.mpr hi).cons_cons k)
    · have hi' : i ∈ keys := (List.mem_cons.mp hi).resolve_left fun heq => hk (heq ▸ hP)
      obtain ⟨x, hx, hPx, hfirst, hplace⟩ := ih hkeys hi'
      refine ⟨x, List.mem_cons_of_mem _ hx, hPx, ?_, hplace.imp id fun h => h.cons k⟩
      intro m hm
      rcases List.sublist_cons_iff.mp hm with hrest | ⟨rest, heq, hrest⟩
      · exact hfirst m hrest
      · rw [(List.cons.inj heq).1]
        exact hk

/-! ## Where a walk enters -/

/-- The chain does not end, and no element before this one is on it. -/
structure Entered (up : α → α → Prop) (keys : List α) (i : α) : Prop where
  mem : i ∈ keys
  rootless : Rootless up i
  first : ∀ m, [m, i] <+ keys → ¬ ReflTransGen up i m

/-- One more element at the end of the list. -/
theorem entered_concat {k : α} (hnew : k ∉ keys) :
    Entered up (keys ++ [k]) i ↔
      Entered up keys i ∨ i = k ∧ Rootless up k ∧ ∀ m ∈ keys, ¬ ReflTransGen up k m := by
  constructor
  · rintro ⟨hmem, hrootless, hfirst⟩
    rcases List.mem_append.mp hmem with hold | hlast
    · left
      exact ⟨hold, hrootless, fun m hm => hfirst m (hm.trans (List.sublist_append_left _ _))⟩
    · right
      obtain rfl := List.mem_singleton.mp hlast
      refine ⟨rfl, hrootless, fun m hm => hfirst m ?_⟩
      exact (List.singleton_sublist.mpr hm).append (List.Sublist.refl [i])
  · rintro (⟨hmem, hrootless, hfirst⟩ | ⟨rfl, hrootless, hfirst⟩)
    · refine ⟨List.mem_append_left _ hmem, hrootless, fun m hm => ?_⟩
      obtain ⟨pre, post, heq, hpre, hpost⟩ := List.sublist_append_iff.mp hm
      rcases List.sublist_singleton.mp hpost with rfl | rfl
      · rw [List.append_nil] at heq
        exact hfirst m (heq ▸ hpre)
      · -- the new element is not the old one
        have hlast : i = k := by
          have := congrArg List.getLast? heq
          simpa using this
        exact absurd (hlast ▸ hmem) hnew
    · refine ⟨List.mem_append_right _ (List.mem_singleton_self _), hrootless, fun m hm => ?_⟩
      obtain ⟨pre, post, heq, hpre, hpost⟩ := List.sublist_append_iff.mp hm
      have hlength := congrArg List.length heq
      have hshort := hpost.length_le
      simp only [List.length_append, List.length_cons, List.length_nil] at hlength hshort
      apply hfirst m
      cases pre with
      | nil =>
        rw [List.length_nil] at hlength
        omega
      | cons head pre =>
        obtain ⟨rfl, -⟩ := List.cons.inj heq
        exact hpre.subset List.mem_cons_self

section

variable (hup : Relator.RightUnique up) (hkeys : keys.Nodup)
  (hclosed : ∀ x y, up x y → y ∈ keys)

include hclosed in
/-- Chains stay in the list. -/
theorem mem_of_leads (hi : i ∈ keys) (hx : ReflTransGen up i x) : x ∈ keys := by
  rcases ReflTransGen.cases_tail hx with heq | ⟨y, -, hstep⟩
  · exact heq ▸ hi
  · exact hclosed y x hstep

include hkeys in
/-- Every chain that does not end is entered. -/
theorem exists_entered (hi : i ∈ keys) (h : Rootless up i) :
    ∃ x, Entered up keys x ∧ ReflTransGen up i x ∧ (x = i ∨ [x, i] <+ keys) := by
  obtain ⟨x, hx, hleads, hfirst, hplace⟩ :=
    exists_first (P := ReflTransGen up i) hkeys hi .refl
  exact ⟨x, ⟨hx, h.of_leads hleads, fun m hm hxm => hfirst m hm (hleads.trans hxm)⟩, hleads, hplace⟩

include hup hkeys hclosed in
/-- Only cycles are entered exactly when whatever hangs off a cycle comes after some element
    of it. -/
theorem entered_onCycle_iff :
    (∀ i, Entered up keys i → OnCycle up i) ↔
      ∀ i ∈ keys, ¬ OnCycle up i → ∀ c, ReflTransGen up i c → OnCycle up c →
        ∃ m, [m, i] <+ keys ∧ OnCycle up m ∧ ReflTransGen up i m := by
  constructor
  · intro hentered i hi hoff c hc hcycle
    obtain ⟨x, hx, hleads, hplace⟩ :=
      exists_entered hkeys hi (rootless_of_leads_to_cycle hup hc hcycle)
    have hxcycle := hentered x hx
    rcases hplace with rfl | hbefore
    · exact absurd hxcycle hoff
    · exact ⟨x, hbefore, hxcycle, hleads⟩
  · intro hafter i hi
    by_contra hoff
    obtain ⟨c, hc, hcycle⟩ := hi.rootless.leads_to_cycle fun x hx => mem_of_leads hclosed hi.mem hx
    obtain ⟨m, hbefore, -, hleads⟩ := hafter i hi.mem hoff c hc hcycle
    exact hi.first m hbefore hleads

end

end SummitFlow.ParentChains
