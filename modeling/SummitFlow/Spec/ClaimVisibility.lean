import SummitFlow.Spec.LeaseFence
import SummitFlow.Spec.WriterSets

/-!
# A claimed file is visibly leased

`claim` stores the path it leases as a glob, and the next `claim` runs that glob back
through `fnmatch`.  A path that matches itself (every path without `[` does) is seen by
the other sessions and by the claimer's own next claim as long as the lease is in the
document, which `serveStep_carries` guarantees until something drops it.  A path like
`/app/[id]/page.tsx` does not match itself, and its lease is invisible.
-/

namespace SummitFlow.Leases

open Coord (Caller)

/-- The path, read as a lease's glob, matches itself. -/
def SelfMatching (path : String) : Prop :=
  Fnmatch.fnmatch path path = true ∨ Fnmatch.fnmatch path (Str.rstripSlash path ++ "/**") = true

theorem claimLease_matches {env : Env} {path : String} :
    (claimLease env path).matchesPath path = true ↔ SelfMatching path := by
  simp [claimLease, newLease, Lease.matchesPath, SelfMatching]

/-- An absolute normalized path is the one `_project_path` makes of it. -/
theorem projectPath_of_normal {path : String} (habs : PosixPath.isAbsolute path = true)
    (hnorm : PosixPath.normpath path = path) (projectRoot : Option String) :
    projectPath path projectRoot = path := by
  unfold projectPath
  split
  · exact hnorm
  · exact hnorm
  · rw [PosixPath.join, if_pos habs, hnorm]

/-! ## The claimer's lease -/

/-- The two callers act for one agent: the later one owns what the earlier one did. -/
structure ActsFor (a a' : Caller) : Prop where
  ids : ∀ id ∈ a.selfIds, id ∈ a'.selfIds
  anchor : a'.myAnchor = a.myAnchor

theorem ActsFor.owns {env env' : Env} (h : ActsFor env.caller env'.caller) {l : Lease}
    (hown : env.owns l = true) : env'.owns l = true := by
  unfold Env.owns isMine at hown ⊢
  rw [Bool.or_eq_true] at hown ⊢
  rcases hown with hown | hown
  · rw [List.contains_iff_mem] at hown
    exact .inl (List.contains_iff_mem.mpr (h.ids _ hown))
  · rw [h.anchor]
    exact .inr hown

/-- A path that does not match itself is invisible where nothing else is leased: the next
    session's claim of it reports no conflict. -/
theorem claim_invisible (env env' : Env) (path : String) (projectRoot projectRoot' : Option String)
    (writers : Writers) (touches : Option (List (String × Writer)))
    (habs : PosixPath.isAbsolute path = true) (hnorm : PosixPath.normpath path = path)
    (h : ¬ SelfMatching path) :
    (claim env' path projectRoot' (claim env path projectRoot ⟨[], writers, touches⟩).1).2.1 =
      true := by
  have hpath := projectPath_of_normal habs hnorm
  have hleases : (claim env path projectRoot ⟨[], writers, touches⟩).1.leases =
      [claimLease env path] := by
    simp [claim, save, claimOwn, purgeStale, touchOwn, hpath]
  have hnomatch : (claimLease env path).matchesPath path = false := by
    simpa using fun hm => h (claimLease_matches.mp hm)
  have hnone : (purgeStale env' [claimLease env path]).find? (foreignMatch env' path) = none := by
    rw [List.find?_eq_none]
    intro l hl
    obtain rfl := List.mem_singleton.mp (mem_purgeStale.mp hl).1
    simp [foreignMatch, hnomatch]
  generalize (claim env path projectRoot ⟨[], writers, touches⟩).1 = claimed at hleases
  simp only [claim, hleases, hpath, hnone, Option.isNone_none]

end SummitFlow.Leases
