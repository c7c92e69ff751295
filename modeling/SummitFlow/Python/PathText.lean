import Mathlib.Logic.Function.Iterate
import SummitFlow.Python.PathStack

/-!
# The text of components

A path as its leading slashes and its components: the text of these, its pieces, and its
directory.
-/

namespace SummitFlow.PosixPath

/-- The text with these leading slashes and components, last first. -/
def render (slashes : Nat) (kept : List (List Char)) : String :=
  let text := List.replicate slashes '/' ++ ['/'].intercalate kept.reverse
  if text.isEmpty then "." else String.ofList text

/-- A component of a normalized path. -/
def Named (comp : List Char) : Prop := comp ≠ [] ∧ '/' ∉ comp

section

variable {kept : List (List Char)}

theorem toList_render {slashes : Nat} (h : slashes ≠ 0 ∨ kept ≠ []) (hnamed : ∀ c ∈ kept, Named c) :
    (render slashes kept).toList =
      List.replicate slashes '/' ++ ['/'].intercalate kept.reverse := by
  unfold render
  dsimp only
  rw [if_neg, String.toList_ofList]
  rw [List.isEmpty_iff, List.append_eq_nil_iff, not_and, List.replicate_eq_nil_iff]
  intro hzero
  have hne := h.resolve_left (not_not.mpr hzero)
  obtain ⟨init, c, hkept⟩ := (List.eq_nil_or_concat' kept.reverse).resolve_left (by simpa using hne)
  have hc : Named c := hnamed c (List.mem_reverse.mp (hkept ▸ by simp))
  intro hempty
  have hsplit := congrArg (Str.splitOnChar '/') hempty
  rw [Str.splitOnChar_intercalate (by simpa using hne)
    (fun c hc => (hnamed c (List.mem_reverse.mp hc)).2)] at hsplit
  have hmem : c ∈ [([] : List Char)] := by
    rw [show [([] : List Char)] = kept.reverse from hsplit.symm, hkept]
    simp
  exact hc.1 (List.mem_singleton.mp hmem)

/-- The pieces of a rendered path. -/
theorem pieces_render (slashes : Nat) (hne : kept ≠ []) (hnamed : ∀ c ∈ kept, Named c) :
    pieces (render slashes kept) = List.replicate slashes [] ++ kept.reverse := by
  rw [pieces, toList_render (.inr hne) hnamed, splitOnChar_replicate,
    Str.splitOnChar_intercalate (by simpa using hne)
      (fun c hc => (hnamed c (List.mem_reverse.mp hc)).2)]

theorem count_intercalate {comps : List (List Char)} (h : ∀ c ∈ comps, '/' ∉ c) :
    (['/'].intercalate comps).count '/' = comps.length - 1 := by
  induction comps with
  | nil => rfl
  | cons c comps ih =>
    have hc : c.count '/' = 0 := List.count_eq_zero.mpr (h c List.mem_cons_self)
    cases comps with
    | nil => simpa using hc
    | cons next comps =>
      rw [List.intercalate_cons_cons, List.count_append, List.count_append, hc,
        ih fun c hc => h c (List.mem_cons_of_mem _ hc), List.length_cons, List.length_cons,
        List.length_cons]
      simp only [List.count_singleton_self]
      omega

theorem count_render (slashes : Nat) (hnamed : ∀ c ∈ kept, Named c) :
    (render slashes kept).toList.count '/' = slashes + (kept.length - 1) := by
  by_cases hempty : slashes ≠ 0 ∨ kept ≠ []
  · rw [toList_render hempty hnamed, List.count_append, List.count_replicate_self,
      count_intercalate (fun c hc => (hnamed c (List.mem_reverse.mp hc)).2), List.length_reverse]
  · rw [not_or, not_not, not_not] at hempty
    obtain ⟨rfl, rfl⟩ := hempty
    decide

/-- The last component is the last piece of the text. -/
theorem getLast?_pieces_render {c : List Char} (slashes : Nat)
    (hnamed : ∀ x ∈ c :: kept, Named x) :
    (pieces (render slashes (c :: kept))).getLast? = some c := by
  rw [pieces_render slashes (List.cons_ne_nil _ _) hnamed]
  simp

/-- The directory of a path with two components or more. -/
theorem dirname_render {c : List Char} (slashes : Nat) (hne : kept ≠ [])
    (hnamed : ∀ x ∈ c :: kept, Named x) :
    dirname (render slashes (c :: kept)) = render slashes kept := by
  have hc := hnamed c List.mem_cons_self
  have hkept : ∀ x ∈ kept, Named x := fun x hx => hnamed x (List.mem_cons_of_mem _ hx)
  have htext : (render slashes (c :: kept)).toList =
      (render slashes kept).toList ++ '/' :: c := by
    rw [toList_render (.inr (List.cons_ne_nil _ _)) hnamed, toList_render (.inr hne) hkept,
      List.reverse_cons, Str.intercalate_append (by simpa using hne) (by simp), List.append_assoc]
    simp
  have hhead : ((render slashes kept).toList ++ '/' :: c).rdropWhile (· != '/') =
      (render slashes kept).toList ++ ['/'] := by
    rw [List.rdropWhile, List.reverse_append, List.reverse_cons, List.append_assoc,
      List.dropWhile_append_of_pos]
    · simp
    · intro x hx
      have hx' : x ≠ '/' := by
        rintro rfl
        exact hc.2 (List.mem_reverse.mp hx)
      simpa using hx'
  -- the text before the slash ends in a component
  obtain ⟨last, rest, rfl⟩ := List.exists_cons_of_ne_nil hne
  have hlast := hkept last List.mem_cons_self
  obtain ⟨init, x, hx⟩ := (List.eq_nil_or_concat' last).resolve_left hlast.1
  obtain ⟨front, hfront⟩ : ∃ front, (render slashes (last :: rest)).toList = front ++ [x] := by
    rw [toList_render (.inr hne) hkept, List.reverse_cons]
    by_cases hrest : rest = []
    · subst hrest
      exact ⟨List.replicate slashes '/' ++ init, by simp [hx]⟩
    · rw [Str.intercalate_append (by simpa using hrest) (by simp), List.intercalate_singleton, hx]
      refine ⟨List.replicate slashes '/' ++ ['/'].intercalate rest.reverse ++ '/' :: init, ?_⟩
      simp only [List.append_assoc, List.cons_append]
  have hslash : x ≠ '/' := by
    rintro rfl
    exact hlast.2 (hx ▸ by simp)
  have htrimmed : ((render slashes (last :: rest)).toList ++ ['/']).rdropWhile (· == '/') =
      (render slashes (last :: rest)).toList := by
    rw [hfront, List.rdropWhile_concat_pos _ _ _ (by decide), List.rdropWhile_concat_neg]
    simpa using hslash
  have hnil : (render slashes (last :: rest)).toList ≠ [] := by
    rw [hfront]
    simp
  unfold dirname
  dsimp only
  rw [htext, hhead, htrimmed, if_neg hnil, String.ofList_toList]

theorem dirname_render_singleton {c : List Char} (slashes : Nat) (hc : Named c) :
    dirname (render slashes [c]) = String.ofList (List.replicate slashes '/') := by
  have htext : (render slashes [c]).toList = List.replicate slashes '/' ++ c := by
    rw [toList_render (.inr (List.cons_ne_nil _ _)) (by simpa using hc)]
    simp
  have hhead : (List.replicate slashes '/' ++ c).rdropWhile (· != '/') =
      List.replicate slashes '/' := by
    rw [List.rdropWhile, List.reverse_append, List.dropWhile_append_of_pos]
    · rw [List.reverse_replicate]
      cases slashes with
      | zero => rfl
      | succ n =>
        rw [List.replicate_succ, List.dropWhile_cons_of_neg (by decide), List.reverse_cons,
          List.reverse_replicate, ← List.replicate_succ', List.replicate_succ]
    · intro x hx
      have hx' : x ≠ '/' := by
        rintro rfl
        exact hc.2 (List.mem_reverse.mp hx)
      simpa using hx'
  have htrimmed : (List.replicate slashes '/').rdropWhile (· == '/') = [] := by
    rw [List.rdropWhile, List.reverse_replicate]
    simp
  unfold dirname
  dsimp only
  rw [htext, hhead, htrimmed, if_pos rfl]

end

/-! ## The directories above a path -/

/-- `os.path.dirname` taken some number of times leads from the path to another one. -/
def Above (dir path : String) : Prop := dir ≠ path ∧ ∃ n, dirname^[n] path = dir

theorem isPrefix_dirname (path : String) : (dirname path).toList <+: path.toList := by
  have hhead : path.toList.rdropWhile (· != '/') <+: path.toList := List.rdropWhile_prefix _ _
  unfold dirname
  dsimp only
  split
  · rw [String.toList_ofList]
    exact hhead
  · rw [String.toList_ofList]
    exact (List.rdropWhile_prefix _ _).trans hhead

/-- Dropping from the end stops at an element that is kept. -/
theorem prefix_rdropWhile {α : Type} {p : α → Bool} {front path : List α} {x : α}
    (hx : p x = false) (h : front ++ [x] <+: path) : front ++ [x] <+: path.rdropWhile p := by
  obtain ⟨rest, rfl⟩ := h
  rw [List.rdropWhile, List.reverse_append, List.dropWhile_append]
  split
  · have hkept : (List.dropWhile p (front ++ [x]).reverse).reverse = front ++ [x] := by
      rw [List.reverse_append, List.reverse_singleton, List.singleton_append,
        List.dropWhile_cons_of_neg (by simp [hx]), List.reverse_cons, List.reverse_reverse]
    exact hkept.symm ▸ List.prefix_refl (front ++ [x])
  · rw [List.reverse_append, List.reverse_reverse]
    exact List.prefix_append _ _

section

variable {root path : String}

/-- The directory of a path below a root is the root, or a shorter path below it. -/
theorem dirname_below {front : List Char} {x : Char} (hroot : root.toList = front ++ [x])
    (hx : x ≠ '/') (h : Str.startswith path (root ++ "/") = true) :
    (dirname path = root ∨ Str.startswith (dirname path) (root ++ "/") = true) ∧
      (dirname path).toList.length < path.toList.length := by
  have hslash : (root ++ "/").toList = root.toList ++ ['/'] := by simp
  rw [Str.startswith, List.isPrefixOf_iff_prefix, hslash] at h
  let head := path.toList.rdropWhile (· != '/')
  let trimmed := head.rdropWhile (· == '/')
  have hhead : root.toList ++ ['/'] <+: head := prefix_rdropWhile (by decide) h
  have hkept : root.toList <+: trimmed := by
    have hle : front ++ [x] <+: head := hroot ▸ (List.prefix_append _ _).trans hhead
    rw [hroot]
    exact prefix_rdropWhile (by simpa using hx) hle
  have hne : trimmed ≠ [] := by
    intro hnil
    rw [hnil, List.prefix_nil, hroot] at hkept
    simp at hkept
  have htext : (dirname path).toList = trimmed := by
    show (String.ofList (if trimmed = [] then head else trimmed)).toList = trimmed
    rw [if_neg hne, String.toList_ofList]
  have htrimmed : trimmed <+: head := List.rdropWhile_prefix _ _
  have hheadNe : head ≠ [] := by
    rintro hnil
    rw [hnil, List.prefix_nil] at htrimmed
    exact hne htrimmed
  constructor
  · -- the root and the directory are both in front of the path
    rcases List.prefix_or_prefix_of_prefix htrimmed hhead with hshort | hlong
    · rcases List.prefix_concat_iff.mp hshort with heq | hle
      · right
        rw [Str.startswith, List.isPrefixOf_iff_prefix, hslash, htext]
        exact heq ▸ List.prefix_refl trimmed
      · left
        apply String.toList_inj.mp
        rw [htext]
        exact hle.eq_of_length_le hkept.length_le
    · right
      rw [Str.startswith, List.isPrefixOf_iff_prefix, hslash, htext]
      exact hlong
  · rw [htext]
    have hlast : head.getLast hheadNe = '/' := by
      have hnot := List.rdropWhile_last_not (fun c => c != '/') path.toList hheadNe
      simpa using hnot
    have hshorter : trimmed ≠ head := by
      intro heq
      exact List.rdropWhile_eq_self_iff.mp heq hheadNe (by simpa using hlast)
    have hle : head.length ≤ path.toList.length := (List.rdropWhile_prefix _ _).length_le
    have hlt : trimmed.length < head.length :=
      lt_of_le_of_ne htrimmed.length_le fun hlen => hshorter (htrimmed.eq_of_length hlen)
    omega

/-- A path is below its directory. -/
theorem below_of_dirname {front : List Char} {x : Char} (hroot : root.toList = front ++ [x])
    (hx : x ≠ '/') (h : dirname path = root) : Str.startswith path (root ++ "/") = true := by
  have hslash : (root ++ "/").toList = root.toList ++ ['/'] := by simp
  rw [Str.startswith, List.isPrefixOf_iff_prefix, hslash]
  let head := path.toList.rdropWhile (· != '/')
  let trimmed := head.rdropWhile (· == '/')
  have hhead : head <+: path.toList := List.rdropWhile_prefix _ _
  have htext : (if trimmed = [] then head else trimmed) = root.toList := by
    rw [← h]
    show _ = (String.ofList (if trimmed = [] then head else trimmed)).toList
    rw [String.toList_ofList]
  have hmem : x ∈ root.toList := hroot ▸ by simp
  have hne : trimmed ≠ [] := by
    intro hnil
    rw [if_pos hnil] at htext
    have hall := List.rdropWhile_eq_nil_iff.mp hnil x (htext ▸ hmem)
    exact hx (by simpa using hall)
  rw [if_neg hne] at htext
  -- what was trimmed is slashes, one at least
  have hsplit : trimmed ++ head.rtakeWhile (· == '/') = head := List.rdropWhile_append_rtakeWhile
  have hheadNe : head ≠ [] := by
    intro hnil
    rw [hnil, List.append_eq_nil_iff] at hsplit
    exact hne hsplit.1
  have hlast : head.getLast hheadNe = '/' := by
    have hnot := List.rdropWhile_last_not (fun c => c != '/') path.toList hheadNe
    simpa using hnot
  cases hslashes : head.rtakeWhile (· == '/') with
  | nil =>
    rw [hslashes, List.append_nil] at hsplit
    exact absurd hlast (by simpa using List.rdropWhile_eq_self_iff.mp hsplit hheadNe)
  | cons c rest =>
    have hc : c = '/' := by
      have hall := List.mem_rtakeWhile_imp (p := (· == '/')) (l := head) (x := c)
        (by rw [hslashes]; exact List.mem_cons_self)
      simpa using hall
    rw [hslashes, htext, hc] at hsplit
    refine List.IsPrefix.trans ⟨rest, ?_⟩ hhead
    rw [← hsplit, List.append_assoc, List.singleton_append]

/-- Every root that a path is below is among the directories above it. -/
theorem above_of_below {front : List Char} {x : Char} (hroot : root.toList = front ++ [x])
    (hx : x ≠ '/') (h : Str.startswith path (root ++ "/") = true) : Above root path := by
  constructor
  · rintro rfl
    rw [Str.startswith, List.isPrefixOf_iff_prefix] at h
    have hle := h.length_le
    rw [String.toList_append, List.length_append] at hle
    have hslash : "/".toList.length = 1 := rfl
    omega
  · -- on the length of the path: each directory is shorter
    induction hn : path.toList.length using Nat.strong_induction_on generalizing path with
    | _ n ih =>
      obtain ⟨heq | hbelow, hlt⟩ := dirname_below hroot hx h
      · exact ⟨1, heq⟩
      · obtain ⟨k, hk⟩ := ih _ (hn ▸ hlt) hbelow rfl
        exact ⟨k + 1, hk⟩

end

end SummitFlow.PosixPath
