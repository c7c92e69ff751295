import Mathlib.Data.Prod.Lex
import Mathlib.Data.String.Basic
import SummitFlow.ForStd.Dict

/-!
# PostgreSQL jsonb

Values of type `jsonb` and the operators `->`, `->>`, `?`, `||` and `jsonb_set` on
them.  An operator answers `none` where SQL answers `NULL`.

An object is kept as PostgreSQL keeps it: one entry per key, shorter keys first and
keys of one length in byte order, so that equal objects are equal lists.  A number is
kept as the text it prints as.
-/

namespace SummitFlow

inductive Jsonb where
  | null
  | bool (b : Bool)
  | num (text : String)
  | str (s : String)
  | arr (elems : List Jsonb)
  | obj (entries : List (String × Jsonb))
deriving Repr

namespace Jsonb

/-! ## Equality -/

mutual

/-- Equality as a test; `DecidableEq` is not derived for a type nested in lists. -/
def beq : Jsonb → Jsonb → Bool
  | .null, .null => true
  | .bool a, .bool b => a == b
  | .num a, .num b => a == b
  | .str a, .str b => a == b
  | .arr xs, .arr ys => beqElems xs ys
  | .obj xs, .obj ys => beqEntries xs ys
  | _, _ => false

def beqElems : List Jsonb → List Jsonb → Bool
  | [], [] => true
  | x :: xs, y :: ys => beq x y && beqElems xs ys
  | _, _ => false

def beqEntries : List (String × Jsonb) → List (String × Jsonb) → Bool
  | [], [] => true
  | (k, x) :: xs, (k', y) :: ys => k == k' && beq x y && beqEntries xs ys
  | _, _ => false

end

mutual

theorem beq_iff : ∀ a b : Jsonb, beq a b = true ↔ a = b
  | .null, b => by cases b <;> simp [beq]
  | .bool _, b => by cases b <;> simp [beq]
  | .num _, b => by cases b <;> simp [beq]
  | .str _, b => by cases b <;> simp [beq]
  | .arr xs, b => by cases b <;> simp [beq, beqElems_iff xs]
  | .obj xs, b => by cases b <;> simp [beq, beqEntries_iff xs]

theorem beqElems_iff : ∀ xs ys : List Jsonb, beqElems xs ys = true ↔ xs = ys
  | [], ys => by cases ys <;> simp [beqElems]
  | x :: xs, ys => by
    cases ys with
    | nil => simp [beqElems]
    | cons y ys => simp [beqElems, beq_iff x y, beqElems_iff xs ys]

theorem beqEntries_iff : ∀ xs ys : List (String × Jsonb), beqEntries xs ys = true ↔ xs = ys
  | [], ys => by cases ys <;> simp [beqEntries]
  | (k, x) :: xs, ys => by
    cases ys with
    | nil => simp [beqEntries]
    | cons y ys => simp [beqEntries, beq_iff x, beqEntries_iff xs ys, Prod.ext_iff]

end

instance : DecidableEq Jsonb := fun a b => decidable_of_iff (beq a b = true) (beq_iff a b)

/-! ## Objects -/

/-- What the keys of an object are ordered by. -/
def keyRank (k : String) : Nat ×ₗ String := toLex (k.utf8ByteSize, k)

theorem keyRank_injective {k k' : String} (h : keyRank k = keyRank k') : k = k' :=
  (Prod.ext_iff.mp (toLex.injective h)).2

/-- Set one key of an object. -/
def setKey (k : String) (v : Jsonb) : List (String × Jsonb) → List (String × Jsonb)
  | [] => [(k, v)]
  | e :: es =>
    if e.1 = k then (k, v) :: es
    else if keyRank k < keyRank e.1 then (k, v) :: e :: es
    else e :: setKey k v es

theorem lookup_setKey (k k' : String) (v : Jsonb) (es : List (String × Jsonb)) :
    (setKey k v es).lookup k' = if k' = k then some v else es.lookup k' := by
  induction es with
  | nil => rw [setKey, Dict.lookup_cons_if]
  | cons e es ih =>
    obtain ⟨k₁, v₁⟩ := e
    unfold setKey
    split
    · next he =>
      have he' : k₁ = k := he
      rw [Dict.lookup_cons_if, Dict.lookup_cons_if, he']
      split <;> rfl
    · next he =>
      have he' : k₁ ≠ k := he
      split
      · rw [Dict.lookup_cons_if]
      · rw [Dict.lookup_cons_if, Dict.lookup_cons_if, ih]
        by_cases hk : k' = k₁
        · rw [if_pos hk, if_pos hk, if_neg (hk.trans_ne he')]
        · rw [if_neg hk, if_neg hk]

/-- Set the keys of the second object in the first. -/
def merge (es fs : List (String × Jsonb)) : List (String × Jsonb) :=
  fs.foldl (fun es f => setKey f.1 f.2 es) es

theorem lookup_merge_of_notMem {k : String} {es fs : List (String × Jsonb)}
    (h : k ∉ fs.map Prod.fst) : (merge es fs).lookup k = es.lookup k := by
  induction fs generalizing es with
  | nil => rfl
  | cons f fs ih =>
    simp only [List.map_cons, List.mem_cons, not_or] at h
    show (merge (setKey f.1 f.2 es) fs).lookup k = es.lookup k
    rw [ih h.2, lookup_setKey, if_neg h.1]

/-- Setting the key to the value would change nothing: the entry stands where `setKey`
    looks for it. -/
def Settled (k : String) (v : Jsonb) : List (String × Jsonb) → Prop
  | [] => False
  | e :: es => e = (k, v) ∨ e.1 ≠ k ∧ ¬ keyRank k < keyRank e.1 ∧ Settled k v es

theorem setKey_of_settled {k : String} {v : Jsonb} {es : List (String × Jsonb)}
    (h : Settled k v es) : setKey k v es = es := by
  induction es with
  | nil => cases h
  | cons e es ih =>
    rcases h with he | ⟨hne, hlt, hes⟩
    · rw [he, setKey, if_pos rfl]
    · rw [setKey, if_neg hne, if_neg hlt, ih hes]

theorem settled_setKey (k : String) (v : Jsonb) (es : List (String × Jsonb)) :
    Settled k v (setKey k v es) := by
  induction es with
  | nil => exact .inl rfl
  | cons e es ih =>
    unfold setKey
    split
    · exact .inl rfl
    · next hne =>
      split
      · exact .inl rfl
      · next hlt => exact .inr ⟨hne, hlt, ih⟩

/-- Setting another key leaves a settled one settled. -/
theorem Settled.setKey {k k' : String} {v : Jsonb} {es : List (String × Jsonb)}
    (h : Settled k v es) (hk : k' ≠ k) (v' : Jsonb) : Settled k v (setKey k' v' es) := by
  induction es with
  | nil => cases h
  | cons e es ih =>
    unfold Jsonb.setKey
    split
    · next he =>
      rcases h with he' | ⟨-, hlt, hes⟩
      · rw [he'] at he
        exact absurd he.symm hk
      · rw [he] at hlt
        exact .inr ⟨hk, hlt, hes⟩
    · next he =>
      split
      · next hlt' =>
        refine .inr ⟨hk, ?_, h⟩
        -- the new entry goes before `e`, and `e` does not come after `k`
        have hle : keyRank e.1 ≤ keyRank k := by
          rcases h with he' | ⟨-, hlt, -⟩
          · rw [he']
          · exact not_lt.mp hlt
        exact not_lt.mpr (hlt'.le.trans hle)
      · rcases h with he' | ⟨hne, hlt, hes⟩
        · exact .inl he'
        · exact .inr ⟨hne, hlt, ih hes⟩

theorem Settled.merge {k : String} {v : Jsonb} {es fs : List (String × Jsonb)}
    (h : Settled k v es) (hk : k ∉ fs.map Prod.fst) : Settled k v (merge es fs) := by
  induction fs generalizing es with
  | nil => exact h
  | cons f fs ih =>
    simp only [List.map_cons, List.mem_cons, not_or] at hk
    exact ih (h.setKey (Ne.symm hk.1) f.2) hk.2

theorem merge_of_settled {es fs : List (String × Jsonb)}
    (h : ∀ f ∈ fs, Settled f.1 f.2 es) : merge es fs = es := by
  induction fs with
  | nil => rfl
  | cons f fs ih =>
    show merge (Jsonb.setKey f.1 f.2 es) fs = es
    rw [setKey_of_settled (h f List.mem_cons_self)]
    exact ih fun g hg => h g (List.mem_cons_of_mem _ hg)

theorem settled_merge {es fs : List (String × Jsonb)} (hnodup : (fs.map Prod.fst).Nodup) :
    ∀ f ∈ fs, Settled f.1 f.2 (merge es fs) := by
  induction fs generalizing es with
  | nil => simp
  | cons f fs ih =>
    rw [List.map_cons, List.nodup_cons] at hnodup
    intro g hg
    rcases List.mem_cons.mp hg with rfl | hg
    · exact (settled_setKey g.1 g.2 es).merge hnodup.1
    · exact ih hnodup.2 g hg

/-- Merging the same object again changes nothing. -/
theorem merge_merge {es fs : List (String × Jsonb)} (hnodup : (fs.map Prod.fst).Nodup) :
    merge (merge es fs) fs = merge es fs :=
  merge_of_settled (settled_merge hnodup)

theorem lookup_merge {k : String} {es fs : List (String × Jsonb)}
    (hnodup : (fs.map Prod.fst).Nodup) :
    (merge es fs).lookup k = (fs.lookup k).or (es.lookup k) := by
  induction fs generalizing es with
  | nil => rfl
  | cons f fs ih =>
    obtain ⟨k₁, v₁⟩ := f
    rw [List.map_cons, List.nodup_cons] at hnodup
    show (merge (setKey k₁ v₁ es) fs).lookup k = _
    rw [ih hnodup.2, lookup_setKey, Dict.lookup_cons_if]
    by_cases hk : k = k₁
    · subst hk
      rw [Dict.lookup_eq_none_of_notMem hnodup.1, if_pos rfl, if_pos rfl]
      rfl
    · rw [if_neg hk, if_neg hk]

/-- The entries are in the order of an object. -/
def Ordered (es : List (String × Jsonb)) : Prop :=
  es.Pairwise fun e f => keyRank e.1 < keyRank f.1

theorem mem_setKey {k : String} {v : Jsonb} {es : List (String × Jsonb)} {e : String × Jsonb}
    (h : e ∈ setKey k v es) : e = (k, v) ∨ e ∈ es := by
  induction es with
  | nil => exact .inl (List.mem_singleton.mp h)
  | cons f es ih =>
    unfold setKey at h
    split at h
    · rcases List.mem_cons.mp h with h | h
      · exact .inl h
      · exact .inr (List.mem_cons_of_mem _ h)
    · split at h
      · exact List.mem_cons.mp h
      · rcases List.mem_cons.mp h with h | h
        · exact .inr (h ▸ List.mem_cons_self)
        · exact (ih h).imp_right (List.mem_cons_of_mem _)

theorem Ordered.setKey {es : List (String × Jsonb)} (h : Ordered es) (k : String) (v : Jsonb) :
    Ordered (setKey k v es) := by
  induction es with
  | nil => exact List.pairwise_singleton _ _
  | cons e es ih =>
    obtain ⟨he, hes⟩ := List.pairwise_cons.mp h
    unfold Jsonb.setKey
    split
    · next heq =>
      apply List.pairwise_cons.mpr
      refine ⟨?_, hes⟩
      intro f hf
      rw [← heq]
      exact he f hf
    · next hne =>
      split
      · next hlt =>
        apply List.pairwise_cons.mpr
        refine ⟨?_, h⟩
        intro f hf
        rcases List.mem_cons.mp hf with rfl | hf
        · exact hlt
        · exact hlt.trans (he f hf)
      · next hlt =>
        have hek : keyRank e.1 < keyRank k :=
          lt_of_le_of_ne (not_lt.mp hlt) fun heq => hne (keyRank_injective heq)
        apply List.pairwise_cons.mpr
        refine ⟨?_, ih hes⟩
        intro f hf
        rcases mem_setKey hf with rfl | hf
        · exact hek
        · exact he f hf

theorem Ordered.merge {es : List (String × Jsonb)} (h : Ordered es)
    (fs : List (String × Jsonb)) : Ordered (merge es fs) := by
  induction fs generalizing es with
  | nil => exact h
  | cons f fs ih => exact ih (h.setKey f.1 f.2)

theorem Ordered.nodup {es : List (String × Jsonb)} (h : Ordered es) :
    (es.map Prod.fst).Nodup := by
  apply List.pairwise_map.mpr
  apply h.imp
  intro e f hlt heq
  rw [heq] at hlt
  exact lt_irrefl _ hlt

/-- The object with these entries. -/
def object (entries : List (String × Jsonb)) : Jsonb := .obj (merge [] entries)

/-! ## Text -/

/-- `escape_json` on one character. -/
def escapeChar (c : Char) : List Char :=
  match c with
  | '"' => ['\\', '"']
  | '\\' => ['\\', '\\']
  | '\n' => ['\\', 'n']
  | '\r' => ['\\', 'r']
  | '\t' => ['\\', 't']
  | '\x08' => ['\\', 'b']
  | '\x0c' => ['\\', 'f']
  | c =>
    if c.val < 0x20 then
      ['\\', 'u', '0', '0', (Nat.digitChar (c.toNat / 16)), (Nat.digitChar (c.toNat % 16))]
    else [c]

def quote (s : String) : String := String.ofList ('"' :: s.toList.flatMap escapeChar ++ ['"'])

mutual

/-- The value as `jsonb` prints it. -/
def print : Jsonb → String
  | .null => "null"
  | .bool b => if b then "true" else "false"
  | .num text => text
  | .str s => quote s
  | .arr elems => "[" ++ String.intercalate ", " (printElems elems) ++ "]"
  | .obj entries => "\x7b" ++ String.intercalate ", " (printEntries entries) ++ "\x7d"

def printElems : List Jsonb → List String
  | [] => []
  | x :: xs => print x :: printElems xs

def printEntries : List (String × Jsonb) → List String
  | [] => []
  | (k, x) :: xs => (quote k ++ ": " ++ print x) :: printEntries xs

end

/-! ## Operators -/

/-- `j -> k`. -/
def get (k : String) : Jsonb → Option Jsonb
  | .obj entries => entries.lookup k
  | _ => none

/-- `j ->> k`: a string without its quotes, and `NULL` for a JSON null. -/
def getText (k : String) (j : Jsonb) : Option String :=
  match j.get k with
  | none | some .null => none
  | some (.str s) => some s
  | some v => some v.print

/-- `j ? k`: a key of an object, a string in an array or that string itself. -/
def has (k : String) : Jsonb → Bool
  | .obj entries => (entries.lookup k).isSome
  | .arr elems => elems.contains (.str k)
  | .str s => s == k
  | _ => false

/-- The elements `||` appends when its operands are not both objects. -/
def elems : Jsonb → List Jsonb
  | .arr xs => xs
  | j => [j]

/-- `i || j`. -/
def concat : Jsonb → Jsonb → Jsonb
  | .obj es, .obj fs => .obj (merge es fs)
  | i, j => .arr (i.elems ++ j.elems)

/-- `jsonb_set(j, ARRAY[k], v)` on an object. -/
def setField (j : Jsonb) (k : String) (v : Jsonb) : Jsonb :=
  match j with
  | .obj entries => .obj (setKey k v entries)
  | j => j

/-- A JSON null counts as missing. -/
def nonNull : Option Jsonb → Option Jsonb
  | some .null => none
  | v => v

/-- The rows of `jsonb_each(jsonb_build_object(..))` that are not null. -/
def nonNullEntries : List (String × Option Jsonb) → List (String × Jsonb)
  | [] => []
  | (k, v) :: entries =>
    match nonNull v with
    | some v => (k, v) :: nonNullEntries entries
    | none => nonNullEntries entries

/-- `jsonb_object_agg` of these rows: `NULL` when there is none. -/
def objectAgg (entries : List (String × Option Jsonb)) : Option Jsonb :=
  match nonNullEntries entries with
  | [] => none
  | e :: es => some (object (e :: es))

/-- The truth value of what Python loads from it. -/
def truthy : Jsonb → Bool
  | .null => false
  | .bool b => b
  | .num text => text.toList.any fun c => '1' ≤ c && c ≤ '9'
  | .str s => s != ""
  | .arr elems => !elems.isEmpty
  | .obj entries => !entries.isEmpty

/-! ## Laws -/

theorem concat_concat {i : Jsonb} {fs : List (String × Jsonb)} (hi : ∃ es, i = .obj es)
    (hnodup : (fs.map Prod.fst).Nodup) :
    (i.concat (.obj fs)).concat (.obj fs) = i.concat (.obj fs) := by
  obtain ⟨es, rfl⟩ := hi
  show Jsonb.obj (merge (merge es fs) fs) = .obj (merge es fs)
  rw [merge_merge hnodup]

/-- An entry of `||` with an object comes from that object where it has the key, else
    from the left operand. -/
theorem get_concat {k : String} {i v : Jsonb} {fs : List (String × Jsonb)}
    (hnodup : (fs.map Prod.fst).Nodup) (h : (i.concat (.obj fs)).get k = some v) :
    fs.lookup k = some v ∨ fs.lookup k = none ∧ i.get k = some v := by
  cases i with
  | obj es =>
    have hlookup : (fs.lookup k).or (es.lookup k) = some v := (lookup_merge hnodup).symm.trans h
    cases hentry : fs.lookup k with
    | some w =>
      rw [hentry] at hlookup
      exact .inl hlookup
    | none =>
      rw [hentry] at hlookup
      exact .inr ⟨rfl, hlookup⟩
  | null => cases h
  | bool b => cases h
  | num text => cases h
  | str s => cases h
  | arr elems => cases h

theorem get_object {k : String} {entries : List (String × Jsonb)}
    (hnodup : (entries.map Prod.fst).Nodup) : (object entries).get k = entries.lookup k := by
  show (merge [] entries).lookup k = _
  rw [lookup_merge hnodup, List.lookup_nil, Option.or_none]

theorem nodup_merge_nil (entries : List (String × Jsonb)) :
    ((merge [] entries).map Prod.fst).Nodup :=
  (Ordered.merge List.Pairwise.nil entries).nodup

theorem nonNull_eq_some {v : Option Jsonb} {w : Jsonb} (h : nonNull v = some w) : v = some w := by
  unfold nonNull at h
  split at h
  · cases h
  · exact h

theorem nonNull_nonNull (v : Option Jsonb) : nonNull (nonNull v) = nonNull v := by
  cases v with
  | none => rfl
  | some v => cases v <;> rfl

/-- What has an entry has its key. -/
theorem has_of_get {k : String} {j v : Jsonb} (h : j.get k = some v) : j.has k = true := by
  cases j with
  | obj entries => exact Option.isSome_iff_exists.mpr ⟨v, h⟩
  | null => cases h
  | bool b => cases h
  | num text => cases h
  | str s => cases h
  | arr elems => cases h

theorem get_setField {k : String} {j v w : Jsonb} (h : (j.setField k v).get k = some w) :
    w = v := by
  cases j with
  | obj entries =>
    have hlookup : (setKey k v entries).lookup k = some w := h
    rw [lookup_setKey, if_pos rfl] at hlookup
    exact (Option.some.inj hlookup).symm
  | null => cases h
  | bool b => cases h
  | num text => cases h
  | str s => cases h
  | arr elems => cases h

theorem nonNullEntries_sublist (entries : List (String × Option Jsonb)) :
    ((nonNullEntries entries).map Prod.fst).Sublist (entries.map Prod.fst) := by
  induction entries with
  | nil => exact List.Sublist.refl _
  | cons e entries ih =>
    obtain ⟨k, v⟩ := e
    unfold nonNullEntries
    split
    · exact ih.cons_cons k
    · exact ih.cons k

theorem lookup_nonNullEntries {k : String} {entries : List (String × Option Jsonb)}
    (hnodup : (entries.map Prod.fst).Nodup) :
    (nonNullEntries entries).lookup k = nonNull (entries.lookup k).join := by
  induction entries with
  | nil => rfl
  | cons e entries ih =>
    obtain ⟨k₁, v₁⟩ := e
    rw [List.map_cons, List.nodup_cons] at hnodup
    rw [Dict.lookup_cons_if]
    unfold nonNullEntries
    by_cases hk : k = k₁
    · subst hk
      rw [if_pos rfl]
      show _ = nonNull v₁
      split
      · next v hv => rw [Dict.lookup_cons_if, if_pos rfl, hv]
      · next hv => rw [ih hnodup.2, Dict.lookup_eq_none_of_notMem hnodup.1, hv]; rfl
    · rw [if_neg hk, ← ih hnodup.2]
      split
      · rw [Dict.lookup_cons_if, if_neg hk]
      · rfl

/-- An aggregate has the entries it was given, but for the nulls. -/
theorem get_objectAgg {k : String} {entries : List (String × Option Jsonb)}
    (hnodup : (entries.map Prod.fst).Nodup) :
    (objectAgg entries).bind (get k) = nonNull (entries.lookup k).join := by
  rw [← lookup_nonNullEntries hnodup]
  unfold objectAgg
  split
  · next hnil => rw [hnil]; rfl
  · next e es hcons =>
    have hkeys : ((e :: es).map Prod.fst).Nodup := by
      rw [← hcons]
      exact (nonNullEntries_sublist entries).nodup hnodup
    show (object (e :: es)).get k = _
    rw [get_object hkeys, hcons]

/-- The keys of an aggregate are its entries. -/
theorem any_has_objectAgg (k : String) (entries : List (String × Option Jsonb)) :
    (objectAgg entries).any (has k) = ((objectAgg entries).bind (get k)).isSome := by
  unfold objectAgg
  split <;> rfl

/-- The nulls of the entries make no difference to their aggregate. -/
theorem objectAgg_congr {entries entries' : List (String × Option Jsonb)}
    (h : entries.map (fun e => (e.1, nonNull e.2)) = entries'.map fun e => (e.1, nonNull e.2)) :
    objectAgg entries = objectAgg entries' := by
  have hkept : nonNullEntries entries = nonNullEntries entries' := by
    induction entries generalizing entries' with
    | nil =>
      cases entries' with
      | nil => rfl
      | cons e es => cases h
    | cons e es ih =>
      cases entries' with
      | nil => cases h
      | cons e' es' =>
        obtain ⟨hhead, htail⟩ := List.cons.inj h
        obtain ⟨hkey, hval⟩ := Prod.mk.inj hhead
        simp only [nonNullEntries, hkey, hval, ih htail]
  simp only [objectAgg, hkept]

end Jsonb

end SummitFlow
