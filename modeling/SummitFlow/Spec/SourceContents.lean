import SummitFlow.ForStd.Framing
import SummitFlow.ForStd.UpdateFirst
import SummitFlow.Spec.SourceDigestCache

/-!
# Equal digests

Two trees with one source digest have the same selected paths with the same contents, and
the same index and `HEAD`, unless the hash collides on what the two calls give it: the bytes
that are hashed are names and digests with a NUL after each, which no name and no digest
contains.
-/

namespace SummitFlow.SourceDigest

open SummitFlow.Json (Value)

/-! ## Texts as bytes -/

theorem encode_injective {s t : String} (h : encode s = encode t) : s = t := by
  have hdata : s.toUTF8.data = t.toUTF8.data := Array.toList_inj.mp h
  exact String.toByteArray_inj.mp (ByteArray.ext hdata)

theorem zero_of_byte {c : Char} (h : 0 ∈ String.utf8EncodeChar c) : c = '\x00' := by
  have hbyte : ∀ n, (0 : UInt8) = UInt8.ofNat n → n % 256 = 0 := by
    intro n hn
    have hnat := congrArg UInt8.toNat hn
    simpa using hnat.symm
  have hzero : c.val.toNat = 0 → c = '\x00' := fun hval => Char.ext (UInt32.toNat_inj.mp hval)
  -- the bytes of a longer encoding have their first bit set
  unfold String.utf8EncodeChar at h
  dsimp only at h
  split at h
  · have hval := hbyte _ (List.mem_singleton.mp h)
    apply hzero
    omega
  split at h
  · simp only [List.mem_cons, List.not_mem_nil, or_false] at h
    rcases h with h | h <;> have hval := hbyte _ h <;> omega
  split at h
  · simp only [List.mem_cons, List.not_mem_nil, or_false] at h
    rcases h with h | h | h <;> have hval := hbyte _ h <;> omega
  · simp only [List.mem_cons, List.not_mem_nil, or_false] at h
    rcases h with h | h | h | h <;> have hval := hbyte _ h <;> omega

theorem encode_eq (s : String) : encode s = s.toList.flatMap String.utf8EncodeChar := by
  have hbytes : s.toUTF8 = (s.toList.flatMap String.utf8EncodeChar).toByteArray :=
    String.utf8Encode_toList.symm
  unfold encode
  rw [hbytes, List.toList_data_toByteArray]

theorem zero_notMem_encode {s : String} (h : '\x00' ∉ s.toList) : 0 ∉ encode s := by
  rw [encode_eq, List.mem_flatMap]
  intro h
  obtain ⟨c, hc, hbyte⟩ := h
  exact h (zero_of_byte hbyte ▸ hc)

/-! ## Contents -/

/-- What is saved of a file. -/
inductive Content where
  | missing
  | link (target : String)
  | file (mode : Nat) (bytes : List UInt8)
deriving DecidableEq, Repr

/-- The content at a path, where it can be read. -/
def contentOf (spot : Spot) : Option Content :=
  match spot.lstat, spot.isSymlink with
  | .ok entry, true => some (.link entry.target)
  | _, _ =>
    if !spot.pathExists then some .missing
    else if !spot.isFile then none
    else
      match spot.opened with
      | .ok (identity, bytes) => some (.file (identity.mode &&& 0o777) bytes)
      | .error _ => none

namespace Content

variable (sha : List UInt8 → String)

def digest : Content → String
  | missing => "missing"
  | link target => "symlink:" ++ sha (encode target)
  | file mode bytes => String.ofList (Nat.toDigits 8 mode) ++ ":" ++ sha bytes

/-- What is hashed of it. -/
def hashed : Content → List (List UInt8)
  | missing => []
  | link target => [encode target]
  | file _ bytes => [bytes]

end Content

section

variable {sha : List UInt8 → String} {spot : Spot} {value : String}

theorem content_of_digest (h : fileDigest sha spot = .ok value) :
    ∃ content, contentOf spot = some content ∧ value = content.digest sha := by
  unfold fileDigest at h
  unfold contentOf
  cases hlstat : spot.lstat <;> cases hlink : spot.isSymlink
  case ok.true entry =>
    rw [hlstat, hlink] at h
    exact ⟨.link entry.target, rfl, (Except.ok.inj h).symm⟩
  -- whatever is no link is read in one way
  all_goals
    rw [hlstat, hlink] at h
    dsimp only at h ⊢
    by_cases hmissing : (!spot.pathExists) = true
    · rw [if_pos hmissing] at h ⊢
      exact ⟨.missing, rfl, (Except.ok.inj h).symm⟩
    · rw [if_neg hmissing] at h ⊢
      by_cases hfile : (!spot.isFile) = true
      · rw [if_pos hfile] at h
        cases h
      · rw [if_neg hfile] at h ⊢
        cases hopened : spot.opened with
        | error errno =>
          rw [hopened] at h
          cases h
        | ok read =>
          rw [hopened] at h
          exact ⟨.file (read.1.mode &&& 0o777) read.2, rfl, (Except.ok.inj h).symm⟩

/-- The digits before the colon are those of the permissions. -/
theorem permissions_inj {mode mode' : Nat} {tail tail' : List Char}
    (h : Nat.toDigits 8 mode ++ ':' :: tail = Nat.toDigits 8 mode' ++ ':' :: tail') :
    mode = mode' ∧ tail = tail' := by
  have hcolon : ∀ n, ':' ∉ Nat.toDigits 8 n := by
    intro n hmem
    have hdigit := Nat.isDigit_of_mem_toDigits (by decide) (by decide) hmem
    exact absurd hdigit (by decide)
  have hcut : Framing.cut ':' (Nat.toDigits 8 mode ++ ':' :: tail) = some (Nat.toDigits 8 mode, tail) :=
    Framing.cut_of_notMem (hcolon mode)
  rw [h, Framing.cut_of_notMem (hcolon mode')] at hcut
  obtain ⟨hdigits, htail⟩ := Prod.mk.inj (Option.some.inj hcut)
  have hvalue : Nat.ofDigitChars 8 (Nat.toDigits 8 mode') 0 = Nat.ofDigitChars 8 (Nat.toDigits 8 mode) 0 :=
    congrArg (fun digits => Nat.ofDigitChars 8 digits 0) hdigits
  rw [Nat.ofDigitChars_toDigits (by decide) (by decide),
    Nat.ofDigitChars_toDigits (by decide) (by decide)] at hvalue
  exact ⟨hvalue.symm, htail.symm⟩

/-- Contents with one digest are the same, unless the hash collides on them. -/
theorem digest_inj {c c' : Content}
    (hfree : ∀ a ∈ c.hashed, ∀ b ∈ c'.hashed, sha a = sha b → a = b)
    (h : c.digest sha = c'.digest sha) : c = c' := by
  have hchars := congrArg String.toList h
  have hdigit : ∀ n, ∃ d ds, Nat.toDigits 8 n = d :: ds ∧ d.isDigit = true := by
    intro n
    obtain ⟨d, ds, hds⟩ := List.exists_cons_of_ne_nil (Nat.toDigits_ne_nil (n := n) (b := 8))
    exact ⟨d, ds, hds, Nat.isDigit_of_mem_toDigits (by decide) (by decide) (hds ▸ List.mem_cons_self)⟩
  cases c with
  | missing =>
    cases c' with
    | missing => rfl
    | link target => simp [Content.digest] at hchars
    | file mode bytes =>
      obtain ⟨d, ds, hds, hd⟩ := hdigit mode
      simp only [Content.digest, String.toList_append, String.toList_ofList, hds] at hchars
      obtain ⟨rfl, -⟩ := List.cons.inj hchars
      exact absurd hd (by decide)
  | link target =>
    cases c' with
    | missing => simp [Content.digest] at hchars
    | link target' =>
      simp only [Content.digest, String.toList_append] at hchars
      have hsha := String.toList_inj.mp (List.append_cancel_left hchars)
      have hbytes := hfree _ (List.mem_singleton_self _) _ (List.mem_singleton_self _) hsha
      rw [encode_injective hbytes]
    | file mode bytes =>
      obtain ⟨d, ds, hds, hd⟩ := hdigit mode
      simp only [Content.digest, String.toList_append, String.toList_ofList, hds] at hchars
      obtain ⟨rfl, -⟩ := List.cons.inj hchars
      exact absurd hd (by decide)
  | file mode bytes =>
    cases c' with
    | missing =>
      obtain ⟨d, ds, hds, hd⟩ := hdigit mode
      simp only [Content.digest, String.toList_append, String.toList_ofList, hds] at hchars
      obtain ⟨rfl, -⟩ := List.cons.inj hchars
      exact absurd hd (by decide)
    | link target =>
      obtain ⟨d, ds, hds, hd⟩ := hdigit mode
      simp only [Content.digest, String.toList_append, String.toList_ofList, hds] at hchars
      obtain ⟨rfl, -⟩ := List.cons.inj hchars
      exact absurd hd (by decide)
    | file mode' bytes' =>
      simp only [Content.digest, String.toList_append, String.toList_ofList] at hchars
      have hcolon : ":".toList = [':'] := rfl
      rw [hcolon, List.append_assoc, List.append_assoc, List.singleton_append,
        List.singleton_append] at hchars
      obtain ⟨rfl, hsha⟩ := permissions_inj hchars
      have hbytes := hfree _ (List.mem_singleton_self _) _ (List.mem_singleton_self _)
        (String.toList_inj.mp hsha)
      rw [hbytes]

theorem zero_notMem_digest (hplain : ∀ bytes, '\x00' ∉ (sha bytes).toList) (c : Content) :
    '\x00' ∉ (c.digest sha).toList := by
  cases c with
  | missing =>
    have hmissing : '\x00' ∉ "missing".toList := by decide
    exact hmissing
  | link target =>
    simp only [Content.digest, String.toList_append, List.mem_append]
    intro h
    rcases h with h | h
    · exact absurd h (by decide)
    · exact hplain _ h
  | file mode bytes =>
    simp only [Content.digest, String.toList_append, String.toList_ofList, List.mem_append]
    intro h
    rcases h with (h | h) | h
    · exact absurd (Nat.isDigit_of_mem_toDigits (by decide) (by decide) h) (by decide)
    · exact absurd h (by decide)
    · exact hplain _ h

end

/-! ## The bytes of a tree -/

/-- What is hashed of files of the tree: names and digests, with a NUL after each. -/
def treeBytes (files : List (String × String)) : List UInt8 :=
  files.flatMap fun file => encode file.1 ++ 0 :: (encode file.2 ++ [0])

/-- What is hashed of the index and of `HEAD`. -/
def gitBytes (index head : String) : List UInt8 :=
  encode "index" ++ 0 :: (encode index ++ (encode "HEAD" ++ 0 :: encode head))

/-- No name and no digest contains a NUL. -/
def Clean (files : List (String × String)) : Prop :=
  ∀ file ∈ files, '\x00' ∉ file.1.toList ∧ '\x00' ∉ file.2.toList

theorem treeBytes_cons (file : String × String) (files : List (String × String)) (rest : List UInt8) :
    treeBytes (file :: files) ++ rest =
      encode file.1 ++ 0 :: (encode file.2 ++ 0 :: (treeBytes files ++ rest)) := by
  simp [treeBytes]

theorem split_inj {a b : List UInt8} (ha : 0 ∉ a) (hb : 0 ∉ b) {r s : List UInt8}
    (h : a ++ 0 :: r = b ++ 0 :: s) : a = b ∧ r = s := by
  have hcut : Framing.cut 0 (a ++ 0 :: r) = some (a, r) := Framing.cut_of_notMem ha
  rw [h, Framing.cut_of_notMem hb] at hcut
  obtain ⟨rfl, rfl⟩ := Prod.mk.inj (Option.some.inj hcut)
  exact ⟨rfl, rfl⟩

theorem zero_notMem_index {index : String} (hindex : '\x00' ∉ index.toList) :
    0 ∉ encode index ++ encode "HEAD" := by
  rw [List.mem_append]
  intro hmem
  rcases hmem with hmem | hmem
  · exact zero_notMem_encode hindex hmem
  · exact absurd hmem (by decide)

section

variable {index head index' head' : String} (hindex : '\x00' ∉ index.toList)
  (hhead : '\x00' ∉ head.toList) (hindex' : '\x00' ∉ index'.toList) (hhead' : '\x00' ∉ head'.toList)

/-- After the files of the tree only one NUL follows the next. -/
theorem gitBytes_ne_file {name value : String} (hname : '\x00' ∉ name.toList)
    (hvalue : '\x00' ∉ value.toList) (hindex : '\x00' ∉ index.toList)
    (hhead : '\x00' ∉ head.toList) {rest : List UInt8} (hrest : 0 ∈ rest) :
    gitBytes index head ≠ encode name ++ 0 :: (encode value ++ 0 :: rest) := by
  intro h
  unfold gitBytes at h
  obtain ⟨-, hafter⟩ := split_inj (by decide) (zero_notMem_encode hname) h
  rw [← List.append_assoc] at hafter
  obtain ⟨-, hlast⟩ := split_inj (zero_notMem_index hindex) (zero_notMem_encode hvalue) hafter
  exact zero_notMem_encode hhead (hlast ▸ hrest)

theorem zero_mem_treeBytes (files : List (String × String)) (index head : String) :
    0 ∈ treeBytes files ++ gitBytes index head := by
  rw [List.mem_append]
  exact .inr (List.mem_append_right _ List.mem_cons_self)

include hindex hhead hindex' hhead'

/-- The bytes are those of one list of files only. -/
theorem bytes_inj {files files' : List (String × String)} (hclean : Clean files)
    (hclean' : Clean files')
    (h : treeBytes files ++ gitBytes index head = treeBytes files' ++ gitBytes index' head') :
    files = files' ∧ index = index' ∧ head = head' := by
  induction files generalizing files' with
  | nil =>
    cases files' with
    | nil =>
      obtain ⟨-, hafter⟩ := split_inj (by decide) (by decide) h
      rw [← List.append_assoc, ← List.append_assoc] at hafter
      obtain ⟨hfirst, hlast⟩ := split_inj (zero_notMem_index hindex) (zero_notMem_index hindex') hafter
      exact ⟨rfl, encode_injective (List.append_cancel_right hfirst), encode_injective hlast⟩
    | cons file' files' =>
      obtain ⟨⟨hname, hvalue⟩, -⟩ := List.forall_mem_cons.mp hclean'
      rw [treeBytes_cons] at h
      exact absurd h (gitBytes_ne_file hname hvalue hindex hhead (zero_mem_treeBytes _ _ _))
  | cons file files ih =>
    obtain ⟨⟨hname, hvalue⟩, hrest⟩ := List.forall_mem_cons.mp hclean
    rw [treeBytes_cons] at h
    cases files' with
    | nil =>
      exact absurd h.symm (gitBytes_ne_file hname hvalue hindex' hhead' (zero_mem_treeBytes _ _ _))
    | cons file' files' =>
      obtain ⟨⟨hname', hvalue'⟩, hrest'⟩ := List.forall_mem_cons.mp hclean'
      rw [treeBytes_cons] at h
      obtain ⟨hnames, hafter⟩ :=
        split_inj (zero_notMem_encode hname) (zero_notMem_encode hname') h
      obtain ⟨hvalues, hfiles⟩ :=
        split_inj (zero_notMem_encode hvalue) (zero_notMem_encode hvalue') hafter
      obtain ⟨rfl, hgit⟩ := ih hrest hrest' hfiles
      have hfile : file = file' := Prod.ext (encode_injective hnames) (encode_injective hvalues)
      rw [hfile]
      exact ⟨rfl, hgit⟩

end

/-! ## What a digest says -/

section

variable (sha : List UInt8 → String) (w : Worktree)

/-- What a call saves: the names it hashes, in order, with their contents. -/
def savedSource : Except Failure (List (String × Option Content)) :=
  (hashedPieces sha w).map fun pieces => pieces.map fun piece => (piece.name, contentOf piece.spot)

/-- The byte strings a call gives to the hash. -/
def hashInputs : List (List UInt8) :=
  match hashedPieces sha w with
  | .error _ => []
  | .ok pieces =>
    ((readPieces (plainReader sha) pieces ()).toOption.toList.map Prod.fst) ++
      pieces.flatMap fun piece => ((contentOf piece.spot).map Content.hashed).getD []

end

section

variable {sha : List UInt8 → String} {w : Worktree} {gitSpot : String → Spot}

theorem readPieces_cons {piece : Piece} {pieces : List Piece} {bytes : List UInt8}
    (h : readPieces (plainReader sha) (piece :: pieces) () = .ok (bytes, ())) :
    ∃ content rest, contentOf piece.spot = some content ∧
      readPieces (plainReader sha) pieces () = .ok (rest, ()) ∧
        bytes = encode piece.name ++ 0 :: (encode (content.digest sha) ++ piece.stop ++ rest) := by
  obtain ⟨⟨value, _⟩, hvalue, h⟩ := bind_ok h
  obtain ⟨⟨rest, _⟩, hrest, h⟩ := bind_ok h
  have hdigest : fileDigest sha piece.spot = .ok value := by
    have hplain : (fileDigest sha piece.spot).map (fun value => (value, ())) = .ok (value, ()) := hvalue
    cases hfile : fileDigest sha piece.spot with
    | error failure =>
      rw [hfile] at hplain
      cases hplain
    | ok value' =>
      rw [hfile] at hplain
      exact congrArg Except.ok (Prod.mk.inj (Except.ok.inj hplain)).1
  obtain ⟨content, hcontent, rfl⟩ := content_of_digest hdigest
  exact ⟨content, rest, hcontent, hrest, (Prod.mk.inj (Except.ok.inj h)).1.symm⟩

/-- The bytes of the files of the tree, of the index and of `HEAD`. -/
theorem readPieces_piecesOf {items : List String} {bytes : List UInt8}
    (h : readPieces (plainReader sha) (piecesOf w gitSpot items) () = .ok (bytes, ())) :
    ∃ contents index head, List.Forall₂ (fun item c => contentOf (w.spot item) = some c) items contents ∧
      contentOf (gitSpot "index") = some index ∧ contentOf (gitSpot "HEAD") = some head ∧
        bytes = treeBytes (items.zip (contents.map (Content.digest sha))) ++
          gitBytes (index.digest sha) (head.digest sha) := by
  induction items generalizing bytes with
  | nil =>
    obtain ⟨index, rest, hindex, hrest, rfl⟩ := readPieces_cons h
    obtain ⟨head, rest', hhead, hrest', rfl⟩ := readPieces_cons hrest
    obtain rfl := (Prod.mk.inj (Except.ok.inj hrest')).1
    refine ⟨[], index, head, .nil, hindex, hhead, ?_⟩
    simp [treeBytes, gitBytes]
  | cons item items ih =>
    obtain ⟨content, rest, hcontent, hrest, rfl⟩ := readPieces_cons h
    obtain ⟨contents, index, head, hall, hindex, hhead, rfl⟩ := ih hrest
    refine ⟨content :: contents, index, head, .cons hcontent hall, hindex, hhead, ?_⟩
    rw [List.map_cons, List.zip_cons_cons, treeBytes_cons, List.append_assoc, List.singleton_append]

theorem saved_of_contents {items : List String} {contents : List Content} {index head : Content}
    (hall : List.Forall₂ (fun item c => contentOf (w.spot item) = some c) items contents)
    (hindex : contentOf (gitSpot "index") = some index)
    (hhead : contentOf (gitSpot "HEAD") = some head) :
    (piecesOf w gitSpot items).map (fun piece => (piece.name, contentOf piece.spot)) =
      items.zip (contents.map some) ++ [("index", some index), ("HEAD", some head)] := by
  have htree : items.map (fun item => (item, contentOf (w.spot item))) =
      items.zip (contents.map some) := by
    clear hindex hhead
    induction hall with
    | nil => rfl
    | cons hcontent _ ih =>
      rw [List.map_cons, List.map_cons, List.zip_cons_cons, ih, hcontent]
  unfold piecesOf
  rw [List.map_append, List.map_map, ← htree]
  simp [Function.comp_def, hindex, hhead]

/-- The names of the tree contain no NUL. -/
theorem clean_walk (tracked : List String) (rules : Rules) (fuel : Nat) {rel : String}
    (hrel : '\x00' ∉ rel.toList) : ∀ item ∈ walk w tracked rules fuel rel, '\x00' ∉ item.toList := by
  have hchild : ∀ rel : String, '\x00' ∉ rel.toList → ∀ name ∈ w.listing rel,
      '\x00' ∉ (child rel name).toList := by
    intro rel hrel name hname
    have hplain := w.named rel name hname
    unfold child
    split
    · exact hplain
    · simp only [String.toList_append, List.mem_append]
      intro hmem
      rcases hmem with (hmem | hmem) | hmem
      · exact hrel hmem
      · exact absurd hmem (by decide)
      · exact hplain hmem
  induction fuel generalizing rel with
  | zero => exact fun item hitem => absurd hitem List.not_mem_nil
  | succ fuel ih =>
    intro item hitem
    unfold walk at hitem
    simp only [List.mem_append, List.mem_map, List.mem_flatMap, List.mem_filter] at hitem
    rcases hitem with (⟨name, hname, rfl⟩ | ⟨name, hname, rfl⟩) | ⟨name, hname, hbelow⟩
    · exact hchild rel hrel name hname.1.1
    · exact hchild rel hrel name hname.1
    · exact ih (hchild rel hrel name hname.1.1) item hbelow

theorem clean_tracked (output : String) : ∀ item ∈ trackedOf output, '\x00' ∉ item.toList := by
  intro item hitem
  obtain ⟨piece, hpiece, rfl⟩ := List.mem_map.mp (List.mem_filter.mp hitem).1
  rw [String.toList_ofList]
  exact Str.not_mem_of_mem_splitOnChar hpiece

theorem clean_hashedPaths (output : String) (rules : Rules) :
    ∀ item ∈ hashedPaths w (trackedOf output) rules, '\x00' ∉ item.toList := by
  intro item hitem
  have hmem := List.mem_dedup.mp (mem_sortBy.mp (List.mem_filter.mp hitem).1)
  rcases List.mem_append.mp hmem with htracked | hwalked
  · exact clean_tracked output item htracked
  · exact clean_walk _ _ _ (by decide) item hwalked

theorem plainDigest_ok {digest : String} (h : plainDigest sha w = .ok digest) :
    ∃ gitSpot items bytes, hashedPieces sha w = .ok (piecesOf w gitSpot items) ∧
      (∀ item ∈ items, '\x00' ∉ item.toList) ∧
        readPieces (plainReader sha) (piecesOf w gitSpot items) () = .ok (bytes, ()) ∧
          sha bytes = digest := by
  unfold plainDigest sourceDigest at h
  unfold hashedPieces
  cases hfiles : w.lsFiles with
  | error failure =>
    rw [hfiles] at h
    cases h
  | ok output =>
    cases hgit : w.gitDir with
    | error failure =>
      rw [hfiles, hgit] at h
      cases h
    | ok gitSpot =>
      cases hrules : classifications (plainReader sha) w () with
      | error failure =>
        rw [hfiles, hgit] at h
        dsimp only [Except.bind] at h
        rw [hrules] at h
        cases h
      | ok read =>
        obtain ⟨rules, _⟩ := read
        rw [hfiles, hgit] at h
        dsimp only [Except.bind] at h ⊢
        rw [hrules] at h
        dsimp only at h ⊢
        cases hread : readPieces (plainReader sha)
            (piecesOf w gitSpot (hashedPaths w (trackedOf output) rules)) () with
        | error failure =>
          rw [hread] at h
          cases h
        | ok bytes =>
          rw [hread] at h
          exact ⟨gitSpot, _, bytes.1, rfl, clean_hashedPaths output rules, hread, Except.ok.inj h⟩

theorem zip_inj {α β : Type} {xs xs' : List α} {ys ys' : List β} (hlength : xs.length = ys.length)
    (hlength' : xs'.length = ys'.length) (h : xs.zip ys = xs'.zip ys') : xs = xs' ∧ ys = ys' := by
  have hfst := congrArg (List.map Prod.fst) h
  have hsnd := congrArg (List.map Prod.snd) h
  rw [List.map_fst_zip hlength.le, List.map_fst_zip hlength'.le] at hfst
  rw [List.map_snd_zip hlength.ge, List.map_snd_zip hlength'.ge] at hsnd
  exact ⟨hfst, hsnd⟩

theorem digests_inj {contents contents' : List Content}
    (hfree : ∀ c ∈ contents, ∀ c' ∈ contents', c.digest sha = c'.digest sha → c = c')
    (h : contents.map (Content.digest sha) = contents'.map (Content.digest sha)) :
    contents = contents' := by
  induction contents generalizing contents' with
  | nil => exact (List.map_eq_nil_iff.mp h.symm).symm
  | cons c contents ih =>
    cases contents' with
    | nil => cases h
    | cons c' contents' =>
      rw [List.map_cons, List.map_cons] at h
      obtain ⟨hfirst, hrest⟩ := List.cons.inj h
      rw [hfree c List.mem_cons_self c' List.mem_cons_self hfirst,
        ih (fun d hd d' hd' => hfree d (List.mem_cons_of_mem _ hd) d' (List.mem_cons_of_mem _ hd')) hrest]

theorem mem_piecesOf_tree {item : String} {items : List String} (h : item ∈ items) :
    ⟨"tree:" ++ item, item, w.spot item, [0]⟩ ∈ piecesOf w gitSpot items :=
  List.mem_append_left _ (List.mem_map.mpr ⟨item, h, rfl⟩)

theorem mem_piecesOf_git {name : String} {items : List String} (h : name ∈ ["index", "HEAD"]) :
    ⟨"git:" ++ name, name, gitSpot name, []⟩ ∈ piecesOf w gitSpot items :=
  List.mem_append_right _ (List.mem_map.mpr ⟨name, h, rfl⟩)

/-- The contents of a tree are given to the hash. -/
theorem hashed_of_content {items : List String} {bytes : List UInt8} {piece : Piece}
    {content : Content} (hpieces : hashedPieces sha w = .ok (piecesOf w gitSpot items))
    (hread : readPieces (plainReader sha) (piecesOf w gitSpot items) () = .ok (bytes, ()))
    (hpiece : piece ∈ piecesOf w gitSpot items) (hcontent : contentOf piece.spot = some content) :
    bytes ∈ hashInputs sha w ∧ ∀ a ∈ content.hashed, a ∈ hashInputs sha w := by
  unfold hashInputs
  rw [hpieces]
  dsimp only
  rw [hread]
  constructor
  · exact List.mem_append_left _ (List.mem_singleton_self _)
  · intro a ha
    apply List.mem_append_right
    apply List.mem_flatMap.mpr
    refine ⟨piece, hpiece, ?_⟩
    rw [hcontent]
    exact ha

end

/-- Two trees with one digest have the same saved source, the selected paths with their
    contents, the index and `HEAD`, unless the hash collides on what the two calls give it. -/
theorem equal_digest_same_source (sha : List UInt8 → String)
    (hplain : ∀ bytes, '\x00' ∉ (sha bytes).toList) {w w' : Worktree} {digest : String}
    (h : plainDigest sha w = .ok digest) (h' : plainDigest sha w' = .ok digest)
    (hfree : ∀ a ∈ hashInputs sha w, ∀ b ∈ hashInputs sha w', sha a = sha b → a = b) :
    ∃ files, savedSource sha w = .ok files ∧ savedSource sha w' = .ok files := by
  obtain ⟨gitSpot, items, bytes, hpieces, hclean, hread, hsha⟩ := plainDigest_ok h
  obtain ⟨gitSpot', items', bytes', hpieces', hclean', hread', hsha'⟩ := plainDigest_ok h'
  obtain ⟨contents, index, head, hall, hindex, hhead, rfl⟩ := readPieces_piecesOf hread
  obtain ⟨contents', index', head', hall', hindex', hhead', rfl⟩ := readPieces_piecesOf hread'
  have hinputs : ∀ piece ∈ piecesOf w gitSpot items, ∀ content, contentOf piece.spot = some content →
      _ ∈ hashInputs sha w ∧ ∀ a ∈ content.hashed, a ∈ hashInputs sha w :=
    fun piece hpiece content hcontent => hashed_of_content hpieces hread hpiece hcontent
  have hinputs' : ∀ piece ∈ piecesOf w' gitSpot' items', ∀ content,
      contentOf piece.spot = some content →
        _ ∈ hashInputs sha w' ∧ ∀ a ∈ content.hashed, a ∈ hashInputs sha w' :=
    fun piece hpiece content hcontent => hashed_of_content hpieces' hread' hpiece hcontent
  have hindexIn := hinputs _ (mem_piecesOf_git (.head _)) index hindex
  have hheadIn := hinputs _ (mem_piecesOf_git (.tail _ (.head _))) head hhead
  have hindexIn' := hinputs' _ (mem_piecesOf_git (.head _)) index' hindex'
  have hheadIn' := hinputs' _ (mem_piecesOf_git (.tail _ (.head _))) head' hhead'
  have hbytes := hfree _ hindexIn.1 _ hindexIn'.1 (hsha.trans hsha'.symm)
  have hfiles : ∀ (items : List String) (contents : List Content),
      (∀ item ∈ items, '\x00' ∉ item.toList) →
        Clean (items.zip (contents.map (Content.digest sha))) := by
    intro items contents hitems file hfile
    obtain ⟨hname, hvalue⟩ := List.of_mem_zip hfile
    obtain ⟨content, -, hcontent⟩ := List.mem_map.mp hvalue
    exact ⟨hitems _ hname, hcontent ▸ zero_notMem_digest hplain content⟩
  obtain ⟨hzip, hindexes, hheads⟩ := bytes_inj (zero_notMem_digest hplain index)
    (zero_notMem_digest hplain head) (zero_notMem_digest hplain index')
    (zero_notMem_digest hplain head') (hfiles items contents hclean) (hfiles items' contents' hclean')
    hbytes
  obtain ⟨rfl, hdigests⟩ := zip_inj (by rw [List.length_map, hall.length_eq])
    (by rw [List.length_map, hall'.length_eq]) hzip
  have hcontents : contents = contents' := by
    apply digests_inj _ hdigests
    intro c hc c' hc' hsame
    obtain ⟨item, hitem, hcontent⟩ := exists_of_forall₂ hall hc
    obtain ⟨item', hitem', hcontent'⟩ := exists_of_forall₂ hall' hc'
    have hin := (hinputs _ (mem_piecesOf_tree hitem) c hcontent).2
    have hin' := (hinputs' _ (mem_piecesOf_tree hitem') c' hcontent').2
    exact digest_inj (fun a ha b hb => hfree a (hin a ha) b (hin' b hb)) hsame
  subst hcontents
  have hindexSame : index = index' :=
    digest_inj (fun a ha b hb => hfree a (hindexIn.2 a ha) b (hindexIn'.2 b hb)) hindexes
  have hheadSame : head = head' :=
    digest_inj (fun a ha b hb => hfree a (hheadIn.2 a ha) b (hheadIn'.2 b hb)) hheads
  subst hindexSame hheadSame
  refine ⟨items.zip (contents.map some) ++ [("index", some index), ("HEAD", some head)], ?_, ?_⟩
  · unfold savedSource
    rw [hpieces]
    exact congrArg Except.ok (saved_of_contents hall hindex hhead)
  · unfold savedSource
    rw [hpieces']
    exact congrArg Except.ok (saved_of_contents hall' hindex' hhead')

/-- A file that was rewritten with the content it had. -/
def exampleRewritten : Worktree := exampleTree (exampleFile 5 [1, 2]) (by decide)

theorem zero_notMem_exampleSha (bytes : List UInt8) : '\x00' ∉ (exampleSha bytes).toList := by
  unfold exampleSha
  dsimp only
  rw [String.toList_ofList, List.mem_append]
  intro h
  rcases h with h | h
  · exact absurd (List.eq_of_mem_replicate h) (by decide)
  · exact absurd (Nat.isDigit_of_mem_toDigits (by decide) (by decide) h) (by decide)

/-- The rewritten file has the digest it had, and the same content. -/
theorem rewritten_same_source :
    ∃ files, savedSource exampleSha exampleBefore = .ok files ∧
      savedSource exampleSha exampleRewritten = .ok files := by
  have hbefore : plainDigest exampleSha exampleBefore =
      .ok "5493822674171484607175950682990590927355827039990598930176987879" := by decide +kernel
  have hrewritten : plainDigest exampleSha exampleRewritten =
      .ok "5493822674171484607175950682990590927355827039990598930176987879" := by decide +kernel
  exact equal_digest_same_source exampleSha zero_notMem_exampleSha hbefore hrewritten
    (by decide +kernel)

end SummitFlow.SourceDigest
