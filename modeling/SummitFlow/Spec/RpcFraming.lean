import SummitFlow.Cli.NativeSessionDelivery

/-!
# Framing does not depend on the reads

What is in the buffer and what is still to be read are the rest of the stream, and between
two calls no line in the buffer is too long.  So a call gives what it would give on the rest
of the stream as a whole, however that is cut into reads.
-/

namespace SummitFlow.NativeRPC

variable {ε : Type} {loads : List UInt8 → Except ε Json.Value}
  {floatEquals : Json.FloatLiteral → Int → Bool} {dispatched closed : Bool} {identifier : Int}

/-- The sizes of reads that are not the last one. -/
def Sized (chunks : List (List UInt8)) : Prop :=
  ∀ chunk ∈ chunks, 1 ≤ chunk.length ∧ chunk.length ≤ maxReceiptBytes + 1

/-- The reads of a stream that is cut so; the peer may close its output at the end. -/
def readsOf (closed : Bool) (chunks : List (List UInt8)) : List (List UInt8) :=
  chunks ++ if closed then [[]] else []

/-! ## One call on a whole stream -/

/-- What a call gives on the rest of the stream. -/
def awaited (loads : List UInt8 → Except ε Json.Value)
    (floatEquals : Json.FloatLiteral → Int → Bool) (dispatched closed : Bool) (identifier : Int)
    (stream : List UInt8) : Except (Stop ε) (Json.Value × List UInt8) :=
  match hcut : Framing.cut newline stream with
  | none =>
    if stream.length > maxReceiptBytes then
      .error (.queue ⟨"native_rpc_receipt_oversized", dispatched⟩)
    else if closed then .error (.queue ⟨"native_rpc_closed", dispatched⟩)
    else .error .waiting
  | some (line, rest) =>
    if line.length > maxReceiptBytes then
      .error (.queue ⟨"native_rpc_receipt_oversized", dispatched⟩)
    else
      match loads line with
      | .error e => .error (.loads e)
      | .ok wire =>
        if isReply floatEquals identifier wire then .ok (wire, rest)
        else awaited loads floatEquals dispatched closed identifier rest
termination_by stream.length
decreasing_by
  have hlength := Framing.length_of_cut hcut
  omega

theorem awaited_of_none {stream : List UInt8} (h : newline ∉ stream) :
    awaited loads floatEquals dispatched closed identifier stream =
      if stream.length > maxReceiptBytes then
        .error (.queue ⟨"native_rpc_receipt_oversized", dispatched⟩)
      else if closed then .error (.queue ⟨"native_rpc_closed", dispatched⟩)
      else .error .waiting := by
  have hcut := Framing.cut_eq_none_iff.mpr h
  rw [awaited]
  split
  · rfl
  · next heq => rw [hcut] at heq; cases heq

theorem awaited_of_some {stream line rest : List UInt8}
    (h : Framing.cut newline stream = some (line, rest)) :
    awaited loads floatEquals dispatched closed identifier stream =
      if line.length > maxReceiptBytes then
        .error (.queue ⟨"native_rpc_receipt_oversized", dispatched⟩)
      else
        match loads line with
        | .error e => .error (.loads e)
        | .ok wire =>
          if isReply floatEquals identifier wire then .ok (wire, rest)
          else awaited loads floatEquals dispatched closed identifier rest := by
  rw [awaited]
  split
  · next heq => rw [h] at heq; cases heq
  · next heq =>
    rw [h] at heq
    cases heq
    rfl

/-- A line that is too long, whether it has ended or not. -/
theorem awaited_oversized {pending : List UInt8} (more : List UInt8)
    (h : pending.length > maxReceiptBytes ∧
      (newline ∉ pending ∨ pending.idxOf newline > maxReceiptBytes)) :
    awaited loads floatEquals dispatched closed identifier (pending ++ more) =
      .error (.queue ⟨"native_rpc_receipt_oversized", dispatched⟩) := by
  obtain ⟨hlong, hline⟩ := h
  cases hcut : Framing.cut newline pending with
  | none =>
    -- the line goes on in what follows
    have hnone := Framing.cut_eq_none_iff.mp hcut
    have hmore := @Framing.cut_append_of_none _ _ _ _ more hnone
    cases hrest : Framing.cut newline more with
    | none =>
      rw [hrest] at hmore
      rw [awaited_of_none (Framing.cut_eq_none_iff.mp hmore), if_pos]
      rw [List.length_append]
      omega
    | some parts =>
      rw [hrest] at hmore
      rw [awaited_of_some hmore, if_pos]
      show (pending ++ parts.1).length > maxReceiptBytes
      rw [List.length_append]
      omega
  | some parts =>
    obtain ⟨line, rest⟩ := parts
    have hmem : newline ∈ pending := by
      by_contra hnone
      rw [Framing.cut_eq_none_iff.mpr hnone] at hcut
      cases hcut
    rw [awaited_of_some (Framing.cut_append_of_some hcut), if_pos]
    rw [← Framing.idxOf_of_cut hcut]
    exact hline.resolve_left (not_not.mpr hmem)

/-! ## The buffer -/

/-- No line in the buffer is too long. -/
def Fits (pending : List UInt8) : Prop :=
  pending.length ≤ maxReceiptBytes ∨ ∃ line rest, Framing.cut newline pending = some (line, rest) ∧
    line.length ≤ maxReceiptBytes ∧ rest.length ≤ maxReceiptBytes

theorem Fits.rest {pending line rest : List UInt8} (h : Fits pending)
    (hcut : Framing.cut newline pending = some (line, rest)) :
    line.length ≤ maxReceiptBytes ∧ rest.length ≤ maxReceiptBytes := by
  rcases h with hshort | ⟨line', rest', hcut', hline, hrest⟩
  · have hlength := Framing.length_of_cut hcut
    omega
  · rw [hcut] at hcut'
    cases hcut'
    exact ⟨hline, hrest⟩

theorem Fits.short {pending : List UInt8} (h : Fits pending) (hnone : newline ∉ pending) :
    pending.length ≤ maxReceiptBytes := by
  rcases h with hshort | ⟨line, rest, hcut, -⟩
  · exact hshort
  · rw [Framing.cut_eq_none_iff.mpr hnone] at hcut
    cases hcut

/-- A read that is not refused leaves no line that is too long: it holds one byte more than
    a line may have, and one of its bytes ends the line before. -/
theorem fits_read {pending chunk : List UInt8} (hnone : newline ∉ pending)
    (hchunk : chunk.length ≤ maxReceiptBytes + 1)
    (h : ¬((pending ++ chunk).length > maxReceiptBytes ∧
      (newline ∉ pending ++ chunk ∨ (pending ++ chunk).idxOf newline > maxReceiptBytes))) :
    Fits (pending ++ chunk) := by
  by_cases hlong : (pending ++ chunk).length > maxReceiptBytes
  · right
    have hin : newline ∈ pending ++ chunk := by
      by_contra hout
      exact h ⟨hlong, .inl hout⟩
    have hmem : newline ∈ chunk := (List.mem_append.mp hin).resolve_left hnone
    cases hcut : Framing.cut newline chunk with
    | none => exact absurd hmem (Framing.cut_eq_none_iff.mp hcut)
    | some parts =>
      obtain ⟨line, rest⟩ := parts
      have hall := @Framing.cut_append_of_none _ _ _ _ chunk hnone
      rw [hcut] at hall
      refine ⟨pending ++ line, rest, hall, ?_, ?_⟩
      · rw [← Framing.idxOf_of_cut hall]
        by_contra hover
        exact h ⟨hlong, .inr (by omega)⟩
      · have hlength := Framing.length_of_cut hcut
        omega
  · left
    omega

/-- The inner loop does to the buffer what the call does to the rest of the stream. -/
theorem scan_spec (more : List UInt8) {pending : List UInt8} (h : Fits pending) :
    match scan loads floatEquals dispatched identifier pending with
    | .error e =>
      awaited loads floatEquals dispatched closed identifier (pending ++ more) = .error e
    | .ok (some wire, rest) =>
      awaited loads floatEquals dispatched closed identifier (pending ++ more) =
        .ok (wire, rest ++ more) ∧ Fits rest
    | .ok (none, left) =>
      awaited loads floatEquals dispatched closed identifier (pending ++ more) =
        awaited loads floatEquals dispatched closed identifier (left ++ more) ∧
      Fits left ∧ newline ∉ left := by
  fun_induction scan loads floatEquals dispatched identifier pending with
  | case1 pending hcut => exact ⟨rfl, h, Framing.cut_eq_none_iff.mp hcut⟩
  | case2 pending line rest hcut hlong =>
    rw [awaited_of_some (Framing.cut_append_of_some hcut), if_pos hlong]
  | case3 pending line rest hcut hline e hloads =>
    dsimp only
    rw [awaited_of_some (Framing.cut_append_of_some hcut), if_neg hline, hloads]
  | case4 pending line rest hcut hline wire hloads hreply =>
    refine ⟨?_, .inl (h.rest hcut).2⟩
    rw [awaited_of_some (Framing.cut_append_of_some hcut), if_neg hline, hloads]
    exact if_pos hreply
  | case5 pending line rest hcut hline wire hloads hreply ih =>
    rw [awaited_of_some (Framing.cut_append_of_some hcut), if_neg hline, hloads]
    dsimp only
    rw [if_neg hreply]
    exact ih (.inl (h.rest hcut).2)

/-! ## Successive calls -/

/-- A connection has this rest of the stream before it. -/
structure Holds (closed : Bool) (rpc : State) (stream : List UInt8) : Prop where
  fits : Fits rpc.pending
  unread : ∃ chunks, Sized chunks ∧ rpc.reads = readsOf closed chunks ∧
    rpc.pending ++ chunks.flatten = stream

/-- A call on the connection and one on the stream give the same, and so may the next ones. -/
inductive Agree (closed : Bool) :
    Except (Stop ε) (Json.Value × State) → Except (Stop ε) (Json.Value × List UInt8) → Prop
  | stopped (e : Stop ε) : Agree closed (.error e) (.error e)
  | replied (wire : Json.Value) {rpc : State} {stream : List UInt8} (h : Holds closed rpc stream) :
    Agree closed (.ok (wire, rpc)) (.ok (wire, stream))

theorem receive_agree {chunks : List (List UInt8)} (hsized : Sized chunks) {pending : List UInt8}
    (h : Fits pending) :
    Agree closed (receive loads floatEquals dispatched identifier (readsOf closed chunks) pending)
      (awaited loads floatEquals dispatched closed identifier (pending ++ chunks.flatten)) := by
  induction chunks generalizing pending with
  | nil =>
    have hscan := @scan_spec ε loads floatEquals dispatched closed identifier [] pending h
    unfold receive
    cases hresult : scan loads floatEquals dispatched identifier pending with
    | error e =>
      rw [hresult] at hscan
      show Agree closed _ (awaited _ _ _ _ _ (pending ++ []))
      rw [hscan]
      exact .stopped e
    | ok result =>
      obtain ⟨reply, left⟩ := result
      rw [hresult] at hscan
      cases reply with
      | some wire =>
        obtain ⟨hawaited, hfits⟩ := hscan
        show Agree closed _ (awaited _ _ _ _ _ (pending ++ []))
        rw [hawaited]
        exact .replied wire ⟨hfits, [], hsized, rfl, rfl⟩
      | none =>
        obtain ⟨hawaited, hfits, hnone⟩ := hscan
        have hshort := hfits.short hnone
        show Agree closed _ (awaited _ _ _ _ _ (pending ++ []))
        rw [hawaited, List.append_nil, awaited_of_none hnone, if_neg (by omega)]
        -- nothing is left to read, so the peer has closed or the call waits
        cases closed with
        | true => exact .stopped _
        | false => exact .stopped _
  | cons chunk chunks ih =>
    have hscan := @scan_spec ε loads floatEquals dispatched closed identifier
      (chunk :: chunks).flatten pending h
    have hchunk := hsized chunk List.mem_cons_self
    have hrest : Sized chunks := fun c hc => hsized c (List.mem_cons_of_mem _ hc)
    unfold receive
    cases hresult : scan loads floatEquals dispatched identifier pending with
    | error e =>
      rw [hresult] at hscan
      rw [hscan]
      exact .stopped e
    | ok result =>
      obtain ⟨reply, left⟩ := result
      rw [hresult] at hscan
      cases reply with
      | some wire =>
        obtain ⟨hawaited, hfits⟩ := hscan
        rw [hawaited]
        exact .replied wire ⟨hfits, chunk :: chunks, hsized, rfl, rfl⟩
      | none =>
        obtain ⟨hawaited, hfits, hnone⟩ := hscan
        have hread : chunk.isEmpty = false := by
          cases chunk with
          | nil => exact absurd hchunk.1 (by decide)
          | cons b bytes => rfl
        have hflat : left ++ (chunk :: chunks).flatten = left ++ chunk ++ chunks.flatten := by
          rw [List.flatten_cons, List.append_assoc]
        rw [hawaited, hflat]
        show Agree closed (if chunk.isEmpty then _ else _) _
        rw [if_neg (by rw [hread]; decide)]
        by_cases hlong : (left ++ chunk).length > maxReceiptBytes ∧
            (newline ∉ left ++ chunk ∨ (left ++ chunk).idxOf newline > maxReceiptBytes)
        · rw [awaited_oversized chunks.flatten hlong]
          dsimp only
          rw [if_pos hlong]
          exact .stopped _
        · dsimp only
          rw [if_neg hlong]
          exact ih hrest (fits_read hnone hchunk.2 hlong)

/-- What successive calls give on a whole stream. -/
def awaitedAll (loads : List UInt8 → Except ε Json.Value)
    (floatEquals : Json.FloatLiteral → Int → Bool) (closed : Bool) :
    List (Int × Bool) → List UInt8 → List (Except (Stop ε) Json.Value)
  | [], _ => []
  | (identifier, dispatched) :: calls, stream =>
    match awaited loads floatEquals dispatched closed identifier stream with
    | .error e => [.error e]
    | .ok (wire, stream) => .ok wire :: awaitedAll loads floatEquals closed calls stream

theorem receives_eq (calls : List (Int × Bool)) {rpc : State} {stream : List UInt8}
    (h : Holds closed rpc stream) :
    receives loads floatEquals calls rpc = awaitedAll loads floatEquals closed calls stream := by
  induction calls generalizing rpc stream with
  | nil => rfl
  | cons call calls ih =>
    obtain ⟨chunks, hsized, hreads, hstream⟩ := h.unread
    have hagree := @receive_agree ε loads floatEquals call.2 closed call.1 chunks hsized
      rpc.pending h.fits
    rw [receives, awaitedAll, hreads, ← hstream]
    generalize receive loads floatEquals call.2 call.1 (readsOf closed chunks) rpc.pending = got
      at hagree
    generalize awaited loads floatEquals call.2 closed call.1 (rpc.pending ++ chunks.flatten) =
      wanted at hagree
    cases hagree with
    | stopped e => rfl
    | replied wire hnext =>
      exact congrArg (Except.ok wire :: ·) (ih hnext)

/-- Two ways to cut a stream into reads give the same replies, or the same first failure. -/
theorem receives_of_flatten_eq (loads : List UInt8 → Except ε Json.Value)
    (floatEquals : Json.FloatLiteral → Int → Bool) (calls : List (Int × Bool)) (closed : Bool)
    {chunks chunks' : List (List UInt8)} (hsized : Sized chunks) (hsized' : Sized chunks')
    (h : chunks.flatten = chunks'.flatten) :
    receives loads floatEquals calls ⟨[], readsOf closed chunks⟩ =
      receives loads floatEquals calls ⟨[], readsOf closed chunks'⟩ := by
  have hempty : Fits [] := .inl (Nat.zero_le _)
  have hone : Holds closed ⟨[], readsOf closed chunks⟩ chunks.flatten :=
    ⟨hempty, chunks, hsized, rfl, rfl⟩
  have hother : Holds closed ⟨[], readsOf closed chunks'⟩ chunks.flatten :=
    ⟨hempty, chunks', hsized', rfl, h.symm⟩
  rw [receives_eq calls hone, receives_eq calls hother]

/-- `json.loads` on an ASCII text. -/
def loadsAscii (line : List UInt8) : Except String Json.Value :=
  match Json.read (String.ofList (line.map fun b => Char.ofNat b.toNat)) with
  | some value => .ok value
  | none => .error "malformed"

/-- A receipt in two reads and in one, before a peer that closes. -/
theorem receives_of_flatten_eq_receipt :
    receives loadsAscii (fun _ _ => false) [(1, false), (2, true)]
        ⟨[], readsOf true [[0x7b, 0x22, 0x69], [0x64, 0x22, 0x3a, 0x31, 0x7d, 10]]⟩ =
      receives loadsAscii (fun _ _ => false) [(1, false), (2, true)]
        ⟨[], readsOf true [[0x7b, 0x22, 0x69, 0x64, 0x22, 0x3a, 0x31, 0x7d, 10]]⟩ :=
  receives_of_flatten_eq _ _ _ _ (by unfold Sized; decide) (by unfold Sized; decide) rfl

end SummitFlow.NativeRPC
