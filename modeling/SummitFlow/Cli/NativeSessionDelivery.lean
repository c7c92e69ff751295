import SummitFlow.ForStd.Framing
import SummitFlow.ForStd.Json

/-!
# Native session delivery

Model of `NativeRPC.receive` of `backend/cli/lib/native_session_delivery.py`, without the
deadline.  The reads are what `os.read` gives, one after the other: an empty one when the
peer has closed its output, and after the last one the call waits.

`json.loads` is a parameter, and so is how a float compares with an integer.
-/

namespace SummitFlow.NativeRPC

/-- `MAX_RECEIPT_BYTES`. -/
def maxReceiptBytes : Nat := 16384

def newline : UInt8 := 10

structure NativeQueueError where
  reason : String
  uncertain : Bool
deriving DecidableEq, Repr

/-- How a call ends that gives no reply; `ε` is what `json.loads` raises. -/
inductive Stop (ε : Type) where
  | queue (e : NativeQueueError)
  | loads (e : ε)
  | waiting

/-- The buffer of a connection and the reads to come. -/
structure State where
  pending : List UInt8
  reads : List (List UInt8)

/-- `value == n` for an integer. -/
def equalsInt (floatEquals : Json.FloatLiteral → Int → Bool) (n : Int) : Json.Value → Bool
  | .int m => m == n
  | .bool b => (if b then 1 else 0) == n
  | .float x => floatEquals x n
  | _ => false

/-- `isinstance(wire, dict) and wire.get("id") == identifier`. -/
def isReply (floatEquals : Json.FloatLiteral → Int → Bool) (identifier : Int) : Json.Value → Bool
  | .obj entries => equalsInt floatEquals identifier ((entries.lookup "id").getD .null)
  | _ => false

section

variable {ε : Type} (loads : List UInt8 → Except ε Json.Value)
  (floatEquals : Json.FloatLiteral → Int → Bool) (dispatched : Bool) (identifier : Int)

/-- The inner loop of `receive`: the reply, if it is in the buffer, and what is left there. -/
def scan (pending : List UInt8) : Except (Stop ε) (Option Json.Value × List UInt8) :=
  match hcut : Framing.cut newline pending with
  | none => .ok (none, pending)
  | some (line, rest) =>
    if line.length > maxReceiptBytes then
      .error (.queue ⟨"native_rpc_receipt_oversized", dispatched⟩)
    else
      match loads line with
      | .error e => .error (.loads e)
      | .ok wire =>
        if isReply floatEquals identifier wire then .ok (some wire, rest) else scan rest
termination_by pending.length
decreasing_by
  have hlength := Framing.length_of_cut hcut
  omega

/-- `receive`. -/
def receive : List (List UInt8) → List UInt8 → Except (Stop ε) (Json.Value × State)
  | reads, pending =>
    match scan loads floatEquals dispatched identifier pending with
    | .error e => .error e
    | .ok (some wire, rest) => .ok (wire, ⟨rest, reads⟩)
    | .ok (none, pending) =>
      match reads with
      | [] => .error .waiting
      | chunk :: reads =>
        if chunk.isEmpty then .error (.queue ⟨"native_rpc_closed", dispatched⟩)
        else
          let pending := pending ++ chunk
          if pending.length > maxReceiptBytes ∧
              (newline ∉ pending ∨ pending.idxOf newline > maxReceiptBytes) then
            .error (.queue ⟨"native_rpc_receipt_oversized", dispatched⟩)
          else receive reads pending

end

/-- The results of successive calls, up to the first one that gives no reply; a call is given
    its identifier and whether the instruction was dispatched before. -/
def receives {ε : Type} (loads : List UInt8 → Except ε Json.Value)
    (floatEquals : Json.FloatLiteral → Int → Bool) :
    List (Int × Bool) → State → List (Except (Stop ε) Json.Value)
  | [], _ => []
  | (identifier, dispatched) :: calls, rpc =>
    match receive loads floatEquals dispatched identifier rpc.reads rpc.pending with
    | .error e => [.error e]
    | .ok (wire, rpc) => .ok wire :: receives loads floatEquals calls rpc

end SummitFlow.NativeRPC
