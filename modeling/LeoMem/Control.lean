import LeoMem.Types
import LeoMem.Lib.IterOrder

/-!
# Control messages and their acknowledgements

The message type of `transport/transport.h`, the opcode helpers that
`access_api.cc`, `sync_api.cc` and `transport_stub.cc` each repeat, and the
pending acknowledgements of `runtime/context.cc`.
-/

namespace LeoMem
open Lib

inductive ControlOpcode where
  | kInvalidateRange
  | kOwnerTransfer
  | kInvalidateAck
  | kOwnerTransferAck
  deriving DecidableEq, Repr

structure ControlMessage where
  opcode : ControlOpcode := .kInvalidateRange
  sourceNode : NodeId := kInvalidNodeId
  targetNode : NodeId := kInvalidNodeId
  requestId : UInt64 := 0
  firstBlock : BlockId := {}
  lastBlock : BlockId := {}
  version : Version := 0
  mode : CoherenceMode := .kSI
  deriving DecidableEq, Repr

def isAckOpcode (opcode : ControlOpcode) : Bool :=
  opcode = .kInvalidateAck || opcode = .kOwnerTransferAck

def ackOpcodeFor : ControlOpcode → ControlOpcode
  | .kInvalidateRange => .kInvalidateAck
  | .kOwnerTransfer => .kOwnerTransferAck
  | .kInvalidateAck => .kInvalidateAck
  | .kOwnerTransferAck => .kOwnerTransferAck

@[simp] theorem isAckOpcode_ackOpcodeFor (opcode : ControlOpcode) : isAckOpcode (ackOpcodeFor opcode) = true := by
  cases opcode <;> rfl

/-- The blocks a request names, as the per-block loops of the handlers visit them. -/
def ControlMessage.blocks (msg : ControlMessage) : List BlockId :=
  (blockIndices msg.firstBlock.blockIndex msg.lastBlock.blockIndex).map fun index => ⟨msg.firstBlock.regionId, index⟩

structure PendingControlAck where
  message : ControlMessage
  pollsRemaining : UInt64 := 0
  retriesRemaining : UInt64 := 0
  deriving DecidableEq, Repr

/-- `pending_control_acks_`. -/
abbrev PendingControlAcks := HashMap UInt64 PendingControlAck

namespace PendingControlAcks

/-- `TrackPendingControlAck(const ControlMessage&)`. -/
def track (cfg : Config) (acks : PendingControlAcks) (message : ControlMessage) : PendingControlAcks :=
  if message.requestId = 0 then acks
  else acks.insert message.requestId ⟨message, cfg.controlAckTimeoutPolls, cfg.controlAckMaxRetries⟩

/-- `CompleteControlAck`. -/
def complete (acks : PendingControlAcks) (requestId : UInt64) : PendingControlAcks :=
  if requestId = 0 then acks else acks.erase requestId

/-- The loop of `AdvanceControlAckTimeouts` over the entries still to visit. A request out
of retries stops it, with the entries before it already advanced. -/
def advanceLoop (cfg : Config) :
    List (Sigma fun _ : UInt64 => PendingControlAck) → List ControlMessage → PendingControlAcks →
      Status × List ControlMessage × PendingControlAcks
  | [], retries, acks => (.kOk, retries, acks)
  | e :: es, retries, acks =>
    if e.2.pollsRemaining > 0 then
      advanceLoop cfg es retries (acks.insert e.1 { e.2 with pollsRemaining := e.2.pollsRemaining - 1 })
    else if e.2.retriesRemaining = 0 then (.kTimedOut, retries, acks)
    else
      advanceLoop cfg es (retries ++ [e.2.message])
        (acks.insert e.1
          { e.2 with
            retriesRemaining := e.2.retriesRemaining - 1
            pollsRemaining := cfg.controlAckTimeoutPolls })

/-- `AdvanceControlAckTimeouts`: its status, the messages to send again, the updated map. -/
def advance (ord : IterOrder) (cfg : Config) (acks : PendingControlAcks) :
    Status × List ControlMessage × PendingControlAcks :=
  advanceLoop cfg (ord.arrange acks.entries) [] acks

theorem lookup_track (cfg : Config) (acks : PendingControlAcks) (message : ControlMessage) (id : UInt64) :
    (acks.track cfg message).lookup id =
      if id = message.requestId ∧ message.requestId ≠ 0 then
        some ⟨message, cfg.controlAckTimeoutPolls, cfg.controlAckMaxRetries⟩
      else acks.lookup id := by
  unfold PendingControlAcks.track
  by_cases zero : message.requestId = 0
  · simp [zero]
  · rw [if_neg zero, HashMap.lookup_insert_if]
    simp [zero]

theorem lookup_complete (acks : PendingControlAcks) (requestId id : UInt64) :
    (acks.complete requestId).lookup id = if id = requestId ∧ requestId ≠ 0 then none else acks.lookup id := by
  unfold PendingControlAcks.complete
  by_cases zero : requestId = 0
  · simp [zero]
  · rw [if_neg zero, HashMap.lookup_erase_if]
    simp [zero]

/-! ### What holds of every pending request -/

/-- `P` holds of every pending request and its id. -/
def Each (P : UInt64 → ControlMessage → Prop) (acks : PendingControlAcks) : Prop :=
  ∀ id e, acks.lookup id = some e → P id e.message

namespace Each
variable {P : UInt64 → ControlMessage → Prop} {acks : PendingControlAcks}

theorem insert (each : Each P acks) {id : UInt64} {e : PendingControlAck} (new : P id e.message) :
    Each P (acks.insert id e) := by
  intro k found held
  rw [HashMap.lookup_insert_if] at held
  split at held
  · rename_i same
    cases held
    exact same ▸ new
  · exact each k found held

theorem track (each : Each P acks) (cfg : Config) {msg : ControlMessage} (new : P msg.requestId msg) :
    Each P (acks.track cfg msg) := by
  unfold PendingControlAcks.track
  split
  · exact each
  · exact each.insert new

theorem complete (each : Each P acks) (id : UInt64) : Each P (acks.complete id) := by
  intro k found held
  rw [lookup_complete] at held
  split at held
  · cases held
  · exact each k found held

theorem advanceLoop (cfg : Config) (es : List (Sigma fun _ : UInt64 => PendingControlAck))
    (visited : ∀ e ∈ es, P e.1 e.2.message) {retries : List ControlMessage} (retried : ∀ msg ∈ retries, ∃ id, P id msg)
    (each : Each P acks) :
    (∀ msg ∈ (PendingControlAcks.advanceLoop cfg es retries acks).2.1, ∃ id, P id msg) ∧
      Each P (PendingControlAcks.advanceLoop cfg es retries acks).2.2 := by
  induction es generalizing retries acks with
  | nil => exact ⟨retried, each⟩
  | cons e es ih =>
    have here := visited e List.mem_cons_self
    have rest : ∀ e ∈ es, P e.1 e.2.message := fun later member => visited later (List.mem_cons_of_mem _ member)
    unfold PendingControlAcks.advanceLoop
    split
    · exact ih rest retried (each.insert here)
    · split
      · exact ⟨retried, each⟩
      · refine ih rest (fun msg member => ?_) (each.insert here)
        rcases List.mem_append.mp member with old | new
        · exact retried msg old
        · rw [List.mem_singleton.mp new]
          exact ⟨e.1, here⟩

/-- `AdvanceControlAckTimeouts` sends pending requests again, and changes no message. -/
theorem advance (each : Each P acks) (ord : IterOrder) (cfg : Config) :
    (∀ msg ∈ (acks.advance ord cfg).2.1, ∃ id, P id msg) ∧ Each P (acks.advance ord cfg).2.2 :=
  advanceLoop cfg _ (fun e member => each e.1 e.2 (HashMap.lookup_of_mem_arrange member)) (by simp) each

end Each
end PendingControlAcks

end LeoMem
