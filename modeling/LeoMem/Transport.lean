import LeoMem.Allocator
import LeoMem.Control
import LeoMem.Cache.WriteQueue

/-!
# Transports

The `Transport` interface of `transport/transport.h`, the in-process
`StubTransport`, and `PeerTransport`: what `RdmaTransport` gives its callers once
the peers are connected. One-sided accesses act on the home node's registered
region and control messages travel to the target's mailbox.
-/

namespace LeoMem
open Lib

/-- A request handed to `BatchWrite`; the buffer carries its own size. -/
structure RemoteWriteRequest where
  addr : GlobalAddr
  buf : Bytes
  mode : CoherenceMode := .kSI
  ownerBiased : Bool := false
  ownerHandoff : Bool := false
  deriving DecidableEq, Repr

/-- The operations the runtime calls, on the transport's own state `ω`. A read answers
with the bytes it copied or with the status it failed with. -/
class Transport (ω : Type) where
  read : Config → DsmAllocator → GlobalAddr → UInt64 → ω → Except Status Bytes × ω
  write : Config → DsmAllocator → GlobalAddr → Bytes → ω → Status × ω
  batchWrite : Config → DsmAllocator → List RemoteWriteRequest → ω → Status × ω
  fence : Config → ω → Status × ω
  postControlMessage : Config → ControlMessage → ω → Status × ω
  drainControlMessages : Config → Nat → ω → (Status × List ControlMessage) × ω

/-- A `BatchWrite` that issues its requests in order and stops at the first failure. -/
def batchWriteWith {ω : Type} (write : GlobalAddr → Bytes → ω → Status × ω) :
    List RemoteWriteRequest → ω → Status × ω
  | [], w => (.kOk, w)
  | req :: reqs, w =>
    let r := write req.addr req.buf w
    if r.1 ≠ .kOk then r else batchWriteWith write reqs r.2

/-- What each of its writes keeps, a batch keeps. -/
theorem batchWriteWith_keeps {ω : Type} {I : ω → Prop} {write : GlobalAddr → Bytes → ω → Status × ω}
    {reqs : List RemoteWriteRequest} (step : ∀ req ∈ reqs, ∀ w, I w → I (write req.addr req.buf w).2) {w : ω}
    (start : I w) : I (batchWriteWith write reqs w).2 := by
  induction reqs generalizing w with
  | nil => exact start
  | cons req reqs ih =>
    have first := step req List.mem_cons_self w start
    unfold batchWriteWith
    simp only
    split
    · exact first
    · exact ih (fun later member => step later (List.mem_cons_of_mem _ member)) first

/-! ## The stub -/

/-- `StubTransport` and the process-wide inboxes. `localRegion` is the region the runtime
registered, the allocator's own. The bounds check of a remote access lets some ranges
through whose sum wraps. The source then copies outside the vector; here the copy stays
inside, so what is said of bytes is said of ranges that do not wrap. -/
structure StubTransport where
  localRegion : Bytes
  remoteRegions : NodeId → Bytes := fun _ => Bytes.empty
  controlInboxes : NodeId → List ControlMessage := fun _ => []

namespace StubTransport

def init (cfg : Config) : StubTransport := { localRegion := Bytes.zeros cfg.localRegionSize }

/-- `remote_regions_[node]`, sized on first use. -/
def region (cfg : Config) (t : StubTransport) (node : NodeId) : Bytes :=
  if (t.remoteRegions node).data.isEmpty then Bytes.zeros cfg.localRegionSize else t.remoteRegions node

def setRegion (t : StubTransport) (node : NodeId) (region : Bytes) : StubTransport :=
  { t with remoteRegions := Function.update t.remoteRegions node region }

def pushInbox (t : StubTransport) (node : NodeId) (msg : ControlMessage) : StubTransport :=
  { t with controlInboxes := Function.update t.controlInboxes node (t.controlInboxes node ++ [msg]) }

def read (cfg : Config) (d : DsmAllocator) (addr : GlobalAddr) (size : UInt64) (t : StubTransport) :
    Except Status Bytes × StubTransport :=
  if addr.homeNode = cfg.nodeId then
    match d.translateLocal cfg addr size with
    | none => (.error .kOutOfRange, t)
    | some src => (.ok (t.localRegion.slice src.toNat size), t)
  else
    let region := t.region cfg addr.homeNode
    let t := t.setRegion addr.homeNode region
    if addr.offset + size > region.size then (.error .kOutOfRange, t)
    else (.ok (region.slice addr.offset.toNat size), t)

def write (cfg : Config) (d : DsmAllocator) (addr : GlobalAddr) (buf : Bytes) (t : StubTransport) :
    Status × StubTransport :=
  if addr.homeNode = cfg.nodeId then
    match d.translateLocal cfg addr buf.size with
    | none => (.kOutOfRange, t)
    | some dst => (.kOk, { t with localRegion := t.localRegion.blit dst.toNat buf })
  else
    let region := t.region cfg addr.homeNode
    let t := t.setRegion addr.homeNode region
    if addr.offset + buf.size > region.size then (.kOutOfRange, t)
    else (.kOk, t.setRegion addr.homeNode (region.blit addr.offset.toNat buf))

/-- A request to another node is answered on the spot with its acknowledgement. -/
def postControlMessage (cfg : Config) (message : ControlMessage) (t : StubTransport) : Status × StubTransport :=
  if message.targetNode ≠ cfg.nodeId ∧ isAckOpcode message.opcode = false then
    let ack :=
      { message with
        opcode := ackOpcodeFor message.opcode
        sourceNode := message.targetNode
        targetNode := message.sourceNode }
    (.kOk, t.pushInbox ack.targetNode ack)
  else (.kOk, t.pushInbox message.targetNode message)

def drainControlMessages (cfg : Config) (maxMessages : Nat) (t : StubTransport) :
    (Status × List ControlMessage) × StubTransport :=
  let inbox := t.controlInboxes cfg.nodeId
  let limit := max 1 maxMessages
  ((.kOk, inbox.take limit), { t with controlInboxes := Function.update t.controlInboxes cfg.nodeId (inbox.drop limit) })

instance : Transport StubTransport where
  read := read
  write := write
  batchWrite cfg d := batchWriteWith (write cfg d)
  fence _ t := (.kOk, t)
  postControlMessage := postControlMessage
  drainControlMessages := drainControlMessages

end StubTransport

/-! ## Connected peers -/

/-- The registered regions of all nodes, the messages on their way and the mailboxes. -/
structure PeerTransport where
  memory : NodeId → Bytes
  inFlight : List ControlMessage := []
  mailbox : NodeId → List ControlMessage := fun _ => []

namespace PeerTransport

/-- `GetPeer(node)` finds a connected peer: a node of the cluster other than this one. -/
def connected (cfg : Config) (node : NodeId) : Bool := decide (node < cfg.nrNodes) && node != cfg.nodeId

/-- `CopyLocal` for this node's own region, a one-sided read for a peer's. -/
def read (cfg : Config) (addr : GlobalAddr) (size : UInt64) (t : PeerTransport) : Except Status Bytes × PeerTransport :=
  if size = 0 then (.error .kInvalidArg, t)
  else if addr.homeNode ≠ cfg.nodeId ∧ connected cfg addr.homeNode = false then (.error .kNotFound, t)
  else if addr.offset + size > (t.memory addr.homeNode).size then (.error .kOutOfRange, t)
  else (.ok ((t.memory addr.homeNode).slice addr.offset.toNat size), t)

def write (cfg : Config) (addr : GlobalAddr) (buf : Bytes) (t : PeerTransport) : Status × PeerTransport :=
  if buf.size = 0 then (.kInvalidArg, t)
  else if addr.homeNode ≠ cfg.nodeId ∧ connected cfg addr.homeNode = false then (.kNotFound, t)
  else if addr.offset + buf.size > (t.memory addr.homeNode).size then (.kOutOfRange, t)
  else
    (.kOk,
      { t with
        memory := Function.update t.memory addr.homeNode ((t.memory addr.homeNode).blit addr.offset.toNat buf) })

def postControlMessage (cfg : Config) (message : ControlMessage) (t : PeerTransport) : Status × PeerTransport :=
  if cfg.rdmaEnableControlPath = false then (.kUnimplemented, t)
  else if connected cfg message.targetNode = false then (.kNotFound, t)
  else (.kOk, { t with inFlight := t.inFlight ++ [message] })

def drainControlMessages (cfg : Config) (maxMessages : Nat) (t : PeerTransport) :
    (Status × List ControlMessage) × PeerTransport :=
  if cfg.rdmaEnableControlPath = false then ((.kUnimplemented, []), t)
  else
    let inbox := t.mailbox cfg.nodeId
    let limit := max 1 maxMessages
    ((.kOk, inbox.take limit), { t with mailbox := Function.update t.mailbox cfg.nodeId (inbox.drop limit) })

/-- The network hands the `i`-th message on its way to its target. -/
def deliver (t : PeerTransport) (i : Nat) : PeerTransport :=
  match t.inFlight[i]? with
  | none => t
  | some msg =>
    { t with
      inFlight := t.inFlight.eraseIdx i
      mailbox := Function.update t.mailbox msg.targetNode (t.mailbox msg.targetNode ++ [msg]) }

instance : Transport PeerTransport where
  read cfg _ := read cfg
  write cfg _ := write cfg
  batchWrite cfg _ := batchWriteWith (write cfg)
  fence _ t := (.kOk, t)
  postControlMessage := postControlMessage
  drainControlMessages := drainControlMessages

end PeerTransport
end LeoMem
