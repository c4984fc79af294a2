import LeoMem.Api.Access

/-!
# `lm_fence`

`api/sync_api.cc`. `DrainControl` is a second handler for the control messages
that `ProcessPendingControlMessages` also takes: an invalidation touches no block
record here, and an owner transfer leaves the record's state alone.
-/

namespace LeoMem
open Lib RuntimeContext

/-- The stores of `DrainControl`'s owner transfer into one block's record. -/
def drainTransferMeta (msg : ControlMessage) (m : BlockMeta) : BlockMeta :=
  { m with ownerNode := msg.sourceNode, version := msg.version, mode := msg.mode }

section
variable {ω : Type} [Transport ω]

/-- The loop body of `DrainControl`. -/
def drainMessage (ord : IterOrder) (ctx : RuntimeContext ω) (msg : ControlMessage) : Status × RuntimeContext ω :=
  if isAckOpcode msg.opcode then
    (.kOk, { ctx with pendingControlAcks := ctx.pendingControlAcks.complete msg.requestId })
  else if msg.opcode = .kInvalidateRange then
    let addr : GlobalAddr :=
      { homeNode := msg.sourceNode
        regionId := msg.firstBlock.regionId
        offset := msg.firstBlock.blockIndex * ctx.config.blockSize }
    let span := (msg.lastBlock.blockIndex - msg.firstBlock.blockIndex + 1) * ctx.config.blockSize
    let ctx := ctx.setCache (ctx.cache.invalidateRange ord addr span).2
    ctx.post (msg.ack ctx.config)
  else
    let ctx := { ctx with blockTable := ctx.blockTable.modifyAll msg.blocks (drainTransferMeta msg) }
    ctx.post (msg.ack ctx.config)

/-- The loop of `DrainControl`. -/
def drainMessages (ord : IterOrder) (ctx : RuntimeContext ω) : List ControlMessage → Status × RuntimeContext ω
  | [] => (.kOk, ctx)
  | msg :: msgs =>
    let r := drainMessage ord ctx msg
    if postFailed r.1 then r else drainMessages ord r.2 msgs

/-- `DrainControl`; its retry loop is that of `DrivePendingControlAcks`. -/
def drainControl (ord : IterOrder) (ctx : RuntimeContext ω) : Status × RuntimeContext ω :=
  let drained := Transport.drainControlMessages ctx.config 64 ctx.transport
  let ctx := { ctx with transport := drained.2 }
  if postFailed drained.1.1 then (drained.1.1, ctx)
  else
    let r := drainMessages ord ctx drained.1.2
    if r.1 ≠ .kOk then r else drivePendingControlAcks ord r.2

/-- The flush loop of `lm_fence`. -/
def flushDestinations (ctx : RuntimeContext ω) : List NodeId → Status × RuntimeContext ω
  | [] => (.kOk, ctx)
  | node :: nodes =>
    let r := flushDestination ctx node
    if r.1 ≠ .kOk then r else flushDestinations r.2 nodes

def lmFence (ord : IterOrder) (ctx : RuntimeContext ω) : Status × RuntimeContext ω :=
  if ctx.initialized = false then (.kNotInitialized, ctx)
  else
    let ctrl := drainControl ord ctx
    if ctrl.1 ≠ .kOk then ctrl
    else
      let flushed := flushDestinations ctrl.2 (ctrl.2.queues.pendingDestinations ord)
      if flushed.1 ≠ .kOk then flushed
      else
        let fence := Transport.fence flushed.2.config flushed.2.transport
        let ctx := { flushed.2 with transport := fence.2 }
        if fence.1 ≠ .kOk then (fence.1, ctx) else drainControl ord ctx

end
end LeoMem
