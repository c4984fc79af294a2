import LeoMem.Runtime

/-!
# `lm_read` and `lm_write`

`api/access_api.cc`. A buffer is a byte vector, so the source's null checks have
no counterpart, and an access size is the size of its buffer. The functions
thread the context through their steps in the order of the source.

`lmRead` and `lmWrite` are calls that return. `PrepareMetadata` first reserves room for
its pointers, and throws where a wrapped range counts more blocks than a vector can
hold (`lmWriteOrThrow`).
-/

namespace LeoMem
open Lib RuntimeContext

def resolveBlockRange (cfg : Config) (addr : GlobalAddr) (size : UInt64) : BlockRange :=
  let firstIndex := addr.offset / cfg.blockSize
  let lastIndex := (addr.offset + size - 1) / cfg.blockSize
  { first := ⟨addr.regionId, firstIndex⟩
    last := ⟨addr.regionId, lastIndex⟩
    count := lastIndex - firstIndex + 1 }

/-- The allocator's copy gives the same range wherever it answers. -/
theorem DsmAllocator.resolveBlockRange_eq_some {cfg : Config} {d : DsmAllocator} {addr : GlobalAddr} {size : UInt64}
    {range : BlockRange} : d.resolveBlockRange cfg addr size = some range ↔
      d.validateRangeUnlocked cfg addr size = true ∧ range = LeoMem.resolveBlockRange cfg addr size := by
  unfold DsmAllocator.resolveBlockRange
  split
  · rename_i valid
    rw [Option.some_inj, eq_comm]
    exact (and_iff_right valid).symm
  · rename_i invalid
    simp [invalid]

def validateAndResolveRange (cfg : Config) (d : DsmAllocator) (addr : GlobalAddr) (size : UInt64) :
    Except Status BlockRange :=
  if size = 0 ∨ cfg.blockSize = 0 then .error .kInvalidArg
  else if addr.homeNode = cfg.nodeId then
    match d.resolveBlockRange cfg addr size with
    | none => .error .kOutOfRange
    | some range => .ok range
  else .ok (resolveBlockRange cfg addr size)

/-- The stores of `PrepareMetadata` into one block's record. -/
def prepareMeta (cfg : Config) (addr : GlobalAddr) (type : AccessType) (m : BlockMeta) : BlockMeta :=
  if addr.homeNode = cfg.nodeId then
    { m with
      state := .kHome
      ownerNode := cfg.nodeId
      version := if type = .kWrite then m.version + 1 else m.version }
  else
    { m with
      ownerNode := if m.ownerNode = kInvalidNodeId then addr.homeNode else m.ownerNode
      state := if m.state = .kHome then .kShared else m.state }

/-- `std::vector<std::shared_ptr<BlockMeta>>::max_size()`: `PTRDIFF_MAX` bytes of pointers of sixteen. -/
def metasMaxSize : UInt64 := 0x7ffffffffffffff

/-- `metas.reserve(range.count)`, with which `PrepareMetadata` begins, throws `std::length_error`. -/
def reserveThrows (range : BlockRange) : Bool := metasMaxSize < range.count

/-- `PrepareMetadata` past its `reserve`; the returned pointers are `range.ids addr.regionId`. -/
def prepareMetadata (cfg : Config) (t : BlockTable) (range : BlockRange) (addr : GlobalAddr) (type : AccessType) :
    BlockTable :=
  t.modifyAll (range.ids addr.regionId) (prepareMeta cfg addr type)

/-- What `ObserveMetas` threads through its loop. -/
structure Observation where
  accessEpoch : UInt64
  table : BlockTable
  stats : StatsCollector

def observeMetas (cfg : Config) (type : AccessType) (isLocal : Bool) :
    List BlockId → Observation → List CoherenceMode × Observation
  | [], o => ([], o)
  | bid :: bids, o =>
    let before := (o.table.get bid).mode
    let r := observeAccess cfg o.accessEpoch (o.table.get bid) type isLocal
    let o :=
      { accessEpoch := r.2.1
        table := o.table.modify bid fun _ => r.2.2
        stats := o.stats.recordCoherenceMode r.1 (before ≠ r.1) }
    let rest := observeMetas cfg type isLocal bids o
    (r.1 :: rest.1, rest.2)

/-- `ShouldAdmitCached`, with the admission marks it leaves. -/
def shouldAdmitCached (cfg : Config) (t : BlockTable) (metas : List BlockId) : Bool × BlockTable :=
  if metas.isEmpty then (false, t)
  else if metas.all fun bid => shouldCache cfg (t.get bid) then
    (true, t.modifyAll metas fun m => { m with cacheAdmitted := true })
  else (false, t)

def hasMode (modes : List CoherenceMode) (target : CoherenceMode) : Bool := modes.any fun mode => mode = target

def mostAggressiveBatchThreshold (cfg : Config) (modes : List CoherenceMode) : UInt64 :=
  modes.foldl (fun threshold mode => min threshold (effectiveBatchThreshold cfg mode)) (effectiveBatchThreshold cfg .kSI)

def blockRangeBaseAddr (cfg : Config) (range : BlockRange) (homeNode : NodeId) : GlobalAddr :=
  { homeNode := homeNode, regionId := range.first.regionId, offset := range.first.blockIndex * cfg.blockSize }

def blockRangeSize (cfg : Config) (range : BlockRange) : UInt64 := range.count * cfg.blockSize

/-- The range a request names. -/
def ControlMessage.range (msg : ControlMessage) : BlockRange :=
  { first := msg.firstBlock
    last := msg.lastBlock
    count := msg.lastBlock.blockIndex - msg.firstBlock.blockIndex + 1 }

/-- The acknowledgement a handler sends back. -/
def ControlMessage.ack (cfg : Config) (msg : ControlMessage) : ControlMessage :=
  { msg with
    opcode := ackOpcodeFor msg.opcode
    sourceNode := cfg.nodeId
    targetNode := msg.sourceNode }

section
variable {ω : Type} [Transport ω]

def drivePendingControlAcks (ord : IterOrder) (ctx : RuntimeContext ω) : Status × RuntimeContext ω :=
  let r := ctx.pendingControlAcks.advance ord ctx.config
  let ctx := { ctx with pendingControlAcks := r.2.2 }
  if r.1 ≠ .kOk then (r.1, ctx) else ctx.postAll r.2.1

/-- The stores of the `kInvalidateRange` handler into one block's record. -/
def invalidateMeta (msg : ControlMessage) (m : BlockMeta) : BlockMeta :=
  { m with version := msg.version, state := .kInvalid, mode := msg.mode }

/-- The stores of the `kOwnerTransfer` handler into one block's record. -/
def transferMeta (msg : ControlMessage) (m : BlockMeta) : BlockMeta :=
  { m with ownerNode := msg.sourceNode, version := msg.version, mode := msg.mode, state := .kOwner }

/-- The loop body of `ProcessPendingControlMessages`. -/
def processMessage (ord : IterOrder) (ctx : RuntimeContext ω) (msg : ControlMessage) : Status × RuntimeContext ω :=
  if isAckOpcode msg.opcode then
    (.kOk, { ctx with pendingControlAcks := ctx.pendingControlAcks.complete msg.requestId })
  else
    let base := blockRangeBaseAddr ctx.config msg.range msg.sourceNode
    let span := blockRangeSize ctx.config msg.range
    match msg.opcode with
    | .kInvalidateRange =>
      let ctx := ctx.setCache (ctx.cache.invalidateRange ord base span).2
      let ctx := { ctx with blockTable := ctx.blockTable.modifyAll msg.blocks (invalidateMeta msg) }
      ctx.post (msg.ack ctx.config)
    | .kOwnerTransfer =>
      let ctx := { ctx with blockTable := ctx.blockTable.modifyAll msg.blocks (transferMeta msg) }
      ctx.post (msg.ack ctx.config)
    | _ => (.kOk, ctx)

/-- The loop of `ProcessPendingControlMessages`; a failed post leaves the rest unhandled. -/
def processMessages (ord : IterOrder) (ctx : RuntimeContext ω) : List ControlMessage → Status × RuntimeContext ω
  | [] => (.kOk, ctx)
  | msg :: msgs =>
    let r := processMessage ord ctx msg
    if postFailed r.1 then r else processMessages ord r.2 msgs

def processPendingControlMessages (ord : IterOrder) (ctx : RuntimeContext ω) : Status × RuntimeContext ω :=
  let drained := Transport.drainControlMessages ctx.config 64 ctx.transport
  let ctx := { ctx with transport := drained.2 }
  if postFailed drained.1.1 then (drained.1.1, ctx)
  else
    let r := processMessages ord ctx drained.1.2
    if r.1 ≠ .kOk then r else drivePendingControlAcks ord r.2

def dominantOwnerNode (t : BlockTable) (metas : List BlockId) (fallback : NodeId) : NodeId :=
  match metas with
  | [] => fallback
  | bid :: bids =>
    let owner := (t.get bid).ownerNode
    if owner = kInvalidNodeId then fallback
    else if bids.all fun bid => (t.get bid).ownerNode = owner then owner
    else fallback

def maxObservedVersion (t : BlockTable) (metas : List BlockId) : Version :=
  metas.foldl (fun version bid => max version (t.get bid).version) 0

def allMetasValidated (t : BlockTable) (metas : List BlockId) : Bool :=
  metas.all fun bid => !decide ((t.get bid).lastValidatedVersion < (t.get bid).version)

def markReadValidated (t : BlockTable) (metas : List BlockId) : BlockTable :=
  t.modifyAll metas fun m => { m with lastValidatedVersion := m.version }

/-- A read of `addr` itself at its home. -/
def readHome (ctx : RuntimeContext ω) (addr : GlobalAddr) (size : UInt64) : Except Status Bytes × RuntimeContext ω :=
  let r := Transport.read ctx.config ctx.allocator addr size ctx.transport
  (r.1, { ctx with transport := r.2 })

/-- The last step of `TryOwnerAwareRead`: the home copy validates the blocks, and invalid
ones become shared copies of it. -/
def readHomeValidating (ctx : RuntimeContext ω) (addr : GlobalAddr) (size : UInt64) (metas : List BlockId) :
    (Except Status Bytes × Bool) × RuntimeContext ω :=
  match readHome ctx addr size with
  | (.ok buf, ctx) =>
    let table := markReadValidated ctx.blockTable metas
    let table := table.modifyAll metas fun m =>
      if m.state = .kInvalid then { m with state := .kShared, ownerNode := addr.homeNode } else m
    ((.ok buf, false), { ctx with blockTable := table })
  | (.error s, ctx) => ((.error s, false), ctx)

/-- `TryOwnerAwareRead`: the answer, and whether it came from the recorded owner. -/
def tryOwnerAwareRead (ord : IterOrder) (ctx : RuntimeContext ω) (addr : GlobalAddr) (size : UInt64)
    (metas : List BlockId) : (Except Status Bytes × Bool) × RuntimeContext ω :=
  let owner := dominantOwnerNode ctx.blockTable metas addr.homeNode
  let validated := allMetasValidated ctx.blockTable metas
  if owner = ctx.config.nodeId then
    let cached := if validated then ctx.cache.tryReadCached ord addr size else (none, ctx.cache)
    let ctx := ctx.setCache cached.2
    match cached.1 with
    | some buf => ((.ok buf, true), ctx)
    | none =>
      match readHome ctx addr size with
      | (.ok buf, ctx) => ((.ok buf, false), { ctx with blockTable := markReadValidated ctx.blockTable metas })
      | (.error s, ctx) => ((.error s, false), ctx)
  else if validated = true ∧ owner ≠ kInvalidNodeId ∧ owner ≠ addr.homeNode then
    match readHome ctx { addr with homeNode := owner } size with
    | (.ok buf, ctx) => ((.ok buf, true), { ctx with blockTable := markReadValidated ctx.blockTable metas })
    | (.error _, ctx) => readHomeValidating ctx addr size metas
  else readHomeValidating ctx addr size metas

/-- `lm_read` after a read from the recorded owner: the blocks take the newest version
among them. -/
def recordOwnerRead (t : BlockTable) (metas : List BlockId) (redirected : Bool) : BlockTable :=
  if redirected then
    let ownerVersion := maxObservedVersion t metas
    t.modifyAll metas fun m => { m with state := .kOwner, version := ownerVersion }
  else t

/-- `lm_read` after a remote read that succeeded: the records of a redirected read, then
admission to the cache. -/
def admitRead (ctx : RuntimeContext ω) (addr : GlobalAddr) (buf : Bytes) (metas : List BlockId)
    (modes : List CoherenceMode) (redirected : Bool) : RuntimeContext ω :=
  let table := recordOwnerRead ctx.blockTable metas redirected
  let admission := if hasMode modes .kWI then (false, table) else shouldAdmitCached ctx.config table metas
  let ctx := ctx.setCache (if admission.1 then ctx.cache.insertCached ctx.config addr buf else ctx.cache)
  { ctx with
    blockTable := admission.2
    stats := (ctx.stats.incCacheAdmission admission.1).incRead false }

/-- The counters of a cache miss. -/
def countMiss (ctx : RuntimeContext ω) (metas : List BlockId) : RuntimeContext ω :=
  { ctx with
    stats := ctx.stats.incCacheMiss
    blockTable := ctx.blockTable.modifyAll metas fun m => { m with remoteMissCount := m.remoteMissCount + 1 } }

/-- `lm_read` of a remote home, past the metadata: cache, then owner or home. -/
def readRemote (ord : IterOrder) (ctx : RuntimeContext ω) (addr : GlobalAddr) (size : UInt64) (metas : List BlockId)
    (modes : List CoherenceMode) : Except Status Bytes × RuntimeContext ω :=
  let cached := ctx.cache.tryReadCached ord addr size
  let ctx := ctx.setCache cached.2
  match cached.1 with
  | some buf => (.ok buf, { ctx with stats := ctx.stats.incCacheHit.incRead false })
  | none =>
    match tryOwnerAwareRead ord (countMiss ctx metas) addr size metas with
    | ((.ok buf, redirected), ctx) => (.ok buf, admitRead ctx addr buf metas modes redirected)
    | ((.error s, _), ctx) => (.error s, ctx)

def readLocal (ctx : RuntimeContext ω) (addr : GlobalAddr) (size : UInt64) : Except Status Bytes × RuntimeContext ω :=
  match readHome ctx addr size with
  | (.ok buf, ctx) => (.ok buf, { ctx with stats := ctx.stats.incRead true })
  | (.error s, ctx) => (.error s, ctx)

/-- `PrepareMetadata` and `ObserveMetas` of one access: the modes and the context after them. -/
def touchMetadata (ctx : RuntimeContext ω) (addr : GlobalAddr) (range : BlockRange) (type : AccessType) :
    List CoherenceMode × RuntimeContext ω :=
  let isLocal := decide (addr.homeNode = ctx.config.nodeId)
  let table := prepareMetadata ctx.config ctx.blockTable range addr type
  let r := observeMetas ctx.config type isLocal (range.ids addr.regionId)
    ⟨ctx.cacheManager.accessEpoch, table, ctx.stats⟩
  (r.1,
    { ctx with
      cacheManager := { ctx.cacheManager with accessEpoch := r.2.accessEpoch }
      blockTable := r.2.table
      stats := r.2.stats })

/-- `lm_read` and `lm_write` up to the range: the arguments, the pending control messages,
the bounds. -/
def openAccess (ord : IterOrder) (ctx : RuntimeContext ω) (addr : GlobalAddr) (size : UInt64) :
    Except Status BlockRange × RuntimeContext ω :=
  if ctx.initialized = false then (.error .kNotInitialized, ctx)
  else if addr.isValid = false ∨ size = 0 then (.error .kInvalidArg, ctx)
  else
    let ctrl := processPendingControlMessages ord ctx
    if ctrl.1 ≠ .kOk then (.error ctrl.1, ctrl.2)
    else (validateAndResolveRange ctrl.2.config ctrl.2.allocator addr size, ctrl.2)

def lmRead (ord : IterOrder) (ctx : RuntimeContext ω) (addr : GlobalAddr) (size : UInt64) :
    Except Status Bytes × RuntimeContext ω :=
  match openAccess ord ctx addr size with
  | (.error s, ctx) => (.error s, ctx)
  | (.ok range, ctx) =>
    let touched := touchMetadata ctx addr range .kRead
    if addr.homeNode = ctx.config.nodeId then readLocal touched.2 addr size
    else readRemote ord touched.2 addr size (range.ids addr.regionId) touched.1

/-- What `ApplyWriteMetadata` threads through its loop. -/
structure WriteMetadata where
  table : BlockTable
  ownerBiased : Bool := false
  ownerHandoff : Bool := false

/-- The loop body of `ApplyWriteMetadata` at one block in its mode. -/
def applyWriteMeta (cfg : Config) (addr : GlobalAddr) (mode : CoherenceMode) (m : BlockMeta) : BlockMeta :=
  let m := { m with version := m.version + 1 }
  match mode with
  | .kWI => { m with ownerNode := addr.homeNode, state := .kShared }
  | .kAdaptive => { m with ownerNode := cfg.nodeId, ownerEpoch := m.ownerEpoch + 1, state := .kOwner }
  | .kSI => { m with state := .kShared }

def applyWriteMetadata (cfg : Config) (addr : GlobalAddr) : List (BlockId × CoherenceMode) → WriteMetadata → WriteMetadata
  | [], r => r
  | (bid, mode) :: rest, r =>
    let previousOwner := (r.table.get bid).ownerNode
    applyWriteMetadata cfg addr rest
      { table := r.table.modify bid (applyWriteMeta cfg addr mode)
        ownerBiased := r.ownerBiased || mode = .kAdaptive
        ownerHandoff := r.ownerHandoff || (mode = .kAdaptive && previousOwner ≠ cfg.nodeId) }

/-- `MakeControlMessage` with the request id it draws. -/
def makeControlMessage (cfg : Config) (requestId : UInt64) (addr : GlobalAddr) (range : BlockRange)
    (mode : CoherenceMode) (opcode : ControlOpcode) (version : Version) : ControlMessage :=
  { opcode := opcode
    sourceNode := cfg.nodeId
    targetNode := addr.homeNode
    requestId := requestId
    firstBlock := range.first
    lastBlock := range.last
    version := version
    mode := mode }

/-- `lm_write`: a request whose post succeeded is tracked until its acknowledgement. -/
def trackPosted (msg : ControlMessage) (r : Status × RuntimeContext ω) : Status × RuntimeContext ω :=
  if r.1 = .kOk then (r.1, { r.2 with pendingControlAcks := r.2.pendingControlAcks.track r.2.config msg }) else r

/-- `lm_write`: make a request, post it and track it. -/
def postRequest (ctx : RuntimeContext ω) (addr : GlobalAddr) (range : BlockRange) (mode : CoherenceMode)
    (opcode : ControlOpcode) (version : Version) : Status × RuntimeContext ω :=
  let msg := makeControlMessage ctx.config ctx.nextControlRequestId addr range mode opcode version
  let ctx := { ctx with nextControlRequestId := ctx.nextControlRequestId + 1 }
  trackPosted msg (ctx.post msg)

def PendingRemoteWrite.request (pending : PendingRemoteWrite) : RemoteWriteRequest :=
  ⟨pending.addr, pending.payload, pending.mode, pending.ownerBiased, pending.ownerHandoff⟩

/-- The statistics of one flushed batch. -/
def recordFlush (s : StatsCollector) (batch : DrainedRemoteWriteBatch) : StatsCollector :=
  let s := batch.writes.foldl (fun s pending =>
    let s := if pending.ownerBiased then s.incOwnerBiasedWrite else s
    if pending.ownerHandoff then s.incOwnerHandoff else s) s
  if batch.writes.isEmpty then s
  else s.addFlushedRemoteBatch (UInt64.ofNat batch.writes.length) batch.totalBytes

/-- `FlushDestination`; the loop body of `lm_fence` is the same code. -/
def flushDestination (ctx : RuntimeContext ω) (node : NodeId) : Status × RuntimeContext ω :=
  let drained := ctx.queues.drainRemoteWrites node
  let ctx := ctx.setQueues drained.2
  let requests := drained.1.writes.map PendingRemoteWrite.request
  let r := if requests.isEmpty then (.kOk, ctx.transport)
    else Transport.batchWrite ctx.config ctx.allocator requests ctx.transport
  let ctx := { ctx with transport := r.2 }
  if r.1 ≠ .kOk then (r.1, ctx)
  else (.kOk, { ctx with stats := recordFlush ctx.stats drained.1 })

/-- `lm_write` with batching off: the write goes to the transport at once. -/
def writeThrough (ctx : RuntimeContext ω) (addr : GlobalAddr) (buf : Bytes) (isLocal : Bool) : Status × RuntimeContext ω :=
  let r := Transport.write ctx.config ctx.allocator addr buf ctx.transport
  let ctx := { ctx with transport := r.2 }
  if r.1 = .kOk then (.kOk, { ctx with stats := ctx.stats.incWrite isLocal }) else (r.1, ctx)

def dominantMode (modes : List CoherenceMode) : CoherenceMode :=
  if hasMode modes .kWI then .kWI else if hasMode modes .kAdaptive then .kAdaptive else .kSI

/-- `lm_write` with batching on, up to the flush: queue the write and keep a copy of an
owner-biased one. -/
def stageWrite (ctx : RuntimeContext ω) (addr : GlobalAddr) (buf : Bytes) (modes : List CoherenceMode)
    (ownerBiased ownerHandoff : Bool) : RuntimeContext ω :=
  let queued := ctx.queues.queueRemoteWrite ctx.config addr buf (dominantMode modes) ownerBiased ownerHandoff
  let ctx := ctx.setQueues queued.2
  let stats := ctx.stats.incQueuedRemoteWrite
  let ctx := { ctx with stats := if queued.1 then stats.incMergedRemoteWrite else stats }
  ctx.setCache (if ownerBiased then ctx.cache.insertCached ctx.config addr buf else ctx.cache)

/-- `lm_write` with batching on: queue the write, then flush when the queue is long enough. -/
def writeBatched (ctx : RuntimeContext ω) (addr : GlobalAddr) (buf : Bytes) (modes : List CoherenceMode)
    (ownerBiased ownerHandoff : Bool) : Status × RuntimeContext ω :=
  let ctx := stageWrite ctx addr buf modes ownerBiased ownerHandoff
  let threshold := mostAggressiveBatchThreshold ctx.config modes
  let flushed := if hasMode modes .kWI || ctx.queues.shouldFlushDestination addr.homeNode threshold then
      flushDestination ctx addr.homeNode
    else (.kOk, ctx)
  if flushed.1 ≠ .kOk then flushed
  else (.kOk, { flushed.2 with stats := flushed.2.stats.incWrite false })

/-- `lm_write`: this node's own copies are invalidated, by range in WI mode and by exact key
otherwise. -/
def dropCopies (ord : IterOrder) (ctx : RuntimeContext ω) (addr : GlobalAddr) (size : UInt64)
    (modes : List CoherenceMode) : RuntimeContext ω :=
  let rangeInvalidation := hasMode modes .kWI
  let invalidated := if rangeInvalidation then ctx.cache.invalidateRange ord addr size
    else ctx.cache.invalidate addr size
  let ctx := ctx.setCache invalidated.2
  { ctx with stats := ctx.stats.addCacheInvalidations rangeInvalidation invalidated.1 }

/-- `lm_write` to a remote home, past the control messages. -/
def writeData (ord : IterOrder) (ctx : RuntimeContext ω) (addr : GlobalAddr) (buf : Bytes) (modes : List CoherenceMode)
    (ownerBiased ownerHandoff : Bool) : Status × RuntimeContext ω :=
  let ctx := dropCopies ord ctx addr buf.size modes
  if ctx.config.enableWriteBatching = false then writeThrough ctx addr buf false
  else writeBatched ctx addr buf modes ownerBiased ownerHandoff

/-- The two control messages of `lm_write`, each only when it is due. -/
def postWriteMessages (ctx : RuntimeContext ω) (addr : GlobalAddr) (range : BlockRange) (modes : List CoherenceMode)
    (ownerHandoff : Bool) (maxVersion : Version) : Status × RuntimeContext ω :=
  let invalidation := if hasMode modes .kWI then postRequest ctx addr range .kWI .kInvalidateRange maxVersion
    else (.kOk, ctx)
  if postFailed invalidation.1 then invalidation
  else if ownerHandoff then postRequest invalidation.2 addr range .kAdaptive .kOwnerTransfer maxVersion
  else (.kOk, invalidation.2)

def writeRemote (ord : IterOrder) (ctx : RuntimeContext ω) (addr : GlobalAddr) (buf : Bytes) (range : BlockRange)
    (modes : List CoherenceMode) : Status × RuntimeContext ω :=
  let metas := range.ids addr.regionId
  let applied := applyWriteMetadata ctx.config addr (metas.zip modes) { table := ctx.blockTable }
  let ctx := { ctx with blockTable := applied.table }
  let maxVersion := maxObservedVersion ctx.blockTable metas
  let posted := postWriteMessages ctx addr range modes applied.ownerHandoff maxVersion
  if postFailed posted.1 then posted
  else writeData ord posted.2 addr buf modes applied.ownerBiased applied.ownerHandoff

def lmWrite (ord : IterOrder) (ctx : RuntimeContext ω) (addr : GlobalAddr) (buf : Bytes) : Status × RuntimeContext ω :=
  match openAccess ord ctx addr buf.size with
  | (.error s, ctx) => (s, ctx)
  | (.ok range, ctx) =>
    let touched := touchMetadata ctx addr range .kWrite
    if addr.homeNode = ctx.config.nodeId then writeThrough touched.2 addr buf true
    else writeRemote ord touched.2 addr buf range touched.1

/-- `lm_write` with the exception it lets through: no status where `PrepareMetadata` cannot
reserve room for its pointers. It has touched no block then. -/
def lmWriteOrThrow (ord : IterOrder) (ctx : RuntimeContext ω) (addr : GlobalAddr) (buf : Bytes) :
    Option Status × RuntimeContext ω :=
  match openAccess ord ctx addr buf.size with
  | (.error s, ctx) => (some s, ctx)
  | (.ok range, opened) =>
    if reserveThrows range then (none, opened)
    else
      let r := lmWrite ord ctx addr buf
      (some r.1, r.2)

end
end LeoMem
