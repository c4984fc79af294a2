import LeoMem.Cluster.Origin

/-!
# A node at rest

A node with no acknowledgement to wait for and no message waiting takes nothing in. Its
writes in WI mode come down to one request each: pending and on its way when the home is
a peer, and an id spent for nothing otherwise.
-/

namespace LeoMem
open Lib RuntimeContext

/-- A node that waits for no acknowledgement and has no message waiting. -/
structure AtRest (ctx : RuntimeContext PeerTransport) : Prop where
  initialized : ctx.initialized = true
  pending : ctx.pendingControlAcks = ∅
  mailbox : ctx.transport.mailbox ctx.config.nodeId = []

/-- A write to `addr` asks its home to invalidate: WI is forced and the control path on. -/
structure Invalidates (cfg : Config) (addr : GlobalAddr) (size : UInt64) : Prop where
  forced : cfg.coherenceModeOverride = 0
  path : cfg.rdmaEnableControlPath = true
  valid : addr.isValid = true
  filled : size ≠ 0
  blocks : cfg.blockSize ≠ 0
  remote : addr.homeNode ≠ cfg.nodeId
  ids : accessIds cfg addr size ≠ []

section
variable {ctx : RuntimeContext PeerTransport} {addr : GlobalAddr} {buf : Bytes}

theorem AtRest.processPending (rest : AtRest ctx) (path : ctx.config.rdmaEnableControlPath = true) (ord : IterOrder) :
    processPendingControlMessages ord ctx = (.kOk, ctx) := by
  have taken : Transport.drainControlMessages ctx.config 64 ctx.transport = ((.kOk, []), ctx.transport) := by
    change PeerTransport.drainControlMessages ctx.config 64 ctx.transport = _
    unfold PeerTransport.drainControlMessages
    have emptied : Function.update ctx.transport.mailbox ctx.config.nodeId [] = ctx.transport.mailbox :=
      rest.mailbox ▸ Function.update_eq_self ctx.config.nodeId ctx.transport.mailbox
    simp [path, rest.mailbox, emptied]
  have driven : drivePendingControlAcks ord ctx = (.kOk, ctx) := by
    have advanced : ctx.pendingControlAcks.advance ord ctx.config = (.kOk, [], ctx.pendingControlAcks) := by
      simp [rest.pending, PendingControlAcks.advance, PendingControlAcks.advanceLoop]
    simp [drivePendingControlAcks, advanced, postAll]
  simp [processPendingControlMessages, taken, processMessages, driven, postFailed]

theorem AtRest.openAccess (rest : AtRest ctx) {size : UInt64} (access : Invalidates ctx.config addr size)
    (ord : IterOrder) :
    openAccess ord ctx addr size = (.ok (resolveBlockRange ctx.config addr size), ctx) := by
  simp [LeoMem.openAccess, rest.initialized, access.valid, access.filled, rest.processPending access.path,
    validateAndResolveRange, access.blocks, access.remote]

/-- A write in WI mode is a request, and then the data. -/
theorem writeRemote_invalidates (ord : IterOrder) (ctx : RuntimeContext PeerTransport) (addr : GlobalAddr) (buf : Bytes)
    (range : BlockRange) {modes : List CoherenceMode} (blocks : modes ≠ []) (all : ∀ mode ∈ modes, mode = .kWI) :
    ∃ table version ownerBiased,
      let posted := postRequest { ctx with blockTable := table } addr range .kWI .kInvalidateRange version
      writeRemote ord ctx addr buf range modes =
        if postFailed posted.1 then posted else writeData ord posted.2 addr buf modes ownerBiased false := by
  have invalidates : hasMode modes .kWI = true := by
    obtain ⟨mode, member⟩ := List.exists_mem_of_ne_nil _ blocks
    exact List.any_eq_true.mpr ⟨mode, member, decide_eq_true (all mode member)⟩
  have handoff (handed : (applyWriteMetadata ctx.config addr ((range.ids addr.regionId).zip modes)
      { table := ctx.blockTable }).ownerHandoff = true) : CoherenceMode.kAdaptive ∈ modes := adaptive_of_flags (Or.inr handed)
  unfold writeRemote
  simp only
  generalize applyWriteMetadata ctx.config addr ((range.ids addr.regionId).zip modes) { table := ctx.blockTable } =
    applied at handoff ⊢
  have stays : applied.ownerHandoff = false := by
    refine Bool.eq_false_iff.mpr fun handed => ?_
    cases all _ (handoff handed)
  refine ⟨applied.table, maxObservedVersion applied.table (range.ids addr.regionId), applied.ownerBiased, ?_⟩
  simp only [postWriteMessages, invalidates, stays, if_true, Bool.false_eq_true, if_false]
  generalize postRequest { ctx with blockTable := applied.table } addr range .kWI .kInvalidateRange
    (maxObservedVersion applied.table (range.ids addr.regionId)) = posted
  cases failed : postFailed posted.1 with
  | true => simp [failed]
  | false => simp [postFailed]

/-- The contexts differ in records, caches and counters only. -/
structure SameControl (ctx ctx' : RuntimeContext PeerTransport) : Prop where
  initialized : ctx'.initialized = ctx.initialized
  config : ctx'.config = ctx.config
  next : ctx'.nextControlRequestId = ctx.nextControlRequestId
  pending : ctx'.pendingControlAcks = ctx.pendingControlAcks
  transport : ctx'.transport = ctx.transport

theorem AtRest.lmWrite (rest : AtRest ctx) (access : Invalidates ctx.config addr buf.size) (ord : IterOrder) :
    ∃ sent version modes ownerBiased, SameControl ctx sent ∧
      let posted := postRequest sent addr (resolveBlockRange ctx.config addr buf.size) .kWI .kInvalidateRange version
      lmWrite ord ctx addr buf =
        if postFailed posted.1 then posted else writeData ord posted.2 addr buf modes ownerBiased false := by
  let range := resolveBlockRange ctx.config addr buf.size
  have modes : (touchMetadata ctx addr range .kWrite).1 = (accessIds ctx.config addr buf.size).map fun _ => .kWI := by
    have found := observeMetas_override ctx.config (by simp [access.forced]) (by simp [access.forced]) .kWrite
      (decide (addr.homeNode = ctx.config.nodeId)) (accessIds ctx.config addr buf.size)
      ⟨ctx.cacheManager.accessEpoch, prepareMetadata ctx.config ctx.blockTable range addr .kWrite, ctx.stats⟩
    rw [access.forced] at found
    exact found
  have blocks : (touchMetadata ctx addr range .kWrite).1 ≠ [] := by simp [modes, access.ids]
  obtain ⟨table, version, ownerBiased, wrote⟩ := writeRemote_invalidates ord (touchMetadata ctx addr range .kWrite).2 addr
    buf range blocks (by simp [modes])
  rw [lmWrite_remote (rest.openAccess access ord) access.remote]
  exact ⟨{ (touchMetadata ctx addr range .kWrite).2 with blockTable := table }, version, _, ownerBiased,
    ⟨rfl, rfl, rfl, rfl, rfl⟩, wrote⟩

theorem postRequest_unreachable (path : ctx.config.rdmaEnableControlPath = true)
    (gone : PeerTransport.connected ctx.config addr.homeNode = false) (range : BlockRange) (mode : CoherenceMode)
    (opcode : ControlOpcode) (version : Version) :
    postRequest ctx addr range mode opcode version =
      (.kNotFound, { ctx with nextControlRequestId := ctx.nextControlRequestId + 1 }) := by
  have post : ∀ msg : ControlMessage, msg.targetNode = addr.homeNode →
      Transport.postControlMessage ctx.config msg ctx.transport = (.kNotFound, ctx.transport) := by
    intro msg target
    change PeerTransport.postControlMessage ctx.config msg ctx.transport = _
    simp [PeerTransport.postControlMessage, path, target, gone]
  simp [postRequest, trackPosted, RuntimeContext.post, post, makeControlMessage]

theorem postRequest_reachable (path : ctx.config.rdmaEnableControlPath = true)
    (peer : PeerTransport.connected ctx.config addr.homeNode = true) (range : BlockRange) (mode : CoherenceMode)
    (opcode : ControlOpcode) (version : Version) :
    let msg := makeControlMessage ctx.config ctx.nextControlRequestId addr range mode opcode version
    postRequest ctx addr range mode opcode version =
      (.kOk,
        { ctx with
          nextControlRequestId := ctx.nextControlRequestId + 1
          pendingControlAcks := ctx.pendingControlAcks.track ctx.config msg
          transport := { ctx.transport with inFlight := ctx.transport.inFlight ++ [msg] } }) := by
  have post : ∀ msg : ControlMessage, msg.targetNode = addr.homeNode →
      Transport.postControlMessage ctx.config msg ctx.transport =
        (.kOk, { ctx.transport with inFlight := ctx.transport.inFlight ++ [msg] }) := by
    intro msg target
    change PeerTransport.postControlMessage ctx.config msg ctx.transport = _
    simp [PeerTransport.postControlMessage, path, target, peer]
  simp [postRequest, trackPosted, RuntimeContext.post, post, makeControlMessage]

/-- The home is no peer: the post fails, and only the id is spent. -/
theorem AtRest.lmWrite_unreachable (rest : AtRest ctx) (access : Invalidates ctx.config addr buf.size)
    (gone : PeerTransport.connected ctx.config addr.homeNode = false) (ord : IterOrder) :
    AtRest (LeoMem.lmWrite ord ctx addr buf).2 ∧
      (LeoMem.lmWrite ord ctx addr buf).2.nextControlRequestId = ctx.nextControlRequestId + 1 ∧
      (LeoMem.lmWrite ord ctx addr buf).2.transport = ctx.transport := by
  obtain ⟨sent, version, modes, ownerBiased, same, wrote⟩ := rest.lmWrite access ord
  obtain ⟨initialized, config, next, pending, transport⟩ := same
  rw [← config] at gone
  rw [wrote, postRequest_unreachable (config ▸ access.path) gone]
  refine ⟨⟨initialized.trans rest.initialized, pending.trans rest.pending, ?_⟩, congrArg (· + 1) next, transport⟩
  change sent.transport.mailbox sent.config.nodeId = []
  rw [transport, config]
  exact rest.mailbox

/-- The home is a peer: the request is on its way and pending. -/
theorem AtRest.lmWrite_reachable (rest : AtRest ctx) (access : Invalidates ctx.config addr buf.size)
    (peer : PeerTransport.connected ctx.config addr.homeNode = true) (ord : IterOrder) :
    ∃ version,
      let msg := makeControlMessage ctx.config ctx.nextControlRequestId addr
        (resolveBlockRange ctx.config addr buf.size) .kWI .kInvalidateRange version
      (LeoMem.lmWrite ord ctx addr buf).2.initialized = true ∧
        (LeoMem.lmWrite ord ctx addr buf).2.pendingControlAcks = PendingControlAcks.track ctx.config ∅ msg ∧
        (LeoMem.lmWrite ord ctx addr buf).2.transport.wires =
          (ctx.transport.inFlight ++ [msg], ctx.transport.mailbox) := by
  obtain ⟨sent, version, modes, ownerBiased, same, wrote⟩ := rest.lmWrite access ord
  obtain ⟨initialized, config, next, pending, transport⟩ := same
  rw [← config] at peer
  rw [wrote, postRequest_reachable (config ▸ access.path) peer]
  have data := writeData_wrote ord
    (postRequest sent addr (resolveBlockRange ctx.config addr buf.size) .kWI .kInvalidateRange version).2 addr access.filled
    modes ownerBiased false
  rw [postRequest_reachable (config ▸ access.path) peer] at data
  refine ⟨version, data.same.initialized.trans (initialized.trans rest.initialized), data.same.acks.trans ?_,
    (data.moved.keeps PeerTransport.writeKeeps_wires).trans ?_⟩
  · simp only [config, next, pending, rest.pending]
  · simp only [PeerTransport.wires, config, next, transport]

end
end LeoMem
