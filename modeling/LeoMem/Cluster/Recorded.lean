import LeoMem.Cluster.Ownership

/-!
# Who can be recorded as an owner

A node records as the owner of a block itself, the home of one of its own accesses,
or the source of a transfer it takes in. `Candidates` is any bound on the last two, and
`OwnersKnown` says that a node's records, its requests and the network it sees keep
within it. Every call does, so what a node can be redirected to is decided by the
accesses of the run alone.
-/

namespace LeoMem
open Lib RuntimeContext

/-- At a node, the peers that may come to be recorded as the owner of a block. -/
abbrev Candidates := NodeId → BlockId → NodeId → Prop

/-- The record of block `b` at node `n` names no owner, the node itself or a candidate. -/
def OwnerIn (K : Candidates) (n : NodeId) (b : BlockId) (m : BlockMeta) : Prop :=
  m.ownerNode = kInvalidNodeId ∨ m.ownerNode = n ∨ K n b m.ownerNode

/-- If the message is a transfer, its source is a candidate for its blocks at `m`. -/
def ControlMessage.HandsTo (K : Candidates) (m : NodeId) (msg : ControlMessage) : Prop :=
  msg.opcode = .kOwnerTransfer → ∀ b ∈ msg.blocks, K m b msg.sourceNode

/-- A context of node `n` that knows of candidates only. -/
structure OwnersKnown (K : Candidates) (n : NodeId) (ctx : RuntimeContext PeerTransport) : Prop where
  node : ctx.config.nodeId = n
  owners : ∀ b, OwnerIn K n b (ctx.blockTable.get b)
  requests : ctx.pendingControlAcks.Each fun _ msg => msg.HandsTo K msg.targetNode
  inFlight : ∀ msg ∈ ctx.transport.inFlight, msg.HandsTo K msg.targetNode
  mailbox : ∀ m, ∀ msg ∈ ctx.transport.mailbox m, msg.HandsTo K m

/-- The call records candidates only, when node `n` with the options `cfg` makes it. -/
def ApiCall.Within (K : Candidates) (cfg : Config) : ApiCall → Prop
  | .read addr size => ∀ b ∈ accessIds cfg addr size, K cfg.nodeId b addr.homeNode
  | .write addr buf => ∀ b ∈ accessIds cfg addr buf.size,
      K cfg.nodeId b addr.homeNode ∧ (cfg.Adapts → K addr.homeNode b cfg.nodeId)
  | _ => True

section
variable {K : Candidates} {n : NodeId} {ctx : RuntimeContext PeerTransport} {b : BlockId}

/-! ## Records -/

theorem standingRel_ownerIn (K : Candidates) (n : NodeId) (b : BlockId) :
    StandingRel fun m m' => OwnerIn K n b m → OwnerIn K n b m' where
  standing same owner := by
    unfold OwnerIn
    rwa [same.ownerNode]
  trans first second owner := second (first owner)

theorem handlerStores_ownerIn {msg : ControlMessage} (hands : msg.HandsTo K n) (b : BlockId) :
    HandlerStores (fun m m' => OwnerIn K n b m → OwnerIn K n b m') msg b where
  invalidate _ _ _ owner := owner
  transfer opcode covers _ _ := Or.inr (Or.inr (hands opcode b covers))
  drainTransfer opcode covers _ _ := Or.inr (Or.inr (hands opcode b covers))

variable {addr : GlobalAddr} {cfg : Config}

theorem readStores_ownerIn {metas : List BlockId} (within : b ∈ metas → K n b addr.homeNode) :
    ReadStores (fun m m' => OwnerIn K n b m → OwnerIn K n b m') cfg addr metas b where
  share member _ _ := Or.inr (Or.inr (within member))
  adopt _ _ _ _ _ owner := owner

theorem prepareMeta_ownerIn (node : cfg.nodeId = n) (type : AccessType) (within : K n b addr.homeNode) {m : BlockMeta}
    (owner : OwnerIn K n b m) : OwnerIn K n b (prepareMeta cfg addr type m) := by
  unfold prepareMeta
  split
  · exact Or.inr (Or.inl node)
  · unfold OwnerIn
    simp only
    split
    · exact Or.inr (Or.inr within)
    · exact owner

theorem applyWriteMeta_ownerIn (node : cfg.nodeId = n) (mode : CoherenceMode) (within : K n b addr.homeNode) {m : BlockMeta}
    (owner : OwnerIn K n b m) : OwnerIn K n b (applyWriteMeta cfg addr mode m) := by
  cases mode with
  | kWI => exact Or.inr (Or.inr within)
  | kAdaptive => exact Or.inr (Or.inl node)
  | kSI => exact owner

namespace OwnersKnown

/-! ## Messages -/

theorem congr {ctx' : RuntimeContext PeerTransport} (known : OwnersKnown K n ctx) (config : ctx'.config = ctx.config)
    (acks : ctx'.pendingControlAcks = ctx.pendingControlAcks) (wires : ctx'.transport.wires = ctx.transport.wires)
    (owners : ∀ b, OwnerIn K n b (ctx'.blockTable.get b)) : OwnersKnown K n ctx' := by
  obtain ⟨inFlight, mailbox⟩ := Prod.mk.inj wires
  exact ⟨config ▸ known.node, owners, acks ▸ known.requests, inFlight ▸ known.inFlight, mailbox ▸ known.mailbox⟩

variable {msg : ControlMessage} {range : BlockRange}

theorem post (known : OwnersKnown K n ctx) (hands : msg.HandsTo K msg.targetNode) : OwnersKnown K n (ctx.post msg).2 := by
  have sent : ∀ sent ∈ (PeerTransport.postControlMessage ctx.config msg ctx.transport).2.inFlight,
      sent.HandsTo K sent.targetNode := by
    unfold PeerTransport.postControlMessage
    split
    · exact known.inFlight
    · split
      · exact known.inFlight
      · intro sent member
        rcases List.mem_append.mp member with old | new
        · exact known.inFlight sent old
        · rwa [List.mem_singleton.mp new]
  have mailbox : (PeerTransport.postControlMessage ctx.config msg ctx.transport).2.mailbox = ctx.transport.mailbox := by
    unfold PeerTransport.postControlMessage
    split
    · rfl
    · split <;> rfl
  exact ⟨known.node, known.owners, known.requests, sent, fun m sent member => known.mailbox m sent (mailbox ▸ member)⟩

theorem drive (known : OwnersKnown K n ctx) (ord : IterOrder) : OwnersKnown K n (drivePendingControlAcks ord ctx).2 := by
  obtain ⟨retries, requests⟩ := known.requests.advance ord ctx.config
  have advanced : OwnersKnown K n
      { ctx with pendingControlAcks := (ctx.pendingControlAcks.advance ord ctx.config).2.2 } :=
    ⟨known.node, known.owners, requests, known.inFlight, known.mailbox⟩
  unfold drivePendingControlAcks
  simp only
  split
  · exact advanced
  · refine postAll_keeps (fun _ msg member known => known.post ?_) advanced
    obtain ⟨-, hands⟩ := retries msg member
    exact hands

/-- An acknowledgement is no transfer. -/
theorem handsTo_ack (m : NodeId) : (msg.ack cfg).HandsTo K m := by
  intro transfer
  change ackOpcodeFor msg.opcode = .kOwnerTransfer at transfer
  cases opcode : msg.opcode <;> rw [opcode] at transfer <;> cases transfer

theorem handled (known : OwnersKnown K n ctx) (hands : msg.HandsTo K n) {r : Status × RuntimeContext PeerTransport}
    (handled : Handled ctx msg r) : OwnersKnown K n r.2 := by
  have owners : ∀ b, OwnerIn K n b (r.2.blockTable.get b) := fun b =>
    handled.record_rel (standingRel_ownerIn K n b) (handlerStores_ownerIn hands b) (known.owners b)
  cases handled with
  | completed => exact ⟨known.node, owners, known.requests.complete _, known.inFlight, known.mailbox⟩
  | acknowledged request within recorded =>
    refine post ?_ (handsTo_ack _)
    exact known.congr rfl rfl rfl owners
  | ignored => exact known

theorem taken (known : OwnersKnown K n ctx) : OwnersKnown K n (takeMessages ctx) where
  node := known.node
  owners := known.owners
  requests := known.requests
  inFlight msg member := known.inFlight msg (PeerTransport.drain_inFlight ctx.config 64 ctx.transport ▸ member)
  mailbox m msg member := known.mailbox m msg (PeerTransport.drain_mailbox ctx.config 64 ctx.transport m member)

theorem takenMessages (known : OwnersKnown K n ctx) (member : msg ∈ takenMessages ctx) : msg.HandsTo K n :=
  known.mailbox n msg (known.node ▸ List.mem_of_mem_take (PeerTransport.mem_drained member))

theorem openAccess (known : OwnersKnown K n ctx) (ord : IterOrder) (addr : GlobalAddr) (size : UInt64) :
    OwnersKnown K n (openAccess ord ctx addr size).2 :=
  openAccess_keeps known known.taken
    (fun c msg member held => held.handled (known.takenMessages member) (handled_processMessage ord c msg))
    (fun _ held => held.drive ord) addr size

theorem drainControl (known : OwnersKnown K n ctx) (ord : IterOrder) : OwnersKnown K n (drainControl ord ctx).2 :=
  drainControl_keeps known.taken
    (fun c msg member held => held.handled (known.takenMessages member) (handled_drainMessage ord c msg))
    (fun _ held => held.drive ord)

/-! ## Accesses -/

theorem touch (known : OwnersKnown K n ctx) (type : AccessType)
    (within : ∀ b ∈ range.ids addr.regionId, K n b addr.homeNode) : OwnersKnown K n (touchMetadata ctx addr range type).2 :=
  known.congr rfl rfl rfl fun b =>
    touchMetadata_rel (standingRel_ownerIn K n b) ctx addr range type
      (fun member owner => prepareMeta_ownerIn known.node type (within b member) owner) (known.owners b)

/-- The blocks of an opened access are those the call names. -/
theorem within_opened {ord : IterOrder} {size : UInt64} {c : RuntimeContext PeerTransport}
    (opened : LeoMem.openAccess ord ctx addr size = (.ok range, c)) (config : c.config = ctx.config) :
    range.ids addr.regionId = accessIds ctx.config addr size := by
  rw [openAccess_range opened, config]
  rfl

theorem lmRead (known : OwnersKnown K n ctx) (ord : IterOrder) {size : UInt64}
    (within : (ApiCall.read addr size).Within K ctx.config) : OwnersKnown K n (lmRead ord ctx addr size).2 := by
  have control := controlStep_openAccess controlKeeps_noObs ctx ord addr size
  refine lmRead_rule (I := fun c => c.config = ctx.config ∧ OwnersKnown K n c) (J := fun r => OwnersKnown K n r.2)
    ⟨control.config, known.openAccess ord addr size⟩ (fun _ _ _ held => held.2) (fun c range opened _ held => ?_)
    (fun c range opened _ held => ?_)
  all_goals
    have inside : ∀ b ∈ range.ids addr.regionId, K n b addr.homeNode := by
      rw [within_opened opened held.1, ← known.node]
      exact within
    have touched := held.2.touch .kRead inside
  · obtain ⟨frame, -, table, -⟩ := readLocal_spec _ (PeerTransport.readKeeps_wires _) addr size
    exact touched.congr frame.config frame.acks frame.transport (table ▸ touched.owners)
  · have frame := readRemote_frame (touchMetadata c addr range .kRead).2 (PeerTransport.readKeeps_wires _) ord addr
      size (range.ids addr.regionId) (touchMetadata c addr range .kRead).1
    refine touched.congr frame.config frame.acks frame.transport fun b => ?_
    exact readRemote_rel (standingRel_ownerIn K n b) ord _ addr size (range.nodup_ids _) _
      (readStores_ownerIn (inside b)) (touched.owners b)

theorem postRequest (known : OwnersKnown K n ctx) {mode : CoherenceMode} {opcode : ControlOpcode} {version : Version}
    (hands : ∀ id, (makeControlMessage ctx.config id addr range mode opcode version).HandsTo K addr.homeNode) :
    OwnersKnown K n (postRequest ctx addr range mode opcode version).2 := by
  have numbered : OwnersKnown K n { ctx with nextControlRequestId := ctx.nextControlRequestId + 1 } :=
    known.congr rfl rfl rfl known.owners
  have posted := numbered.post (hands ctx.nextControlRequestId)
  unfold LeoMem.postRequest trackPosted
  simp only
  split
  · exact ⟨posted.node, posted.owners, posted.requests.track _ (hands _), posted.inFlight, posted.mailbox⟩
  · exact posted

theorem postWriteMessages (known : OwnersKnown K n ctx) {modes : List CoherenceMode} {ownerHandoff : Bool}
    {maxVersion : Version} (hands : ownerHandoff = true → ∀ id,
      (makeControlMessage ctx.config id addr range .kAdaptive .kOwnerTransfer maxVersion).HandsTo K addr.homeNode) :
    OwnersKnown K n (postWriteMessages ctx addr range modes ownerHandoff maxVersion).2 := by
  have invalidation : OwnersKnown K n (LeoMem.postRequest ctx addr range .kWI .kInvalidateRange maxVersion).2 :=
    known.postRequest fun _ transfer => (by cases transfer)
  have config : (LeoMem.postRequest ctx addr range .kWI .kInvalidateRange maxVersion).2.config = ctx.config :=
    (controlStep_postRequest controlKeeps_noObs.post ctx addr range _ _ _).config
  unfold LeoMem.postWriteMessages
  cases ownerHandoff with
  | false =>
    simp only [Bool.false_eq_true, if_false]
    split
    · split <;> exact invalidation
    · split <;> exact known
  | true =>
    simp only [if_true]
    split
    · split
      · exact invalidation
      · exact invalidation.postRequest (config ▸ hands rfl)
    · split
      · exact known
      · exact known.postRequest (hands rfl)

theorem writeRemote (known : OwnersKnown K n ctx) (ord : IterOrder) {buf : Bytes} (filled : buf.size ≠ 0)
    {modes : List CoherenceMode} (within : ∀ b ∈ range.ids addr.regionId, K n b addr.homeNode)
    (hands : CoherenceMode.kAdaptive ∈ modes → ∀ id version,
      (makeControlMessage ctx.config id addr range .kAdaptive .kOwnerTransfer version).HandsTo K addr.homeNode) :
    OwnersKnown K n (writeRemote ord ctx addr buf range modes).2 := by
  have owners : ∀ b, OwnerIn K n b ((LeoMem.writeRemote ord ctx addr buf range modes).2.blockTable.get b) := by
    intro b
    rcases writeRemote_record ord ctx addr filled range modes b with same | ⟨mode, decided, stored⟩
    · exact same ▸ known.owners b
    · exact stored ▸ applyWriteMeta_ownerIn known.node mode (within b (List.of_mem_zip decided).1) (known.owners b)
  -- the records come from `writeRemote_record`; what is left are the messages, and data moves none of them
  have table := writeRemote_table ord ctx addr filled range modes
  let applied := applyWriteMetadata ctx.config addr ((range.ids addr.regionId).zip modes) { table := ctx.blockTable }
  have recorded : OwnersKnown K n { ctx with blockTable := applied.table } :=
    known.congr rfl rfl rfl fun b => table ▸ owners b
  let sent := (LeoMem.postWriteMessages { ctx with blockTable := applied.table } addr range modes
    applied.ownerHandoff (maxObservedVersion applied.table (range.ids addr.regionId))).2
  have posted : OwnersKnown K n sent :=
    recorded.postWriteMessages fun handoff id => hands (adaptive_of_flags (Or.inr handoff)) id _
  revert owners
  unfold LeoMem.writeRemote
  simp only
  split
  · exact fun _ => posted
  · intro owners
    have wrote := writeData_wrote ord sent addr filled modes applied.ownerBiased applied.ownerHandoff
    exact posted.congr wrote.same.config wrote.same.acks (wrote.moved.keeps PeerTransport.writeKeeps_wires) owners

theorem lmWrite (known : OwnersKnown K n ctx) (ord : IterOrder) {buf : Bytes}
    (within : (ApiCall.write addr buf).Within K ctx.config) : OwnersKnown K n (lmWrite ord ctx addr buf).2 := by
  have control := controlStep_openAccess controlKeeps_noObs ctx ord addr buf.size
  refine lmWrite_rule (I := fun c => c.config = ctx.config ∧ OwnersKnown K n c) (J := fun r => OwnersKnown K n r.2)
    ⟨control.config, known.openAccess ord addr buf.size⟩ (fun _ _ _ held => held.2) (fun c range opened _ held => ?_)
    (fun c range opened _ held => ?_)
  all_goals
    have ids := within_opened opened held.1
    have inside : ∀ b ∈ range.ids addr.regionId, K n b addr.homeNode := by
      intro b member
      rw [ids] at member
      exact known.node ▸ (within b member).1
    have touched := held.2.touch .kWrite inside
  · obtain ⟨same, -⟩ := writeThrough_same (touchMetadata c addr range .kWrite).2 addr buf true
    have written := writeThrough_written (touchMetadata c addr range .kWrite).2 addr buf true
    have wires := (congrArg (fun w => PeerTransport.wires w.2) written).trans
      (PeerTransport.writeKeeps_wires.write _ _ _ _ _)
    exact touched.congr same.config same.acks wires (same.table ▸ touched.owners)
  · refine touched.writeRemote ord (openAccess_filled opened) inside fun adaptive id version _ b member => ?_
    obtain ⟨m, decided⟩ := observeMetas_decided adaptive
    have adapts : ctx.config.Adapts := held.1 ▸ adapts_of_decided decided
    have named : b ∈ accessIds ctx.config addr buf.size := by
      rw [← ids, openAccess_range opened]
      rw [openAccess_range opened] at member
      exact member
    have source : K addr.homeNode b ctx.config.nodeId := (within b named).2 adapts
    rw [← held.1] at source
    exact source

theorem lmFence (known : OwnersKnown K n ctx) (ord : IterOrder) : OwnersKnown K n (lmFence ord ctx).2 := by
  refine lmFence_keeps (fun c held => held.drainControl ord) (fun c held => held.congr rfl rfl rfl held.owners)
    (fun c node held => ?_) known
  have flushed := flushDestination_flushed c node
  exact held.congr flushed.same.config flushed.same.acks (flushed.keeps PeerTransport.writeKeeps_wires)
    (flushed.same.table ▸ held.owners)

/-- **Every call** records candidates only. -/
theorem exec (known : OwnersKnown K n ctx) {i : Invocation} (within : i.call.Within K ctx.config) :
    OwnersKnown K n (exec ctx i).2 := by
  obtain ⟨ord, call⟩ := i
  cases call with
  | malloc size =>
    obtain ⟨config, -, acks, transport⟩ := lmMalloc_keeps ctx size
    refine known.congr config acks (congrArg PeerTransport.wires transport) fun b => ?_
    exact lmMalloc_rel (standingRel_ownerIn K n b) ctx size (fun _ _ => Or.inr (Or.inl known.node)) (known.owners b)
  | free addr => exact known
  | read addr size => exact known.lmRead ord within
  | write addr buf => exact known.lmWrite ord within
  | fence => exact known.lmFence ord

end OwnersKnown
end

/-! ## The cluster -/

namespace Cluster
variable {K : Candidates} {c : Cluster}

/-- Every node knows of candidates only. -/
def OwnersKnown (K : Candidates) (c : Cluster) : Prop := ∀ n, LeoMem.OwnersKnown K n (c.view n)

theorem ownersKnown_init (cfg : ClusterConfig) (K : Candidates) : (init cfg).OwnersKnown K := fun n =>
  ⟨cfg.own n, fun _ => Or.inl rfl, fun _ _ held => (by cases held), fun _ member => (by cases member),
    fun _ _ member => (by cases member)⟩

theorem OwnersKnown.deliver (known : c.OwnersKnown K) (k : Nat) : (c.step (.deliver k)).2.OwnersKnown K := by
  intro n
  have held := known n
  refine ⟨held.node, held.owners, held.requests, fun msg member => ?_, fun m msg member => ?_⟩
  · exact held.inFlight msg (PeerTransport.inFlight_deliver c.network k member)
  · rcases PeerTransport.mailbox_deliver c.network k member with old | ⟨sent, rfl⟩
    · exact held.mailbox m msg old
    · exact held.inFlight msg sent

theorem OwnersKnown.call (known : c.OwnersKnown K) (m : NodeId) {i : Invocation}
    (within : i.call.Within K (c.nodes m).config) : (c.step (.call m i)).2.OwnersKnown K := by
  intro n
  have next := (known m).exec within
  by_cases same : n = m
  · subst same
    rw [view_call]
    exact next
  · have nodes := nodes_call_of_ne c same i
    have node : ((c.step (.call m i)).2.nodes n).config.nodeId = n := nodes ▸ (known n).node
    have owners : ∀ b, OwnerIn K n b (((c.step (.call m i)).2.nodes n).blockTable.get b) := nodes ▸ (known n).owners
    have requests : ((c.step (.call m i)).2.nodes n).pendingControlAcks.Each fun _ msg =>
        msg.HandsTo K msg.targetNode := nodes ▸ (known n).requests
    exact ⟨node, owners, requests, next.inFlight, next.mailbox⟩

end Cluster
end LeoMem
