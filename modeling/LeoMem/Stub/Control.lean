import LeoMem.Api.WriteEffect

/-!
# The control plane on the stub

The stub answers every request to another node at once, so a node's inbox holds
nothing but acknowledgements, and every request it still waits for is answered
there (`Settled`). The next call takes them all in: no request is ever sent again
and none times out.
-/

namespace LeoMem
open Lib RuntimeContext

section
variable {ω : Type} [Transport ω]

/-- The pending requests once the acknowledgements `msgs` are in. -/
def completeAll (acks : PendingControlAcks) (msgs : List ControlMessage) : PendingControlAcks :=
  msgs.foldl (fun acks msg => acks.complete msg.requestId) acks

/-- A handler takes an acknowledgement in and answers nothing. -/
def TakesAcks (handle : Handler ω) : Prop :=
  ∀ c msg, isAckOpcode msg.opcode = true →
    handle c msg = (.kOk, { c with pendingControlAcks := c.pendingControlAcks.complete msg.requestId })

theorem takesAcks_processMessage (ord : IterOrder) : TakesAcks (ω := ω) (processMessage ord) := by
  intro c msg ack
  simp [processMessage, ack]

theorem takesAcks_drainMessage (ord : IterOrder) : TakesAcks (ω := ω) (drainMessage ord) := by
  intro c msg ack
  simp [drainMessage, ack]

omit [Transport ω] in
theorem TakesAcks.handleAll {handle : Handler ω} (takes : TakesAcks handle) (ctx : RuntimeContext ω)
    {msgs : List ControlMessage} (acks : ∀ msg ∈ msgs, isAckOpcode msg.opcode = true) :
    handleAll handle ctx msgs =
      (.kOk, { ctx with pendingControlAcks := completeAll ctx.pendingControlAcks msgs }) := by
  induction msgs generalizing ctx with
  | nil => rfl
  | cons msg msgs ih =>
    have head := takes ctx msg (acks msg List.mem_cons_self)
    have tail := ih { ctx with pendingControlAcks := ctx.pendingControlAcks.complete msg.requestId }
      fun later member => acks later (List.mem_cons_of_mem _ member)
    simp only [LeoMem.handleAll, head, tail]
    rfl

end

/-- An acknowledged request is no longer pending. -/
theorem lookup_completeAll (acks : PendingControlAcks) (msgs : List ControlMessage) (id : UInt64) :
    (completeAll acks msgs).lookup id =
      if id ≠ 0 ∧ ∃ msg ∈ msgs, msg.requestId = id then none else acks.lookup id := by
  induction msgs generalizing acks with
  | nil => simp [completeAll]
  | cons msg msgs ih =>
    change (completeAll (acks.complete msg.requestId) msgs).lookup id = _
    rw [ih, PendingControlAcks.lookup_complete]
    by_cases zero : id = 0
    · rw [if_neg fun h => h.1 zero, if_neg fun h => h.2 (h.1 ▸ zero), if_neg fun h => h.1 zero]
    · by_cases later : ∃ msg ∈ msgs, msg.requestId = id
      · simp [zero, later]
      · by_cases here : id = msg.requestId
        · simp [← here, zero]
        · simp [zero, later, here, Ne.symm here]

theorem pendingControlAcks_eq_empty {acks : PendingControlAcks} (none : ∀ id, acks.lookup id = none) : acks = ∅ := by
  apply AList.ext
  refine List.eq_nil_iff_forall_not_mem.mpr fun e member => ?_
  simpa [none] using HashMap.mem_entries.mp member

/-- The node's inbox on the stub. -/
abbrev stubInbox (ctx : RuntimeContext StubTransport) : List ControlMessage :=
  ctx.transport.controlInboxes ctx.config.nodeId

/-- Every request the node waits for is answered in its inbox, and the inbox holds at most
`n` messages, all of them answers. -/
structure Settled (n : Nat) (ctx : RuntimeContext StubTransport) : Prop where
  answers : ∀ msg ∈ stubInbox ctx, isAckOpcode msg.opcode = true
  few : (stubInbox ctx).length ≤ n
  awaited : ∀ id, ctx.pendingControlAcks.lookup id ≠ none → id ≠ 0 ∧ ∃ msg ∈ stubInbox ctx, msg.requestId = id

/-- The node with its answers taken in. -/
def settle (ctx : RuntimeContext StubTransport) : RuntimeContext StubTransport :=
  { ctx with
    pendingControlAcks := ∅
    transport :=
      { ctx.transport with controlInboxes := Function.update ctx.transport.controlInboxes ctx.config.nodeId [] } }

theorem settled_stubNode (cfg : Config) : Settled 0 (stubNode cfg) := by
  refine ⟨fun msg member => ?_, Nat.le_refl 0, fun id pending => absurd rfl pending⟩
  cases member

theorem settled_settle (ctx : RuntimeContext StubTransport) : Settled 0 (settle ctx) := by
  have inbox : stubInbox (settle ctx) = [] := by simp [stubInbox, settle]
  refine ⟨fun msg member => ?_, by simp [inbox], fun id pending => absurd rfl pending⟩
  rw [inbox] at member
  cases member

section
variable {n : Nat} {ctx : RuntimeContext StubTransport}

theorem Settled.completeAll_eq (settled : Settled n ctx) :
    completeAll ctx.pendingControlAcks (stubInbox ctx) = ∅ := by
  refine pendingControlAcks_eq_empty fun id => ?_
  rw [lookup_completeAll]
  split
  · rfl
  · rename_i unanswered
    by_contra pending
    exact unanswered (settled.awaited id pending)

theorem Settled.drained (settled : Settled n ctx) (small : n ≤ 64) :
    Transport.drainControlMessages ctx.config 64 ctx.transport = ((.kOk, stubInbox ctx), (settle ctx).transport) := by
  have few : (ctx.transport.controlInboxes ctx.config.nodeId).length ≤ max 1 64 := settled.few.trans small
  change StubTransport.drainControlMessages ctx.config 64 ctx.transport = _
  simp only [StubTransport.drainControlMessages]
  rw [List.take_of_length_le few, List.drop_eq_nil_of_le few]
  rfl

theorem drivePendingControlAcks_settle (ord : IterOrder) (ctx : RuntimeContext StubTransport) :
    drivePendingControlAcks ord (settle ctx) = (.kOk, settle ctx) := by
  have advanced : (settle ctx).pendingControlAcks.advance ord (settle ctx).config = (.kOk, [], ∅) := by
    change PendingControlAcks.advanceLoop _ (ord.arrange []) [] ∅ = _
    rw [IterOrder.arrange_nil]
    rfl
  simp only [drivePendingControlAcks, advanced]
  rfl

/-- **Taking messages in on the stub** always succeeds, and does nothing but that. -/
theorem Settled.takeIn (settled : Settled n ctx) (small : n ≤ 64) {handle : Handler StubTransport}
    (takes : TakesAcks handle) (ord : IterOrder) : takeIn handle ord ctx = (.kOk, settle ctx) := by
  have drained := settled.drained small
  have taken : takeMessages ctx = { ctx with transport := (settle ctx).transport } := by rw [takeMessages, drained]
  have messages : takenMessages ctx = stubInbox ctx := by rw [takenMessages, drained]
  have handled := takes.handleAll { ctx with transport := (settle ctx).transport } settled.answers
  have all : { ctx with
      transport := (settle ctx).transport
      pendingControlAcks := completeAll ctx.pendingControlAcks (stubInbox ctx) } = settle ctx := by
    rw [settled.completeAll_eq]
    rfl
  simp only [LeoMem.takeIn, drained, taken, messages, handled, all, drivePendingControlAcks_settle]
  rfl

theorem Settled.processPending (settled : Settled n ctx) (small : n ≤ 64) (ord : IterOrder) :
    processPendingControlMessages ord ctx = (.kOk, settle ctx) :=
  (processPendingControlMessages_eq ord ctx).trans (settled.takeIn small (takesAcks_processMessage ord) ord)

theorem Settled.drainControl (settled : Settled n ctx) (small : n ≤ 64) (ord : IterOrder) :
    drainControl ord ctx = (.kOk, settle ctx) :=
  (drainControl_eq ord ctx).trans (settled.takeIn small (takesAcks_drainMessage ord) ord)

theorem Settled.openAccess (settled : Settled n ctx) (small : n ≤ 64) (ord : IterOrder) (addr : GlobalAddr)
    (size : UInt64) :
    openAccess ord ctx addr size =
      if ctx.initialized = false then (.error .kNotInitialized, ctx)
      else if addr.isValid = false ∨ size = 0 then (.error .kInvalidArg, ctx)
      else (validateAndResolveRange ctx.config ctx.allocator addr size, settle ctx) := by
  unfold LeoMem.openAccess
  simp only [settled.processPending small ord, ne_eq, not_true_eq_false, if_false]
  rfl

/-- An access with proper arguments gets to its range. -/
theorem Settled.opens (settled : Settled n ctx) (small : n ≤ 64) (ready : ctx.initialized = true) {addr : GlobalAddr}
    {size : UInt64} (valid : addr.isValid = true) (filled : size ≠ 0) (ord : IterOrder) :
    LeoMem.openAccess ord ctx addr size = (validateAndResolveRange ctx.config ctx.allocator addr size, settle ctx) := by
  rw [settled.openAccess small, if_neg (by simp [ready]), if_neg (by simp [valid, filled])]

theorem Settled.mono {n' : Nat} (settled : Settled n ctx) (le : n ≤ n') : Settled n' ctx :=
  ⟨settled.answers, settled.few.trans le, settled.awaited⟩

/-- The inbox and the pending requests decide whether a node is settled. -/
theorem Settled.congr {ctx' : RuntimeContext StubTransport} (settled : Settled n ctx)
    (config : ctx'.config = ctx.config) (acks : ctx'.pendingControlAcks = ctx.pendingControlAcks)
    (inboxes : ctx'.transport.controlInboxes = ctx.transport.controlInboxes) : Settled n ctx' := by
  have inbox : stubInbox ctx' = stubInbox ctx := by rw [stubInbox, config, inboxes]
  exact ⟨inbox ▸ settled.answers, inbox ▸ settled.few, by rw [inbox, acks]; exact settled.awaited⟩

/-- A request to another node is answered on the spot. -/
theorem Settled.postRequest (settled : Settled n ctx) {addr : GlobalAddr} (remote : addr.homeNode ≠ ctx.config.nodeId)
    (range : BlockRange) (mode : CoherenceMode) (opcode : ControlOpcode) (request : isAckOpcode opcode = false)
    (version : Version) :
    (postRequest ctx addr range mode opcode version).1 = .kOk ∧
      Settled (n + 1) (postRequest ctx addr range mode opcode version).2 := by
  let msg := makeControlMessage ctx.config ctx.nextControlRequestId addr range mode opcode version
  let ack := { msg with opcode := ackOpcodeFor opcode, sourceNode := addr.homeNode, targetNode := ctx.config.nodeId }
  have posted : StubTransport.postControlMessage ctx.config msg ctx.transport =
      (.kOk, ctx.transport.pushInbox ctx.config.nodeId ack) := by
    unfold StubTransport.postControlMessage
    exact if_pos ⟨remote, request⟩
  have sent : { ctx with nextControlRequestId := ctx.nextControlRequestId + 1 }.post msg =
      (.kOk, { ctx with
        nextControlRequestId := ctx.nextControlRequestId + 1
        transport := ctx.transport.pushInbox ctx.config.nodeId ack }) :=
    congrArg (fun r : Status × StubTransport =>
      (r.1, { ctx with nextControlRequestId := ctx.nextControlRequestId + 1, transport := r.2 })) posted
  have result : LeoMem.postRequest ctx addr range mode opcode version =
      (.kOk, { ctx with
        nextControlRequestId := ctx.nextControlRequestId + 1
        transport := ctx.transport.pushInbox ctx.config.nodeId ack
        pendingControlAcks := ctx.pendingControlAcks.track ctx.config msg }) :=
    congrArg (trackPosted msg) sent
  rw [result]
  have inbox : (ctx.transport.pushInbox ctx.config.nodeId ack).controlInboxes ctx.config.nodeId =
      stubInbox ctx ++ [ack] := by simp [StubTransport.pushInbox]
  refine ⟨rfl, fun m member => ?_, ?_, fun id pending => ?_⟩
  · change m ∈ (ctx.transport.pushInbox ctx.config.nodeId ack).controlInboxes ctx.config.nodeId at member
    rcases List.mem_append.mp (inbox ▸ member) with old | new
    · exact settled.answers m old
    · rw [List.mem_singleton.mp new]
      exact isAckOpcode_ackOpcodeFor opcode
  · change ((ctx.transport.pushInbox ctx.config.nodeId ack).controlInboxes ctx.config.nodeId).length ≤ n + 1
    rw [inbox, List.length_append]
    exact Nat.succ_le_succ settled.few
  · change id ≠ 0 ∧ ∃ m ∈ (ctx.transport.pushInbox ctx.config.nodeId ack).controlInboxes ctx.config.nodeId,
      m.requestId = id
    rw [inbox]
    have fresh : (id ≠ 0 ∧ msg.requestId = id) ∨ ctx.pendingControlAcks.lookup id ≠ none := by
      simp only [PendingControlAcks.track] at pending
      split at pending
      · exact Or.inr pending
      · rename_i filled
        rw [HashMap.lookup_insert_if] at pending
        split at pending
        · rename_i same
          exact Or.inl ⟨same ▸ filled, same.symm⟩
        · exact Or.inr pending
    rcases fresh with ⟨filled, here⟩ | old
    · exact ⟨filled, ack, by simp, here⟩
    · obtain ⟨filled, m, member, same⟩ := settled.awaited id old
      exact ⟨filled, m, List.mem_append_left _ member, same⟩

/-- The control messages of a write to another node: at most two, both answered at once. -/
theorem Settled.postWriteMessages (settled : Settled n ctx) {addr : GlobalAddr}
    (remote : addr.homeNode ≠ ctx.config.nodeId) (range : BlockRange) (modes : List CoherenceMode)
    (ownerHandoff : Bool) (maxVersion : Version) :
    (postWriteMessages ctx addr range modes ownerHandoff maxVersion).1 = .kOk ∧
      Settled (n + 2) (postWriteMessages ctx addr range modes ownerHandoff maxVersion).2 := by
  have sent : (if hasMode modes .kWI then LeoMem.postRequest ctx addr range .kWI .kInvalidateRange maxVersion
        else (.kOk, ctx)).1 = .kOk ∧
      Settled (n + 1) (if hasMode modes .kWI then
        LeoMem.postRequest ctx addr range .kWI .kInvalidateRange maxVersion else (.kOk, ctx)).2 ∧
      (if hasMode modes .kWI then LeoMem.postRequest ctx addr range .kWI .kInvalidateRange maxVersion
        else (.kOk, ctx)).2.config = ctx.config := by
    split
    · obtain ⟨ok, settled⟩ := settled.postRequest remote range .kWI .kInvalidateRange rfl maxVersion
      exact ⟨ok, settled, postRequest_config ctx addr range _ _ _⟩
    · exact ⟨rfl, settled.mono (by omega), rfl⟩
  unfold LeoMem.postWriteMessages
  generalize (if hasMode modes .kWI then LeoMem.postRequest ctx addr range .kWI .kInvalidateRange maxVersion
    else (.kOk, ctx)) = r at sent ⊢
  obtain ⟨ok, settled, config⟩ := sent
  have passed : ¬ postFailed r.1 = true := by simp [ok, postFailed]
  simp only
  rw [if_neg passed]
  split
  · exact settled.postRequest (config ▸ remote) range .kAdaptive .kOwnerTransfer rfl maxVersion
  · exact ⟨rfl, settled.mono (by omega)⟩

/-! ### Fences -/

theorem StubTransport.write_inboxes (cfg : Config) (d : DsmAllocator) (addr : GlobalAddr) (buf : Bytes) (t : StubTransport) :
    (StubTransport.write cfg d addr buf t).2.controlInboxes = t.controlInboxes := by
  unfold StubTransport.write
  split
  · split <;> rfl
  · simp only
    split <;> rfl

theorem StubTransport.batchWrite_inboxes (cfg : Config) (d : DsmAllocator) (requests : List RemoteWriteRequest) (t : StubTransport) :
    (batchWriteWith (StubTransport.write cfg d) requests t).2.controlInboxes = t.controlInboxes :=
  batchWriteWith_keeps (I := fun t' => t'.controlInboxes = t.controlInboxes)
    (fun req _ t' same => (StubTransport.write_inboxes cfg d req.addr req.buf t').trans same) rfl

/-- The flushes of a fence leave the node's inbox alone. -/
theorem Settled.flushAll (settled : Settled n ctx) (nodes : List NodeId) :
    Settled n (flushDestinations ctx nodes).2 := by
  have keeps : WriteKeeps StubTransport.controlInboxes := ⟨StubTransport.write_inboxes, StubTransport.batchWrite_inboxes⟩
  refine flushDestinations_induct (P := Settled n) (fun c node held => ?_) nodes settled
  have flushed := flushDestination_flushed c node
  exact held.congr flushed.same.config flushed.same.acks (flushed.keeps keeps)

/-- A fence on the stub, once its flushes succeed. -/
theorem Settled.fence_eq (settled : Settled 2 ctx) (ready : ctx.initialized = true) {ord : IterOrder}
    (ok : (flushDestinations (settle ctx) (ctx.queues.pendingDestinations ord)).1 = .kOk) :
    lmFence ord ctx = (.kOk, settle (flushDestinations (settle ctx) (ctx.queues.pendingDestinations ord)).2) := by
  have again := ((settled_settle ctx).flushAll (ctx.queues.pendingDestinations ord)).drainControl (by omega) ord
  unfold lmFence
  rw [if_neg (by simp [ready])]
  simp only [settled.drainControl (by omega) ord, show (settle ctx).queues = ctx.queues from rfl, ok, ne_eq,
    not_true_eq_false, if_false]
  exact again

end
end LeoMem
