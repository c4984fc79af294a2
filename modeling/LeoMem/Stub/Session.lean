import LeoMem.Lib.Run
import LeoMem.Api.Drains
import LeoMem.Api.Instrument
import LeoMem.Stub.Control
import LeoMem.Stub.Memory

/-!
# Sessions of one process

`runtime/context.cc` and `runtime/init.cc`: a process may shut its runtime down and
initialize it again, under another configuration. Request ids restart at 1 with each
session, while the stub's inboxes belong to the process and keep what a session left
in them. `StampedStub` is the stub with a stamp beside each message of an inbox: the
session and the message it was posted for. Forgetting the stamps gives the stub.
-/

namespace LeoMem
open Lib RuntimeContext

/-- A transport that every session creates anew, over what the process keeps. -/
class SessionTransport (ω : Type) extends Transport ω where
  /-- `CreateTransport` and `Transport::Init`. -/
  create : Config → ω → ω
  /-- `Transport::Shutdown`, and the transport is gone. -/
  shutdown : ω → ω

instance : SessionTransport StubTransport where
  create cfg t := { StubTransport.init cfg with controlInboxes := t.controlInboxes }
  shutdown t := { localRegion := Bytes.empty, controlInboxes := t.controlInboxes }

/-- A call of the public API with the two that bound a session. -/
inductive ProcessCall where
  /-- `lm_init`; there is no configuration when its file cannot be opened. -/
  | init (config : Option Config)
  | shutdown
  | api (i : Invocation)

section
variable {ω : Type} [SessionTransport ω]

omit [SessionTransport ω] in
/-- A runtime outside any session; the calls look no further than `initialized`. -/
def RuntimeContext.noSession (cfg : Config) (w : ω) : RuntimeContext ω :=
  { initialized := false, config := cfg, allocator := { regionSize := 0 }, transport := w }

/-- `RuntimeContext::Init`; registering a region of no bytes fails. -/
def RuntimeContext.initWith (ctx : RuntimeContext ω) (cfg : Config) : Status × RuntimeContext ω :=
  if ctx.initialized then (.kAlreadyInitialized, ctx)
  else
    let fresh := RuntimeContext.init cfg (SessionTransport.create cfg ctx.transport)
    if cfg.localRegionSize = 0 then (.kInvalidArg, { fresh with initialized := false }) else (.kOk, fresh)

/-- `RuntimeContext::Shutdown`. -/
def RuntimeContext.shutdown (ctx : RuntimeContext ω) : Status × RuntimeContext ω :=
  if ctx.initialized = false then (.kNotInitialized, ctx)
  else (.kOk, .noSession ctx.config (SessionTransport.shutdown ctx.transport))

/-- `lm_init`, which is `RuntimeInit`. -/
def lmInit (ctx : RuntimeContext ω) : Option Config → Status × RuntimeContext ω
  | none => (.kNotFound, ctx)
  | some cfg => ctx.initWith cfg

def lmShutdown (ctx : RuntimeContext ω) : Status × RuntimeContext ω := ctx.shutdown

def processStep (ctx : RuntimeContext ω) : ProcessCall → Response × RuntimeContext ω
  | .init config => let r := lmInit ctx config; (.status r.1, r.2)
  | .shutdown => let r := lmShutdown ctx; (.status r.1, r.2)
  | .api i => exec ctx i

/-- The drains of a call; a session's bounds take no messages in. -/
def processDrains (ctx : RuntimeContext ω) : ProcessCall → List (Drain ω)
  | .init _ => []
  | .shutdown => []
  | .api i => drains ctx i

end

/-! ### Stamps -/

/-- Where a message of an inbox comes from. -/
structure Stamp where
  session : Nat
  message : ControlMessage
  deriving DecidableEq, Repr

/-- The stub with a stamp beside each message. -/
structure StampedStub where
  localRegion : Bytes
  remoteRegions : NodeId → Bytes := fun _ => Bytes.empty
  session : Nat := 0
  inboxes : NodeId → List (ControlMessage × Stamp) := fun _ => []

namespace StampedStub

def forget (t : StampedStub) : StubTransport :=
  { localRegion := t.localRegion
    remoteRegions := t.remoteRegions
    controlInboxes := fun n => (t.inboxes n).map Prod.fst }

/-- The same messages over the regions of `s`. -/
def withRegions (t : StampedStub) (s : StubTransport) : StampedStub :=
  { t with localRegion := s.localRegion, remoteRegions := s.remoteRegions }

/-- A message that arrives for `node` because `posted` was posted. -/
def push (t : StampedStub) (node : NodeId) (msg posted : ControlMessage) : StampedStub :=
  { t with inboxes := Function.update t.inboxes node (t.inboxes node ++ [(msg, ⟨t.session, posted⟩)]) }

def postControlMessage (cfg : Config) (message : ControlMessage) (t : StampedStub) : Status × StampedStub :=
  if message.targetNode ≠ cfg.nodeId ∧ isAckOpcode message.opcode = false then
    let ack :=
      { message with
        opcode := ackOpcodeFor message.opcode
        sourceNode := message.targetNode
        targetNode := message.sourceNode }
    (.kOk, t.push ack.targetNode ack message)
  else (.kOk, t.push message.targetNode message message)

def drainControlMessages (cfg : Config) (maxMessages : Nat) (t : StampedStub) :
    (Status × List ControlMessage) × StampedStub :=
  let inbox := t.inboxes cfg.nodeId
  let limit := max 1 maxMessages
  ((.kOk, (inbox.map Prod.fst).take limit),
    { t with inboxes := Function.update t.inboxes cfg.nodeId (inbox.drop limit) })

instance : SessionTransport StampedStub where
  read cfg d addr size t :=
    let r := StubTransport.read cfg d addr size t.forget
    (r.1, t.withRegions r.2)
  write cfg d addr buf t :=
    let r := StubTransport.write cfg d addr buf t.forget
    (r.1, t.withRegions r.2)
  batchWrite cfg d requests t :=
    let r := batchWriteWith (StubTransport.write cfg d) requests t.forget
    (r.1, t.withRegions r.2)
  fence _ t := (.kOk, t)
  postControlMessage := postControlMessage
  drainControlMessages := drainControlMessages
  create cfg t := { t.withRegions (.init cfg) with session := t.session + 1 }
  shutdown t := { localRegion := Bytes.empty, session := t.session, inboxes := t.inboxes }

/-- What the control path reads and writes. -/
def mail (t : StampedStub) : (NodeId → List (ControlMessage × Stamp)) × Nat := (t.inboxes, t.session)

theorem readKeeps_mail (cfg : Config) : ReadKeeps cfg mail := fun _ _ _ _ => rfl

theorem writeKeeps_mail : WriteKeeps mail := ⟨fun _ _ _ _ _ => rfl, fun _ _ _ _ => rfl⟩

theorem forget_withRegions {t : StampedStub} {s : StubTransport} (inboxes : s.controlInboxes = t.forget.controlInboxes) :
    (t.withRegions s).forget = s := by
  change StubTransport.mk s.localRegion s.remoteRegions t.forget.controlInboxes = s
  rw [← inboxes]

theorem forget_setInbox (t : StampedStub) (node : NodeId) (inbox : List (ControlMessage × Stamp)) :
    forget { t with inboxes := Function.update t.inboxes node inbox } =
      { t.forget with controlInboxes := Function.update t.forget.controlInboxes node (inbox.map Prod.fst) } := by
  unfold forget
  congr 1
  funext n
  by_cases here : n = node
  · subst here
    simp
  · simp [here]

theorem forget_push (t : StampedStub) (node : NodeId) (msg posted : ControlMessage) :
    (t.push node msg posted).forget = t.forget.pushInbox node msg := by
  have appended := forget_setInbox t node (t.inboxes node ++ [(msg, ⟨t.session, posted⟩)])
  rw [List.map_append] at appended
  exact appended

/-- The stamps change nothing the stub does. -/
theorem forget_hom : TransportHom forget where
  read cfg d addr size t := by
    change StubTransport.read cfg d addr size t.forget = (_, forget (t.withRegions _))
    rw [forget_withRegions (StubTransport.read_inboxes cfg d addr size t.forget)]
    rfl
  write cfg d addr buf t := by
    change StubTransport.write cfg d addr buf t.forget = (_, forget (t.withRegions _))
    rw [forget_withRegions (StubTransport.write_inboxes cfg d addr buf t.forget)]
    rfl
  batchWrite cfg d requests t := by
    change batchWriteWith (StubTransport.write cfg d) requests t.forget = (_, forget (t.withRegions _))
    rw [forget_withRegions (StubTransport.batchWrite_inboxes cfg d requests t.forget)]
    rfl
  fence _ _ := rfl
  post cfg msg t := by
    change StubTransport.postControlMessage cfg msg t.forget =
      ((postControlMessage cfg msg t).1, (postControlMessage cfg msg t).2.forget)
    unfold StubTransport.postControlMessage postControlMessage
    split <;> rw [forget_push]
  drain cfg n t := by
    have dropped := forget_setInbox t cfg.nodeId ((t.inboxes cfg.nodeId).drop (max 1 n))
    rw [List.map_drop] at dropped
    exact congrArg (Prod.mk _) dropped.symm

end StampedStub

/-- A process on the stamped stub is one on the stub. -/
theorem processStep_forget (ctx : RuntimeContext StampedStub) (call : ProcessCall) :
    mapResult StampedStub.forget (processStep ctx call) = processStep (mapTransport StampedStub.forget ctx) call := by
  cases call with
  | init config =>
    cases config with
    | none => rfl
    | some cfg => exact congrArg (Prod.map Response.status id) (map_ite (fun _ => rfl) fun _ => map_ite (fun _ => rfl) fun _ => rfl)
  | shutdown => exact congrArg (Prod.map Response.status id) (map_ite (fun _ => rfl) fun _ => rfl)
  | api i => exact exec_map StampedStub.forget_hom ctx i

theorem run_forget (ctx : RuntimeContext StampedStub) (calls : List ProcessCall) :
    run processStep (mapTransport StampedStub.forget ctx) calls =
      mapResult StampedStub.forget (run processStep ctx calls) := by
  induction calls generalizing ctx with
  | nil => rfl
  | cons call calls ih => rw [run_cons, ← processStep_forget, ih, run_cons]

/-! ### What a session leaves in the inboxes -/

/-- The messages that wait for a node, with their stamps. -/
abbrev stampedInbox (ctx : RuntimeContext StampedStub) : List (ControlMessage × Stamp) :=
  ctx.transport.inboxes ctx.config.nodeId

/-- Every inbox holds at most two messages, all of them acknowledgements; each pending
request has one in this node's, and whatever there carries its id was posted for it in
this session. -/
structure Answered (ctx : RuntimeContext StampedStub) : Prop where
  answers : ∀ n, ∀ msg ∈ ctx.transport.forget.controlInboxes n, isAckOpcode msg.opcode = true
  few : ∀ n, (ctx.transport.forget.controlInboxes n).length ≤ 2
  awaited : ∀ id e, ctx.pendingControlAcks.lookup id = some e →
    id ≠ 0 ∧ (∃ p ∈ stampedInbox ctx, p.1.requestId = id) ∧
      ∀ p ∈ stampedInbox ctx, p.1.requestId = id → p.2 = ⟨ctx.transport.session, e.message⟩

namespace Answered
variable {ctx : RuntimeContext StampedStub}

theorem settled (held : Answered ctx) : Settled 2 (mapTransport StampedStub.forget ctx) where
  answers := held.answers _
  few := held.few _
  awaited id pending := by
    obtain ⟨e, found⟩ := Option.ne_none_iff_exists'.mp pending
    obtain ⟨filled, ⟨p, member, same⟩, -⟩ := held.awaited id e found
    exact ⟨filled, p.1, List.mem_map_of_mem member, same⟩

/-- No more requests wait than there are acknowledgements. -/
theorem few_pending (held : Answered ctx) : ctx.pendingControlAcks.entries.length ≤ 2 := by
  have keys : ctx.pendingControlAcks.keys ⊆ (stampedInbox ctx).map fun p => p.1.requestId := by
    intro id key
    obtain ⟨e, found⟩ := Option.isSome_iff_exists.mp (AList.lookup_isSome.mpr key)
    obtain ⟨-, ⟨p, member, same⟩, -⟩ := held.awaited id e found
    exact List.mem_map.mpr ⟨p, member, same⟩
  have fits := (List.subperm_of_subset ctx.pendingControlAcks.keys_nodup keys).length_le
  have two := held.few ctx.config.nodeId
  simp only [AList.keys, List.keys, List.length_map, StampedStub.forget] at fits two
  exact fits.trans two

/-- The mail, the pending requests and the node's id decide it. -/
theorem congr {ctx' : RuntimeContext StampedStub} (held : Answered ctx) (config : ctx'.config = ctx.config)
    (acks : ctx'.pendingControlAcks = ctx.pendingControlAcks) (mail : ctx'.transport.mail = ctx.transport.mail) :
    Answered ctx' := by
  have inboxes : ctx'.transport.inboxes = ctx.transport.inboxes := congrArg Prod.fst mail
  have session : ctx'.transport.session = ctx.transport.session := congrArg Prod.snd mail
  have forgotten : ctx'.transport.forget.controlInboxes = ctx.transport.forget.controlInboxes := by
    simp only [StampedStub.forget, inboxes]
  refine ⟨forgotten ▸ held.answers, forgotten ▸ held.few, ?_⟩
  rw [acks, stampedInbox, config, inboxes, session]
  exact held.awaited

theorem ofControl : OfControl StampedStub.mail Answered :=
  fun _ _ config acks mail held => held.congr config acks mail

/-- Requests that are no longer awaited cannot be answered wrongly. -/
theorem of_empty (answers : ∀ n, ∀ msg ∈ ctx.transport.forget.controlInboxes n, isAckOpcode msg.opcode = true)
    (few : ∀ n, (ctx.transport.forget.controlInboxes n).length ≤ 2) (acks : ctx.pendingControlAcks = ∅) :
    Answered ctx := by
  refine ⟨answers, few, fun id e found => ?_⟩
  rw [acks] at found
  cases found

end Answered

/-- Nothing is awaited and nothing waits for this node. -/
structure Quiet (ctx : RuntimeContext StampedStub) : Prop extends Answered ctx where
  inbox : stampedInbox ctx = []

/-- A node whose messages are all taken in. -/
theorem quiet_of_settle {ctx ctx' : RuntimeContext StampedStub} (held : Answered ctx)
    (drained : mapTransport StampedStub.forget ctx' = settle (mapTransport StampedStub.forget ctx)) : Quiet ctx' := by
  have config : ctx'.config = ctx.config := congrArg (fun c : RuntimeContext StubTransport => c.config) drained
  have acks : ctx'.pendingControlAcks = ∅ := congrArg (fun c : RuntimeContext StubTransport => c.pendingControlAcks) drained
  have inboxes : ctx'.transport.forget.controlInboxes =
      Function.update ctx.transport.forget.controlInboxes ctx.config.nodeId [] :=
    congrArg (fun c : RuntimeContext StubTransport => c.transport.controlInboxes) drained
  have empty : (stampedInbox ctx').map Prod.fst = [] := by
    change ctx'.transport.forget.controlInboxes ctx'.config.nodeId = []
    rw [inboxes, config, Function.update_self]
  refine ⟨.of_empty (fun n msg member => ?_) (fun n => ?_) acks, List.map_eq_nil_iff.mp empty⟩
  · rw [inboxes] at member
    by_cases own : n = ctx.config.nodeId
    · subst own
      simp at member
    · rw [Function.update_of_ne own] at member
      exact held.answers n msg member
  · rw [inboxes]
    by_cases own : n = ctx.config.nodeId
    · subst own
      simp
    · rw [Function.update_of_ne own]
      exact held.few n

section
variable {ctx : RuntimeContext StampedStub}

theorem Answered.processPending (held : Answered ctx) (ord : IterOrder) :
    (processPendingControlMessages ord ctx).1 = .kOk ∧ Quiet (processPendingControlMessages ord ctx).2 := by
  have drained := (map_processPendingControlMessages StampedStub.forget_hom ord ctx).trans
    (held.settled.processPending (by omega) ord)
  exact ⟨congrArg Prod.fst drained, quiet_of_settle held (congrArg Prod.snd drained)⟩

theorem Answered.drainControl (held : Answered ctx) (ord : IterOrder) :
    (LeoMem.drainControl ord ctx).1 = .kOk ∧ Quiet (LeoMem.drainControl ord ctx).2 := by
  have drained := (map_drainControl StampedStub.forget_hom ord ctx).trans (held.settled.drainControl (by omega) ord)
  exact ⟨congrArg Prod.fst drained, quiet_of_settle held (congrArg Prod.snd drained)⟩

theorem Quiet.congr {ctx' : RuntimeContext StampedStub} (quiet : Quiet ctx) (config : ctx'.config = ctx.config)
    (acks : ctx'.pendingControlAcks = ctx.pendingControlAcks) (mail : ctx'.transport.mail = ctx.transport.mail) :
    Quiet ctx' := by
  refine ⟨quiet.toAnswered.congr config acks mail, ?_⟩
  have inboxes : ctx'.transport.inboxes = ctx.transport.inboxes := congrArg Prod.fst mail
  rw [stampedInbox, config, inboxes]
  exact quiet.inbox

/-- An access that gets past its checks has taken everything in. -/
theorem Answered.openAccess (held : Answered ctx) (ord : IterOrder) (addr : GlobalAddr) (size : UInt64) :
    Answered (LeoMem.openAccess ord ctx addr size).2 ∧
      ∀ range, (LeoMem.openAccess ord ctx addr size).1 = .ok range → Quiet (LeoMem.openAccess ord ctx addr size).2 := by
  obtain ⟨ok, quiet⟩ := held.processPending ord
  unfold LeoMem.openAccess
  split
  · exact ⟨held, by simp⟩
  · split
    · exact ⟨held, by simp⟩
    · simp only [ok, ne_eq, not_true_eq_false, if_false]
      exact ⟨quiet.toAnswered, fun _ _ => quiet⟩

/-! ### Posts -/

/-- The acknowledgement the stub sends for a request of this node. -/
def stubAck (msg : ControlMessage) : ControlMessage :=
  { msg with opcode := ackOpcodeFor msg.opcode, sourceNode := msg.targetNode, targetNode := msg.sourceNode }

/-- A request to another node is answered on the spot, with its stamp. -/
theorem postRequest_stamped (ctx : RuntimeContext StampedStub) {addr : GlobalAddr}
    (remote : addr.homeNode ≠ ctx.config.nodeId) (range : BlockRange) (mode : CoherenceMode) (opcode : ControlOpcode)
    (request : isAckOpcode opcode = false) (version : Version) :
    let msg := makeControlMessage ctx.config ctx.nextControlRequestId addr range mode opcode version
    postRequest ctx addr range mode opcode version =
      (.kOk, { ctx with
        nextControlRequestId := ctx.nextControlRequestId + 1
        pendingControlAcks := ctx.pendingControlAcks.track ctx.config msg
        transport := ctx.transport.push ctx.config.nodeId (stubAck msg) msg }) := by
  intro msg
  have posted : StampedStub.postControlMessage ctx.config msg ctx.transport =
      (.kOk, ctx.transport.push ctx.config.nodeId (stubAck msg) msg) := by
    unfold StampedStub.postControlMessage
    exact if_pos ⟨remote, request⟩
  exact congrArg (fun r : Status × StampedStub => trackPosted msg
    (r.1, { ctx with nextControlRequestId := ctx.nextControlRequestId + 1, transport := r.2 })) posted

/-- A request with an id of its own keeps every pending request answered. -/
theorem Answered.post (held : Answered ctx) (room : (stampedInbox ctx).length ≤ 1)
    (fresh : ∀ p ∈ stampedInbox ctx, p.1.requestId ≠ ctx.nextControlRequestId) {addr : GlobalAddr}
    (remote : addr.homeNode ≠ ctx.config.nodeId) (range : BlockRange) (mode : CoherenceMode) (opcode : ControlOpcode)
    (request : isAckOpcode opcode = false) (version : Version) :
    Answered (postRequest ctx addr range mode opcode version).2 := by
  rw [postRequest_stamped ctx remote range mode opcode request version]
  generalize made : makeControlMessage ctx.config ctx.nextControlRequestId addr range mode opcode version = msg
  have id : msg.requestId = ctx.nextControlRequestId := by rw [← made]; rfl
  have ack : isAckOpcode (stubAck msg).opcode = true := isAckOpcode_ackOpcodeFor _
  have others : ∀ n, n ≠ ctx.config.nodeId →
      (ctx.transport.push ctx.config.nodeId (stubAck msg) msg).forget.controlInboxes n =
        ctx.transport.forget.controlInboxes n := by
    intro n other
    rw [StampedStub.forget_push]
    exact Function.update_of_ne other _ _
  have own : (ctx.transport.push ctx.config.nodeId (stubAck msg) msg).forget.controlInboxes ctx.config.nodeId =
      ctx.transport.forget.controlInboxes ctx.config.nodeId ++ [stubAck msg] := by
    rw [StampedStub.forget_push]
    exact Function.update_self _ _ _
  have inbox : (ctx.transport.push ctx.config.nodeId (stubAck msg) msg).inboxes ctx.config.nodeId =
      stampedInbox ctx ++ [(stubAck msg, ⟨ctx.transport.session, msg⟩)] := Function.update_self _ _ _
  refine ⟨fun n m member => ?_, fun n => ?_, fun k e found => ?_⟩
  · by_cases here : n = ctx.config.nodeId
    · subst here
      rcases List.mem_append.mp (own ▸ member) with old | new
      · exact held.answers _ m old
      · rw [List.mem_singleton.mp new]
        exact ack
    · exact held.answers n m (others n here ▸ member)
  · by_cases here : n = ctx.config.nodeId
    · subst here
      change ((ctx.transport.push ctx.config.nodeId (stubAck msg) msg).forget.controlInboxes ctx.config.nodeId).length ≤ 2
      rw [own, List.length_append]
      simpa [StampedStub.forget] using room
    · exact (congrArg List.length (others n here)).trans_le (held.few n)
  · -- the new request has the only acknowledgement with its id, and no other changes
    change k ≠ 0 ∧ (∃ p ∈ (ctx.transport.push ctx.config.nodeId (stubAck msg) msg).inboxes ctx.config.nodeId, _) ∧
      ∀ p ∈ (ctx.transport.push ctx.config.nodeId (stubAck msg) msg).inboxes ctx.config.nodeId, _
    have pending : (ctx.pendingControlAcks.track ctx.config msg).lookup k = some e := found
    rw [inbox]
    rw [PendingControlAcks.lookup_track] at pending
    split at pending
    · rename_i new
      cases pending
      refine ⟨new.1 ▸ new.2, ⟨_, List.mem_append_right _ List.mem_cons_self, new.1.symm⟩, fun p member same => ?_⟩
      rcases List.mem_append.mp member with old | last
      · exact absurd (same.trans (new.1.trans id)) (fresh p old)
      · rw [List.mem_singleton.mp last]
        rfl
    · rename_i other
      obtain ⟨filled, ⟨p, member, same⟩, stamps⟩ := held.awaited k e pending
      refine ⟨filled, ⟨p, List.mem_append_left _ member, same⟩, fun q member same => ?_⟩
      rcases List.mem_append.mp member with before | last
      · exact stamps q before same
      · have new : k = msg.requestId := by
          rw [← same, List.mem_singleton.mp last]
          rfl
        exact absurd ⟨new, new ▸ filled⟩ other

/-- The two requests of a write have ids of their own. -/
theorem Quiet.postWriteMessages (quiet : Quiet ctx) {addr : GlobalAddr} (remote : addr.homeNode ≠ ctx.config.nodeId)
    (range : BlockRange) (modes : List CoherenceMode) (ownerHandoff : Bool) (maxVersion : Version) :
    Answered (postWriteMessages ctx addr range modes ownerHandoff maxVersion).2 := by
  have free : ∀ id : UInt64, ∀ p ∈ stampedInbox ctx, p.1.requestId ≠ id := by simp [quiet.inbox]
  have first := quiet.toAnswered.post (by simp [quiet.inbox]) (free _) remote range .kWI .kInvalidateRange rfl maxVersion
  have alone := quiet.toAnswered.post (by simp [quiet.inbox]) (free _) remote range .kAdaptive .kOwnerTransfer rfl maxVersion
  have sent := postRequest_stamped ctx remote range .kWI .kInvalidateRange rfl maxVersion
  have second : Answered (postRequest (postRequest ctx addr range .kWI .kInvalidateRange maxVersion).2 addr range
      .kAdaptive .kOwnerTransfer maxVersion).2 := by
    rw [sent] at first ⊢
    generalize made : makeControlMessage ctx.config ctx.nextControlRequestId addr range .kWI .kInvalidateRange
      maxVersion = msg at first ⊢
    have inbox : (ctx.transport.push ctx.config.nodeId (stubAck msg) msg).inboxes ctx.config.nodeId =
        [(stubAck msg, ⟨ctx.transport.session, msg⟩)] := by
      simp [StampedStub.push, quiet.inbox]
    have id : msg.requestId = ctx.nextControlRequestId := by rw [← made]; rfl
    refine first.post ?_ (fun p member => ?_) remote range .kAdaptive .kOwnerTransfer rfl maxVersion
    · exact (congrArg List.length inbox).le
    · have here : p ∈ [(stubAck msg, (⟨ctx.transport.session, msg⟩ : Stamp))] := inbox ▸ member
      rw [List.mem_singleton.mp here]
      change msg.requestId ≠ ctx.nextControlRequestId + 1
      rw [id]
      intro same
      simp at same
  exact postWriteMessages_rule quiet.toAnswered first alone second

/-! ### Calls -/

theorem Quiet.writeRemote (quiet : Quiet ctx) (ord : IterOrder) {addr : GlobalAddr}
    (remote : addr.homeNode ≠ ctx.config.nodeId) {buf : Bytes} (filled : buf.size ≠ 0) (range : BlockRange)
    (modes : List CoherenceMode) : Answered (writeRemote ord ctx addr buf range modes).2 := by
  refine writeRemote_keeps StampedStub.writeKeeps_mail Answered.ofControl ord filled fun table handoff version => ?_
  have recorded : Quiet { ctx with blockTable := table } := quiet.congr rfl rfl rfl
  exact recorded.postWriteMessages remote range modes handoff version

theorem Answered.lmWrite (held : Answered ctx) (ord : IterOrder) (addr : GlobalAddr) (buf : Bytes) :
    Answered (lmWrite ord ctx addr buf).2 := by
  obtain ⟨after, taken⟩ := held.openAccess ord addr buf.size
  refine lmWrite_rule (J := fun r => Answered r.2) after (fun _ _ _ after => after) (fun c range _ _ after => ?_)
    (fun c range opened home _ => ?_)
  · obtain ⟨same, -⟩ := writeThrough_same (touchMetadata c addr range .kWrite).2 addr buf true
    have written := congrArg (fun w => w.2.mail) (writeThrough_written (touchMetadata c addr range .kWrite).2 addr buf true)
    exact after.congr same.config same.acks written
  · rw [opened] at taken
    have touched : Quiet (touchMetadata c addr range .kWrite).2 := (taken range rfl).congr rfl rfl rfl
    exact touched.writeRemote ord home (openAccess_filled opened) range _

theorem Answered.lmRead (held : Answered ctx) (ord : IterOrder) (addr : GlobalAddr) (size : UInt64) :
    Answered (lmRead ord ctx addr size).2 := by
  exact lmRead_keeps StampedStub.readKeeps_mail Answered.ofControl (held.openAccess ord addr size).1

theorem Answered.flush (held : Answered ctx) (node : NodeId) : Answered (flushDestination ctx node).2 := by
  have flushed := flushDestination_flushed ctx node
  exact held.congr flushed.same.config flushed.same.acks (flushed.keeps StampedStub.writeKeeps_mail)

theorem Answered.lmFence (held : Answered ctx) (ord : IterOrder) : Answered (lmFence ord ctx).2 :=
  lmFence_keeps (fun _ held => (held.drainControl ord).2.toAnswered) (fun _ held => held) (fun _ node held => held.flush node)
    held

theorem Answered.flushFence (held : Answered ctx) (ord : IterOrder) : Answered (flushFence ord ctx).2 := by
  have flushed := flushDestinations_induct (fun _ node held => held.flush node) (ctx.queues.pendingDestinations ord) held
  unfold LeoMem.flushFence
  simp only
  split <;> exact flushed

theorem Answered.exec (held : Answered ctx) (i : Invocation) : Answered (exec ctx i).2 := by
  obtain ⟨ord, call⟩ := i
  cases call with
  | malloc size =>
    obtain ⟨config, -, acks, transport⟩ := lmMalloc_keeps ctx size
    exact held.congr config acks (congrArg StampedStub.mail transport)
  | free addr => exact held
  | read addr size => exact held.lmRead ord addr size
  | write addr buf => exact held.lmWrite ord addr buf
  | fence => exact held.lmFence ord

/-- A session's bounds clear what is pending and keep the inboxes. -/
theorem Answered.processStep (held : Answered ctx) (call : ProcessCall) : Answered (processStep ctx call).2 := by
  cases call with
  | api i => exact held.exec i
  | shutdown =>
    change Answered (ctx.shutdown).2
    unfold RuntimeContext.shutdown
    split
    · exact held
    · exact .of_empty held.answers held.few rfl
  | init config =>
    cases config with
    | none => exact held
    | some cfg =>
      change Answered (ctx.initWith cfg).2
      unfold RuntimeContext.initWith
      split
      · exact held
      · simp only
        split <;> exact .of_empty held.answers held.few rfl

/-! ### The whole process -/

theorem write_prompt (cfg : Config) (d : DsmAllocator) (addr : GlobalAddr) (buf : Bytes) (t : StubTransport) :
    (StubTransport.write cfg d addr buf t).1 ≠ .kTimedOut := by
  unfold StubTransport.write
  split
  · split <;> simp
  · simp only
    split <;> simp

theorem prompt_stampedStub : Prompt StampedStub where
  read cfg d addr size t := by
    change (StubTransport.read cfg d addr size t.forget).1 ≠ _
    unfold StubTransport.read
    split
    · split <;> simp
    · simp only
      split <;> simp
  write cfg d addr buf t := write_prompt cfg d addr buf t.forget
  batchWrite cfg d requests t := by
    change (batchWriteWith (StubTransport.write cfg d) requests t.forget).1 ≠ _
    generalize t.forget = s
    induction requests generalizing s with
    | nil => simp [batchWriteWith]
    | cons req reqs ih =>
      unfold batchWriteWith
      simp only
      split
      · exact write_prompt cfg d req.addr req.buf s
      · exact ih _
  fence _ _ := by simp [Transport.fence]
  post cfg msg t := by
    change (StampedStub.postControlMessage cfg msg t).1 ≠ _
    unfold StampedStub.postControlMessage
    split <;> simp

theorem Answered.exec_prompt (held : Answered ctx) (i : Invocation) : (LeoMem.exec ctx i).1 ≠ .status .kTimedOut := by
  obtain ⟨ord, call⟩ := i
  have processed : (processPendingControlMessages ord ctx).1 ≠ .kTimedOut := by simp [(held.processPending ord).1]
  cases call with
  | malloc size => simp [LeoMem.exec]
  | free addr =>
    change Response.status (lmFree ctx addr) ≠ _
    unfold lmFree DsmAllocator.free
    split
    · simp
    · split
      · simp
      · split
        · simp
        · split <;> simp
  | read addr size =>
    have answer := lmRead_prompt prompt_stampedStub processed addr size
    change Response.ofRead (LeoMem.lmRead ord ctx addr size).1 ≠ _
    generalize (LeoMem.lmRead ord ctx addr size).1 = r at answer
    cases r with
    | ok buf => simp [Response.ofRead]
    | error s => simpa [Response.ofRead] using answer
  | write addr buf =>
    have answer := lmWrite_prompt prompt_stampedStub processed addr buf
    simpa [LeoMem.exec] using answer
  | fence =>
    have second := ((held.drainControl ord).2.toAnswered.flushFence ord).drainControl ord
    have answer : (LeoMem.lmFence ord ctx).1 ≠ .kTimedOut :=
      lmFence_prompt prompt_stampedStub (by simp [(held.drainControl ord).1]) (by simp [second.1])
    simpa [LeoMem.exec] using answer

/-- Every drain of a call starts from a node whose requests are answered. -/
theorem Answered.drains (held : Answered ctx) (i : Invocation) {d : Drain StampedStub} (member : d ∈ drains ctx i) :
    Answered d.before ∧ ∃ handle, d = drainOf handle d.before := by
  have access : ∀ {addr size}, d ∈ accessDrains i.ord ctx addr size →
      Answered d.before ∧ ∃ handle, d = drainOf handle d.before := by
    intro addr size member
    unfold accessDrains at member
    split at member
    · cases member
    · split at member
      · cases member
      · rw [List.mem_singleton.mp member]
        exact ⟨held, _, rfl⟩
  unfold LeoMem.drains at member
  split at member
  · cases member
  · cases member
  · exact access member
  · exact access member
  · have between := (held.drainControl i.ord).2.toAnswered.flushFence i.ord
    unfold fenceDrains at member
    split at member
    · cases member
    · simp only at member
      split at member
      · rw [List.mem_singleton.mp member]
        exact ⟨held, _, rfl⟩
      · rcases List.mem_pair.mp member with first | second
        · rw [first]
          exact ⟨held, _, rfl⟩
        · rw [second]
          exact ⟨between, _, rfl⟩

end

/-- Taking the first of some stamped messages keeps each with its stamp. -/
theorem mem_of_mem_zip_snd {α β : Type} {xs : List (α × β)} {ys : List α} (taken : ys <+: xs.map Prod.fst) {p : α × β}
    (member : p ∈ ys.zip (xs.map Prod.snd)) : p ∈ xs := by
  induction xs generalizing ys with
  | nil => simp at member
  | cons x xs ih =>
    cases ys with
    | nil => simp at member
    | cons y ys =>
      obtain ⟨rfl, rest⟩ := List.cons_prefix_cons.mp taken
      rcases List.mem_cons.mp member with rfl | later
      · exact List.mem_cons_self
      · exact List.mem_cons_of_mem _ (ih rest later)

/-- The requests a drain removes, each with the stamp of the acknowledgement that removed it. -/
def stampedRemovals (d : Drain StampedStub) : List (PendingControlAck × Stamp) :=
  removals d.before.pendingControlAcks (d.handled.zip ((stampedInbox d.before).map Prod.snd))

theorem Answered.removals {ctx : RuntimeContext StampedStub} (held : Answered ctx) {handle : Handler StampedStub}
    {e : PendingControlAck} {stamp : Stamp} (removed : (e, stamp) ∈ stampedRemovals (drainOf handle ctx)) :
    stamp = ⟨ctx.transport.session, e.message⟩ := by
  obtain ⟨msg, member, -, found⟩ := mem_removals removed
  have taken : (drainOf handle ctx).handled <+: (stampedInbox ctx).map Prod.fst :=
    (drainOf_isPrefix handle ctx).trans (List.take_prefix 64 _)
  exact (held.awaited _ e found).2.2 _ (mem_of_mem_zip_snd taken member) rfl

/-- What a call of a process promises. -/
structure SettlesInSession (p : RuntimeContext StampedStub) (call : ProcessCall) : Prop where
  /-- The call does not time out. -/
  prompt : (processStep p call).1 ≠ .status .kTimedOut
  /-- At most two acknowledgements are pending after it. -/
  few : (processStep p call).2.pendingControlAcks.entries.length ≤ 2
  /-- A request it removes is removed by an acknowledgement for that message, of this session. -/
  own : ∀ d ∈ processDrains p call, ∀ removed ∈ stampedRemovals d,
    removed.2 = ⟨d.before.transport.session, removed.1.message⟩

theorem Answered.settlesInSession {ctx : RuntimeContext StampedStub} (held : Answered ctx) (call : ProcessCall) :
    SettlesInSession ctx call := by
  refine ⟨?_, (held.processStep call).few_pending, fun d member removed gone => ?_⟩
  · cases call with
    | api i => exact held.exec_prompt i
    | shutdown =>
      simp only [LeoMem.processStep, lmShutdown, RuntimeContext.shutdown]
      split <;> simp
    | init config =>
      cases config with
      | none => simp [LeoMem.processStep, lmInit]
      | some cfg =>
        simp only [LeoMem.processStep, lmInit, RuntimeContext.initWith]
        split
        · simp
        · split <;> simp
  · cases call with
    | api i =>
      obtain ⟨before, handle, same⟩ := held.drains i member
      rw [same] at gone
      exact before.removals gone
    | shutdown => cases member
    | init config => cases member

/-- A node on the stub that some run of the stamped stub stands behind. -/
def SettledNode (ctx : RuntimeContext StubTransport) : Prop :=
  ∃ stamped, Answered stamped ∧ mapTransport StampedStub.forget stamped = ctx

theorem SettledNode.settled {ctx : RuntimeContext StubTransport} (node : SettledNode ctx) : Settled 2 ctx := by
  obtain ⟨stamped, held, rfl⟩ := node
  exact held.settled

theorem SettledNode.exec {ctx : RuntimeContext StubTransport} (node : SettledNode ctx) (i : Invocation) :
    SettledNode (exec ctx i).2 := by
  obtain ⟨stamped, held, rfl⟩ := node
  exact ⟨_, held.exec i, congrArg Prod.snd (exec_map StampedStub.forget_hom stamped i)⟩

theorem settledNode_stubNode (cfg : Config) : SettledNode (stubNode cfg) :=
  ⟨.init cfg { localRegion := Bytes.zeros cfg.localRegionSize },
    .of_empty (by simp [RuntimeContext.init, StampedStub.forget]) (by simp [RuntimeContext.init, StampedStub.forget]) rfl, rfl⟩

/-- A process that has not called `lm_init` yet. -/
def newProcess {ω : Type} (w : ω) : RuntimeContext ω := .noSession {} w

theorem answered_newProcess : Answered (newProcess { localRegion := Bytes.empty }) :=
  .of_empty (by simp [newProcess, RuntimeContext.noSession, StampedStub.forget])
    (by simp [newProcess, RuntimeContext.noSession, StampedStub.forget]) rfl

/-- **No call of a process on the stub times out, and stale acknowledgements do no harm**:
whatever a process called before, under whatever configurations, its next call settles
within its session. The stamps this is told by are no part of the process: without them
it answers alike and is in the same state. -/
theorem stub_settles_in_session (calls : List ProcessCall) (call : ProcessCall) :
    let stamped := run processStep (newProcess ({ localRegion := Bytes.empty } : StampedStub)) calls
    run processStep (newProcess ({ localRegion := Bytes.empty } : StubTransport)) calls =
        mapResult StampedStub.forget stamped ∧
      SettlesInSession stamped.2 call := by
  intro stamped
  have answered := run_keeps (I := Answered) (fun _ call held => held.processStep call) calls answered_newProcess
  exact ⟨run_forget (newProcess { localRegion := Bytes.empty }) calls, answered.settlesInSession call⟩

-- a second session meets the acknowledgement the first one left, and a request with its id
example :
    let wi : Config := { blockSize := 4, localRegionSize := 8, coherenceModeOverride := 0, controlAckTimeoutPolls := 0 }
    let write : ProcessCall := .api ⟨.stored, .write ⟨1, 0, 0⟩ ⟨[7], by decide⟩⟩
    let left := run processStep (newProcess ({ localRegion := Bytes.empty } : StampedStub))
      [.init (some wi), write, .shutdown, .init (some wi)]
    let again := processStep left.2 write
    (stampedInbox left.2).map (fun p => (p.1.requestId, p.2.session)) = [(1, 1)] ∧
      (stampedInbox again.2).map (fun p => (p.1.requestId, p.2.session)) = [(1, 2)] ∧
      again.1 = .status .kOk := by decide +kernel

end LeoMem
