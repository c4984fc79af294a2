import LeoMem.Cluster.Memory

/-!
# Where a control message comes from

A node posts its own requests and acknowledgements, sends its own requests again,
and posts to connected peers only. So no message ever waits at the node it comes
from: `Wired` says it of one node and its network, and every step keeps it.
-/

namespace LeoMem
open Lib RuntimeContext

/-- Every request that waits for its acknowledgement was made by `n`. -/
def MadeBy (n : NodeId) (acks : PendingControlAcks) : Prop :=
  ∀ id ack, acks.lookup id = some ack → ack.message.sourceNode = n

namespace MadeBy
variable {n : NodeId} {acks : PendingControlAcks}

theorem each (made : MadeBy n acks) : acks.Each fun _ msg => msg.sourceNode = n := made

theorem track (made : MadeBy n acks) (cfg : Config) {msg : ControlMessage} (own : msg.sourceNode = n) :
    MadeBy n (acks.track cfg msg) := made.each.track cfg own

theorem complete (made : MadeBy n acks) (id : UInt64) : MadeBy n (acks.complete id) := made.each.complete id

theorem advance (made : MadeBy n acks) (ord : IterOrder) (cfg : Config) :
    (∀ msg ∈ (acks.advance ord cfg).2.1, msg.sourceNode = n) ∧ MadeBy n (acks.advance ord cfg).2.2 := by
  obtain ⟨retries, each⟩ := made.each.advance ord cfg
  refine ⟨fun msg member => ?_, each⟩
  obtain ⟨-, own⟩ := retries msg member
  exact own

end MadeBy

namespace PeerTransport

/-- The part of the network that carries control messages. -/
def wires (t : PeerTransport) : List ControlMessage × (NodeId → List ControlMessage) := (t.inFlight, t.mailbox)

theorem readKeeps_wires (cfg : Config) : ReadKeeps cfg wires :=
  fun _ addr size t => congrArg wires (read_same cfg addr size t)

theorem write_wires (cfg : Config) (addr : GlobalAddr) (buf : Bytes) (t : PeerTransport) :
    (write cfg addr buf t).2.wires = t.wires := by
  unfold write
  split
  · rfl
  · split
    · rfl
    · split <;> rfl

theorem writeKeeps_wires : WriteKeeps wires where
  write cfg _ addr buf t := write_wires cfg addr buf t
  batchWrite cfg _ _ t := batchWriteWith_keeps (I := fun t' => t'.wires = t.wires)
    (fun req _ t' same => (write_wires cfg req.addr req.buf t').trans same) rfl

/-- No message is on its way, or waits, at the node it comes from. -/
structure FromOthers (t : PeerTransport) : Prop where
  inFlight : ∀ msg ∈ t.inFlight, msg.sourceNode ≠ msg.targetNode
  mailbox : ∀ m, ∀ msg ∈ t.mailbox m, msg.sourceNode ≠ m

variable {t : PeerTransport}

theorem FromOthers.congr {t' : PeerTransport} (others : t.FromOthers) (same : t'.wires = t.wires) : t'.FromOthers := by
  obtain ⟨inFlight, mailbox⟩ := Prod.mk.inj same
  exact ⟨inFlight ▸ others.inFlight, mailbox ▸ others.mailbox⟩

/-- A message is posted to connected peers only, never to its own node. -/
theorem FromOthers.post (others : t.FromOthers) {cfg : Config} {msg : ControlMessage}
    (own : msg.sourceNode = cfg.nodeId) : (postControlMessage cfg msg t).2.FromOthers := by
  unfold postControlMessage
  split
  · exact others
  · split
    · exact others
    · rename_i reachable
      refine ⟨fun sent member => ?_, others.mailbox⟩
      rcases List.mem_append.mp member with old | new
      · exact others.inFlight sent old
      · obtain rfl := List.mem_singleton.mp new
        rw [own]
        intro self
        simp [connected, ← self] at reachable

theorem FromOthers.drain (others : t.FromOthers) (cfg : Config) (limit : Nat) :
    (drainControlMessages cfg limit t).2.FromOthers :=
  ⟨drain_inFlight cfg limit t ▸ others.inFlight,
    fun m msg member => others.mailbox m msg (drain_mailbox cfg limit t m member)⟩

theorem inFlight_deliver (t : PeerTransport) (k : Nat) {msg : ControlMessage} (member : msg ∈ (t.deliver k).inFlight) :
    msg ∈ t.inFlight := by
  unfold PeerTransport.deliver at member
  split at member
  · exact member
  · exact List.mem_of_mem_eraseIdx member

/-- What waits after a delivery waited before or was on its way there. -/
theorem mailbox_deliver (t : PeerTransport) (k : Nat) {m : NodeId} {msg : ControlMessage}
    (member : msg ∈ (t.deliver k).mailbox m) : msg ∈ t.mailbox m ∨ msg ∈ t.inFlight ∧ msg.targetNode = m := by
  unfold PeerTransport.deliver at member
  split at member
  · exact Or.inl member
  · rename_i sent found
    simp only at member
    by_cases target : m = sent.targetNode
    · subst target
      rw [Function.update_self] at member
      rcases List.mem_append.mp member with old | new
      · exact Or.inl old
      · obtain rfl := List.mem_singleton.mp new
        exact Or.inr ⟨List.mem_of_getElem? found, rfl⟩
    · rw [Function.update_of_ne target] at member
      exact Or.inl member

theorem FromOthers.deliver (others : t.FromOthers) (k : Nat) : (t.deliver k).FromOthers := by
  refine ⟨fun msg member => others.inFlight msg (inFlight_deliver t k member), fun m msg member => ?_⟩
  rcases mailbox_deliver t k member with old | ⟨sent, rfl⟩
  · exact others.mailbox m msg old
  · exact others.inFlight msg sent

end PeerTransport

/-! ## A node and the network it sees -/

/-- A context of node `n` whose requests are its own and whose network brings it none of them. -/
structure Wired (n : NodeId) (ctx : RuntimeContext PeerTransport) : Prop where
  node : ctx.config.nodeId = n
  made : MadeBy n ctx.pendingControlAcks
  others : ctx.transport.FromOthers

namespace Wired
variable {n : NodeId} {ctx : RuntimeContext PeerTransport}

theorem congr {ctx' : RuntimeContext PeerTransport} (wired : Wired n ctx) (config : ctx'.config = ctx.config)
    (acks : ctx'.pendingControlAcks = ctx.pendingControlAcks)
    (transport : ctx'.transport.wires = ctx.transport.wires) : Wired n ctx' :=
  ⟨config ▸ wired.node, acks ▸ wired.made, wired.others.congr transport⟩

theorem ofControl : OfControl PeerTransport.wires (Wired n) :=
  fun _ _ config acks transport wired => wired.congr config acks transport

theorem post (wired : Wired n ctx) (msg : ControlMessage) (own : msg.sourceNode = n) : Wired n (ctx.post msg).2 :=
  ⟨wired.node, wired.made, wired.others.post (own.trans wired.node.symm)⟩

theorem postAll (wired : Wired n ctx) {msgs : List ControlMessage} (own : ∀ msg ∈ msgs, msg.sourceNode = n) :
    Wired n (ctx.postAll msgs).2 :=
  postAll_keeps (fun _ msg member wired => wired.post msg (own msg member)) wired

theorem drive (wired : Wired n ctx) (ord : IterOrder) : Wired n (drivePendingControlAcks ord ctx).2 := by
  obtain ⟨retries, made⟩ := wired.made.advance ord ctx.config
  have advanced : Wired n { ctx with pendingControlAcks := (ctx.pendingControlAcks.advance ord ctx.config).2.2 } :=
    ⟨wired.node, made, wired.others⟩
  unfold drivePendingControlAcks
  simp only
  split
  · exact advanced
  · exact advanced.postAll retries

theorem complete (wired : Wired n ctx) (id : UInt64) :
    Wired n { ctx with pendingControlAcks := ctx.pendingControlAcks.complete id } :=
  ⟨wired.node, wired.made.complete id, wired.others⟩

/-- A message handled: an acknowledgement is sent in this node's own name. -/
theorem handled (wired : Wired n ctx) {msg : ControlMessage} {r : Status × RuntimeContext PeerTransport}
    (handled : Handled ctx msg r) : Wired n r.2 := by
  cases handled with
  | completed => exact wired.complete _
  | acknowledged request within recorded =>
    refine post (wired.congr ?_ ?_ ?_) _ wired.node
    all_goals rfl
  | ignored => exact wired

theorem taken (wired : Wired n ctx) : Wired n (takeMessages ctx) :=
  ⟨wired.node, wired.made, wired.others.drain ctx.config 64⟩

theorem takenMessages (wired : Wired n ctx) {msg : ControlMessage} (member : msg ∈ takenMessages ctx) :
    msg.sourceNode ≠ n := by
  have waiting := List.mem_of_mem_take (PeerTransport.mem_drained member)
  exact wired.node ▸ wired.others.mailbox _ msg waiting

theorem postRequest (wired : Wired n ctx) (addr : GlobalAddr) (range : BlockRange) (mode : CoherenceMode)
    (opcode : ControlOpcode) (version : Version) : Wired n (postRequest ctx addr range mode opcode version).2 := by
  have numbered : Wired n { ctx with nextControlRequestId := ctx.nextControlRequestId + 1 } :=
    wired.congr rfl rfl rfl
  have posted := numbered.post
    (makeControlMessage ctx.config ctx.nextControlRequestId addr range mode opcode version) wired.node
  unfold LeoMem.postRequest trackPosted
  simp only
  split
  · exact ⟨posted.node, posted.made.track _ wired.node, posted.others⟩
  · exact posted

theorem postWriteMessages (wired : Wired n ctx) (addr : GlobalAddr) (range : BlockRange) (modes : List CoherenceMode)
    (ownerHandoff : Bool) (maxVersion : Version) :
    Wired n (postWriteMessages ctx addr range modes ownerHandoff maxVersion).2 :=
  postWriteMessages_rule wired (wired.postRequest addr range _ _ _) (wired.postRequest addr range _ _ _)
    ((wired.postRequest addr range _ _ _).postRequest addr range _ _ _)

theorem writeRemote (wired : Wired n ctx) (ord : IterOrder) (addr : GlobalAddr) {buf : Bytes} (filled : buf.size ≠ 0)
    (range : BlockRange) (modes : List CoherenceMode) : Wired n (writeRemote ord ctx addr buf range modes).2 := by
  refine writeRemote_keeps PeerTransport.writeKeeps_wires ofControl ord filled fun table handoff version => ?_
  have recorded : Wired n { ctx with blockTable := table } := wired.congr rfl rfl rfl
  exact recorded.postWriteMessages addr range modes handoff version

end Wired

end LeoMem
