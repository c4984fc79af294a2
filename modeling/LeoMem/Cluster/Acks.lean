import LeoMem.Api.Drains
import LeoMem.Cluster.AtRest

/-!
# What an acknowledgement stands for

A node that takes an acknowledgement in holds its request for applied. Request ids are
the sender's own, and an acknowledgement carries nothing else of its request. So it
stands for the right one as long as no id is drawn while a message with it is still
around: then every message is accounted for by one request of its sender
(`Accounted`), and the target has handled it (`acks_mean_handled`). Ids in use are those
drawn before, so this can only fail in a run that uses the 64-bit counter up
(`Cluster.drawsUnused_of_few`).
-/

namespace LeoMem
open Lib RuntimeContext

/-- The drains of a run, in order, each with its node. -/
abbrev DrainHistory := List (NodeId × Drain PeerTransport)

/-- The requests that the acknowledgements of a drain remove from the pending ones. -/
def Drain.removed {ω : Type} (d : Drain ω) : List PendingControlAck :=
  (removals d.before.pendingControlAcks (d.handled.map fun msg => (msg, ()))).map Prod.fst

/-- Node `n` has handled `msg` to the end. -/
def HandledAt (history : DrainHistory) (n : NodeId) (msg : ControlMessage) : Prop :=
  ∃ d, (n, d) ∈ history ∧ msg ∈ d.handled

/-- Every request that a drain of `history` removes was handled by its target before: in
`seen`, or in a drain of `history` further ahead. -/
def AcksMeanHandled : DrainHistory → DrainHistory → Prop
  | _, [] => True
  | seen, x :: history =>
    (∀ e ∈ x.2.removed, HandledAt seen e.message.targetNode e.message) ∧ AcksMeanHandled (seen ++ [x]) history

theorem acksMeanHandled_append (seen first second : DrainHistory) :
    AcksMeanHandled seen (first ++ second) ↔
      AcksMeanHandled seen first ∧ AcksMeanHandled (seen ++ first) second := by
  induction first generalizing seen with
  | nil => simp [AcksMeanHandled]
  | cons x first ih =>
    have rest := ih (seen ++ [x])
    rw [List.append_assoc] at rest
    simp only [List.cons_append, AcksMeanHandled, rest, and_assoc, List.nil_append]

theorem HandledAt.mono {history : DrainHistory} {n : NodeId} {msg : ControlMessage} (handled : HandledAt history n msg)
    (more : DrainHistory) : HandledAt (history ++ more) n msg := by
  obtain ⟨d, member, inside⟩ := handled
  exact ⟨d, List.mem_append_left _ member, inside⟩

namespace Cluster

/-- The drains of one step. -/
def drains (c : Cluster) : ClusterInput → DrainHistory
  | .call n i => (LeoMem.drains (c.view n) i).map fun d => (n, d)
  | .deliver _ => []

/-- The drains of a run from `c`. -/
def drainHistory : Cluster → List ClusterInput → DrainHistory
  | _, [] => []
  | c, input :: inputs => c.drains input ++ drainHistory (c.step input).2 inputs

end Cluster

/-! ### Messages and the requests behind them -/

/-- The node a message belongs to: the sender of a request, the target of its
acknowledgement. -/
def ControlMessage.requester (msg : ControlMessage) : NodeId :=
  if isAckOpcode msg.opcode then msg.targetNode else msg.sourceNode

/-- The request each node has under an id. -/
abbrev Registry := NodeId → UInt64 → Option ControlMessage

/-- The registry has the request behind a message, and an acknowledgement's target has
handled it. -/
def Accounted (requests : Registry) (history : DrainHistory) (msg : ControlMessage) : Prop :=
  ∃ request, requests msg.requester msg.requestId = some request ∧
    if isAckOpcode msg.opcode then HandledAt history request.targetNode request else request = msg

variable {msg : ControlMessage} {requests : Registry}

theorem Accounted.mono {history : DrainHistory} (accounted : Accounted requests history msg) (more : DrainHistory) :
    Accounted requests (history ++ more) msg := by
  obtain ⟨request, registered, meaning⟩ := accounted
  refine ⟨request, registered, ?_⟩
  split at meaning
  · rename_i ack
    rw [if_pos ack]
    exact meaning.mono more
  · rename_i request
    rw [if_neg request]
    exact meaning

theorem accounted_request {history : DrainHistory} (request : isAckOpcode msg.opcode = false) :
    Accounted requests history msg ↔ requests msg.sourceNode msg.requestId = some msg := by
  simp [Accounted, ControlMessage.requester, request]

/-- A pending request is its node's own, under its own id. -/
def OwnRequest (requests : Registry) (n : NodeId) (id : UInt64) (msg : ControlMessage) : Prop :=
  msg.requestId = id ∧ msg.sourceNode = n ∧ isAckOpcode msg.opcode = false ∧ requests n id = some msg

theorem OwnRequest.accounted {n : NodeId} {id : UInt64} (own : OwnRequest requests n id msg) (history : DrainHistory) :
    Accounted requests history msg := by
  obtain ⟨rfl, rfl, request, registered⟩ := own
  exact (accounted_request request).mpr registered

/-- Every message of the network is accounted for and waits at its target. -/
structure Delivered (requests : Registry) (history : DrainHistory) (t : PeerTransport) : Prop where
  inFlight : ∀ msg ∈ t.inFlight, Accounted requests history msg
  mailbox : ∀ n, ∀ msg ∈ t.mailbox n, msg.targetNode = n ∧ Accounted requests history msg

/-- A node whose requests and network are accounted for. -/
structure Accountable (requests : Registry) (history : DrainHistory) (n : NodeId) (ctx : RuntimeContext PeerTransport) :
    Prop where
  node : ctx.config.nodeId = n
  pending : ctx.pendingControlAcks.Each (OwnRequest requests n)
  delivered : Delivered requests history ctx.transport

section
variable {requests : Registry} {history : DrainHistory} {n : NodeId} {ctx : RuntimeContext PeerTransport}

theorem Delivered.congr {t t' : PeerTransport} (delivered : Delivered requests history t) (same : t'.wires = t.wires) :
    Delivered requests history t' := by
  obtain ⟨inFlight, mailbox⟩ := Prod.mk.inj same
  exact ⟨inFlight ▸ delivered.inFlight, mailbox ▸ delivered.mailbox⟩

theorem Delivered.post {t : PeerTransport} (delivered : Delivered requests history t) (cfg : Config)
    (accounted : (PeerTransport.postControlMessage cfg msg t).1 = .kOk → Accounted requests history msg) :
    Delivered requests history (PeerTransport.postControlMessage cfg msg t).2 := by
  unfold PeerTransport.postControlMessage at accounted ⊢
  split
  · exact delivered
  · rename_i on
    rw [if_neg on] at accounted
    split
    · exact delivered
    · rename_i reachable
      rw [if_neg reachable] at accounted
      refine ⟨fun sent member => ?_, delivered.mailbox⟩
      rcases List.mem_append.mp member with old | new
      · exact delivered.inFlight sent old
      · rw [List.mem_singleton.mp new]
        exact accounted rfl

namespace Accountable

theorem congr {ctx' : RuntimeContext PeerTransport} (held : Accountable requests history n ctx)
    (config : ctx'.config = ctx.config) (acks : ctx'.pendingControlAcks = ctx.pendingControlAcks)
    (wires : ctx'.transport.wires = ctx.transport.wires) : Accountable requests history n ctx' :=
  ⟨config ▸ held.node, acks ▸ held.pending, held.delivered.congr wires⟩

theorem mono (held : Accountable requests history n ctx) (more : DrainHistory) :
    Accountable requests (history ++ more) n ctx :=
  ⟨held.node, held.pending, fun msg member => (held.delivered.inFlight msg member).mono more,
    fun m msg member => ⟨(held.delivered.mailbox m msg member).1, (held.delivered.mailbox m msg member).2.mono more⟩⟩

theorem post (held : Accountable requests history n ctx)
    (accounted : (ctx.post msg).1 = .kOk → Accounted requests history msg) :
    Accountable requests history n (ctx.post msg).2 :=
  ⟨held.node, held.pending, held.delivered.post ctx.config accounted⟩

theorem postAll (held : Accountable requests history n ctx) {msgs : List ControlMessage}
    (accounted : ∀ msg ∈ msgs, Accounted requests history msg) : Accountable requests history n (ctx.postAll msgs).2 :=
  postAll_keeps (fun _ msg member held => held.post fun _ => accounted msg member) held

/-- Requests that are sent again are pending ones. -/
theorem drive (held : Accountable requests history n ctx) (ord : IterOrder) :
    Accountable requests history n (drivePendingControlAcks ord ctx).2 := by
  obtain ⟨retries, pending⟩ := held.pending.advance ord ctx.config
  have advanced : Accountable requests history n
      { ctx with pendingControlAcks := (ctx.pendingControlAcks.advance ord ctx.config).2.2 } :=
    ⟨held.node, pending, held.delivered⟩
  unfold drivePendingControlAcks
  simp only
  split
  · exact advanced
  · refine advanced.postAll fun msg member => ?_
    obtain ⟨id, own⟩ := retries msg member
    exact own.accounted history

/-- The acknowledgement of a request this node has handled. -/
theorem acknowledge {ctx' : RuntimeContext PeerTransport} (held : Accountable requests history n ctx)
    (config : ctx'.config = ctx.config) (acks : ctx'.pendingControlAcks = ctx.pendingControlAcks)
    (transport : ctx'.transport = ctx.transport) (request : isAckOpcode msg.opcode = false) (target : msg.targetNode = n)
    (accounted : Accounted requests history msg)
    (handled : postFailed (ctx'.post (msg.ack ctx'.config)).1 = false → HandledAt history n msg) :
    Accountable requests history n (ctx'.post (msg.ack ctx'.config)).2 := by
  refine (held.congr config acks (congrArg PeerTransport.wires transport)).post fun ok => ?_
  refine ⟨msg, ?_, ?_⟩
  · have registered := (accounted_request request).mp accounted
    simpa [ControlMessage.requester, ControlMessage.ack] using registered
  · rw [if_pos (by simp [ControlMessage.ack]), target]
    exact handled (by simp [ok, postFailed])

theorem handled (held : Accountable requests history n ctx) {r : Status × RuntimeContext PeerTransport}
    (handled : Handled ctx msg r) (target : msg.targetNode = n) (accounted : Accounted requests history msg)
    (done : postFailed r.1 = false → HandledAt history n msg) : Accountable requests history n r.2 := by
  cases handled with
  | completed => exact ⟨held.node, held.pending.complete _, held.delivered⟩
  | acknowledged request within recorded =>
    refine held.acknowledge ?_ ?_ ?_ request target accounted done
    all_goals rfl
  | ignored => exact held

theorem takenMessages (held : Accountable requests history n ctx) (member : msg ∈ takenMessages ctx) :
    msg.targetNode = n ∧ Accounted requests history msg := by
  have waiting := List.mem_of_mem_take (PeerTransport.mem_drained member)
  obtain ⟨target, accounted⟩ := held.delivered.mailbox _ msg waiting
  exact ⟨target.trans held.node, accounted⟩

theorem taken (held : Accountable requests history n ctx) : Accountable requests history n (takeMessages ctx) :=
  ⟨held.node, held.pending,
    PeerTransport.drain_inFlight ctx.config 64 ctx.transport ▸ held.delivered.inFlight,
    fun m msg member => held.delivered.mailbox m msg (PeerTransport.drain_mailbox ctx.config 64 ctx.transport m member)⟩

/-- **A drain removes requests that their targets have handled.** -/
theorem removed (held : Accountable requests history n ctx) (handle : Handler PeerTransport) {e : PendingControlAck}
    (gone : e ∈ (drainOf handle ctx).removed) : HandledAt history e.message.targetNode e.message := by
  obtain ⟨⟨_, _⟩, inside, rfl⟩ := List.mem_map.mp gone
  obtain ⟨msg, member, ack, found⟩ := mem_removals inside
  obtain ⟨_, handled, same⟩ := List.mem_map.mp member
  cases same
  obtain ⟨target, request, registered, meaning⟩ := held.takenMessages ((drainOf_isPrefix handle ctx).subset handled)
  obtain ⟨-, -, -, own⟩ := held.pending _ _ found
  rw [ControlMessage.requester, if_pos ack, target, own] at registered
  cases registered
  rw [if_pos ack] at meaning
  exact meaning

/-- Taking messages in, with the drain entered into the history. -/
theorem takeIn (held : Accountable requests history n ctx) {handle : Handler PeerTransport} (ord : IterOrder)
    (step : ∀ history c msg, Accountable requests history n c → msg.targetNode = n → Accounted requests history msg →
      (postFailed (handle c msg).1 = false → HandledAt history n msg) → Accountable requests history n (handle c msg).2) :
    Accountable requests (history ++ [(n, drainOf handle ctx)]) n (takeIn handle ord ctx).2 := by
  refine takeIn_keeps (W := HandledAt (history ++ [(n, drainOf handle ctx)]) n) (held.taken.mono _) (fun c msg member done now => ?_)
    (fun msg member => ⟨_, List.mem_append_right _ List.mem_cons_self, member⟩) fun c now => now.drive ord
  obtain ⟨target, accounted⟩ := held.takenMessages member
  exact step _ c msg now target (accounted.mono _) done

theorem processPending (held : Accountable requests history n ctx) (ord : IterOrder) :
    Accountable requests (history ++ [(n, drainOf (LeoMem.processMessage ord) ctx)]) n
      (processPendingControlMessages ord ctx).2 := by
  rw [processPendingControlMessages_eq]
  exact held.takeIn ord fun _ _ _ now target accounted done => now.handled (handled_processMessage ord _ _) target accounted done

theorem drainControl (held : Accountable requests history n ctx) (ord : IterOrder) :
    Accountable requests (history ++ [(n, drainOf (LeoMem.drainMessage ord) ctx)]) n (LeoMem.drainControl ord ctx).2 := by
  rw [drainControl_eq]
  exact held.takeIn ord fun _ _ _ now target accounted done => now.handled (handled_drainMessage ord _ _) target accounted done

/-- The end of an access's checks, with its drains entered into the history. -/
theorem openAccess (held : Accountable requests history n ctx) (ord : IterOrder) (addr : GlobalAddr) (size : UInt64) :
    Accountable requests (history ++ (accessDrains ord ctx addr size).map fun d => (n, d)) n
      (LeoMem.openAccess ord ctx addr size).2 := by
  unfold LeoMem.openAccess accessDrains
  split
  · simpa using held
  · split
    · simpa using held
    · have processed := held.processPending ord
      simp only
      split <;> exact processed

theorem flush (held : Accountable requests history n ctx) (node : NodeId) :
    Accountable requests history n (flushDestination ctx node).2 := by
  have flushed := flushDestination_flushed ctx node
  exact held.congr flushed.same.config flushed.same.acks (flushed.keeps PeerTransport.writeKeeps_wires)

theorem flushFence (held : Accountable requests history n ctx) (ord : IterOrder) :
    Accountable requests history n (flushFence ord ctx).2 := by
  have flushed := flushDestinations_induct (fun _ node held => held.flush node) (ctx.queues.pendingDestinations ord) held
  unfold LeoMem.flushFence
  simp only
  split
  · exact flushed
  · exact flushed.congr rfl rfl rfl

/-- A fence, with its drains entered into the history, and what these remove. -/
theorem lmFence (held : Accountable requests history n ctx) (ord : IterOrder) :
    AcksMeanHandled history ((fenceDrains ord ctx).map fun d => (n, d)) ∧
      Accountable requests (history ++ (fenceDrains ord ctx).map fun d => (n, d)) n (lmFence ord ctx).2 := by
  have first := held.drainControl ord
  have between := first.flushFence ord
  have second := between.drainControl ord
  rw [lmFence_eq, fenceDrains]
  split
  · exact ⟨trivial, by simpa using held⟩
  · simp only
    split
    · rename_i stopped
      refine ⟨⟨fun e gone => held.removed _ gone, trivial⟩, ?_⟩
      split
      · exact first
      · rename_i drained
        rw [if_pos (stopped.resolve_left drained)]
        exact between
    · rename_i passed
      obtain ⟨drained, flushed⟩ := not_or.mp passed
      rw [if_neg drained, if_neg flushed]
      refine ⟨⟨fun e gone => held.removed _ gone, fun e gone => between.removed _ gone, trivial⟩, ?_⟩
      rw [List.append_assoc] at second
      exact second

end Accountable

/-- What an access's drain removes. -/
theorem accessDrains_acksMeanHandled (held : Accountable requests history n ctx) (ord : IterOrder) (addr : GlobalAddr)
    (size : UInt64) : AcksMeanHandled history ((accessDrains ord ctx addr size).map fun d => (n, d)) := by
  unfold accessDrains
  split
  · trivial
  · split
    · trivial
    · exact ⟨fun e gone => held.removed _ gone, trivial⟩

/-! ### Drawing ids -/

/-- No message with this id of node `n` is pending, on its way or waiting. -/
structure Unused (n : NodeId) (id : UInt64) (ctx : RuntimeContext PeerTransport) : Prop where
  pending : ctx.pendingControlAcks.lookup id = none
  inFlight : ∀ msg ∈ ctx.transport.inFlight, ¬ (msg.requester = n ∧ msg.requestId = id)
  mailbox : ∀ m, ∀ msg ∈ ctx.transport.mailbox m, ¬ (msg.requester = n ∧ msg.requestId = id)

/-- The registry with another entry for `id` of node `n`. -/
def Registry.put (requests : Registry) (n : NodeId) (id : UInt64) (request : Option ControlMessage) : Registry :=
  fun m k => if m = n ∧ k = id then request else requests m k

theorem Registry.put_other (requests : Registry) {n m : NodeId} (other : m ≠ n) (id : UInt64)
    (request : Option ControlMessage) : requests.put n id request m = requests m := by
  funext k
  exact if_neg fun here => other here.1

variable {id id' : UInt64}

theorem Accounted.put (accounted : Accounted requests history msg) (other : ¬ (msg.requester = n ∧ msg.requestId = id))
    (request : Option ControlMessage) : Accounted (requests.put n id request) history msg := by
  obtain ⟨found, registered, meaning⟩ := accounted
  exact ⟨found, (if_neg other).trans registered, meaning⟩

/-- An id that is not in use may be registered anew. -/
theorem Accountable.put (held : Accountable requests history n ctx) (unused : Unused n id ctx)
    (request : Option ControlMessage) : Accountable (requests.put n id request) history n ctx := by
  refine ⟨held.node, fun k e found => ?_, fun msg member => ?_, fun m msg member => ?_⟩
  · obtain ⟨same, source, kind, registered⟩ := held.pending k e found
    refine ⟨same, source, kind, (if_neg fun here => ?_).trans registered⟩
    rw [here.2, unused.pending] at found
    cases found
  · exact (held.delivered.inFlight msg member).put (unused.inFlight msg member) request
  · obtain ⟨target, accounted⟩ := held.delivered.mailbox m msg member
    exact ⟨target, accounted.put (unused.mailbox m msg member) request⟩

/-- What is not registered is not in use. -/
theorem Accountable.unused (held : Accountable requests history n ctx) (free : requests n id = none) : Unused n id ctx := by
  have absent : ∀ msg, Accounted requests history msg → ¬ (msg.requester = n ∧ msg.requestId = id) := by
    rintro msg ⟨request, registered, -⟩ ⟨owner, same⟩
    rw [owner, same, free] at registered
    cases registered
  refine ⟨?_, fun msg member => absent msg (held.delivered.inFlight msg member),
    fun m msg member => absent msg (held.delivered.mailbox m msg member).2⟩
  cases found : ctx.pendingControlAcks.lookup id with
  | none => rfl
  | some e =>
    obtain ⟨-, -, -, registered⟩ := held.pending id e found
    rw [free] at registered
    cases registered

/-- A request takes an unregistered id. -/
theorem Accountable.postRequest (held : Accountable requests history n ctx)
    (free : requests n ctx.nextControlRequestId = none) (addr : GlobalAddr) (range : BlockRange) (mode : CoherenceMode)
    (opcode : ControlOpcode) (kind : isAckOpcode opcode = false) (version : Version) :
    ∃ request, Accountable (requests.put n ctx.nextControlRequestId request) history n
        (postRequest ctx addr range mode opcode version).2 ∧
      (postRequest ctx addr range mode opcode version).2.nextControlRequestId = ctx.nextControlRequestId + 1 := by
  let msg := makeControlMessage ctx.config ctx.nextControlRequestId addr range mode opcode version
  have put := held.put (held.unused free) (some msg)
  have own : OwnRequest (requests.put n ctx.nextControlRequestId (some msg)) n ctx.nextControlRequestId msg :=
    ⟨rfl, held.node, kind, if_pos ⟨rfl, rfl⟩⟩
  have drawn : Accountable (requests.put n ctx.nextControlRequestId (some msg)) history n
      { ctx with nextControlRequestId := ctx.nextControlRequestId + 1 } := put.congr rfl rfl rfl
  have posted := drawn.post fun _ => own.accounted history
  refine ⟨some msg, ?_⟩
  unfold LeoMem.postRequest trackPosted
  simp only
  split
  · exact ⟨⟨posted.node, posted.pending.track _ own, posted.delivered⟩, rfl⟩
  · exact ⟨posted, rfl⟩

/-- At most `most` ids are drawn, from `id` up to the next one `id'`, and no others registered. -/
def DrawsIds (most : Nat) (id id' : UInt64) (own own' : UInt64 → Option ControlMessage) : Prop :=
  ∃ count ≤ most, id' = id + UInt64.ofNat count ∧
    ∀ k, own' k ≠ none → own k ≠ none ∨ ∃ j < count, k = id + UInt64.ofNat j

theorem DrawsIds.nothing (most : Nat) (id : UInt64) (own : UInt64 → Option ControlMessage) : DrawsIds most id id own own :=
  ⟨0, Nat.zero_le _, by simp, fun _ registered => Or.inl registered⟩

/-- Node `n` draws ids, and the registry stays as it was for every other node. -/
structure Draws (n : NodeId) (most : Nat) (id id' : UInt64) (requests requests' : Registry) : Prop where
  others : ∀ m, m ≠ n → requests' m = requests m
  drawn : DrawsIds most id id' (requests n) (requests' n)

theorem Draws.nothing (n : NodeId) (most : Nat) (id : UInt64) (requests : Registry) : Draws n most id id requests requests :=
  ⟨fun _ _ => rfl, .nothing most id _⟩

/-- Ids may be struck out before others are drawn. -/
theorem Draws.struck {most : Nat} {struck requests' : Registry} (draws : Draws n most id id' struck requests')
    (others : ∀ m, m ≠ n → struck m = requests m) (fewer : ∀ k, struck n k ≠ none → requests n k ≠ none) :
    Draws n most id id' requests requests' := by
  obtain ⟨same, count, le, next, registered⟩ := draws
  exact ⟨fun m other => (same m other).trans (others m other), count, le, next,
    fun k found => (registered k found).imp_left (fewer k)⟩

/-- The next id is drawn. -/
theorem Draws.put {most : Nat} {requests' : Registry} (draws : Draws n most id id' requests requests')
    (request : Option ControlMessage) : Draws n (most + 1) id (id' + 1) requests (requests'.put n id' request) := by
  obtain ⟨same, count, le, next, registered⟩ := draws
  refine ⟨fun m other => (Registry.put_other _ other _ _).trans (same m other), count + 1, Nat.succ_le_succ le, ?_,
    fun k found => ?_⟩
  · rw [next, UInt64.ofNat_add, UInt64.add_assoc]
    rfl
  · by_cases here : k = id'
    · exact Or.inr ⟨count, Nat.lt_succ_self _, here.trans next⟩
    · have old : requests' n k ≠ none := by rwa [Registry.put, if_neg fun both => here both.2] at found
      exact (registered k old).imp_right fun ⟨j, lt, its⟩ => ⟨j, Nat.lt_succ_of_lt lt, its⟩

theorem Draws.mono {most most' : Nat} {requests' : Registry} (draws : Draws n most id id' requests requests')
    (le : most ≤ most') : Draws n most' id id' requests requests' := by
  obtain ⟨same, count, few, rest⟩ := draws
  exact ⟨same, count, few.trans le, rest⟩

theorem Accountable.postWriteMessages (held : Accountable requests history n ctx)
    (first : requests n ctx.nextControlRequestId = none) (second : requests n (ctx.nextControlRequestId + 1) = none)
    (addr : GlobalAddr) (range : BlockRange) (modes : List CoherenceMode) (ownerHandoff : Bool) (maxVersion : Version) :
    ∃ requests', Draws n 2 ctx.nextControlRequestId
        (postWriteMessages ctx addr range modes ownerHandoff maxVersion).2.nextControlRequestId requests requests' ∧
      Accountable requests' history n (postWriteMessages ctx addr range modes ownerHandoff maxVersion).2 := by
  have apart : ctx.nextControlRequestId + 1 ≠ ctx.nextControlRequestId := by
    intro same
    simp at same
  obtain ⟨request, invalidation, next⟩ := held.postRequest first addr range .kWI .kInvalidateRange rfl maxVersion
  have free : (requests.put n ctx.nextControlRequestId request) n
      (LeoMem.postRequest ctx addr range .kWI .kInvalidateRange maxVersion).2.nextControlRequestId = none := by
    rw [next]
    exact (if_neg fun here => apart here.2).trans second
  obtain ⟨request', both, last⟩ := invalidation.postRequest free addr range .kAdaptive .kOwnerTransfer rfl maxVersion
  obtain ⟨request'', transfer, only⟩ := held.postRequest first addr range .kAdaptive .kOwnerTransfer rfl maxVersion
  have nothing : Draws n 0 ctx.nextControlRequestId ctx.nextControlRequestId requests requests := .nothing n 0 _ _
  refine postWriteMessages_rule
    (J := fun c => ∃ requests', Draws n 2 ctx.nextControlRequestId c.nextControlRequestId requests requests' ∧
      Accountable requests' history n c)
    ⟨requests, .nothing n 2 _ _, held⟩ ⟨_, ?_, invalidation⟩ ⟨_, ?_, transfer⟩ ⟨_, ?_, both⟩
  · rw [next]
    exact (nothing.put request).mono (by omega)
  · rw [only]
    exact (nothing.put request'').mono (by omega)
  · rw [last, next]
    exact (nothing.put request).put request'

/-! ### Calls -/

theorem Accountable.writeRemote (held : Accountable requests history n ctx)
    (first : requests n ctx.nextControlRequestId = none) (second : requests n (ctx.nextControlRequestId + 1) = none)
    (ord : IterOrder) (addr : GlobalAddr) {buf : Bytes} (filled : buf.size ≠ 0) (range : BlockRange)
    (modes : List CoherenceMode) :
    ∃ requests', Draws n 2 ctx.nextControlRequestId (writeRemote ord ctx addr buf range modes).2.nextControlRequestId
        requests requests' ∧
      Accountable requests' history n (writeRemote ord ctx addr buf range modes).2 := by
  refine writeRemote_numbered (I := fun c => ∃ requests',
      Draws n 2 ctx.nextControlRequestId c.nextControlRequestId requests requests' ∧ Accountable requests' history n c)
    PeerTransport.writeKeeps_wires ?_ ord filled fun table handoff version => ?_
  · rintro c c' config acks wires next ⟨requests', draws, kept⟩
    exact ⟨requests', next ▸ draws, kept.congr config acks wires⟩
  · have recorded : Accountable requests history n { ctx with blockTable := table } := held.congr rfl rfl rfl
    exact recorded.postWriteMessages first second addr range modes handoff version

theorem Accountable.lmWrite (held : Accountable requests history n ctx)
    (first : Unused n ctx.nextControlRequestId ctx) (second : Unused n (ctx.nextControlRequestId + 1) ctx)
    (ord : IterOrder) (addr : GlobalAddr) (buf : Bytes) :
    ∃ requests', Draws n 2 ctx.nextControlRequestId (lmWrite ord ctx addr buf).2.nextControlRequestId requests requests' ∧
      Accountable requests' (history ++ (accessDrains ord ctx addr buf.size).map fun d => (n, d)) n
        (lmWrite ord ctx addr buf).2 := by
  -- the two ids are struck out of the registry before the messages are taken in
  let struck := (requests.put n ctx.nextControlRequestId none).put n (ctx.nextControlRequestId + 1) none
  have struckFirst : struck n ctx.nextControlRequestId = none := by simp [struck, Registry.put]
  have struckSecond : struck n (ctx.nextControlRequestId + 1) = none := by simp [struck, Registry.put]
  have others : ∀ m, m ≠ n → struck m = requests m := fun m other =>
    (Registry.put_other _ other _ _).trans (Registry.put_other _ other _ _)
  have fewer : ∀ k, struck n k ≠ none → requests n k ≠ none := by
    intro k found gone
    simp only [struck, Registry.put] at found
    split at found
    · exact found rfl
    · split at found
      · exact found rfl
      · exact found gone
  have untouched : Draws n 2 ctx.nextControlRequestId ctx.nextControlRequestId requests struck :=
    (Draws.nothing n 2 _ struck).struck others fewer
  have after := ((held.put first none).put second none).openAccess ord addr buf.size
  have next := openAccess_nextId ord ctx addr buf.size
  refine lmWrite_rule (I := fun c => c.nextControlRequestId = ctx.nextControlRequestId ∧ Accountable struck _ n c)
    (J := fun r => ∃ requests', Draws n 2 ctx.nextControlRequestId r.2.nextControlRequestId requests requests' ∧
      Accountable requests' _ n r.2)
    ⟨next, after⟩ (fun _ c _ kept => ⟨struck, kept.1 ▸ untouched, kept.2⟩) (fun c range _ _ kept => ?_)
    (fun c range opened _ kept => ?_)
  · have touched : LeoMem.Accountable struck _ n (touchMetadata c addr range .kWrite).2 := kept.2.congr rfl rfl rfl
    obtain ⟨same, -⟩ := writeThrough_same (touchMetadata c addr range .kWrite).2 addr buf true
    have written := writeThrough_written (touchMetadata c addr range .kWrite).2 addr buf true
    have wires := (congrArg (fun w => w.2.wires) written).trans
      (PeerTransport.write_wires _ addr buf _)
    have drawn := (unmoved_nextId.writeThrough (touchMetadata c addr range .kWrite).2 addr buf true).trans kept.1
    exact ⟨struck, drawn ▸ untouched, touched.congr same.config same.acks wires⟩
  · have touched : LeoMem.Accountable struck _ n (touchMetadata c addr range .kWrite).2 := kept.2.congr rfl rfl rfl
    have drawn : (touchMetadata c addr range .kWrite).2.nextControlRequestId = ctx.nextControlRequestId := kept.1
    obtain ⟨requests', more, wrote⟩ := touched.writeRemote (by rw [drawn]; exact struckFirst)
      (by rw [drawn]; exact struckSecond) ord addr (openAccess_filled opened) range
      (touchMetadata c addr range .kWrite).1
    rw [drawn] at more
    exact ⟨requests', more.struck others fewer, wrote⟩

theorem Accountable.lmRead (held : Accountable requests history n ctx) (ord : IterOrder) (addr : GlobalAddr)
    (size : UInt64) :
    Accountable requests (history ++ (accessDrains ord ctx addr size).map fun d => (n, d)) n (lmRead ord ctx addr size).2 := by
  exact lmRead_keeps PeerTransport.readKeeps_wires (fun _ _ config acks wires kept => kept.congr config acks wires)
    (held.openAccess ord addr size)

end

/-- The ids a write may draw are not in use. -/
def DrawsUnused (n : NodeId) (ctx : RuntimeContext PeerTransport) (i : Invocation) : Prop :=
  match i.call with
  | .write _ _ => Unused n ctx.nextControlRequestId ctx ∧ Unused n (ctx.nextControlRequestId + 1) ctx
  | _ => True

/-- How many ids a call draws at most. -/
def ApiCall.mostIds : ApiCall → Nat
  | .write _ _ => 2
  | _ => 0

/-- **One call of a node**: what its drains remove was handled, and all stays accounted for. -/
theorem Accountable.exec {history : DrainHistory} {n : NodeId} {ctx : RuntimeContext PeerTransport}
    (held : Accountable requests history n ctx) (i : Invocation) (unused : DrawsUnused n ctx i) :
    AcksMeanHandled history ((drains ctx i).map fun d => (n, d)) ∧
      ∃ requests', Draws n i.call.mostIds ctx.nextControlRequestId (exec ctx i).2.nextControlRequestId requests requests' ∧
        Accountable requests' (history ++ (drains ctx i).map fun d => (n, d)) n (exec ctx i).2 := by
  obtain ⟨ord, call⟩ := i
  -- only a write registers anything
  have same {id : UInt64} (next : id = ctx.nextControlRequestId) :
      Draws n 0 ctx.nextControlRequestId id requests requests := next ▸ .nothing n 0 _ _
  cases call with
  | malloc size =>
    obtain ⟨config, -, acks, transport⟩ := lmMalloc_keeps ctx size
    obtain ⟨allocator, table, stats, moved⟩ := lmMalloc_eq ctx size
    have after := held.congr config acks (congrArg PeerTransport.wires transport)
    have next : (lmMalloc ctx size).2.nextControlRequestId = ctx.nextControlRequestId := by rw [moved]
    exact ⟨trivial, requests, same next, (List.append_nil history).symm ▸ after⟩
  | free addr => exact ⟨trivial, requests, same rfl, (List.append_nil history).symm ▸ held⟩
  | read addr size =>
    exact ⟨accessDrains_acksMeanHandled held ord addr size, requests, same (lmRead_nextId ord ctx addr size),
      held.lmRead ord addr size⟩
  | write addr buf =>
    exact ⟨accessDrains_acksMeanHandled held ord addr buf.size, held.lmWrite unused.1 unused.2 ord addr buf⟩
  | fence => exact ⟨(held.lmFence ord).1, requests, same (lmFence_nextId ord ctx), (held.lmFence ord).2⟩

/-! ### The cluster -/

namespace Cluster

/-- Every node and the network are accounted for. -/
structure Accountable (requests : Registry) (history : DrainHistory) (c : Cluster) : Prop where
  node : ∀ n, (c.nodes n).config.nodeId = n
  pending : ∀ n, (c.nodes n).pendingControlAcks.Each (OwnRequest requests n)
  delivered : Delivered requests history c.network

/-- A step draws no id that is in use. -/
def DrawsUnused (c : Cluster) : ClusterInput → Prop
  | .call n i => LeoMem.DrawsUnused n (c.view n) i
  | .deliver _ => True

variable {requests : Registry} {history : DrainHistory} {c : Cluster}

theorem accountable_init (cfg : ClusterConfig) : (init cfg).Accountable (fun _ _ => none) [] where
  node := cfg.own
  pending n id e found := by cases found
  delivered := ⟨fun msg member => (by cases member), fun n msg member => (by cases member)⟩

theorem delivered_deliver {t : PeerTransport} (delivered : Delivered requests history t) (k : Nat) :
    Delivered requests history (t.deliver k) := by
  refine ⟨fun msg member => delivered.inFlight msg (PeerTransport.inFlight_deliver t k member), fun m msg member => ?_⟩
  rcases PeerTransport.mailbox_deliver t k member with old | ⟨sent, rfl⟩
  · exact delivered.mailbox m msg old
  · exact ⟨rfl, delivered.inFlight msg sent⟩

/-- How many ids node `n` draws at most. -/
def mostIds (n : NodeId) : ClusterInput → Nat
  | .call m i => if m = n then i.call.mostIds else 0
  | .deliver _ => 0

theorem Accountable.step (held : c.Accountable requests history) (input : ClusterInput) (unused : c.DrawsUnused input) :
    AcksMeanHandled history (c.drains input) ∧
      ∃ requests', (c.step input).2.Accountable requests' (history ++ c.drains input) ∧
        ∀ n, DrawsIds (mostIds n input) (c.nodes n).nextControlRequestId
          ((c.step input).2.nodes n).nextControlRequestId (requests n) (requests' n) := by
  cases input with
  | deliver k =>
    exact ⟨trivial, requests, ⟨held.node, held.pending, (List.append_nil history).symm ▸ delivered_deliver held.delivered k⟩,
      fun n => .nothing _ _ _⟩
  | call n i =>
    have view : LeoMem.Accountable requests history n (c.view n) := ⟨held.node n, held.pending n, held.delivered⟩
    obtain ⟨meant, requests', draws, after⟩ := view.exec i unused
    have others := draws.others
    rw [← view_call] at after draws
    refine ⟨meant, requests', ⟨fun m => ?_, fun m => ?_, after.delivered⟩, fun m => ?_⟩
    · by_cases same : m = n
      · rw [same]
        exact after.node
      · rw [nodes_call_of_ne c same]
        exact held.node m
    · by_cases same : m = n
      · rw [same]
        exact after.pending
      · intro id e found
        rw [nodes_call_of_ne c same] at found
        obtain ⟨id, source, kind, registered⟩ := held.pending m id e found
        exact ⟨id, source, kind, others m same ▸ registered⟩
    · by_cases same : m = n
      · subst same
        rw [mostIds, if_pos rfl]
        exact draws.drawn
      · rw [nodes_call_of_ne c same, others m same]
        exact .nothing _ _ _

variable {inputs : List ClusterInput}

theorem Accountable.run (held : c.Accountable requests history) (unused : Along Cluster.step DrawsUnused c inputs) :
    AcksMeanHandled history (drainHistory c inputs) := by
  induction inputs generalizing c requests history with
  | nil => trivial
  | cons input inputs ih =>
    obtain ⟨now, requests', next, -⟩ := held.step input unused.1
    exact (acksMeanHandled_append _ _ _).mpr ⟨now, ih next unused.2⟩

/-! #### Runs that do not use the ids up -/

/-- The ids registered for a node are those it has drawn. -/
def IdsBelow (c : Cluster) (requests : Registry) : Prop :=
  ∀ n k, requests n k ≠ none → k.toNat < (c.nodes n).nextControlRequestId.toNat

/-- Ids not drawn yet are not in use. -/
theorem Accountable.drawsUnused (held : c.Accountable requests history) (below : c.IdsBelow requests) (input : ClusterInput)
    (room : ∀ n, (c.nodes n).nextControlRequestId.toNat + mostIds n input < 2 ^ 64) : c.DrawsUnused input := by
  cases input with
  | deliver k => trivial
  | call n i =>
    obtain ⟨ord, call⟩ := i
    cases call with
    | write addr buf =>
      have view : LeoMem.Accountable requests history n (c.view n) := ⟨held.node n, held.pending n, held.delivered⟩
      have enough := room n
      simp only [mostIds, if_true, ApiCall.mostIds] at enough
      have free : ∀ id : UInt64, (c.nodes n).nextControlRequestId.toNat ≤ id.toNat → requests n id = none := by
        intro id le
        by_contra found
        exact absurd (below n id found) (by omega)
      have next : ((c.nodes n).nextControlRequestId + 1).toNat = (c.nodes n).nextControlRequestId.toNat + 1 :=
        toNat_succ (by omega)
      exact ⟨view.unused (free _ (Nat.le_refl _)), view.unused (free _ (next ▸ Nat.le_succ _))⟩
    | _ => trivial

/-- The ids a step draws are below the next one. -/
theorem IdsBelow.step {requests' : Registry} (below : c.IdsBelow requests) {input : ClusterInput}
    (draws : ∀ n, DrawsIds (mostIds n input) (c.nodes n).nextControlRequestId
      ((c.step input).2.nodes n).nextControlRequestId (requests n) (requests' n))
    (room : ∀ n, (c.nodes n).nextControlRequestId.toNat + mostIds n input < 2 ^ 64) :
    (c.step input).2.IdsBelow requests' ∧ ∀ n, ((c.step input).2.nodes n).nextControlRequestId.toNat ≤
      (c.nodes n).nextControlRequestId.toNat + mostIds n input := by
  have upTo (n : NodeId) {count : Nat} (few : count ≤ mostIds n input) :
      ((c.nodes n).nextControlRequestId + UInt64.ofNat count).toNat = (c.nodes n).nextControlRequestId.toNat + count := by
    have enough := room n
    rw [UInt64.toNat_add, UInt64.toNat_ofNat', Nat.mod_eq_of_lt (by omega : count < 2 ^ 64), Nat.mod_eq_of_lt (by omega)]
  constructor
  · intro n k found
    obtain ⟨count, few, next, registered⟩ := draws n
    rw [next, upTo n few]
    rcases registered k found with old | ⟨j, lt, rfl⟩
    · exact Nat.lt_of_lt_of_le (below n k old) (Nat.le_add_right _ _)
    · rw [upTo n (by omega)]
      omega
  · intro n
    obtain ⟨count, few, next, -⟩ := draws n
    rw [next, upTo n few]
    omega

/-- **Ids come round only in long runs**: where the nodes' ids last, no write draws one in use. -/
theorem Accountable.drawsUnused_run (held : c.Accountable requests history) (below : c.IdsBelow requests)
    (room : ∀ n, (c.nodes n).nextControlRequestId.toNat + (inputs.map (mostIds n)).sum < 2 ^ 64) :
    Along Cluster.step DrawsUnused c inputs := by
  induction inputs generalizing c requests history with
  | nil => trivial
  | cons input inputs ih =>
    simp only [List.map_cons, List.sum_cons] at room
    have enough : ∀ n, (c.nodes n).nextControlRequestId.toNat + mostIds n input < 2 ^ 64 := fun n => by
      have total := room n
      omega
    have unused := held.drawsUnused below input enough
    obtain ⟨-, requests', next, draws⟩ := held.step input unused
    obtain ⟨below', drawn⟩ := below.step draws enough
    refine ⟨unused, ih next below' fun n => ?_⟩
    have total := room n
    have few := drawn n
    omega

/-- In a run from `lm_init` in which each node makes fewer than `2 ^ 63 - 1` writes every id
that is drawn is unused. -/
theorem drawsUnused_of_few (cfg : ClusterConfig) (few : ∀ n, (inputs.map (mostIds n)).sum + 1 < 2 ^ 64) :
    Along Cluster.step DrawsUnused (init cfg) inputs := by
  refine (accountable_init cfg).drawsUnused_run (fun n k found => absurd rfl found) fun n => ?_
  have total := few n
  change 1 + (inputs.map (mostIds n)).sum < 2 ^ 64
  omega

end Cluster

/-- **An acknowledgement means that the target applied the request**: in every run of a
cluster, with messages delivered in any order and sent again any number of times, a node
removes a pending request only after the request's target has handled it, as long as no
write draws an id that a message of its node still carries. -/
theorem acks_mean_handled (cfg : ClusterConfig) (inputs : List ClusterInput)
    (unused : Along Cluster.step Cluster.DrawsUnused (Cluster.init cfg) inputs) :
    AcksMeanHandled [] (Cluster.drainHistory (Cluster.init cfg) inputs) :=
  (Cluster.accountable_init cfg).run unused

/-- Two nodes in WI mode that send a request again at once. -/
def hastyCluster : ClusterConfig where
  node n :=
    { nodeId := n, nrNodes := 2, blockSize := 4, localRegionSize := 16, coherenceModeOverride := 0
      controlAckTimeoutPolls := 0, controlAckMaxRetries := 1 }
  own _ := rfl

/-- Node 0 writes the first block of node 1, and its request is sent twice. Node 1 handles
both; node 0 takes the first acknowledgement in. -/
def sentTwice : List ClusterInput :=
  [.call 0 ⟨.stored, .write ⟨1, 0, 0⟩ (.ofList [7])⟩, .call 0 ⟨.stored, .read ⟨1, 0, 8⟩ 1⟩, .deliver 0, .deliver 0,
    .call 1 ⟨.stored, .fence⟩, .deliver 0, .call 0 ⟨.stored, .fence⟩]

theorem sentTwice_handled :
    (∃ x ∈ (Cluster.init hastyCluster).drainHistory sentTwice, x.2.removed ≠ []) ∧
      AcksMeanHandled [] ((Cluster.init hastyCluster).drainHistory sentTwice) :=
  ⟨by decide +kernel, acks_mean_handled hastyCluster sentTwice (Cluster.drawsUnused_of_few hastyCluster fun n => by
    by_cases zero : 0 = n <;> by_cases one : 1 = n <;>
      simp [sentTwice, Cluster.mostIds, ApiCall.mostIds, zero, one])⟩

/-! ### Ids that come round

The id counter has 64 bits. A node can draw all of them while the second acknowledgement of
a request it sent twice is on its way. -/

section
variable {ctx : RuntimeContext PeerTransport}

/-- A waiting acknowledgement removes the request that has its id. -/
theorem mem_removed_of_ack (path : ctx.config.rdmaEnableControlPath = true) {ack : ControlMessage}
    (waiting : ctx.transport.mailbox ctx.config.nodeId = [ack]) (kind : isAckOpcode ack.opcode = true)
    (numbered : ack.requestId ≠ 0) {e : PendingControlAck}
    (found : ctx.pendingControlAcks.lookup ack.requestId = some e) (ord : IterOrder) :
    e ∈ (drainOf (drainMessage ord) ctx).removed := by
  have taken : (Transport.drainControlMessages ctx.config 64 ctx.transport).1 = (.kOk, [ack]) := by
    change (PeerTransport.drainControlMessages ctx.config 64 ctx.transport).1 = _
    simp [PeerTransport.drainControlMessages, path, waiting]
  have handled : (drainOf (drainMessage ord) ctx).handled = [ack] := by
    simp [drainOf, takenMessages, taken, postFailed, worked, drainMessage, kind]
  have before : (drainOf (drainMessage ord) ctx).before = ctx := rfl
  simp [Drain.removed, handled, before, removals, kind, numbered, found]

theorem exists_fenceDrains (initialized : ctx.initialized = true) (ord : IterOrder) :
    ∃ rest, fenceDrains ord ctx = drainOf (drainMessage ord) ctx :: rest := by
  unfold fenceDrains
  rw [if_neg (by simp [initialized])]
  simp only
  split
  · exact ⟨[], rfl⟩
  · exact ⟨_, rfl⟩

end

theorem Cluster.drainHistory_append (c : Cluster) (is js : List ClusterInput) :
    c.drainHistory (is ++ js) = c.drainHistory is ++ (run Cluster.step c is).2.drainHistory js := by
  induction is generalizing c with
  | nil => rfl
  | cons input is ih => simp [Cluster.drainHistory, ih]

/-- Node 0 writes to a node it has no connection to. -/
def lostWrite : ClusterInput := .call 0 ⟨.stored, .write ⟨5, 0, 0⟩ (.ofList [7])⟩

/-- Node 0 writes the second block of node 1. -/
def secondWrite : ClusterInput := .call 0 ⟨.stored, .write ⟨1, 0, 4⟩ (.ofList [7])⟩

/-- Then the acknowledgement left over comes in. -/
def staleAck : List ClusterInput := [secondWrite, .deliver 0, .call 0 ⟨.stored, .fence⟩]

/-- Node 0 at rest over the network `t`, with `id` to draw next. -/
structure Drawing (t : PeerTransport) (id : UInt64) (c : Cluster) : Prop where
  config : (c.nodes 0).config = hastyCluster.node 0
  rest : AtRest (c.view 0)
  network : c.network = t
  next : (c.view 0).nextControlRequestId = id

variable {c : Cluster} {t : PeerTransport}

theorem Drawing.lostWrite {id : UInt64} (drawing : Drawing t id c) : Drawing t (id + 1) (c.step lostWrite).2 := by
  have config : (c.view 0).config = hastyCluster.node 0 := drawing.config
  have access : Invalidates (c.view 0).config ⟨5, 0, 0⟩ (Bytes.ofList [7]).size := by
    rw [config]
    exact ⟨rfl, rfl, rfl, by decide, by decide, by decide, by decide +kernel⟩
  obtain ⟨rest, next, transport⟩ := drawing.rest.lmWrite_unreachable access (by rw [config]; rfl) .stored
  have view : (c.step LeoMem.lostWrite).2.view 0 = (lmWrite .stored (c.view 0) ⟨5, 0, 0⟩ (.ofList [7])).2 :=
    Cluster.view_call c 0 _
  refine ⟨(Cluster.step_config c _ 0).trans drawing.config, view ▸ rest, ?_, ?_⟩
  · exact transport.trans drawing.network
  · rw [view, next, drawing.next]

/-- The ids of `k` lost writes are spent. -/
theorem Drawing.lostWrites {id : UInt64} (drawing : Drawing t id c) (k : Nat) :
    Drawing t (id + UInt64.ofNat k) (run Cluster.step c (List.replicate k LeoMem.lostWrite)).2 := by
  induction k generalizing id c with
  | zero => simpa using drawing
  | succ k ih =>
    have spent : id + UInt64.ofNat (k + 1) = id + 1 + UInt64.ofNat k := by
      rw [UInt64.ofNat_add, UInt64.add_comm (UInt64.ofNat k), ← UInt64.add_assoc]
      rfl
    rw [spent]
    exact ih drawing.lostWrite

theorem drainHistory_lostWrites (k : Nat) (c : Cluster) :
    ∀ x ∈ c.drainHistory (List.replicate k lostWrite), x.1 = 0 := by
  induction k generalizing c with
  | zero => simp [Cluster.drainHistory]
  | succ k ih =>
    intro x member
    rcases List.mem_append.mp member with now | later
    · obtain ⟨_, _, rfl⟩ := List.mem_map.mp now
      rfl
    · exact ih _ x later

/-- The acknowledgement left over. -/
def leftover : ControlMessage :=
  { opcode := .kInvalidateAck, sourceNode := 1, targetNode := 0, requestId := 1, firstBlock := ⟨0, 0⟩
    lastBlock := ⟨0, 0⟩, version := 1, mode := .kWI }

theorem sentTwice_drawing :
    Drawing (Cluster.after hastyCluster sentTwice).network 2 (Cluster.after hastyCluster sentTwice) where
  config := Cluster.after_config hastyCluster sentTwice 0
  rest := ⟨by decide +kernel, AList.ext (by decide +kernel), by decide +kernel⟩
  network := rfl
  next := by decide +kernel

/-- The acknowledgement comes in while a request with its id is pending. -/
theorem handledAt_of_leftover (config : (c.view 0).config = hastyCluster.node 0)
    (initialized : (c.view 0).initialized = true) (reused : msg.requestId = 1)
    (pending : (c.view 0).pendingControlAcks = PendingControlAcks.track (hastyCluster.node 0) ∅ msg)
    (flight : c.network.inFlight = [leftover, msg]) (mailbox : c.network.mailbox 0 = []) {seen : DrainHistory}
    (meant : AcksMeanHandled seen (c.drainHistory [.deliver 0, .call 0 ⟨.stored, .fence⟩])) :
    HandledAt seen msg.targetNode msg := by
  have delivered : (c.network.deliver 0).mailbox 0 = [leftover] := by
    simp [PeerTransport.deliver, flight, leftover, mailbox]
  let waiting : RuntimeContext PeerTransport := (c.nodes 0).withTransport (c.network.deliver 0)
  have found : waiting.pendingControlAcks.lookup leftover.requestId = some ⟨msg, 0, 1⟩ := by
    change (c.view 0).pendingControlAcks.lookup 1 = _
    rw [pending, PendingControlAcks.track, reused, if_neg (by decide), HashMap.lookup_insert_if, if_pos rfl]
    rfl
  have own : waiting.config.nodeId = 0 := congrArg Config.nodeId config
  have mailbox : waiting.transport.mailbox waiting.config.nodeId = [leftover] := own.symm ▸ delivered
  have path : waiting.config.rdmaEnableControlPath = true := congrArg Config.rdmaEnableControlPath config
  have removed := mem_removed_of_ack path mailbox rfl (by decide) found .stored
  have ready : waiting.initialized = true := initialized
  obtain ⟨rest, drains⟩ := exists_fenceDrains ready .stored
  have history : c.drainHistory [.deliver 0, .call 0 ⟨.stored, .fence⟩] =
      (0, drainOf (drainMessage .stored) waiting) :: rest.map fun d => (0, d) := by
    change [] ++ ((fenceDrains .stored waiting).map _ ++ []) = _
    rw [drains]
    simp
  rw [history] at meant
  exact meant.1 _ removed

/-- With the first id to draw again and the acknowledgement on its way, the write to the
second block is taken for acknowledged. -/
theorem Drawing.staleAck (drawing : Drawing t 1 c) (flight : t.inFlight = [leftover]) {seen : DrainHistory}
    (meant : AcksMeanHandled seen (c.drainHistory staleAck)) :
    ∃ msg, msg.firstBlock.blockIndex = 1 ∧ HandledAt (seen ++ c.drains secondWrite) 1 msg := by
  have config : (c.view 0).config = hastyCluster.node 0 := drawing.config
  have access : Invalidates (c.view 0).config ⟨1, 0, 4⟩ (Bytes.ofList [7]).size := by
    rw [config]
    exact ⟨rfl, rfl, rfl, by decide, by decide, by decide, by decide +kernel⟩
  obtain ⟨version, initialized, pending, wires⟩ := drawing.rest.lmWrite_reachable access (by rw [config]; rfl) .stored
  have view : (c.step secondWrite).2.view 0 = (lmWrite .stored (c.view 0) ⟨1, 0, 4⟩ (.ofList [7])).2 :=
    Cluster.view_call c 0 _
  rw [drawing.next, config] at pending wires
  rw [← view] at initialized pending wires
  obtain ⟨inFlight, mailbox⟩ := Prod.mk.inj wires
  have network : (c.view 0).transport = t := drawing.network
  have empty := drawing.rest.mailbox
  rw [config, ← mailbox] at empty
  rw [network, flight] at inFlight
  have later := ((acksMeanHandled_append seen (c.drains secondWrite) _).mp meant).2
  exact ⟨_, (by decide : (4 : UInt64) / 4 = 1),
    handledAt_of_leftover ((Cluster.step_config c _ 0).trans drawing.config) initialized rfl pending inFlight empty later⟩

theorem not_acksMeanHandled_of_round {k : Nat} (round : 2 + UInt64.ofNat k = 1) :
    ¬ AcksMeanHandled [] (Cluster.drainHistory (Cluster.init hastyCluster)
      (sentTwice ++ (List.replicate k lostWrite ++ staleAck))) := by
  rw [Cluster.drainHistory_append, Cluster.drainHistory_append, acksMeanHandled_append, acksMeanHandled_append]
  rintro ⟨-, -, meant⟩
  have drawing := round ▸ sentTwice_drawing.lostWrites k
  obtain ⟨msg, second, d, member, inside⟩ := drawing.staleAck (by decide +kernel) meant
  have first : ∀ x ∈ (Cluster.init hastyCluster).drainHistory sentTwice, x.1 = 1 →
      ∀ msg ∈ x.2.handled, msg.firstBlock.blockIndex = 0 := by decide +kernel
  simp only [List.nil_append, List.mem_append] at member
  rcases member with (before | between) | now
  · have zero := first _ before rfl msg inside
    rw [second] at zero
    cases zero
  · cases drainHistory_lostWrites _ _ _ between
  · obtain ⟨_, _, same⟩ := List.mem_map.mp now
    cases congrArg Prod.fst same

/-- After 2^64 - 1 lost writes node 0 draws its first id again. The acknowledgement of its
first request then removes the new one, which node 1 has not handled. -/
theorem reusedId_not_handled :
    ¬ AcksMeanHandled [] (Cluster.drainHistory (Cluster.init hastyCluster)
      (sentTwice ++ (List.replicate (2 ^ 64 - 1) lostWrite ++ staleAck))) :=
  not_acksMeanHandled_of_round (by decide +kernel)

end LeoMem
