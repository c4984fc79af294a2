import LeoMem.Cluster.Acks
import LeoMem.Control.Pass
import LeoMem.Lib.Rounds
import Mathlib.Algebra.BigOperators.Group.Finset.Basic

/-!
# No request is lost, and all are settled

In a cluster whose nodes all reach each other, a request that waits for its
acknowledgement is on its way to its target, waits there, or is answered: its
acknowledgement is on its way back or waits at the sender (`Awaited`). Every step keeps
this, whatever ids are drawn. The messages on their way and the retries that are left
weigh something (`Cluster.weight`); a fence of a node with waiting messages makes the
cluster lighter, so fences of all nodes, round after round, settle every request.
-/

namespace LeoMem
open Lib RuntimeContext

/-- Every node of the cluster can send control messages to every other. -/
structure ClusterConfig.Reaches (cfg : ClusterConfig) (nodes : NodeId) : Prop where
  nrNodes : ∀ n < nodes, (cfg.node n).nrNodes = nodes
  controlPath : ∀ n < nodes, (cfg.node n).rdmaEnableControlPath = true

/-- The node that makes the input. -/
def ClusterInput.caller : ClusterInput → NodeId
  | .call n _ => n
  | .deliver _ => kInvalidNodeId

/-- The calls are those of the cluster's nodes. -/
def ClusterInput.ByMember (nodes : NodeId) : ClusterInput → Prop
  | .call n _ => n < nodes
  | .deliver _ => True

/-- The options of node `n` in a cluster of `nodes` nodes. -/
structure Member (nodes n : NodeId) (cfg : Config) : Prop where
  id : cfg.nodeId = n
  inside : n < nodes
  nrNodes : cfg.nrNodes = nodes
  controlPath : cfg.rdmaEnableControlPath = true

/-- A message from one node of the cluster to another. -/
structure ControlMessage.Between (nodes : NodeId) (msg : ControlMessage) : Prop where
  source : msg.sourceNode < nodes
  target : msg.targetNode < nodes
  apart : msg.sourceNode ≠ msg.targetNode

section
variable {nodes n : NodeId} {cfg : Config}

theorem Member.post_ok (member : Member nodes n cfg) {msg : ControlMessage} (target : msg.targetNode < nodes)
    (other : msg.targetNode ≠ n) (t : PeerTransport) :
    PeerTransport.postControlMessage cfg msg t = (.kOk, { t with inFlight := t.inFlight ++ [msg] }) := by
  have reachable : PeerTransport.connected cfg msg.targetNode = true := by
    simp [PeerTransport.connected, member.nrNodes, member.id, target, other]
  simp [PeerTransport.postControlMessage, member.controlPath, reachable]

/-- A post goes to another node of the cluster, or nowhere. -/
theorem Member.post_cases (member : Member nodes n cfg) (msg : ControlMessage) (t : PeerTransport) :
    (msg.targetNode < nodes ∧ msg.targetNode ≠ n) ∨
      PeerTransport.postControlMessage cfg msg t = (.kNotFound, t) := by
  cases reachable : PeerTransport.connected cfg msg.targetNode with
  | true =>
    simp only [PeerTransport.connected, member.nrNodes, member.id, Bool.and_eq_true, decide_eq_true_eq, bne_iff_ne]
      at reachable
    exact Or.inl reachable
  | false => exact Or.inr (by simp [PeerTransport.postControlMessage, member.controlPath, reachable])

theorem Member.drain (member : Member nodes n cfg) (t : PeerTransport) :
    PeerTransport.drainControlMessages cfg 64 t =
      ((.kOk, (t.mailbox n).take 64), { t with mailbox := Function.update t.mailbox n ((t.mailbox n).drop 64) }) := by
  simp [PeerTransport.drainControlMessages, member.controlPath, member.id]

end

/-! ## Where a pending request is -/

/-- `msg` is on its way, waits at its target, or is in the hand of a node that has just taken it. -/
def OnTheWay (t : PeerTransport) (hand : List ControlMessage) (msg : ControlMessage) : Prop :=
  msg ∈ t.inFlight ∨ msg ∈ t.mailbox msg.targetNode ∨ msg ∈ hand

/-- `msg` acknowledges the request `id` of node `n`. -/
structure Acknowledges (n : NodeId) (id : UInt64) (msg : ControlMessage) : Prop where
  kind : isAckOpcode msg.opcode = true
  target : msg.targetNode = n
  names : msg.requestId = id

/-- The request `id` of node `n` is on its way, or an acknowledgement of it is. -/
structure Awaited (t : PeerTransport) (hand : List ControlMessage) (n : NodeId) (id : UInt64) (request : ControlMessage) :
    Prop where
  names : request.requestId = id
  drawn : id ≠ 0
  source : request.sourceNode = n
  kind : isAckOpcode request.opcode = false
  comes : OnTheWay t hand request ∨ ∃ ack, Acknowledges n id ack ∧ OnTheWay t hand ack

section
variable {t t' : PeerTransport} {hand hand' : List ControlMessage} {n : NodeId} {id : UInt64} {request : ControlMessage}

theorem Awaited.mono (awaited : Awaited t hand n id request) (all : ∀ msg, OnTheWay t hand msg → OnTheWay t' hand' msg) :
    Awaited t' hand' n id request := by
  refine ⟨awaited.names, awaited.drawn, awaited.source, awaited.kind, ?_⟩
  rcases awaited.comes with itself | ⟨ack, acknowledges, comes⟩
  · exact Or.inl (all _ itself)
  · exact Or.inr ⟨ack, acknowledges, all _ comes⟩

/-- Every pending request is awaited as long as no message gets lost. -/
theorem each_awaited_mono {acks : PendingControlAcks} (each : acks.Each (Awaited t hand n))
    (all : ∀ msg, OnTheWay t hand msg → OnTheWay t' hand' msg) : acks.Each (Awaited t' hand' n) :=
  fun id e found => (each id e found).mono all

variable {msg : ControlMessage}

theorem OnTheWay.congr (comes : OnTheWay t hand msg) (same : t'.wires = t.wires) : OnTheWay t' hand msg := by
  obtain ⟨inFlight, mailbox⟩ := Prod.mk.inj same
  unfold OnTheWay
  rw [inFlight, mailbox]
  exact comes

theorem OnTheWay.append (comes : OnTheWay t hand msg) (sent : List ControlMessage)
    (inFlight : t'.inFlight = t.inFlight ++ sent) (mailbox : t'.mailbox = t.mailbox) : OnTheWay t' hand msg := by
  unfold OnTheWay
  rw [inFlight, mailbox]
  exact comes.imp_left (List.mem_append_left sent)

/-- A delivery loses no message. -/
theorem OnTheWay.deliver (comes : OnTheWay t hand msg) (k : Nat) : OnTheWay (t.deliver k) hand msg := by
  unfold PeerTransport.deliver
  split
  · exact comes
  · rename_i sent found
    rcases comes with flying | waiting | taken
    · by_cases this : msg = sent
      · subst this
        exact Or.inr (Or.inl (by simp))
      · -- another message stays in flight at another place
        have stays : msg ∈ t.inFlight.eraseIdx k := by
          obtain ⟨i, below, rfl⟩ := List.mem_iff_getElem.mp flying
          refine List.mem_eraseIdx_iff_getElem.mpr ⟨i, below, fun here => this ?_, rfl⟩
          subst here
          rw [List.getElem?_eq_getElem below] at found
          exact Option.some.inj found
        exact Or.inl stays
    · refine Or.inr (Or.inl ?_)
      by_cases target : msg.targetNode = sent.targetNode
      · simp only [target, Function.update_self]
        exact List.mem_append_left _ (target ▸ waiting)
      · simp only [Function.update_of_ne target]
        exact waiting
    · exact Or.inr (Or.inr taken)

end

/-- Every message of the network is between two nodes and waits at its target. -/
structure Routed (nodes : NodeId) (t : PeerTransport) : Prop where
  inFlight : ∀ msg ∈ t.inFlight, msg.Between nodes
  mailbox : ∀ m, ∀ msg ∈ t.mailbox m, msg.targetNode = m ∧ msg.Between nodes

variable {nodes : NodeId}

theorem Routed.congr {t t' : PeerTransport} (routed : Routed nodes t) (same : t'.wires = t.wires) : Routed nodes t' := by
  obtain ⟨inFlight, mailbox⟩ := Prod.mk.inj same
  exact ⟨inFlight ▸ routed.inFlight, mailbox ▸ routed.mailbox⟩

theorem Routed.append {t t' : PeerTransport} (routed : Routed nodes t) {sent : List ControlMessage}
    (between : ∀ msg ∈ sent, msg.Between nodes) (inFlight : t'.inFlight = t.inFlight ++ sent)
    (mailbox : t'.mailbox = t.mailbox) : Routed nodes t' := by
  refine ⟨fun msg member => ?_, mailbox ▸ routed.mailbox⟩
  rw [inFlight] at member
  exact (List.mem_append.mp member).elim (routed.inFlight msg) (between msg)

theorem Routed.deliver {t : PeerTransport} (routed : Routed nodes t) (k : Nat) : Routed nodes (t.deliver k) := by
  refine ⟨fun msg member => routed.inFlight msg (PeerTransport.inFlight_deliver t k member), fun m msg member => ?_⟩
  rcases PeerTransport.mailbox_deliver t k member with old | ⟨sent, rfl⟩
  · exact routed.mailbox m msg old
  · exact ⟨rfl, routed.inFlight msg sent⟩

/-! ## A node that takes its messages in -/

/-- What the handling of `msg` does to the requests and the network, its acknowledgement posted. -/
structure Attended (ctx : RuntimeContext PeerTransport) (msg : ControlMessage) (r : Status × RuntimeContext PeerTransport) :
    Prop where
  ok : r.1 = .kOk
  config : r.2.config = ctx.config
  acks : r.2.pendingControlAcks =
    if isAckOpcode msg.opcode then ctx.pendingControlAcks.complete msg.requestId else ctx.pendingControlAcks
  inFlight : r.2.transport.inFlight =
    ctx.transport.inFlight ++ if isAckOpcode msg.opcode then [] else [msg.ack ctx.config]
  mailbox : r.2.transport.mailbox = ctx.transport.mailbox

/-- A handler that answers every request. -/
def Attends (nodes n : NodeId) (handle : Handler PeerTransport) : Prop :=
  ∀ ctx msg, Member nodes n ctx.config → msg.sourceNode < nodes → msg.sourceNode ≠ n → Attended ctx msg (handle ctx msg)

section
variable {nodes n : NodeId} {ctx : RuntimeContext PeerTransport} {msg : ControlMessage}

theorem attended_ack (ack : isAckOpcode msg.opcode = true) :
    Attended ctx msg (.kOk, { ctx with pendingControlAcks := ctx.pendingControlAcks.complete msg.requestId }) :=
  ⟨rfl, rfl, (if_pos ack).symm, by simp [ack], rfl⟩

theorem attended_post (member : Member nodes n ctx.config) (source : msg.sourceNode < nodes) (other : msg.sourceNode ≠ n)
    (request : isAckOpcode msg.opcode = false) (c : ReadCache) (table : BlockTable) :
    Attended ctx msg ({ ctx.setCache c with blockTable := table }.post (msg.ack ctx.config)) := by
  have posted : PeerTransport.postControlMessage ctx.config (msg.ack ctx.config) ctx.transport = _ :=
    member.post_ok source other ctx.transport
  have same : { ctx.setCache c with blockTable := table }.post (msg.ack ctx.config) =
      (.kOk, { ctx.setCache c with
        blockTable := table, transport := { ctx.transport with inFlight := ctx.transport.inFlight ++ [msg.ack ctx.config] } }) := by
    unfold RuntimeContext.post
    change ((PeerTransport.postControlMessage ctx.config _ ctx.transport).1, _) = _
    rw [posted]
    exact congrArg (Prod.mk _) (congrArg (fun w => { ctx.setCache c with blockTable := table, transport := w })
      (congrArg Prod.snd posted))
  rw [same]
  exact ⟨rfl, rfl, (if_neg (by simp [request])).symm, by simp [request], rfl⟩

theorem attends_processMessage (ord : IterOrder) : Attends nodes n (processMessage ord) := by
  intro ctx msg member source other
  unfold processMessage
  split
  · rename_i ack
    exact attended_ack ack
  · rename_i request
    have request : isAckOpcode msg.opcode = false := by simpa using request
    simp only
    split
    · exact attended_post member source other request _ _
    · exact attended_post member source other request _ _
    · cases code : msg.opcode <;> simp_all [isAckOpcode]

theorem attends_drainMessage (ord : IterOrder) : Attends nodes n (drainMessage ord) := by
  intro ctx msg member source other
  unfold drainMessage
  split
  · rename_i ack
    exact attended_ack ack
  · rename_i request
    have request : isAckOpcode msg.opcode = false := by simpa using request
    split
    · exact attended_post member source other request (ctx.cache.invalidateRange ord _ _).2 ctx.blockTable
    · exact attended_post member source other request ctx.cache _

end

/-- Node `n` over its network, with `hand` taken from its mailbox and not yet handled: no request of
its own, or of the others in `pending`, is lost. -/
structure AllAwaited (nodes n : NodeId) (pending : NodeId → PendingControlAcks) (hand : List ControlMessage)
    (ctx : RuntimeContext PeerTransport) : Prop where
  member : Member nodes n ctx.config
  routed : Routed nodes ctx.transport
  own : ctx.pendingControlAcks.Each (Awaited ctx.transport hand n)
  others : ∀ m, m ≠ n → (pending m).Each (Awaited ctx.transport hand m)

namespace AllAwaited
variable {nodes n : NodeId} {pending : NodeId → PendingControlAcks} {hand : List ControlMessage}
  {ctx : RuntimeContext PeerTransport}

theorem congr {ctx' : RuntimeContext PeerTransport} (held : AllAwaited nodes n pending hand ctx)
    (config : ctx'.config = ctx.config) (acks : ctx'.pendingControlAcks = ctx.pendingControlAcks)
    (wires : ctx'.transport.wires = ctx.transport.wires) : AllAwaited nodes n pending hand ctx' := by
  have all : ∀ msg, OnTheWay ctx.transport hand msg → OnTheWay ctx'.transport hand msg := fun _ comes => comes.congr wires
  exact ⟨config ▸ held.member, held.routed.congr wires, acks ▸ each_awaited_mono held.own all,
    fun m other => each_awaited_mono (held.others m other) all⟩

theorem ofControl : OfControl PeerTransport.wires (AllAwaited nodes n pending hand) :=
  fun _ _ config acks wires held => held.congr config acks wires

variable {msg : ControlMessage}

/-- A message this node sends only adds to what is on its way. -/
theorem post (held : AllAwaited nodes n pending hand ctx) (own : msg.sourceNode = n) :
    AllAwaited nodes n pending hand (ctx.post msg).2 := by
  rcases held.member.post_cases msg ctx.transport with ⟨target, other⟩ | refused
  · have posted := congrArg Prod.snd (held.member.post_ok target other ctx.transport)
    have inFlight : (ctx.post msg).2.transport.inFlight = ctx.transport.inFlight ++ [msg] := congrArg (·.inFlight) posted
    have mailbox : (ctx.post msg).2.transport.mailbox = ctx.transport.mailbox := congrArg (·.mailbox) posted
    have between : msg.Between nodes := ⟨own ▸ held.member.inside, target, fun same => other (same ▸ own)⟩
    have all : ∀ other, OnTheWay ctx.transport hand other → OnTheWay (ctx.post msg).2.transport hand other :=
      fun _ comes => comes.append _ inFlight mailbox
    exact ⟨held.member, held.routed.append (by simpa using between) inFlight mailbox, each_awaited_mono held.own all,
      fun m apart => each_awaited_mono (held.others m apart) all⟩
  · have same : (ctx.post msg).2.transport = ctx.transport := congrArg Prod.snd refused
    exact held.congr rfl rfl (congrArg PeerTransport.wires same)

/-- Requests that are sent again are this node's own. -/
theorem drive (held : AllAwaited nodes n pending hand ctx) (ord : IterOrder) :
    AllAwaited nodes n pending hand (drivePendingControlAcks ord ctx).2 := by
  obtain ⟨retries, each⟩ := held.own.advance ord ctx.config
  have advanced : AllAwaited nodes n pending hand
      { ctx with pendingControlAcks := (ctx.pendingControlAcks.advance ord ctx.config).2.2 } :=
    ⟨held.member, held.routed, each, held.others⟩
  unfold drivePendingControlAcks
  simp only
  split
  · exact advanced
  · refine postAll_keeps (fun c msg sent kept => ?_) advanced
    obtain ⟨_, awaited⟩ := retries msg sent
    exact kept.post awaited.source

/-- A message of the hand handled: a request leaves its acknowledgement, an acknowledgement
the request it completes. -/
theorem attended {r : Status × RuntimeContext PeerTransport} (held : AllAwaited nodes n pending (msg :: hand) ctx)
    (attended : Attended ctx msg r) (target : msg.targetNode = n) (between : msg.Between nodes) :
    AllAwaited nodes n pending hand r.2 := by
  -- what else is on its way stays there
  have stays : ∀ other, OnTheWay ctx.transport (msg :: hand) other → other = msg ∨ OnTheWay r.2.transport hand other := by
    rintro other (flying | waiting | taken)
    · exact Or.inr (OnTheWay.append (Or.inl flying) _ attended.inFlight attended.mailbox)
    · exact Or.inr (OnTheWay.append (Or.inr (Or.inl waiting)) _ attended.inFlight attended.mailbox)
    · rcases List.mem_cons.mp taken with here | later
      · exact Or.inl here
      · exact Or.inr (Or.inr (Or.inr later))
  have each : ∀ m id request, Awaited ctx.transport (msg :: hand) m id request →
      ¬ (isAckOpcode msg.opcode = true ∧ m = n ∧ id = msg.requestId) → Awaited r.2.transport hand m id request := by
    intro m id request awaited kept
    refine ⟨awaited.names, awaited.drawn, awaited.source, awaited.kind, ?_⟩
    rcases awaited.comes with itself | ⟨ack, acknowledges, comes⟩
    · rcases stays _ itself with same | comes
      · -- the request itself was handled: its acknowledgement is on its way back
        have kind := same ▸ awaited.kind
        refine Or.inr ⟨msg.ack ctx.config, ⟨by simp [ControlMessage.ack], ?_, ?_⟩, Or.inl ?_⟩
        · exact same ▸ awaited.source
        · exact same ▸ awaited.names
        · rw [attended.inFlight, if_neg (by simp [kind])]
          exact List.mem_append_right _ List.mem_cons_self
      · exact Or.inl comes
    · rcases stays _ comes with rfl | comes
      · exact absurd ⟨acknowledges.kind, acknowledges.target.symm.trans target, acknowledges.names.symm⟩ kept
      · exact Or.inr ⟨ack, acknowledges, comes⟩
  refine ⟨attended.config ▸ held.member, ?_, fun id e found => ?_, fun m other id e found => ?_⟩
  · refine held.routed.append (fun sent member => ?_) attended.inFlight attended.mailbox
    split at member
    · cases member
    · obtain rfl := List.mem_singleton.mp member
      have own : (msg.ack ctx.config).sourceNode = n := held.member.id
      exact ⟨own ▸ held.member.inside, between.source, fun same => between.apart (same.symm.trans (own.trans target.symm))⟩
  · rw [attended.acks] at found
    split at found
    · rename_i ack
      rw [PendingControlAcks.lookup_complete] at found
      split at found
      · cases found
      · rename_i kept
        have awaited := held.own id e found
        exact each n id e.message awaited fun gone => kept ⟨gone.2.2, gone.2.2 ▸ awaited.drawn⟩
    · rename_i request
      exact each n id e.message (held.own id e found) fun gone => request gone.1
  · exact each m id e.message (held.others m other id e found) fun gone => other gone.2.1

/-- The messages a node takes move from its mailbox to its hand. -/
theorem taken (held : AllAwaited nodes n pending [] ctx) : AllAwaited nodes n pending (takenMessages ctx) (takeMessages ctx) := by
  have drained := held.member.drain ctx.transport
  have hand : takenMessages ctx = (ctx.transport.mailbox n).take 64 := congrArg (·.1.2) drained
  have inFlight : (takeMessages ctx).transport.inFlight = ctx.transport.inFlight := congrArg (·.2.inFlight) drained
  have mailbox : (takeMessages ctx).transport.mailbox =
      Function.update ctx.transport.mailbox n ((ctx.transport.mailbox n).drop 64) := congrArg (·.2.mailbox) drained
  have all : ∀ msg, OnTheWay ctx.transport [] msg → OnTheWay (takeMessages ctx).transport (LeoMem.takenMessages ctx) msg := by
    intro msg comes
    unfold OnTheWay
    rw [inFlight, mailbox, hand]
    rcases comes with flying | waiting | none
    · exact Or.inl flying
    · by_cases here : msg.targetNode = n
      · rw [here, ← List.take_append_drop 64 (ctx.transport.mailbox n)] at waiting
        rw [here, Function.update_self]
        exact Or.inr (List.mem_append.mp waiting).symm
      · rw [Function.update_of_ne here]
        exact Or.inr (Or.inl waiting)
    · cases none
  refine ⟨held.member, ⟨inFlight ▸ held.routed.inFlight, fun m msg waiting => ?_⟩, each_awaited_mono held.own all,
    fun m other => each_awaited_mono (held.others m other) all⟩
  exact held.routed.mailbox m msg (PeerTransport.drain_mailbox ctx.config 64 ctx.transport m waiting)

theorem takenMessages (held : AllAwaited nodes n pending [] ctx) (member : msg ∈ takenMessages ctx) :
    msg.targetNode = n ∧ msg.Between nodes := by
  have waiting := List.mem_of_mem_take (PeerTransport.mem_drained member)
  rw [held.member.id] at waiting
  exact held.routed.mailbox n msg waiting

end AllAwaited

/-! ## The weight of what is not settled -/

/-- A request weighs more than its acknowledgement. -/
def weigh (msgs : List ControlMessage) : Nat := (msgs.map fun msg => if isAckOpcode msg.opcode then 1 else 2).sum

/-- How often the pending requests may still be sent again. -/
def retriesLeft (acks : PendingControlAcks) : Nat := HashMap.total (fun e => e.2.retriesRemaining.toNat) acks

/-- What node `n` sees of the cluster's weight: messages on their way, its mailbox and its requests. -/
def load (n : NodeId) (ctx : RuntimeContext PeerTransport) : Nat :=
  weigh ctx.transport.inFlight + weigh (ctx.transport.mailbox n) + 2 * retriesLeft ctx.pendingControlAcks

@[simp] theorem weigh_append (l₁ l₂ : List ControlMessage) : weigh (l₁ ++ l₂) = weigh l₁ + weigh l₂ := by
  simp [weigh]

@[simp] theorem weigh_nil : weigh [] = 0 := rfl

theorem weigh_cons (msg : ControlMessage) (msgs : List ControlMessage) :
    weigh (msg :: msgs) = (if isAckOpcode msg.opcode then 1 else 2) + weigh msgs := by
  simp [weigh]

theorem weigh_eq_zero {msgs : List ControlMessage} : weigh msgs = 0 ↔ msgs = [] := by
  cases msgs with
  | nil => simp
  | cons msg msgs =>
    rw [weigh_cons]
    constructor
    · intro none
      split at none <;> omega
    · intro none
      cases none

theorem weigh_le (msgs : List ControlMessage) : weigh msgs ≤ 2 * msgs.length := by
  induction msgs with
  | nil => simp
  | cons msg msgs ih =>
    rw [weigh_cons, List.length_cons]
    split <;> omega

theorem retriesLeft_complete (acks : PendingControlAcks) (id : UInt64) :
    retriesLeft (acks.complete id) ≤ retriesLeft acks := by
  unfold PendingControlAcks.complete
  split
  · exact Nat.le_refl _
  · cases found : acks.lookup id with
    | none => rw [HashMap.erase_of_absent found]
    | some e =>
      have total := HashMap.total_erase (fun e => e.2.retriesRemaining.toNat) found
      unfold retriesLeft
      omega

/-- A pass pays for each request it sends again with one of its retries. -/
theorem retriesLeft_advanceLoop (cfg : Config) {es : List (Sigma fun _ : UInt64 => PendingControlAck)}
    (distinct : (es.map Sigma.fst).Nodup) {acks : PendingControlAcks} (present : ∀ e ∈ es, acks.lookup e.1 = some e.2)
    (retries : List ControlMessage) :
    retriesLeft (PendingControlAcks.advanceLoop cfg es retries acks).2.2 +
        (PendingControlAcks.advanceLoop cfg es retries acks).2.1.length ≤ retriesLeft acks + retries.length := by
  induction es generalizing acks retries with
  | nil => exact Nat.le_refl _
  | cons e es ih =>
    obtain ⟨fresh, distinct⟩ := List.nodup_cons.mp distinct
    have still : ∀ new, ∀ other ∈ es, (acks.insert e.1 new).lookup other.1 = some other.2 := by
      intro new other member
      have different : other.1 ≠ e.1 := fun same => fresh (same ▸ List.mem_map_of_mem member)
      rw [HashMap.lookup_insert_if, if_neg different]
      exact present other (List.mem_cons_of_mem _ member)
    have erased := HashMap.total_erase (fun e => e.2.retriesRemaining.toNat) (present e List.mem_cons_self)
    have rest : ∀ (new : PendingControlAck) (sent : List ControlMessage),
        new.retriesRemaining.toNat + sent.length ≤ e.2.retriesRemaining.toNat + retries.length →
        retriesLeft (PendingControlAcks.advanceLoop cfg es sent (acks.insert e.1 new)).2.2 +
            (PendingControlAcks.advanceLoop cfg es sent (acks.insert e.1 new)).2.1.length ≤
          retriesLeft acks + retries.length := by
      intro new sent paid
      refine (ih distinct (still new) sent).trans ?_
      unfold retriesLeft
      rw [HashMap.total_insert]
      simp only at erased ⊢
      omega
    unfold PendingControlAcks.advanceLoop
    split
    · exact rest _ retries (Nat.le_refl _)
    · split
      · exact Nat.le_refl _
      · rename_i some
        refine rest _ (retries ++ [e.2.message]) ?_
        have positive : e.2.retriesRemaining.toNat ≠ 0 := fun zero => some (UInt64.toNat_inj.mp zero)
        have one : (1 : UInt64).toNat = 1 := rfl
        have less := UInt64.toNat_sub_of_le e.2.retriesRemaining 1 (UInt64.le_iff_toNat_le.mpr (by omega))
        simp only [less, one, List.length_append, List.length_cons, List.length_nil]
        omega

theorem retriesLeft_advance (acks : PendingControlAcks) (ord : IterOrder) (cfg : Config) :
    retriesLeft (acks.advance ord cfg).2.2 + (acks.advance ord cfg).2.1.length ≤ retriesLeft acks := by
  have distinct : ((ord.arrange acks.entries).map Sigma.fst).Nodup :=
    ((ord.perm acks.entries).map Sigma.fst).nodup_iff.mpr acks.nodupKeys
  exact retriesLeft_advanceLoop cfg distinct (fun e member => HashMap.lookup_of_mem_arrange member) []

/-! ## One fence -/

section
variable {nodes n : NodeId} {pending : NodeId → PendingControlAcks} {ctx : RuntimeContext PeerTransport}

/-- What a stretch of node `n`'s work is charged: it lightens the node's load by `paid` at least, and
leaves the mailboxes of the others alone. -/
structure Lightens (n : NodeId) (paid : Nat) (ctx ctx' : RuntimeContext PeerTransport) : Prop where
  load : load n ctx' + paid ≤ load n ctx
  mailbox : ∀ m, m ≠ n → ctx'.transport.mailbox m = ctx.transport.mailbox m

theorem Lightens.trans {a b c : RuntimeContext PeerTransport} {paid more : Nat} (first : Lightens n paid a b)
    (second : Lightens n more b c) : Lightens n (paid + more) a c := by
  refine ⟨?_, fun m other => (second.mailbox m other).trans (first.mailbox m other)⟩
  have := first.load
  have := second.load
  omega

theorem lightens_congr {ctx' : RuntimeContext PeerTransport} (acks : ctx'.pendingControlAcks = ctx.pendingControlAcks)
    (wires : ctx'.transport.wires = ctx.transport.wires) : Lightens n 0 ctx ctx' := by
  obtain ⟨inFlight, mailbox⟩ := Prod.mk.inj wires
  refine ⟨?_, fun m _ => congrFun mailbox m⟩
  unfold load
  rw [acks, inFlight, mailbox]
  exact Nat.le_refl _

/-- Posting a list costs its weight at most. -/
theorem postAll_load (member : Member nodes n ctx.config) (msgs : List ControlMessage) :
    load n (ctx.postAll msgs).2 ≤ load n ctx + weigh msgs ∧
      (ctx.postAll msgs).2.transport.mailbox = ctx.transport.mailbox := by
  induction msgs generalizing ctx with
  | nil => exact ⟨Nat.le_refl _, rfl⟩
  | cons msg msgs ih =>
    have one : load n (ctx.post msg).2 ≤ load n ctx + weigh [msg] ∧
        (ctx.post msg).2.transport.mailbox = ctx.transport.mailbox := by
      rcases member.post_cases msg ctx.transport with ⟨target, other⟩ | refused
      · have posted := congrArg Prod.snd (member.post_ok target other ctx.transport)
        have sent : (ctx.post msg).2 = { ctx with transport := { ctx.transport with inFlight := ctx.transport.inFlight ++ [msg] } } :=
          congrArg (fun w => { ctx with transport := w }) posted
        rw [sent]
        refine ⟨?_, rfl⟩
        simp only [load, weigh_append]
        omega
      · have same : (ctx.post msg).2 = ctx := congrArg (fun w => { ctx with transport := w }) (congrArg Prod.snd refused)
        rw [same]
        exact ⟨Nat.le_add_right _ _, rfl⟩
    have rest := @ih (ctx.post msg).2 member
    have split : weigh (msg :: msgs) = weigh [msg] + weigh msgs := weigh_append [msg] msgs
    unfold postAll
    simp only
    split
    · exact ⟨by omega, one.2⟩
    · exact ⟨by omega, rest.2.trans one.2⟩

theorem drive_lightens (member : Member nodes n ctx.config) (ord : IterOrder) :
    Lightens n 0 ctx (drivePendingControlAcks ord ctx).2 := by
  have paid := retriesLeft_advance ctx.pendingControlAcks ord ctx.config
  unfold drivePendingControlAcks
  simp only
  generalize ctx.pendingControlAcks.advance ord ctx.config = r at paid ⊢
  split
  · refine ⟨?_, fun _ _ => rfl⟩
    simp only [load]
    omega
  · have posted := @postAll_load nodes n { ctx with pendingControlAcks := r.2.2 } member r.2.1
    refine ⟨posted.1.trans ?_, fun m _ => congrFun posted.2 m⟩
    have heavy := weigh_le r.2.1
    simp only [load]
    omega

/-- A handled message weighs less than it did. -/
theorem Attended.load {msg : ControlMessage} {r : Status × RuntimeContext PeerTransport} (attended : Attended ctx msg r)
    (n : NodeId) : load n r.2 + 1 ≤ load n ctx + weigh [msg] := by
  have completed := retriesLeft_complete ctx.pendingControlAcks msg.requestId
  unfold LeoMem.load
  rw [attended.acks, attended.inFlight, attended.mailbox, weigh_append, weigh_cons]
  split
  · simp only [weigh_nil]
    omega
  · simp only [weigh_cons, ControlMessage.ack, isAckOpcode_ackOpcodeFor, if_true, weigh_nil]
    omega

/-- **The loop of a handler**: all messages in hand are handled, each for one unit of weight. -/
theorem AllAwaited.handleAll {handle : Handler PeerTransport} (attends : Attends nodes n handle) {hand : List ControlMessage}
    (addressed : ∀ msg ∈ hand, msg.targetNode = n ∧ msg.Between nodes) (held : AllAwaited nodes n pending hand ctx) :
    (handleAll handle ctx hand).1 = .kOk ∧ AllAwaited nodes n pending [] (handleAll handle ctx hand).2 ∧
      load n (handleAll handle ctx hand).2 + hand.length ≤ load n ctx + weigh hand ∧
      (handleAll handle ctx hand).2.transport.mailbox = ctx.transport.mailbox := by
  induction hand generalizing ctx with
  | nil => exact ⟨rfl, held, Nat.le_refl _, rfl⟩
  | cons msg hand ih =>
    obtain ⟨target, between⟩ := addressed msg List.mem_cons_self
    have attended := attends ctx msg held.member between.source (target ▸ between.apart)
    obtain ⟨ok, kept, lighter, mailbox⟩ := ih (fun later member => addressed later (List.mem_cons_of_mem _ member))
      (held.attended attended target between)
    have one := attended.load n
    have split : weigh (msg :: hand) = weigh [msg] + weigh hand := weigh_append [msg] hand
    unfold LeoMem.handleAll
    simp only
    rw [if_neg (by simp [attended.ok, postFailed])]
    refine ⟨ok, kept, ?_, mailbox.trans attended.mailbox⟩
    simp only [List.length_cons]
    omega

/-- The messages a node takes weigh in its hand what they weighed in its mailbox. -/
theorem AllAwaited.taken_load (held : AllAwaited nodes n pending [] ctx) :
    load n (takeMessages ctx) + weigh (LeoMem.takenMessages ctx) = load n ctx ∧
      (∀ m, m ≠ n → (takeMessages ctx).transport.mailbox m = ctx.transport.mailbox m) ∧
      LeoMem.takenMessages ctx = (ctx.transport.mailbox n).take 64 := by
  have drained := held.member.drain ctx.transport
  have hand : LeoMem.takenMessages ctx = (ctx.transport.mailbox n).take 64 := congrArg (·.1.2) drained
  have inFlight : (takeMessages ctx).transport.inFlight = ctx.transport.inFlight := congrArg (·.2.inFlight) drained
  have mailbox : (takeMessages ctx).transport.mailbox =
      Function.update ctx.transport.mailbox n ((ctx.transport.mailbox n).drop 64) := congrArg (·.2.mailbox) drained
  refine ⟨?_, fun m other => ?_, hand⟩
  · have parts : weigh (ctx.transport.mailbox n) =
        weigh ((ctx.transport.mailbox n).take 64) + weigh ((ctx.transport.mailbox n).drop 64) := by
      rw [← weigh_append, List.take_append_drop]
    have acks : (takeMessages ctx).pendingControlAcks = ctx.pendingControlAcks := rfl
    unfold load
    rw [inFlight, mailbox, hand, acks, Function.update_self]
    omega
  · rw [mailbox, Function.update_of_ne other]

/-- **Taking messages in**: no request is lost, and each message taken lightens the load. -/
theorem AllAwaited.takeIn (held : AllAwaited nodes n pending [] ctx) {handle : Handler PeerTransport}
    (attends : Attends nodes n handle) (ord : IterOrder) :
    AllAwaited nodes n pending [] (takeIn handle ord ctx).2 ∧
      Lightens n (min 64 (ctx.transport.mailbox n).length) ctx (takeIn handle ord ctx).2 := by
  have status : (Transport.drainControlMessages ctx.config 64 ctx.transport).1.1 = .kOk :=
    congrArg (·.1.1) (held.member.drain ctx.transport)
  obtain ⟨ok, kept, lighter, mailbox⟩ := held.taken.handleAll attends (fun msg member => held.takenMessages member)
  obtain ⟨weight, others, hand⟩ := held.taken_load
  rw [takeIn_of_handled (by rw [status]; rfl) ok]
  have handled : Lightens n (min 64 (ctx.transport.mailbox n).length) ctx
      (LeoMem.handleAll handle (takeMessages ctx) (LeoMem.takenMessages ctx)).2 := by
    refine ⟨?_, fun m other => by rw [mailbox]; exact others m other⟩
    have length : (LeoMem.takenMessages ctx).length = min 64 (ctx.transport.mailbox n).length := by
      rw [hand, List.length_take]
    omega
  exact ⟨kept.drive ord, handled.trans (drive_lightens kept.member ord)⟩

theorem AllAwaited.drainControl (held : AllAwaited nodes n pending [] ctx) (ord : IterOrder) :
    AllAwaited nodes n pending [] (LeoMem.drainControl ord ctx).2 ∧
      Lightens n (min 64 (ctx.transport.mailbox n).length) ctx (LeoMem.drainControl ord ctx).2 := by
  rw [drainControl_eq]
  exact held.takeIn (attends_drainMessage ord) ord

theorem AllAwaited.openAccess (held : AllAwaited nodes n pending [] ctx) (ord : IterOrder) (addr : GlobalAddr) (size : UInt64) :
    AllAwaited nodes n pending [] (LeoMem.openAccess ord ctx addr size).2 := by
  have processed := (held.takeIn (attends_processMessage ord) ord).1
  rw [← processPendingControlMessages_eq] at processed
  unfold LeoMem.openAccess
  split
  · exact held
  · split
    · exact held
    · simp only
      split <;> exact processed

theorem flushFence_wires (ord : IterOrder) (ctx : RuntimeContext PeerTransport) :
    (flushFence ord ctx).2.config = ctx.config ∧ (flushFence ord ctx).2.pendingControlAcks = ctx.pendingControlAcks ∧
      (flushFence ord ctx).2.transport.wires = ctx.transport.wires := by
  have flushed := flushDestinations_induct (P := fun c => c.config = ctx.config ∧
      c.pendingControlAcks = ctx.pendingControlAcks ∧ c.transport.wires = ctx.transport.wires)
    (fun c node ⟨config, acks, wires⟩ => by
      have one := flushDestination_flushed c node
      exact ⟨one.same.config.trans config, one.same.acks.trans acks,
        (one.keeps PeerTransport.writeKeeps_wires).trans wires⟩)
    (ctx.queues.pendingDestinations ord) ⟨rfl, rfl, rfl⟩
  unfold flushFence
  simp only
  split <;> exact flushed

/-- **A fence** loses no request and takes in what waits, up to the limit of one drain at least. -/
theorem AllAwaited.lmFence (held : AllAwaited nodes n pending [] ctx) (ready : ctx.initialized = true) (ord : IterOrder) :
    AllAwaited nodes n pending [] (lmFence ord ctx).2 ∧
      Lightens n (min 64 (ctx.transport.mailbox n).length) ctx (lmFence ord ctx).2 := by
  obtain ⟨first, lighter⟩ := held.drainControl ord
  obtain ⟨config, acks, wires⟩ := flushFence_wires ord (LeoMem.drainControl ord ctx).2
  have between := first.congr config acks wires
  have flushed := lighter.trans (lightens_congr acks wires)
  obtain ⟨second, again⟩ := between.drainControl ord
  rw [lmFence_eq, if_neg (by simp [ready])]
  simp only
  split
  · exact ⟨first, lighter⟩
  · split
    · exact ⟨between, flushed⟩
    · have both := flushed.trans again
      refine ⟨second, ?_, both.mailbox⟩
      have := both.load
      omega

theorem AllAwaited.postRequest (held : AllAwaited nodes n pending [] ctx) (addr : GlobalAddr) (range : BlockRange)
    (mode : CoherenceMode) {opcode : ControlOpcode} (kind : isAckOpcode opcode = false) (version : Version) :
    AllAwaited nodes n pending [] (postRequest ctx addr range mode opcode version).2 := by
  let msg := makeControlMessage ctx.config ctx.nextControlRequestId addr range mode opcode version
  have numbered : AllAwaited nodes n pending [] { ctx with nextControlRequestId := ctx.nextControlRequestId + 1 } :=
    held.congr rfl rfl rfl
  have own : msg.sourceNode = n := held.member.id
  have posted := numbered.post own
  unfold LeoMem.postRequest trackPosted
  simp only
  split
  · rename_i ok
    -- a tracked request was posted, so it is on its way
    refine ⟨posted.member, posted.routed, ?_, posted.others⟩
    unfold PendingControlAcks.track
    split
    · exact posted.own
    · rename_i drawn
      refine posted.own.insert ⟨rfl, drawn, held.member.id, kind, Or.inl (Or.inl ?_)⟩
      rcases held.member.post_cases msg ctx.transport with ⟨target, other⟩ | refused
      · have sent := congrArg (·.2.inFlight) (held.member.post_ok target other ctx.transport)
        simp only at sent
        change msg ∈ (PeerTransport.postControlMessage ctx.config msg ctx.transport).2.inFlight
        rw [sent]
        exact List.mem_append_right _ List.mem_cons_self
      · have failed : (PeerTransport.postControlMessage ctx.config msg ctx.transport).1 = .kNotFound :=
          congrArg Prod.fst refused
        change (PeerTransport.postControlMessage ctx.config msg ctx.transport).1 = .kOk at ok
        rw [failed] at ok
        cases ok
  · exact posted

theorem AllAwaited.writeRemote (held : AllAwaited nodes n pending [] ctx) (ord : IterOrder) (addr : GlobalAddr) {buf : Bytes}
    (filled : buf.size ≠ 0) (range : BlockRange) (modes : List CoherenceMode) :
    AllAwaited nodes n pending [] (writeRemote ord ctx addr buf range modes).2 := by
  refine writeRemote_keeps PeerTransport.writeKeeps_wires ofControl ord filled fun table handoff version => ?_
  have recorded : AllAwaited nodes n pending [] { ctx with blockTable := table } := held.congr rfl rfl rfl
  exact postWriteMessages_rule recorded (recorded.postRequest addr range _ rfl _) (recorded.postRequest addr range _ rfl _)
    ((recorded.postRequest addr range _ rfl _).postRequest addr range _ rfl _)

theorem AllAwaited.lmWrite (held : AllAwaited nodes n pending [] ctx) (ord : IterOrder) (addr : GlobalAddr) (buf : Bytes) :
    AllAwaited nodes n pending [] (lmWrite ord ctx addr buf).2 := by
  refine lmWrite_rule (I := AllAwaited nodes n pending []) (J := fun r => AllAwaited nodes n pending [] r.2)
    (held.openAccess ord addr buf.size) (fun _ _ _ kept => kept) (fun c range _ _ kept => ?_)
    (fun c range opened _ kept => ?_)
  · obtain ⟨same, -⟩ := writeThrough_same (touchMetadata c addr range .kWrite).2 addr buf true
    have written := writeThrough_written (touchMetadata c addr range .kWrite).2 addr buf true
    have wires := (congrArg (fun w => w.2.wires) written).trans (PeerTransport.write_wires _ addr buf _)
    exact kept.congr same.config same.acks wires
  · have touched : AllAwaited nodes n pending [] (touchMetadata c addr range .kWrite).2 := kept.congr rfl rfl rfl
    exact touched.writeRemote ord addr (openAccess_filled opened) range _

/-- **One call of a node** loses no request of any node. -/
theorem AllAwaited.exec (held : AllAwaited nodes n pending [] ctx) (ready : ctx.initialized = true) (i : Invocation) :
    AllAwaited nodes n pending [] (exec ctx i).2 := by
  obtain ⟨ord, call⟩ := i
  cases call with
  | malloc size =>
    obtain ⟨config, -, acks, transport⟩ := lmMalloc_keeps ctx size
    exact held.congr config acks (congrArg PeerTransport.wires transport)
  | free addr => exact held
  | read addr size =>
    exact lmRead_keeps PeerTransport.readKeeps_wires ofControl (held.openAccess ord addr size)
  | write addr buf => exact held.lmWrite ord addr buf
  | fence => exact (held.lmFence ready ord).1

end

/-! ## The cluster -/

namespace Cluster

/-- No request of any node is lost. -/
structure AllAwaited (nodes : NodeId) (c : Cluster) : Prop where
  member : ∀ n < nodes, Member nodes n (c.nodes n).config
  ready : ∀ n, (c.nodes n).initialized = true
  routed : Routed nodes c.network
  pending : ∀ n, (c.nodes n).pendingControlAcks.Each (Awaited c.network [] n)

variable {nodes : NodeId} {c : Cluster}

theorem allAwaited_init {cfg : ClusterConfig} (reaches : cfg.Reaches nodes) : (init cfg).AllAwaited nodes where
  member n inside := ⟨cfg.own n, inside, reaches.nrNodes n inside, reaches.controlPath n inside⟩
  ready _ := rfl
  routed := ⟨fun msg member => (by cases member), fun n msg member => (by cases member)⟩
  pending n id e found := by cases found

variable {n : NodeId}

theorem AllAwaited.view (held : c.AllAwaited nodes) (inside : n < nodes) :
    LeoMem.AllAwaited nodes n (fun m => (c.nodes m).pendingControlAcks) [] (c.view n) :=
  ⟨held.member n inside, held.routed, held.pending n, fun m _ => held.pending m⟩

theorem AllAwaited.call (held : c.AllAwaited nodes) (i : Invocation)
    (after : LeoMem.AllAwaited nodes n (fun m => (c.nodes m).pendingControlAcks) [] (exec (c.view n) i).2) :
    (c.step (.call n i)).2.AllAwaited nodes := by
  have ready := (exec_setup (c.view n) i).2.1
  rw [← view_call] at after ready
  refine ⟨fun m inside => ?_, fun m => ?_, after.routed, fun m => ?_⟩
  all_goals by_cases same : m = n
  · rw [same]
    exact after.member
  · rw [nodes_call_of_ne c same]
    exact held.member m inside
  · rw [same]
    exact ready.trans (held.ready n)
  · rw [nodes_call_of_ne c same]
    exact held.ready m
  · rw [same]
    exact after.own
  · rw [nodes_call_of_ne c same]
    exact after.others m same

theorem AllAwaited.deliver (held : c.AllAwaited nodes) (k : Nat) : (c.step (.deliver k)).2.AllAwaited nodes :=
  ⟨held.member, held.ready, held.routed.deliver k,
    fun n => each_awaited_mono (held.pending n) fun _ comes => comes.deliver k⟩

theorem AllAwaited.step (held : c.AllAwaited nodes) (input : ClusterInput) (member : input.ByMember nodes) :
    (c.step input).2.AllAwaited nodes := by
  cases input with
  | deliver k => exact held.deliver k
  | call n i => exact held.call i ((held.view member).exec (held.ready n) i)

theorem allAwaited_after {cfg : ClusterConfig} (reaches : cfg.Reaches nodes) {inputs : List ClusterInput}
    (members : ∀ input ∈ inputs, input.ByMember nodes) : (after cfg inputs).AllAwaited nodes :=
  run_invariant (fun _ input member held => held.step input member) (along_of_inputs members _) (allAwaited_init reaches)

/-- What is on its way or waits, and what may still be sent again. -/
def weight (nodes : NodeId) (c : Cluster) : Nat :=
  weigh c.network.inFlight +
    ∑ n ∈ (members nodes).toFinset, (weigh (c.network.mailbox n) + 2 * retriesLeft (c.nodes n).pendingControlAcks)

/-- Everything on its way is handed over, then every node fences. -/
def round (nodes : NodeId) (ord : IterOrder) (c : Cluster) : List ClusterInput :=
  List.replicate c.network.inFlight.length (.deliver 0) ++ (members nodes).map fun n => .call n ⟨ord, .fence⟩

/-- The cluster after `k` rounds, the `i`-th with the order `ords i`. -/
def rounds (nodes : NodeId) (ords : Nat → IterOrder) : Nat → Cluster → Cluster
  | 0, c => c
  | k + 1, c => (run step (rounds nodes ords k c) (round nodes (ords k) (rounds nodes ords k c))).2

/-- The members' weights but for one that changes. -/
theorem weight_split (inside : n < nodes) (c : Cluster) :
    c.weight nodes = load n (c.view n) + ∑ m ∈ (members nodes).toFinset.erase n,
      (weigh (c.network.mailbox m) + 2 * retriesLeft (c.nodes m).pendingControlAcks) := by
  have member : n ∈ (members nodes).toFinset := List.mem_toFinset.mpr (mem_members.mpr inside)
  have apart := Finset.add_sum_erase (members nodes).toFinset
    (fun m => weigh (c.network.mailbox m) + 2 * retriesLeft (c.nodes m).pendingControlAcks) member
  unfold weight
  rw [← apart]
  change _ = weigh c.network.inFlight + weigh (c.network.mailbox n) + 2 * retriesLeft (c.nodes n).pendingControlAcks + _
  omega

/-- What lightens a node's load lightens the cluster. -/
theorem weight_call (inside : n < nodes) {i : Invocation} {paid : Nat}
    (lighter : Lightens n paid (c.view n) (exec (c.view n) i).2) :
    (c.step (.call n i)).2.weight nodes + paid ≤ c.weight nodes := by
  rw [← view_call] at lighter
  have others : ∀ m ∈ (members nodes).toFinset.erase n,
      weigh ((c.step (.call n i)).2.network.mailbox m) + 2 * retriesLeft ((c.step (.call n i)).2.nodes m).pendingControlAcks =
        weigh (c.network.mailbox m) + 2 * retriesLeft (c.nodes m).pendingControlAcks := by
    intro m member
    have other := Finset.ne_of_mem_erase member
    have mailbox : (c.step (.call n i)).2.network.mailbox m = c.network.mailbox m := lighter.mailbox m other
    rw [nodes_call_of_ne c other, mailbox]
  have lighter := lighter.load
  rw [weight_split inside, weight_split inside c, Finset.sum_congr rfl others]
  omega

/-- A delivery moves weight to a mailbox. -/
theorem weight_deliver (held : c.AllAwaited nodes) {msg : ControlMessage} {rest : List ControlMessage}
    (flight : c.network.inFlight = msg :: rest) :
    (c.step (.deliver 0)).2.weight nodes = c.weight nodes ∧ (c.step (.deliver 0)).2.network.inFlight = rest := by
  have between := held.routed.inFlight msg (flight ▸ List.mem_cons_self)
  have delivered : (c.step (.deliver 0)).2 = { c with network := { c.network with
      inFlight := rest
      mailbox := Function.update c.network.mailbox msg.targetNode (c.network.mailbox msg.targetNode ++ [msg]) } } := by
    simp [step, PeerTransport.deliver, flight]
  refine ⟨?_, by rw [delivered]⟩
  have others : ∀ m ∈ (members nodes).toFinset.erase msg.targetNode,
      weigh ((c.step (.deliver 0)).2.network.mailbox m) + 2 * retriesLeft ((c.step (.deliver 0)).2.nodes m).pendingControlAcks =
        weigh (c.network.mailbox m) + 2 * retriesLeft (c.nodes m).pendingControlAcks := by
    intro m member
    rw [delivered]
    simp only [Function.update_of_ne (Finset.ne_of_mem_erase member)]
  rw [weight_split between.target, weight_split between.target c, Finset.sum_congr rfl others, delivered]
  simp only [load, view, withTransport, Function.update_self, flight, weigh_append]
  have split : weigh (msg :: rest) = weigh [msg] + weigh rest := weigh_append [msg] rest
  omega

/-- All that is on its way is handed over. -/
theorem deliverAll (held : c.AllAwaited nodes) {flight : List ControlMessage} (all : c.network.inFlight = flight) :
    ((run step c (List.replicate flight.length (.deliver 0))).2.AllAwaited nodes) ∧
      (run step c (List.replicate flight.length (.deliver 0))).2.weight nodes = c.weight nodes ∧
      (run step c (List.replicate flight.length (.deliver 0))).2.network.inFlight = [] := by
  induction flight generalizing c with
  | nil => exact ⟨held, rfl, all⟩
  | cons msg rest ih =>
    obtain ⟨weight, flight⟩ := weight_deliver held all
    obtain ⟨kept, same, done⟩ := ih (held.deliver 0) flight
    exact ⟨kept, same.trans weight, done⟩

/-- **Fences make progress**: none adds weight, and one of a node with waiting messages takes some. -/
theorem fences_progress (nodes : NodeId) (ord : IterOrder) :
    Progresses step (fun _ input => ∃ n < nodes, input = .call n ⟨ord, .fence⟩) ClusterInput.caller (AllAwaited nodes)
      (weight nodes) (fun c n => c.network.mailbox n ≠ []) := by
  have fence : ∀ (c : Cluster) (n : NodeId), n < nodes → c.AllAwaited nodes →
      (c.step (.call n ⟨ord, .fence⟩)).2.AllAwaited nodes ∧
        (c.step (.call n ⟨ord, .fence⟩)).2.weight nodes + min 64 (c.network.mailbox n).length ≤ c.weight nodes ∧
        ∀ m, m ≠ n → (c.step (.call n ⟨ord, .fence⟩)).2.network.mailbox m = c.network.mailbox m := by
    intro c n inside held
    obtain ⟨kept, lighter⟩ := (held.view inside).lmFence (held.ready n) ord
    exact ⟨held.call ⟨ord, .fence⟩ kept, weight_call inside lighter, lighter.mailbox⟩
  refine ⟨?_, ?_, ?_, ?_⟩
  · rintro c _ ⟨n, inside, rfl⟩ held
    exact (fence c n inside held).1
  · rintro c _ ⟨n, inside, rfl⟩ held
    have paid := (fence c n inside held).2.1
    omega
  · rintro c _ ⟨n, inside, rfl⟩ held waits
    have paid := (fence c n inside held).2.1
    have some : (c.network.mailbox n).length ≠ 0 := fun none => waits (List.eq_nil_of_length_eq_zero none)
    omega
  · rintro c _ m ⟨n, inside, rfl⟩ held other waits
    rw [(fence c n inside held).2.2 m (Ne.symm other)]
    exact waits

/-- Nothing waits at an id that is no node's. -/
theorem AllAwaited.mailbox_nil (held : c.AllAwaited nodes) (none : ∀ n ∈ members nodes, c.network.mailbox n = []) (n : NodeId) :
    c.network.mailbox n = [] := by
  refine List.eq_nil_iff_forall_not_mem.mpr fun msg member => ?_
  obtain ⟨target, between⟩ := held.routed.mailbox n msg member
  rw [none n (mem_members.mpr (target ▸ between.target))] at member
  cases member

/-- **A quiet network leaves no request pending.** -/
theorem AllAwaited.settled (held : c.AllAwaited nodes) (flight : c.network.inFlight = [])
    (mailbox : ∀ n, c.network.mailbox n = []) (n : NodeId) : (c.nodes n).pendingControlAcks = ∅ := by
  have nowhere : ∀ msg, ¬ OnTheWay c.network [] msg := by
    rintro msg (flying | waiting | none)
    · rw [flight] at flying
      cases flying
    · rw [mailbox] at waiting
      cases waiting
    · cases none
  refine AList.ext (List.eq_nil_iff_forall_not_mem.mpr fun e member => ?_)
  rcases (held.pending n _ _ (HashMap.mem_entries.mp member)).comes with itself | ⟨ack, -, comes⟩
  · exact nowhere _ itself
  · exact nowhere _ comes

/-- A cluster has no weight exactly when its network is quiet. -/
theorem AllAwaited.weight_eq_zero (held : c.AllAwaited nodes) :
    c.weight nodes = 0 ↔ c.network.inFlight = [] ∧ ∀ n ∈ members nodes, c.network.mailbox n = [] := by
  unfold weight
  rw [Nat.add_eq_zero_iff, weigh_eq_zero, Finset.sum_eq_zero_iff]
  refine and_congr_right fun flight => ⟨fun none n member => ?_, fun none n member => ?_⟩
  · have light := none n (List.mem_toFinset.mpr member)
    exact weigh_eq_zero.mp (by omega)
  · have settled := held.settled flight (held.mailbox_nil none) n
    rw [none n (List.mem_toFinset.mp member), settled]
    rfl

/-- **One round** lightens a cluster that is not at rest. -/
theorem AllAwaited.round (held : c.AllAwaited nodes) (ord : IterOrder) :
    (run Cluster.step c (c.round nodes ord)).2.AllAwaited nodes ∧
      (run Cluster.step c (c.round nodes ord)).2.weight nodes ≤ c.weight nodes - 1 := by
  obtain ⟨kept, same, flight⟩ := deliverAll held rfl
  have fences : ∀ input ∈ (members nodes).map fun n => ClusterInput.call n ⟨ord, .fence⟩,
      ∃ n < nodes, input = .call n ⟨ord, .fence⟩ := by
    intro input called
    obtain ⟨n, member, rfl⟩ := List.mem_map.mp called
    exact ⟨n, mem_members.mp member, rfl⟩
  obtain ⟨after, less, strict⟩ := (fences_progress nodes ord).stretch (along_of_inputs fences _) kept
  unfold Cluster.round
  rw [run_append]
  refine ⟨after, ?_⟩
  by_cases light : c.weight nodes = 0
  · simp only
    omega
  · -- with nothing in flight, some of the weight waits in a mailbox
    have waits : ¬ ∀ n ∈ members nodes,
        (run Cluster.step c (List.replicate c.network.inFlight.length (.deliver 0))).2.network.mailbox n = [] :=
      fun none => light (same.symm.trans (kept.weight_eq_zero.mpr ⟨flight, none⟩))
    obtain ⟨n, waits⟩ := not_forall.mp waits
    obtain ⟨member, filled⟩ := Classical.not_imp.mp waits
    have := strict n filled (List.mem_map.mpr ⟨_, List.mem_map_of_mem member, rfl⟩)
    simp only
    omega

theorem AllAwaited.rounds (held : c.AllAwaited nodes) (ords : Nat → IterOrder) (k : Nat) :
    (c.rounds nodes ords k).AllAwaited nodes ∧ (c.rounds nodes ords k).weight nodes ≤ c.weight nodes - k := by
  induction k with
  | zero => exact ⟨held, Nat.le_refl _⟩
  | succ k ih =>
    obtain ⟨kept, light⟩ := ih
    obtain ⟨after, less⟩ := kept.round (ords k)
    refine ⟨after, less.trans ?_⟩
    omega

end Cluster

/-- **No request is lost**: in every run of a cluster whose nodes all reach each other, whatever the
order of calls and deliveries and whatever ids are drawn, a request that waits for its
acknowledgement is on its way or waits at its target, or its acknowledgement is on its way back or
waits at the sender. -/
theorem no_request_lost {nodes : NodeId} {cfg : ClusterConfig} (reaches : cfg.Reaches nodes) {inputs : List ClusterInput}
    (members : ∀ input ∈ inputs, input.ByMember nodes) (n : NodeId) (id : UInt64) (e : PendingControlAck)
    (waits : ((Cluster.after cfg inputs).nodes n).pendingControlAcks.lookup id = some e) :
    OnTheWay (Cluster.after cfg inputs).network [] e.message ∨
      ∃ ack, Acknowledges n id ack ∧ OnTheWay (Cluster.after cfg inputs).network [] ack :=
  ((Cluster.allAwaited_after reaches members).pending n id e waits).comes

theorem hastyCluster_reaches : hastyCluster.Reaches 2 := ⟨fun _ _ => rfl, fun _ _ => rfl⟩

theorem sentTwice_byMember (k : Nat) : ∀ input ∈ sentTwice.take k, input.ByMember 2 := by
  have all : ∀ input ∈ sentTwice, input.ByMember 2 := by simp [sentTwice, ClusterInput.ByMember]
  exact fun input member => all input (List.mem_of_mem_take member)

/-- Node 1 has handled the request of node 0 twice; the acknowledgements are on their way. -/
theorem sentTwice_not_lost : ∃ e, ((Cluster.after hastyCluster (sentTwice.take 5)).nodes 0).pendingControlAcks.lookup 1 = some e ∧
    (OnTheWay (Cluster.after hastyCluster (sentTwice.take 5)).network [] e.message ∨
      ∃ ack, Acknowledges 0 1 ack ∧ OnTheWay (Cluster.after hastyCluster (sentTwice.take 5)).network [] ack) := by
  obtain ⟨e, waits⟩ : ∃ e, ((Cluster.after hastyCluster (sentTwice.take 5)).nodes 0).pendingControlAcks.lookup 1 = some e :=
    Option.isSome_iff_exists.mp (by decide +kernel)
  exact ⟨e, waits, no_request_lost hastyCluster_reaches (sentTwice_byMember 5) 0 1 e waits⟩

/-- **All requests are settled**: from every reachable state, after as many rounds of deliveries and
fences as the cluster weighs, no message is on its way or waits and no node has a request pending,
whether or not the fences time out on the way. -/
theorem cluster_settles {nodes : NodeId} {cfg : ClusterConfig} (reaches : cfg.Reaches nodes) {inputs : List ClusterInput}
    (members : ∀ input ∈ inputs, input.ByMember nodes) (ords : Nat → IterOrder) {k : Nat}
    (enough : (Cluster.after cfg inputs).weight nodes ≤ k) :
    ((Cluster.after cfg inputs).rounds nodes ords k).network.inFlight = [] ∧
      (∀ n, ((Cluster.after cfg inputs).rounds nodes ords k).network.mailbox n = []) ∧
      ∀ n, (((Cluster.after cfg inputs).rounds nodes ords k).nodes n).pendingControlAcks = ∅ := by
  obtain ⟨kept, light⟩ := (Cluster.allAwaited_after reaches members).rounds ords k
  obtain ⟨flight, none⟩ := kept.weight_eq_zero.mp (by omega)
  have mailbox := kept.mailbox_nil none
  exact ⟨flight, mailbox, kept.settled flight mailbox⟩

theorem sentTwice_settles : (Cluster.after hastyCluster (sentTwice.take 2)).network.inFlight ≠ [] ∧
    (((Cluster.after hastyCluster (sentTwice.take 2)).rounds 2 (fun _ => .stored) 4).nodes 0).pendingControlAcks = ∅ :=
  ⟨by decide +kernel, (cluster_settles hastyCluster_reaches (sentTwice_byMember 2) (fun _ => .stored)
    (by decide +kernel)).2.2 0⟩

end LeoMem
