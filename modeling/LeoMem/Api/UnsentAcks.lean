import LeoMem.Api.Handling
import LeoMem.Rdma.Network

/-!
# Acknowledgements that cannot be sent

Both handlers take up to 64 messages from the mailbox before they handle any, and
return at the first acknowledgement that cannot be posted. The messages behind it
are then in no one's hands, so none is lost exactly when there are none.
-/

namespace LeoMem
open Lib RuntimeContext

section
variable {ω : Type}

/-- The messages a handler's loop gets to; the last may be one whose acknowledgement could not be sent. -/
def met (handle : Handler ω) : RuntimeContext ω → List ControlMessage → List ControlMessage
  | _, [] => []
  | ctx, msg :: msgs =>
    let r := handle ctx msg
    msg :: if postFailed r.1 then [] else met handle r.2 msgs

/-- The loop gets past `before`, and the acknowledgement of `msg` cannot be posted. -/
structure AckUnsent (handle : Handler ω) (ctx : RuntimeContext ω) (before : List ControlMessage) (msg : ControlMessage) :
    Prop where
  passed : postFailed (handleAll handle ctx before).1 = false
  unsent : postFailed (handle (handleAll handle ctx before).2 msg).1 = true

variable {handle : Handler ω} {ctx : RuntimeContext ω} {before : List ControlMessage} {msg : ControlMessage}

/-- The loop ends at a message whose acknowledgement cannot be sent, whatever stands behind it. -/
theorem AckUnsent.loop (stuck : AckUnsent handle ctx before msg) (after : List ControlMessage) :
    handleAll handle ctx (before ++ msg :: after) = handle (handleAll handle ctx before).2 msg ∧
      met handle ctx (before ++ msg :: after) = before ++ [msg] := by
  obtain ⟨passed, unsent⟩ := stuck
  induction before generalizing ctx with
  | nil =>
    change postFailed (handle ctx msg).1 = true at unsent
    simp [handleAll, met, unsent]
  | cons first before ih =>
    unfold handleAll at passed unsent
    simp only at passed unsent
    cases failed : postFailed (handle ctx first).1 with
    | true =>
      rw [if_pos failed] at passed
      exact absurd failed (by simp [passed])
    | false =>
      simp only [failed, Bool.false_eq_true, if_false] at passed unsent
      obtain ⟨loop, got⟩ := ih passed unsent
      simp only [List.cons_append, handleAll, met, failed, Bool.false_eq_true, if_false, loop, got]
      exact ⟨trivial, trivial⟩

end

/-! ## What later calls return -/

/-- What the next `n` calls of `DrainControlMessages` return. -/
def laterDrains (cfg : Config) : Nat → PeerTransport → List ControlMessage
  | 0, _ => []
  | n + 1, w =>
    let r := Transport.drainControlMessages cfg 64 w
    r.1.2 ++ laterDrains cfg n r.2

theorem peer_drainControlMessages {cfg : Config} (enabled : cfg.rdmaEnableControlPath = true) (w : PeerTransport) :
    Transport.drainControlMessages cfg 64 w =
      ((.kOk, (w.mailbox cfg.nodeId).take 64),
        { w with mailbox := Function.update w.mailbox cfg.nodeId ((w.mailbox cfg.nodeId).drop 64) }) := by
  change PeerTransport.drainControlMessages cfg 64 w = _
  rw [PeerTransport.drainControlMessages, enabled, if_neg (by decide)]
  rfl

theorem laterDrains_eq {cfg : Config} (enabled : cfg.rdmaEnableControlPath = true) (n : Nat) (w : PeerTransport) :
    laterDrains cfg n w = (w.mailbox cfg.nodeId).take (64 * n) := by
  induction n generalizing w with
  | zero => rfl
  | succ n ih =>
    rw [laterDrains, peer_drainControlMessages enabled, ih]
    simp only [Function.update_self]
    rw [← List.take_add, Nat.mul_succ, Nat.add_comm]

/-- Every message that waited was handled, or is returned by a later `DrainControlMessages`; copies of
one message count one by one. -/
def NoneLost (ctx ctx' : RuntimeContext PeerTransport) (handled : List ControlMessage) : Prop :=
  ∃ n, (ctx.transport.mailbox ctx.config.nodeId).Perm (handled ++ laterDrains ctx'.config n ctx'.transport)

section
variable {handle : Handler PeerTransport} {ctx : RuntimeContext PeerTransport} {before after : List ControlMessage}
  {msg : ControlMessage}

/-- Messages are taken only where the control path is on, and from the front of the mailbox. -/
theorem takenMessages_peer (some : takenMessages ctx ≠ []) :
    ctx.config.rdmaEnableControlPath = true ∧ takenMessages ctx = (ctx.transport.mailbox ctx.config.nodeId).take 64 := by
  cases enabled : ctx.config.rdmaEnableControlPath with
  | false =>
    refine absurd ?_ some
    change (PeerTransport.drainControlMessages ctx.config 64 ctx.transport).1.2 = []
    rw [PeerTransport.drainControlMessages, enabled, if_pos rfl]
  | true =>
    refine ⟨rfl, ?_⟩
    rw [takenMessages, peer_drainControlMessages enabled]

/-- **One call of either function** that stops at an acknowledgement it cannot send. -/
theorem takeIn_unsent (step : ∀ c m, ControlStep PeerTransport.mailbox c (handle c m).2) (ord : IterOrder)
    (taken : takenMessages ctx = before ++ msg :: after) (stuck : AckUnsent handle (takeMessages ctx) before msg) :
    (takeIn handle ord ctx).1 ≠ .kOk ∧
      (NoneLost ctx (takeIn handle ord ctx).2 (met handle (takeMessages ctx) (takenMessages ctx)) ↔ after = []) := by
  have some : takenMessages ctx ≠ [] := by simp [taken]
  obtain ⟨enabled, front⟩ := takenMessages_peer some
  obtain ⟨loop, got⟩ := stuck.loop after
  have failed : (handle (handleAll handle (takeMessages ctx) before).2 msg).1 ≠ .kOk := by
    intro ok
    have unsent := stuck.unsent
    rw [ok] at unsent
    exact absurd unsent (by decide)
  have drained : postFailed (Transport.drainControlMessages ctx.config 64 ctx.transport).1.1 = false := by
    rw [peer_drainControlMessages enabled]
    rfl
  have result : takeIn handle ord ctx = handleAll handle (takeMessages ctx) (takenMessages ctx) := by
    unfold takeIn
    simp only
    rw [if_neg (by simp [drained]), taken, loop, if_pos failed]
  -- neither the failed post nor those before it put anything into this node's mailbox
  have left : ControlStep PeerTransport.mailbox (takeMessages ctx) (takeIn handle ord ctx).2 := by
    rw [result]
    exact handleAll_keeps (W := fun _ => True) (fun c m _ _ held => held.trans (step c m)) (fun _ _ => trivial) (.refl _ _)
  have config : (takeIn handle ord ctx).2.config = ctx.config := left.config
  have mailbox : (takeIn handle ord ctx).2.transport.mailbox ctx.config.nodeId =
      (ctx.transport.mailbox ctx.config.nodeId).drop 64 := by
    rw [left.transport, takeMessages, peer_drainControlMessages enabled]
    exact Function.update_self _ _ _
  have waiting : ctx.transport.mailbox ctx.config.nodeId =
      before ++ [msg] ++ (after ++ (ctx.transport.mailbox ctx.config.nodeId).drop 64) := by
    calc ctx.transport.mailbox ctx.config.nodeId
        = takenMessages ctx ++ (ctx.transport.mailbox ctx.config.nodeId).drop 64 := by rw [front, List.take_append_drop]
      _ = _ := by simp [taken]
  refine ⟨by rwa [result, taken, loop], ?_⟩
  unfold NoneLost
  rw [taken, got, config]
  simp only [laterDrains_eq enabled, mailbox]
  generalize (ctx.transport.mailbox ctx.config.nodeId).drop 64 = rest at waiting
  rw [waiting]
  simp only [List.perm_append_left_iff]
  constructor
  · rintro ⟨n, same⟩
    have shorter := same.length_eq
    rw [List.length_append, List.length_take] at shorter
    exact List.eq_nil_of_length_eq_zero (by omega)
  · rintro rfl
    refine ⟨rest.length, ?_⟩
    rw [List.take_of_length_le (by omega)]
    exact .refl _

end

/-- **Messages behind an acknowledgement that cannot be sent.** Where the call stops at `msg`, it
returns an error, and no message is lost exactly when none stood behind `msg`. -/
theorem unsent_ack_loses_none_iff (ord : IterOrder) (ctx : RuntimeContext PeerTransport) (before : List ControlMessage)
    (msg : ControlMessage) (after : List ControlMessage) (taken : takenMessages ctx = before ++ msg :: after) :
    (AckUnsent (processMessage ord) (takeMessages ctx) before msg →
      (processPendingControlMessages ord ctx).1 ≠ .kOk ∧
        (NoneLost ctx (processPendingControlMessages ord ctx).2
          (met (processMessage ord) (takeMessages ctx) (takenMessages ctx)) ↔ after = [])) ∧
      (AckUnsent (drainMessage ord) (takeMessages ctx) before msg →
        (drainControl ord ctx).1 ≠ .kOk ∧
          (NoneLost ctx (drainControl ord ctx).2
            (met (drainMessage ord) (takeMessages ctx) (takenMessages ctx)) ↔ after = [])) := by
  rw [processPendingControlMessages_eq, drainControl_eq]
  refine ⟨fun stuck => ?_, fun stuck => ?_⟩
  · exact takeIn_unsent (fun c m => (handled_processMessage ord c m).controlStep PeerTransport.postKeeps_mailbox) ord taken stuck
  · exact takeIn_unsent (fun c m => (handled_drainMessage ord c m).controlStep PeerTransport.postKeeps_mailbox) ord taken stuck

/-! ### A request from a node that is not connected -/

/-- An invalidation whose sender has left the cluster. -/
def strangersRequest : ControlMessage := { opcode := .kInvalidateRange, sourceNode := 10, targetNode := 0, requestId := 9 }

/-- Node 1's answer to request 1. -/
def awaitedAck : ControlMessage := { opcode := .kInvalidateAck, sourceNode := 1, targetNode := 0, requestId := 1 }

/-- Node 0 of two, waiting for the answer to its request 1. -/
def waitingNode {ω : Type} (transport : ω) : RuntimeContext ω :=
  let node := RuntimeContext.init { nodeId := 0, nrNodes := 2, blockSize := 4 } transport
  { node with pendingControlAcks := node.pendingControlAcks.track node.config { requestId := 1, sourceNode := 0, targetNode := 1 } }

/-- Messages that wait for node 0. -/
def waitingFor (mailbox : List ControlMessage) : PeerTransport :=
  { memory := fun _ => Bytes.zeros 16, mailbox := fun n => if n = 0 then mailbox else [] }

/-- The files that nodes 10 and 1 leave of the two messages, `to_0_from_10_1.txt` and `to_0_from_1_1.txt`. -/
def strangersFiles : ControlDir :=
  (((({} : ControlDir).writeControlMessageFile { nodeId := 1 } awaitedAck).2).writeControlMessageFile { nodeId := 10 }
    strangersRequest).2

theorem lone_request_loses_none :
    (processPendingControlMessages .stored (waitingNode (waitingFor [strangersRequest]))).1 ≠ .kOk ∧
      NoneLost (waitingNode (waitingFor [strangersRequest]))
        (processPendingControlMessages .stored (waitingNode (waitingFor [strangersRequest]))).2
        (met (processMessage .stored) (takeMessages (waitingNode (waitingFor [strangersRequest])))
          (takenMessages (waitingNode (waitingFor [strangersRequest])))) := by
  have stuck : AckUnsent (processMessage .stored) (takeMessages (waitingNode (waitingFor [strangersRequest]))) []
      strangersRequest := ⟨by decide +kernel, by decide +kernel⟩
  have taken : takenMessages (waitingNode (waitingFor [strangersRequest])) = [] ++ strangersRequest :: [] := by
    decide +kernel
  obtain ⟨failed, iff⟩ :=
    (unsent_ack_loses_none_iff .stored (waitingNode (waitingFor [strangersRequest])) [] strangersRequest [] taken).1 stuck
  exact ⟨failed, iff.mpr rfl⟩

/-- By its file name the request comes before the acknowledgement node 0 waits for. A drain takes
both files away, and the call ends at the request: the acknowledgement is not handled, its request
stays pending, and no later drain returns it. -/
theorem awaited_ack_lost :
    let net : RuntimeContext RdmaNet := waitingNode { memory := fun _ => Bytes.zeros 16, control := strangersFiles }
    let ctx := waitingNode (waitingFor [strangersRequest, awaitedAck])
    let after := (processPendingControlMessages .stored ctx).2
    takenMessages net = [strangersRequest, awaitedAck] ∧ takenMessages ctx = takenMessages net ∧
      (processPendingControlMessages .stored net).1 = .kNotFound ∧
      ((processPendingControlMessages .stored net).2.pendingControlAcks.lookup 1).isSome = true ∧
      (processPendingControlMessages .stored net).2.transport.control.files.keys = [] ∧
      (processPendingControlMessages .stored ctx).1 = .kNotFound ∧
      met (processMessage .stored) (takeMessages ctx) (takenMessages ctx) = [strangersRequest] ∧
      (after.pendingControlAcks.lookup 1).isSome = true ∧ (∀ n, laterDrains after.config n after.transport = []) ∧
      ¬NoneLost ctx after (met (processMessage .stored) (takeMessages ctx) (takenMessages ctx)) := by
  intro net ctx after
  have got : met (processMessage .stored) (takeMessages ctx) (takenMessages ctx) = [strangersRequest] := by decide +kernel
  have empty : ∀ n, laterDrains after.config n after.transport = [] := by
    intro n
    have none : after.transport.mailbox after.config.nodeId = [] := by decide +kernel
    rw [laterDrains_eq (by decide +kernel), none, List.take_nil]
  refine ⟨by decide +kernel, by decide +kernel, by decide +kernel, by decide +kernel, by decide +kernel, by decide +kernel,
    got, by decide +kernel, empty, ?_⟩
  rintro ⟨n, same⟩
  rw [got, empty] at same
  exact absurd same.length_eq (by decide +kernel)

end LeoMem
