import LeoMem.Cluster.Versions
import Mathlib.Data.List.Induction

/-!
# Two handlers for one protocol

An access takes its waiting control messages with `ProcessPendingControlMessages`, a
fence with `DrainControl`. Both drop the same cache entries, complete the same
requests and post the same acknowledgements. They differ in the block records:
`DrainControl` stores nothing for an invalidation and leaves the state alone at an
owner transfer.
-/

namespace LeoMem
open Lib RuntimeContext

/-- What `ProcessPendingControlMessages` stores into a record a request names. -/
def processRecord (msg : ControlMessage) (m : BlockMeta) : BlockMeta :=
  match msg.opcode with
  | .kInvalidateRange => invalidateMeta msg m
  | .kOwnerTransfer => transferMeta msg m
  | _ => m

/-- What `DrainControl` stores into it. -/
def drainRecord (msg : ControlMessage) (m : BlockMeta) : BlockMeta :=
  match msg.opcode with
  | .kOwnerTransfer => drainTransferMeta msg m
  | _ => m

/-- A request for a block range with `b` in it. -/
def ControlMessage.Names (b : BlockId) (msg : ControlMessage) : Prop :=
  isAckOpcode msg.opcode = false ∧ b ∈ msg.blocks

instance (b : BlockId) (msg : ControlMessage) : Decidable (msg.Names b) := inferInstanceAs (Decidable (_ ∧ _))

/-- The requests among `msgs` that name `b`. -/
def requestsFor (b : BlockId) (msgs : List ControlMessage) : List ControlMessage := msgs.filter fun msg => msg.Names b

/-- The owner transfers among them. -/
def transfersFor (b : BlockId) (msgs : List ControlMessage) : List ControlMessage :=
  (requestsFor b msgs).filter fun msg => msg.opcode = .kOwnerTransfer

/-- The state a request leaves a block in, as `ProcessPendingControlMessages` stores it. -/
def storedState (msg : ControlMessage) : BlockState := if msg.opcode = .kOwnerTransfer then .kOwner else .kInvalid

/-- The last request for `b` stores what a handler of owner transfers alone would leave there. -/
def StoresNothingNew (m : BlockMeta) (b : BlockId) (msgs : List ControlMessage) : Prop :=
  ∀ msg ∈ (requestsFor b msgs).getLast?,
    m.state = storedState msg ∧
    ((transfersFor b msgs).getLast?.map ControlMessage.version).getD m.version = msg.version ∧
    ((transfersFor b msgs).getLast?.map ControlMessage.mode).getD m.mode = msg.mode

/-- Version, owner, state and mode of a record. -/
def BlockMeta.SameRecord (m m' : BlockMeta) : Prop :=
  m.ownerNode = m'.ownerNode ∧ m.version = m'.version ∧ m.state = m'.state ∧ m.mode = m'.mode

section
variable {ω : Type} [Transport ω]

/-- The messages a handler works through: none when the transport fails to hand them out. -/
def handledMessages (ctx : RuntimeContext ω) : List ControlMessage :=
  if postFailed (Transport.drainControlMessages ctx.config 64 ctx.transport).1.1 then [] else takenMessages ctx

/-- What the two handlers should leave alike. -/
structure SameNodeState (left right : RuntimeContext ω) : Prop where
  cache : left.cache = right.cache
  records : ∀ b, (left.blockTable.get b).SameRecord (right.blockTable.get b)
  acks : left.pendingControlAcks = right.pendingControlAcks
  /-- The transport and with it the messages posted. -/
  transport : left.transport = right.transport

/-! ### The records -/

/-- The record of `b` after requests that name it, as the first handler leaves it. -/
def processRecords (requests : List ControlMessage) (m : BlockMeta) : BlockMeta :=
  requests.foldl (fun m msg => processRecord msg m) m

/-- The same for the second handler. -/
def drainRecords (requests : List ControlMessage) (m : BlockMeta) : BlockMeta :=
  requests.foldl (fun m msg => drainRecord msg m) m

variable {ord : IterOrder} (requests : List ControlMessage)

theorem processRecords_snoc (msg : ControlMessage) (m : BlockMeta) :
    processRecords (requests ++ [msg]) m = processRecord msg (processRecords requests m) := by
  simp [processRecords]

theorem drainRecords_snoc (msg : ControlMessage) (m : BlockMeta) :
    drainRecords (requests ++ [msg]) m = drainRecord msg (drainRecords requests m) := by
  simp [drainRecords]

/-- The last request decides what the first handler leaves. -/
theorem processRecords_fields {requests : List ControlMessage}
    (all : ∀ msg ∈ requests, isAckOpcode msg.opcode = false) (m : BlockMeta) :
    (processRecords requests m).version = (requests.getLast?.map ControlMessage.version).getD m.version ∧
    (processRecords requests m).mode = (requests.getLast?.map ControlMessage.mode).getD m.mode ∧
    (processRecords requests m).state = (requests.getLast?.map storedState).getD m.state := by
  induction requests using List.reverseRecOn with
  | nil => exact ⟨rfl, rfl, rfl⟩
  | append_singleton requests msg _ =>
    have request := all msg (List.mem_append_right _ List.mem_cons_self)
    rw [processRecords_snoc, List.getLast?_concat]
    cases kind : msg.opcode with
    | kInvalidateRange => simp [processRecord, storedState, invalidateMeta, kind]
    | kOwnerTransfer => simp [processRecord, storedState, transferMeta, kind]
    | _ => simp [kind, isAckOpcode] at request

/-- The last owner transfer decides what the second handler leaves. -/
theorem drainRecords_fields (requests : List ControlMessage) (m : BlockMeta) :
    let transfers := requests.filter fun msg => msg.opcode = .kOwnerTransfer
    (drainRecords requests m).version = (transfers.getLast?.map ControlMessage.version).getD m.version ∧
    (drainRecords requests m).mode = (transfers.getLast?.map ControlMessage.mode).getD m.mode ∧
    (drainRecords requests m).state = m.state := by
  induction requests using List.reverseRecOn with
  | nil => exact ⟨rfl, rfl, rfl⟩
  | append_singleton requests msg ih =>
    rw [drainRecords_snoc, List.filter_append]
    cases kind : msg.opcode with
    | kOwnerTransfer => simpa [drainRecord, kind, drainTransferMeta] using ih.2.2
    | _ => simpa [drainRecord, kind] using ih

/-- Both handlers store the owners of the transfers. -/
theorem owner_same (m : BlockMeta) : (processRecords requests m).ownerNode = (drainRecords requests m).ownerNode := by
  induction requests using List.reverseRecOn with
  | nil => rfl
  | append_singleton requests msg ih =>
    rw [processRecords_snoc, drainRecords_snoc]
    cases kind : msg.opcode with
    | kOwnerTransfer => simp [processRecord, drainRecord, kind, transferMeta, drainTransferMeta]
    | kInvalidateRange => simpa [processRecord, drainRecord, kind, invalidateMeta] using ih
    | _ => simpa [processRecord, drainRecord, kind] using ih

/-- One block's record comes out alike exactly when the first handler has nothing new to store. -/
theorem records_agree_iff (m : BlockMeta) (b : BlockId) (msgs : List ControlMessage) :
    (processRecords (requestsFor b msgs) m).SameRecord (drainRecords (requestsFor b msgs) m) ↔
      StoresNothingNew m b msgs := by
  have all : ∀ msg ∈ requestsFor b msgs, isAckOpcode msg.opcode = false := by
    intro msg member
    exact (of_decide_eq_true (List.mem_filter.mp member).2).1
  obtain ⟨version, mode, state⟩ := processRecords_fields all m
  obtain ⟨version', mode', state'⟩ := drainRecords_fields (requestsFor b msgs) m
  have owner := owner_same (requestsFor b msgs) m
  simp only [BlockMeta.SameRecord, version, version', mode, mode', state, state', owner, StoresNothingNew, transfersFor,
    true_and]
  cases found : (requestsFor b msgs).getLast? with
  | none =>
    simp [List.getLast?_eq_none_iff.mp found]
  | some msg =>
    simp only [Option.map_some, Option.getD_some, Option.mem_def, Option.some.injEq, forall_eq']
    constructor
    · rintro ⟨version, state, mode⟩
      exact ⟨state.symm, version.symm, mode.symm⟩
    · rintro ⟨state, version, mode⟩
      exact ⟨version.symm, state.symm, mode.symm⟩

/-! ### The whole node -/

/-- A node with another block table. -/
def withTable (ctx : RuntimeContext ω) (table : BlockTable) : RuntimeContext ω := { ctx with blockTable := table }

omit [Transport ω] in
theorem get_modifyAll_blocks {msg : ControlMessage} (request : isAckOpcode msg.opcode = false)
    (f : BlockMeta → BlockMeta) (table : BlockTable) (b : BlockId) :
    (table.modifyAll msg.blocks f).get b = if msg.Names b then f (table.get b) else table.get b := by
  rw [BlockTable.get_modifyAll _ msg.nodup_blocks]
  simp [ControlMessage.Names, request]

theorem processMessage_get (ord : IterOrder) (ctx : RuntimeContext ω) (msg : ControlMessage) (b : BlockId) :
    (processMessage ord ctx msg).2.blockTable.get b =
      if msg.Names b then processRecord msg (ctx.blockTable.get b) else ctx.blockTable.get b := by
  cases kind : msg.opcode with
  | kInvalidateRange =>
    have stored : (processMessage ord ctx msg).2.blockTable = ctx.blockTable.modifyAll msg.blocks (invalidateMeta msg) := by
      simp only [processMessage, kind, isAckOpcode]
      rfl
    rw [stored, get_modifyAll_blocks (by rw [kind]; rfl)]
    simp only [processRecord, kind]
  | kOwnerTransfer =>
    have stored : (processMessage ord ctx msg).2.blockTable = ctx.blockTable.modifyAll msg.blocks (transferMeta msg) := by
      simp only [processMessage, kind, isAckOpcode]
      rfl
    rw [stored, get_modifyAll_blocks (by rw [kind]; rfl)]
    simp only [processRecord, kind]
  | _ => simp [processMessage, ControlMessage.Names, kind, isAckOpcode]

/-- Apart from the records, the second handler does to a message what the first does. -/
theorem drainMessage_withTable (ord : IterOrder) (ctx : RuntimeContext ω) (table : BlockTable) (msg : ControlMessage) :
    ∃ table', drainMessage ord (withTable ctx table) msg =
        ((processMessage ord ctx msg).1, withTable (processMessage ord ctx msg).2 table') ∧
      ∀ b, table'.get b = if msg.Names b then drainRecord msg (table.get b) else table.get b := by
  cases kind : msg.opcode with
  | kInvalidateRange =>
    refine ⟨table, ?_, fun b => by simp [drainRecord, kind]⟩
    simp only [drainMessage, processMessage, kind, isAckOpcode]
    rfl
  | kOwnerTransfer =>
    refine ⟨table.modifyAll msg.blocks (drainTransferMeta msg), ?_, fun b => ?_⟩
    · simp only [drainMessage, processMessage, kind, isAckOpcode]
      rfl
    · rw [get_modifyAll_blocks (by rw [kind]; rfl)]
      simp [drainRecord, kind]
  | _ =>
    refine ⟨table, ?_, fun b => by simp [drainRecord, kind]⟩
    simp only [drainMessage, processMessage, kind, isAckOpcode]
    rfl

theorem processMessages_cons_ok {ctx : RuntimeContext ω} {msg : ControlMessage} {msgs : List ControlMessage}
    (ok : (processMessages ord ctx (msg :: msgs)).1 = .kOk) :
    postFailed (processMessage ord ctx msg).1 = false ∧
      (processMessages ord (processMessage ord ctx msg).2 msgs).1 = .kOk := by
  unfold processMessages at ok
  simp only at ok
  split at ok
  · rename_i failed
    simp [postFailed, ok] at failed
  · rename_i posted
    exact ⟨by simpa using posted, ok⟩

theorem requestsFor_cons (b : BlockId) (msg : ControlMessage) (msgs : List ControlMessage) :
    requestsFor b (msg :: msgs) = if msg.Names b then msg :: requestsFor b msgs else requestsFor b msgs := by
  simp [requestsFor, List.filter_cons]

/-- The two loops over a list whose acknowledgements can all be posted. -/
theorem handlers_loop {ctx : RuntimeContext ω} {msgs : List ControlMessage} (ok : (processMessages ord ctx msgs).1 = .kOk)
    (table : BlockTable) :
    (∀ b, (processMessages ord ctx msgs).2.blockTable.get b =
      processRecords (requestsFor b msgs) (ctx.blockTable.get b)) ∧
    ∃ table', drainMessages ord (withTable ctx table) msgs =
        (.kOk, withTable (processMessages ord ctx msgs).2 table') ∧
      ∀ b, table'.get b = drainRecords (requestsFor b msgs) (table.get b) := by
  induction msgs generalizing ctx table with
  | nil => exact ⟨fun _ => rfl, table, rfl, fun _ => rfl⟩
  | cons msg msgs ih =>
    obtain ⟨posted, rest⟩ := processMessages_cons_ok ok
    obtain ⟨table', drained, stored⟩ := drainMessage_withTable ord ctx table msg
    obtain ⟨processed, table'', loop, final⟩ := ih rest table'
    have unfolded : processMessages ord ctx (msg :: msgs) = processMessages ord (processMessage ord ctx msg).2 msgs := by
      rw [processMessages]
      simp [posted]
    refine ⟨fun b => ?_, table'', ?_, fun b => ?_⟩
    · rw [unfolded, processed b, processMessage_get, requestsFor_cons]
      split <;> rfl
    · rw [drainMessages, drained, unfolded]
      simpa [posted] using loop
    · rw [final b, stored b, requestsFor_cons]
      split <;> rfl

theorem postAll_withTable (ctx : RuntimeContext ω) (table : BlockTable) (msgs : List ControlMessage) :
    (withTable ctx table).postAll msgs = ((ctx.postAll msgs).1, withTable (ctx.postAll msgs).2 table) := by
  induction msgs generalizing ctx with
  | nil => rfl
  | cons msg msgs ih =>
    have first : (withTable ctx table).post msg = ((ctx.post msg).1, withTable (ctx.post msg).2 table) := rfl
    rw [postAll, postAll, first]
    simp only
    split
    · rfl
    · exact ih _

theorem drivePendingControlAcks_withTable (ord : IterOrder) (ctx : RuntimeContext ω) (table : BlockTable) :
    drivePendingControlAcks ord (withTable ctx table) =
      ((drivePendingControlAcks ord ctx).1, withTable (drivePendingControlAcks ord ctx).2 table) := by
  let advanced := ctx.pendingControlAcks.advance ord ctx.config
  let next : RuntimeContext ω := { ctx with pendingControlAcks := advanced.2.2 }
  by_cases stopped : advanced.1 ≠ .kOk
  · have left : drivePendingControlAcks ord (withTable ctx table) = (advanced.1, withTable next table) := if_pos stopped
    have right : drivePendingControlAcks ord ctx = (advanced.1, next) := if_pos stopped
    rw [left, right]
  · have left : drivePendingControlAcks ord (withTable ctx table) = (withTable next table).postAll advanced.2.1 :=
      if_neg stopped
    have right : drivePendingControlAcks ord ctx = next.postAll advanced.2.1 := if_neg stopped
    rw [left, right, postAll_withTable]

/-- Where the acknowledgements can be posted, the two handlers leave nodes that differ in
their block tables only. -/
theorem handlers_tables {ctx : RuntimeContext ω}
    (ok : (processMessages ord (takeMessages ctx) (handledMessages ctx)).1 = .kOk) :
    (∀ b, (processPendingControlMessages ord ctx).2.blockTable.get b =
      processRecords (requestsFor b (handledMessages ctx)) (ctx.blockTable.get b)) ∧
    ∃ table, (drainControl ord ctx).2 = withTable (processPendingControlMessages ord ctx).2 table ∧
      ∀ b, table.get b = drainRecords (requestsFor b (handledMessages ctx)) (ctx.blockTable.get b) := by
  obtain ⟨processed, table, drained, stored⟩ := handlers_loop ok ctx.blockTable
  have same : withTable (takeMessages ctx) ctx.blockTable = takeMessages ctx := rfl
  rw [same] at drained
  have answered := congrArg Prod.fst drained
  rw [processMessages_eq] at ok processed drained
  rw [drainMessages_eq] at answered drained
  rw [processPendingControlMessages_eq, drainControl_eq]
  cases failed : postFailed (Transport.drainControlMessages ctx.config 64 ctx.transport).1.1 with
  | true =>
    have none : handledMessages ctx = [] := by rw [handledMessages, if_pos failed]
    rw [takeIn_of_failed failed, takeIn_of_failed failed, none]
    exact ⟨fun _ => rfl, ctx.blockTable, rfl, fun _ => rfl⟩
  | false =>
    have all : handledMessages ctx = takenMessages ctx := by rw [handledMessages, if_neg (by simp [failed])]
    rw [all] at ok answered processed drained stored ⊢
    rw [takeIn_of_handled failed ok, takeIn_of_handled failed answered, drained, drivePendingControlAcks_withTable]
    refine ⟨fun b => ?_, table, rfl, stored⟩
    rw [drivePendingControlAcks_table]
    exact processed b

/-- Where no acknowledgement fails to be posted, the two handlers leave the same node state
exactly when the last request for each block stores nothing new there. -/
theorem handlers_agree_iff (ord : IterOrder) (ctx : RuntimeContext ω)
    (posts : (processMessages ord (takeMessages ctx) (handledMessages ctx)).1 = .kOk) :
    SameNodeState (processPendingControlMessages ord ctx).2 (drainControl ord ctx).2 ↔
      ∀ b, StoresNothingNew (ctx.blockTable.get b) b (handledMessages ctx) := by
  obtain ⟨processed, table, drained, stored⟩ := handlers_tables posts
  have records (b : BlockId) :
      ((processPendingControlMessages ord ctx).2.blockTable.get b).SameRecord ((drainControl ord ctx).2.blockTable.get b) ↔
        StoresNothingNew (ctx.blockTable.get b) b (handledMessages ctx) := by
    have second : (drainControl ord ctx).2.blockTable.get b =
        drainRecords (requestsFor b (handledMessages ctx)) (ctx.blockTable.get b) := by rw [drained]; exact stored b
    rw [processed b, second, records_agree_iff]
  constructor
  · intro same b
    exact (records b).mp (same.records b)
  · intro nothing
    refine ⟨?_, fun b => (records b).mpr (nothing b), ?_, ?_⟩
    all_goals rw [drained]; rfl

end

/-- Node 1 of two with one message in its mailbox. -/
def nodeWithMessage (msg : ControlMessage) : RuntimeContext PeerTransport :=
  .init { nodeId := 1, nrNodes := 2 }
    { memory := fun _ => Bytes.zeros 16, mailbox := fun n => if n = 1 then [msg] else [] }

/-- Node 0 invalidates the first block at version 3. -/
def invalidationOfFirst : ControlMessage :=
  { opcode := .kInvalidateRange, sourceNode := 0, targetNode := 1, requestId := 1, version := 3, mode := .kWI }

/-- Node 0 takes over the first block at version 3. -/
def transferOfFirst : ControlMessage :=
  { opcode := .kOwnerTransfer, sourceNode := 0, targetNode := 1, requestId := 1, version := 3, mode := .kAdaptive }

/-- A node that already records what the transfer in its mailbox stores. -/
def knownTransfer : RuntimeContext PeerTransport :=
  withTable (nodeWithMessage transferOfFirst) (BlockTable.empty.modify {} (transferMeta transferOfFirst))

theorem knownTransfer_agrees :
    (processMessages .stored (takeMessages knownTransfer) (handledMessages knownTransfer)).1 = .kOk ∧
    SameNodeState (processPendingControlMessages .stored knownTransfer).2 (drainControl .stored knownTransfer).2 := by
  have posts : (processMessages .stored (takeMessages knownTransfer) (handledMessages knownTransfer)).1 = .kOk := by
    decide +kernel
  have handled : handledMessages knownTransfer = [transferOfFirst] := by decide +kernel
  have named {b : BlockId} (names : transferOfFirst.Names b) : b = {} := by
    have only : transferOfFirst.blocks = [{}] := by decide +kernel
    exact List.mem_singleton.mp (only ▸ names.2)
  refine ⟨posts, (handlers_agree_iff .stored knownTransfer posts).mpr fun b msg last => ?_⟩
  rw [handled] at last ⊢
  by_cases names : transferOfFirst.Names b
  · obtain rfl := named names
    obtain rfl : transferOfFirst = msg := by simpa [requestsFor, names] using last
    decide +kernel
  · simp [requestsFor, names] at last

/-- The fence's handler drops the cached copies and acknowledges, but records neither the
version nor the state of the invalidated block. -/
theorem invalidation_handled_twice :
    (processMessages .stored (takeMessages (nodeWithMessage invalidationOfFirst))
      (handledMessages (nodeWithMessage invalidationOfFirst))).1 = .kOk ∧
    ((processPendingControlMessages .stored (nodeWithMessage invalidationOfFirst)).2.blockTable.get {}).version = 3 ∧
    ((processPendingControlMessages .stored (nodeWithMessage invalidationOfFirst)).2.blockTable.get {}).state = .kInvalid ∧
    ((drainControl .stored (nodeWithMessage invalidationOfFirst)).2.blockTable.get {}).version = 0 ∧
    ((drainControl .stored (nodeWithMessage invalidationOfFirst)).2.blockTable.get {}).state = .kHome ∧
    ¬SameNodeState (processPendingControlMessages .stored (nodeWithMessage invalidationOfFirst)).2
      (drainControl .stored (nodeWithMessage invalidationOfFirst)).2 := by
  refine ⟨by decide +kernel, by decide +kernel, by decide +kernel, by decide +kernel, by decide +kernel, fun same => ?_⟩
  exact absurd (same.records {}).2.1 (by decide +kernel)

end LeoMem
