import LeoMem.Api.ReadEffect
import LeoMem.Api.WriteEffect

/-!
# When a call takes control messages in

An access takes its waiting messages before anything else, a fence before and after
its flushes. `drains` lists these moments of a call with the messages that were
handled to the end, and `removals` the pending requests that their acknowledgements
complete. What a call answers is what the transport or one of its drains answered:
only a drain can time out (`lmRead_prompt`, `lmWrite_prompt`, `lmFence_prompt`).
-/

namespace LeoMem
open Lib RuntimeContext

/-- The pending requests that `CompleteControlAck` removes as the messages are handled in
turn, each with what the list has beside the acknowledgement. -/
def removals {α : Type} : PendingControlAcks → List (ControlMessage × α) → List (PendingControlAck × α)
  | _, [] => []
  | acks, (msg, a) :: rest =>
    if isAckOpcode msg.opcode then
      let removed := if msg.requestId = 0 then none else acks.lookup msg.requestId
      removed.toList.map (fun e => (e, a)) ++ removals (acks.complete msg.requestId) rest
    else removals acks rest

/-- A request is removed by an acknowledgement that carries its id. -/
theorem mem_removals {α : Type} {acks : PendingControlAcks} {msgs : List (ControlMessage × α)} {e : PendingControlAck}
    {a : α} (removed : (e, a) ∈ removals acks msgs) :
    ∃ msg, (msg, a) ∈ msgs ∧ isAckOpcode msg.opcode = true ∧ acks.lookup msg.requestId = some e := by
  induction msgs generalizing acks with
  | nil => cases removed
  | cons p rest ih =>
    obtain ⟨msg, b⟩ := p
    unfold removals at removed
    split at removed
    · rename_i ack
      rcases List.mem_append.mp removed with here | later
      · obtain ⟨found, held, same⟩ := List.mem_map.mp here
        cases same
        split at held
        · cases held
        · exact ⟨msg, List.mem_cons_self, ack, by simpa using held⟩
      · obtain ⟨other, member, isAck, held⟩ := ih later
        rw [PendingControlAcks.lookup_complete] at held
        split at held
        · cases held
        · exact ⟨other, List.mem_cons_of_mem _ member, isAck, held⟩
    · obtain ⟨other, member, isAck, held⟩ := ih removed
      exact ⟨other, List.mem_cons_of_mem _ member, isAck, held⟩

section
variable {ω : Type} [Transport ω]

/-- A fence between its two drains, with the status it would stop with. -/
def flushFence (ord : IterOrder) (ctx : RuntimeContext ω) : Status × RuntimeContext ω :=
  let flushed := flushDestinations ctx (ctx.queues.pendingDestinations ord)
  if flushed.1 ≠ .kOk then flushed
  else
    let fence := Transport.fence flushed.2.config flushed.2.transport
    (fence.1, { flushed.2 with transport := fence.2 })

/-- The drains of an access: none when its arguments are refused. -/
def accessDrains (ord : IterOrder) (ctx : RuntimeContext ω) (addr : GlobalAddr) (size : UInt64) : List (Drain ω) :=
  if ctx.initialized = false then []
  else if addr.isValid = false ∨ size = 0 then []
  else [drainOf (processMessage ord) ctx]

/-- The drains of a fence. -/
def fenceDrains (ord : IterOrder) (ctx : RuntimeContext ω) : List (Drain ω) :=
  if ctx.initialized = false then []
  else
    let ctrl := drainControl ord ctx
    let flushed := flushFence ord ctrl.2
    if ctrl.1 ≠ .kOk ∨ flushed.1 ≠ .kOk then [drainOf (drainMessage ord) ctx]
    else [drainOf (drainMessage ord) ctx, drainOf (drainMessage ord) flushed.2]

/-- The drains of a call, in order. -/
def drains (ctx : RuntimeContext ω) (i : Invocation) : List (Drain ω) :=
  match i.call with
  | .malloc _ => []
  | .free _ => []
  | .read addr size => accessDrains i.ord ctx addr size
  | .write addr buf => accessDrains i.ord ctx addr buf.size
  | .fence => fenceDrains i.ord ctx

/-- A fence is a drain, the flushes, and a second drain. -/
theorem lmFence_eq (ord : IterOrder) (ctx : RuntimeContext ω) :
    lmFence ord ctx =
      if ctx.initialized = false then (.kNotInitialized, ctx)
      else
        let ctrl := drainControl ord ctx
        let flushed := flushFence ord ctrl.2
        if ctrl.1 ≠ .kOk then ctrl else if flushed.1 ≠ .kOk then flushed else drainControl ord flushed.2 := by
  unfold lmFence flushFence
  simp only
  generalize drainControl ord ctx = ctrl
  generalize flushDestinations ctrl.2 (ctrl.2.queues.pendingDestinations ord) = flushed
  by_cases ok : flushed.1 = .kOk <;> simp [ok]

/-! ### What a call answers -/

/-- The transport itself never answers that it timed out. -/
structure Prompt (ω : Type) [Transport ω] : Prop where
  read : ∀ cfg d addr size (w : ω), (Transport.read cfg d addr size w).1 ≠ .error .kTimedOut
  write : ∀ cfg d addr buf (w : ω), (Transport.write cfg d addr buf w).1 ≠ .kTimedOut
  batchWrite : ∀ cfg d requests (w : ω), (Transport.batchWrite cfg d requests w).1 ≠ .kTimedOut
  fence : ∀ cfg (w : ω), (Transport.fence cfg w).1 ≠ .kTimedOut
  post : ∀ cfg msg (w : ω), (Transport.postControlMessage cfg msg w).1 ≠ .kTimedOut

variable {ord : IterOrder} {ctx : RuntimeContext ω} {addr : GlobalAddr} {size : UInt64}

omit [Transport ω] in
theorem validateAndResolveRange_prompt (cfg : Config) (d : DsmAllocator) (addr : GlobalAddr) (size : UInt64) :
    validateAndResolveRange cfg d addr size ≠ .error .kTimedOut := by
  unfold validateAndResolveRange
  split
  · simp
  · split
    · split <;> simp
    · simp

theorem openAccess_prompt (drained : (processPendingControlMessages ord ctx).1 ≠ .kTimedOut) (addr : GlobalAddr)
    (size : UInt64) : (openAccess ord ctx addr size).1 ≠ .error .kTimedOut := by
  unfold openAccess
  split
  · simp
  · split
    · simp
    · simp only
      split
      · simpa using drained
      · exact validateAndResolveRange_prompt _ _ _ _

theorem readsAt_prompt {α : Type} {obs : ω → α} (prompt : Prompt ω) {node : NodeId} {answer : Except Status Bytes}
    (reads : ReadsAt obs ctx addr size node answer) : answer ≠ .error .kTimedOut := by
  obtain ⟨w, -, rfl⟩ := reads
  exact prompt.read _ _ _ _ w

theorem lmRead_prompt (prompt : Prompt ω) (drained : (processPendingControlMessages ord ctx).1 ≠ .kTimedOut)
    (addr : GlobalAddr) (size : UInt64) : (lmRead ord ctx addr size).1 ≠ .error .kTimedOut := by
  have passed := openAccess_prompt drained addr size
  refine lmRead_rule (I := fun _ => True) (J := fun r => r.1 ≠ .error .kTimedOut) trivial (fun s c opened _ => ?_)
    (fun c range _ _ _ => ?_) (fun c range _ _ _ => ?_)
  · rw [opened] at passed
    simpa using passed
  · have reads : ReadsAt (fun _ => ()) (touchMetadata c addr range .kRead).2 addr size addr.homeNode _ :=
      (readLocal_spec _ (fun _ _ _ _ => rfl) addr size).2.2.2
    exact readsAt_prompt prompt reads
  · have outcome : ReadOutcome (fun _ => ()) (touchMetadata c addr range .kRead).2 addr size (range.ids addr.regionId) ord
        _ := readRemote_outcome _ (fun _ _ _ _ => rfl) ord addr size _ (touchMetadata c addr range .kRead).1
    generalize (readRemote ord (touchMetadata c addr range .kRead).2 addr size (range.ids addr.regionId)
      (touchMetadata c addr range .kRead).1).1 = answer at outcome
    cases outcome with
    | cached _ => simp
    | owner _ _ _ => simp
    | home _ _ reads => exact readsAt_prompt prompt reads

theorem postRequest_prompt (prompt : Prompt ω) (ctx : RuntimeContext ω) (addr : GlobalAddr) (range : BlockRange)
    (mode : CoherenceMode) (opcode : ControlOpcode) (version : Version) :
    (postRequest ctx addr range mode opcode version).1 ≠ .kTimedOut := by
  have posted := prompt.post ctx.config
    (makeControlMessage ctx.config ctx.nextControlRequestId addr range mode opcode version) ctx.transport
  unfold postRequest trackPosted
  simp only
  split <;> exact posted

theorem postWriteMessages_prompt (prompt : Prompt ω) (ctx : RuntimeContext ω) (addr : GlobalAddr) (range : BlockRange)
    (modes : List CoherenceMode) (ownerHandoff : Bool) (maxVersion : Version) :
    (postWriteMessages ctx addr range modes ownerHandoff maxVersion).1 ≠ .kTimedOut := by
  have first : (if hasMode modes .kWI then postRequest ctx addr range .kWI .kInvalidateRange maxVersion
      else (.kOk, ctx)).1 ≠ .kTimedOut := by
    split
    · exact postRequest_prompt prompt _ _ _ _ _ _
    · simp
  unfold postWriteMessages
  generalize (if hasMode modes .kWI then postRequest ctx addr range .kWI .kInvalidateRange maxVersion
    else (.kOk, ctx)) = sent at first ⊢
  simp only
  split
  · exact first
  · split
    · exact postRequest_prompt prompt _ _ _ _ _ _
    · simp

theorem WriteMoved.prompt (prompt : Prompt ω) {buf : Bytes} {modes : List CoherenceMode}
    {r : Status × RuntimeContext ω} (moved : WriteMoved ctx addr buf modes r) : r.1 ≠ .kTimedOut := by
  cases moved with
  | through _ written _ => exact (congrArg Prod.fst written).symm ▸ prompt.write _ _ _ _ _
  | queued _ _ _ _ ok _ _ _ _ => simp [ok]
  | flushed _ _ _ _ written _ => exact (congrArg Prod.fst written).symm ▸ prompt.batchWrite _ _ _ _

theorem writeRemote_prompt (prompt : Prompt ω) (ord : IterOrder) (ctx : RuntimeContext ω) (addr : GlobalAddr)
    {buf : Bytes} (filled : buf.size ≠ 0) (range : BlockRange) (modes : List CoherenceMode) :
    (writeRemote ord ctx addr buf range modes).1 ≠ .kTimedOut := by
  unfold writeRemote
  simp only
  split
  · exact postWriteMessages_prompt prompt _ _ _ _ _ _
  · exact (writeData_wrote ord _ addr filled modes _ _).moved.prompt prompt

theorem lmWrite_prompt (prompt : Prompt ω) (drained : (processPendingControlMessages ord ctx).1 ≠ .kTimedOut)
    (addr : GlobalAddr) (buf : Bytes) : (lmWrite ord ctx addr buf).1 ≠ .kTimedOut := by
  have passed := openAccess_prompt drained addr buf.size
  refine lmWrite_rule (I := fun _ => True) (J := fun r => r.1 ≠ .kTimedOut) trivial (fun s c opened _ => ?_)
    (fun c range _ _ _ => ?_) (fun c range opened _ _ => ?_)
  · rw [opened] at passed
    simpa using passed
  · have written := writeThrough_written (touchMetadata c addr range .kWrite).2 addr buf true
    exact (congrArg Prod.fst written).symm ▸ prompt.write _ _ _ _ _
  · exact writeRemote_prompt prompt ord _ addr (openAccess_filled opened) range _

theorem flushDestinations_prompt (prompt : Prompt ω) (nodes : List NodeId) (ctx : RuntimeContext ω) :
    (flushDestinations ctx nodes).1 ≠ .kTimedOut := by
  induction nodes generalizing ctx with
  | nil => simp [flushDestinations]
  | cons node nodes ih =>
    unfold flushDestinations
    simp only
    split
    · have written := congrArg Prod.fst (flushDestination_flushed ctx node).written
      simp only at written
      rw [written]
      split
      · simp
      · exact prompt.batchWrite _ _ _ _
    · exact ih _

theorem flushFence_prompt (prompt : Prompt ω) (ord : IterOrder) (ctx : RuntimeContext ω) :
    (flushFence ord ctx).1 ≠ .kTimedOut := by
  unfold flushFence
  simp only
  split
  · exact flushDestinations_prompt prompt _ ctx
  · exact prompt.fence _ _

theorem lmFence_prompt (prompt : Prompt ω) (first : (drainControl ord ctx).1 ≠ .kTimedOut)
    (second : (drainControl ord (flushFence ord (drainControl ord ctx).2).2).1 ≠ .kTimedOut) :
    (lmFence ord ctx).1 ≠ .kTimedOut := by
  rw [lmFence_eq]
  split
  · simp
  · simp only
    split
    · exact first
    · split
      · exact flushFence_prompt prompt ord _
      · exact second

end
end LeoMem
