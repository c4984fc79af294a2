import LeoMem.Api.Call

/-!
# Taking control messages in

`ProcessPendingControlMessages` and `DrainControl` differ in how they handle one message
only. `takeIn` is what they share: take the waiting messages, handle one after the other
until a post fails, then drive the pending requests. Facts about both are stated for it.
-/

namespace LeoMem
open Lib RuntimeContext

section
variable {ω : Type} [Transport ω]

/-- One handler of control messages: `processMessage` or `drainMessage`. -/
abbrev Handler (ω : Type) := RuntimeContext ω → ControlMessage → Status × RuntimeContext ω

/-- The loop of either handler. -/
def handleAll (handle : Handler ω) (ctx : RuntimeContext ω) : List ControlMessage → Status × RuntimeContext ω
  | [] => (.kOk, ctx)
  | msg :: msgs =>
    let r := handle ctx msg
    if postFailed r.1 then r else handleAll handle r.2 msgs

/-! ## One message -/

/-- What the handlers store into the block records for `msg`. -/
inductive Recorded (t : BlockTable) (msg : ControlMessage) : BlockTable → Prop
  | nothing : Recorded t msg t
  | invalidation (opcode : msg.opcode = .kInvalidateRange) : Recorded t msg (t.modifyAll msg.blocks (invalidateMeta msg))
  | transfer (opcode : msg.opcode = .kOwnerTransfer) : Recorded t msg (t.modifyAll msg.blocks (transferMeta msg))
  | drainTransfer (opcode : msg.opcode = .kOwnerTransfer) : Recorded t msg (t.modifyAll msg.blocks (drainTransferMeta msg))

/-- What either handler does with `msg`: an acknowledgement completes its request; a request is
acknowledged, with cache entries dropped and records stored, or left alone. -/
inductive Handled (ctx : RuntimeContext ω) (msg : ControlMessage) : Status × RuntimeContext ω → Prop
  | completed : Handled ctx msg (.kOk, { ctx with pendingControlAcks := ctx.pendingControlAcks.complete msg.requestId })
  | acknowledged (request : isAckOpcode msg.opcode = false) {c : ReadCache} (within : c.Within ctx.cache)
      {t : BlockTable} (recorded : Recorded ctx.blockTable msg t) :
      Handled ctx msg ({ ctx.setCache c with blockTable := t }.post (msg.ack ctx.config))
  | ignored : Handled ctx msg (.kOk, ctx)

variable (ord : IterOrder) (ctx : RuntimeContext ω)

theorem handled_processMessage (msg : ControlMessage) : Handled ctx msg (processMessage ord ctx msg) := by
  unfold processMessage
  split
  · exact .completed
  · rename_i request
    have request : isAckOpcode msg.opcode = false := by simpa using request
    simp only
    split
    · rename_i opcode
      exact .acknowledged request (ctx.cache.invalidateRange_within ord _ _) (.invalidation opcode)
    · rename_i opcode
      exact .acknowledged request (.refl _) (.transfer opcode)
    · exact .ignored

theorem handled_drainMessage (msg : ControlMessage) : Handled ctx msg (drainMessage ord ctx msg) := by
  unfold drainMessage
  split
  · exact .completed
  · rename_i request
    have request : isAckOpcode msg.opcode = false := by simpa using request
    split
    · exact .acknowledged request (ctx.cache.invalidateRange_within ord _ _) .nothing
    · rename_i other
      have opcode : msg.opcode = .kOwnerTransfer := by
        cases code : msg.opcode <;> simp_all [isAckOpcode]
      exact .acknowledged request (.refl _) (.drainTransfer opcode)

/-! ## The messages that wait -/

/-- The context once its waiting messages are taken from the transport. -/
def takeMessages (ctx : RuntimeContext ω) : RuntimeContext ω :=
  { ctx with transport := (Transport.drainControlMessages ctx.config 64 ctx.transport).2 }

/-- The messages an access or a fence takes from the transport at a time. -/
def takenMessages (ctx : RuntimeContext ω) : List ControlMessage :=
  (Transport.drainControlMessages ctx.config 64 ctx.transport).1.2

/-- Both ways to take messages in: the loop of a handler, then the retries. -/
def takeIn (handle : Handler ω) (ord : IterOrder) (ctx : RuntimeContext ω) : Status × RuntimeContext ω :=
  let status := (Transport.drainControlMessages ctx.config 64 ctx.transport).1.1
  if postFailed status then (status, takeMessages ctx)
  else
    let r := handleAll handle (takeMessages ctx) (takenMessages ctx)
    if r.1 ≠ .kOk then r else drivePendingControlAcks ord r.2

theorem processMessages_eq (msgs : List ControlMessage) :
    processMessages ord ctx msgs = handleAll (processMessage ord) ctx msgs := by
  induction msgs generalizing ctx with
  | nil => rfl
  | cons msg msgs ih => rw [processMessages, handleAll, ih]

theorem drainMessages_eq (msgs : List ControlMessage) :
    drainMessages ord ctx msgs = handleAll (drainMessage ord) ctx msgs := by
  induction msgs generalizing ctx with
  | nil => rfl
  | cons msg msgs ih => rw [drainMessages, handleAll, ih]

theorem processPendingControlMessages_eq : processPendingControlMessages ord ctx = takeIn (processMessage ord) ord ctx := by
  unfold takeIn
  rw [← processMessages_eq]
  rfl

theorem drainControl_eq : drainControl ord ctx = takeIn (drainMessage ord) ord ctx := by
  unfold takeIn
  rw [← drainMessages_eq]
  rfl

section
variable {handle : Handler ω} {ord : IterOrder} {ctx : RuntimeContext ω}

theorem takeIn_of_failed (failed : postFailed (Transport.drainControlMessages ctx.config 64 ctx.transport).1.1 = true) :
    (takeIn handle ord ctx).2 = takeMessages ctx :=
  congrArg Prod.snd (if_pos failed)

theorem takeIn_of_handled (passed : postFailed (Transport.drainControlMessages ctx.config 64 ctx.transport).1.1 = false)
    (handled : (handleAll handle (takeMessages ctx) (takenMessages ctx)).1 = .kOk) :
    takeIn handle ord ctx = drivePendingControlAcks ord (handleAll handle (takeMessages ctx) (takenMessages ctx)).2 := by
  unfold takeIn
  simp only
  rw [if_neg (by simp [passed]), if_neg (not_not.mpr handled)]

end

omit [Transport ω] in
/-- The messages of a handler's loop that are handled to the end: a failed post ends it. -/
def worked (handle : Handler ω) : RuntimeContext ω → List ControlMessage → List ControlMessage
  | _, [] => []
  | ctx, msg :: msgs =>
    let r := handle ctx msg
    if postFailed r.1 then [] else msg :: worked handle r.2 msgs

omit [Transport ω] in
theorem worked_isPrefix (handle : Handler ω) (ctx : RuntimeContext ω) (msgs : List ControlMessage) :
    worked handle ctx msgs <+: msgs := by
  induction msgs generalizing ctx with
  | nil => exact List.prefix_rfl
  | cons msg msgs ih =>
    unfold worked
    simp only
    split
    · exact List.nil_prefix
    · exact (List.prefix_cons_inj msg).mpr (ih _)

/-- One drain of the transport's messages. -/
structure Drain (ω : Type) where
  /-- The node as the drain begins. -/
  before : RuntimeContext ω
  handled : List ControlMessage

/-- The drain of `ctx` with the handler `handle`. -/
def drainOf (handle : Handler ω) (ctx : RuntimeContext ω) : Drain ω :=
  { before := ctx
    handled := if postFailed (Transport.drainControlMessages ctx.config 64 ctx.transport).1.1 then []
      else worked handle (takeMessages ctx) (takenMessages ctx) }

theorem drainOf_isPrefix (handle : Handler ω) (ctx : RuntimeContext ω) :
    (drainOf handle ctx).handled <+: takenMessages ctx := by
  unfold drainOf
  simp only
  split
  · exact List.nil_prefix
  · exact worked_isPrefix handle _ _

omit [Transport ω] in
/-- What handling a message keeps, given that it is in `W` if it is handled to the end, the
loop keeps. -/
theorem handleAll_keeps {I : RuntimeContext ω → Prop} {W : ControlMessage → Prop} {handle : Handler ω}
    {msgs : List ControlMessage} {ctx : RuntimeContext ω}
    (step : ∀ c, ∀ msg ∈ msgs, (postFailed (handle c msg).1 = false → W msg) → I c → I (handle c msg).2)
    (done : ∀ msg ∈ worked handle ctx msgs, W msg) (start : I ctx) : I (handleAll handle ctx msgs).2 := by
  induction msgs generalizing ctx with
  | nil => exact start
  | cons msg msgs ih =>
    unfold worked at done
    unfold handleAll
    simp only at done ⊢
    cases failed : postFailed (handle ctx msg).1 with
    | true => exact step ctx msg List.mem_cons_self (fun passed => by simp [failed] at passed) start
    | false =>
      simp only [failed, Bool.false_eq_true, if_false, List.mem_cons, forall_eq_or_imp] at done ⊢
      exact ih (fun c later member => step c later (List.mem_cons_of_mem _ member)) done.2
        (step ctx msg List.mem_cons_self (fun _ => done.1) start)

/-- **The rule for taking messages in**: as `handleAll_keeps`, with the retries. -/
theorem takeIn_keeps {I : RuntimeContext ω → Prop} {W : ControlMessage → Prop} {handle : Handler ω} {ord : IterOrder}
    {ctx : RuntimeContext ω} (taken : I (takeMessages ctx))
    (step : ∀ c, ∀ msg ∈ takenMessages ctx, (postFailed (handle c msg).1 = false → W msg) → I c → I (handle c msg).2)
    (done : ∀ msg ∈ (drainOf handle ctx).handled, W msg) (drive : ∀ c, I c → I (drivePendingControlAcks ord c).2) :
    I (takeIn handle ord ctx).2 := by
  unfold drainOf at done
  unfold takeIn
  simp only at done ⊢
  split
  · exact taken
  · rename_i passed
    rw [if_neg passed] at done
    have handled := handleAll_keeps step done taken
    split
    · exact handled
    · exact drive _ handled

end
end LeoMem
