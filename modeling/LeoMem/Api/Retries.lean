import LeoMem.Api.Drains
import LeoMem.Api.Instrument
import LeoMem.Control.Pass
import LeoMem.Lib.Run

/-!
# Retries that are charged and retries that are sent

`AdvanceControlAckTimeouts` charges a request for each retry it returns, and its
callers post them afterwards. A pass that times out returns before anyone posts what
it has charged, and a post that fails leaves those behind it unsent. `PostLog` records
what is handed to `PostControlMessage`; every pending request has been handed over once
and once more for each charge exactly as long as neither happens
(`every_charge_sent_iff`).
-/

namespace LeoMem
open Lib RuntimeContext

/-! ## Recording what is posted -/

/-- A transport with the messages handed to its `PostControlMessage` so far. -/
structure PostLog (ω : Type) where
  inner : ω
  posted : List ControlMessage := []

section
variable {ω : Type} [Transport ω]

instance : Transport (PostLog ω) where
  read cfg d addr size w :=
    let r := Transport.read cfg d addr size w.inner
    (r.1, { w with inner := r.2 })
  write cfg d addr buf w :=
    let r := Transport.write cfg d addr buf w.inner
    (r.1, { w with inner := r.2 })
  batchWrite cfg d requests w :=
    let r := Transport.batchWrite cfg d requests w.inner
    (r.1, { w with inner := r.2 })
  fence cfg w :=
    let r := Transport.fence cfg w.inner
    (r.1, { w with inner := r.2 })
  postControlMessage cfg msg w :=
    let r := Transport.postControlMessage cfg msg w.inner
    (r.1, { inner := r.2, posted := w.posted ++ [msg] })
  drainControlMessages cfg n w :=
    let r := Transport.drainControlMessages cfg n w.inner
    (r.1, { w with inner := r.2 })

namespace PostLog

/-- The record changes nothing of the transport. -/
theorem inner_hom : TransportHom (inner : PostLog ω → ω) :=
  ⟨fun _ _ _ _ _ => rfl, fun _ _ _ _ _ => rfl, fun _ _ _ _ => rfl, fun _ _ => rfl, fun _ _ _ => rfl, fun _ _ _ => rfl⟩

theorem readKeeps_posted (cfg : Config) : ReadKeeps cfg (posted : PostLog ω → _) := fun _ _ _ _ => rfl

theorem writeKeeps_posted : WriteKeeps (posted : PostLog ω → _) := ⟨fun _ _ _ _ _ => rfl, fun _ _ _ _ => rfl⟩

/-- Every run is the run without the record. -/
theorem run_inner (cfg : Config) (w : ω) (calls : List Invocation) :
    (run exec (RuntimeContext.init cfg (⟨w, []⟩ : PostLog ω)) calls).1 = (run exec (RuntimeContext.init cfg w) calls).1 ∧
      mapTransport inner (run exec (RuntimeContext.init cfg (⟨w, []⟩ : PostLog ω)) calls).2 =
        (run exec (RuntimeContext.init cfg w) calls).2 :=
  run_map inner_hom _ calls

end PostLog

/-! ## The retries of one pass -/

/-- Of the posts of `msgs`, one after the other, only the last may fail. -/
def OnlyLastFails (cfg : Config) : ω → List ControlMessage → Prop
  | _, [] => True
  | _, [_] => True
  | w, msg :: next :: msgs =>
    let r := Transport.postControlMessage cfg msg w
    postFailed r.1 = false ∧ OnlyLastFails cfg r.2 (next :: msgs)

/-- The pending requests of `ctx` and the transport send every retry that the next pass charges: where
the pass times out it has charged none, and where it does not only the last post may fail. -/
structure ChargesSent (ord : IterOrder) (ctx : RuntimeContext ω) : Prop where
  timeout : (∃ id e, ctx.pendingControlAcks.lookup id = some e ∧ e.expired = true) →
    ∀ e ∈ PendingControlAcks.passed (ord.arrange ctx.pendingControlAcks.entries), e.2.due = false
  posts : (∀ id e, ctx.pendingControlAcks.lookup id = some e → e.expired = false) →
    OnlyLastFails ctx.config ctx.transport
      (((ord.arrange ctx.pendingControlAcks.entries).filter fun e => e.2.due).map fun e => e.2.message)

instance OnlyLastFails.decidable (cfg : Config) : (w : ω) → (msgs : List ControlMessage) → Decidable (OnlyLastFails cfg w msgs)
  | _, [] => isTrue trivial
  | _, [_] => isTrue trivial
  | w, msg :: next :: msgs =>
    have := OnlyLastFails.decidable cfg (Transport.postControlMessage cfg msg w).2 (next :: msgs)
    inferInstanceAs (Decidable (_ ∧ _))

/-- Ids and entries are those of the map, so the condition can be checked. -/
theorem chargesSent_iff (ord : IterOrder) (ctx : RuntimeContext ω) :
    ChargesSent ord ctx ↔
      ((∃ e ∈ ctx.pendingControlAcks.entries, e.2.expired = true) →
        ∀ e ∈ PendingControlAcks.passed (ord.arrange ctx.pendingControlAcks.entries), e.2.due = false) ∧
      ((∀ e ∈ ctx.pendingControlAcks.entries, e.2.expired = false) →
        OnlyLastFails ctx.config ctx.transport
          (((ord.arrange ctx.pendingControlAcks.entries).filter fun e => e.2.due).map fun e => e.2.message)) := by
  constructor
  · rintro ⟨timeout, posts⟩
    refine ⟨fun ⟨e, member, expired⟩ => timeout ⟨e.1, e.2, HashMap.mem_entries.mp member, expired⟩, fun goes => ?_⟩
    exact posts fun id e found => goes ⟨id, e⟩ (HashMap.mem_entries.mpr found)
  · rintro ⟨timeout, posts⟩
    refine ⟨fun ⟨id, e, found, expired⟩ => timeout ⟨⟨id, e⟩, HashMap.mem_entries.mpr found, expired⟩, fun goes => ?_⟩
    exact posts fun e member => goes e.1 e.2 (HashMap.mem_entries.mp member)

instance ChargesSent.decidable (ord : IterOrder) (ctx : RuntimeContext ω) : Decidable (ChargesSent ord ctx) :=
  decidable_of_iff' _ (chargesSent_iff ord ctx)

theorem postAll_posted (ctx : RuntimeContext (PostLog ω)) (msgs : List ControlMessage) :
    ∃ sent unsent, msgs = sent ++ unsent ∧ (ctx.postAll msgs).2.transport.posted = ctx.transport.posted ++ sent ∧
      (OnlyLastFails ctx.config ctx.transport msgs ↔ unsent = []) ∧ (unsent ≠ [] → (ctx.postAll msgs).1 ≠ .kOk) := by
  induction msgs generalizing ctx with
  | nil => exact ⟨[], [], rfl, (List.append_nil _).symm, by simp [OnlyLastFails], by simp⟩
  | cons msg msgs ih =>
    have logged : (ctx.post msg).2.transport.posted = ctx.transport.posted ++ [msg] := rfl
    unfold postAll
    simp only
    cases failed : postFailed (ctx.post msg).1 with
    | true =>
      rw [if_pos rfl]
      refine ⟨[msg], msgs, rfl, logged, ?_, fun _ ok => ?_⟩
      · cases msgs with
        | nil => simp [OnlyLastFails]
        | cons next msgs =>
          refine iff_of_false (fun passes => ?_) (by simp)
          have passed : postFailed (ctx.post msg).1 = false := passes.1
          exact absurd failed (by simp [passed])
      · rw [ok] at failed
        exact absurd failed (by decide)
    | false =>
      rw [if_neg (by decide)]
      obtain ⟨sent, unsent, split, posted, only, status⟩ := ih (ctx.post msg).2
      refine ⟨msg :: sent, unsent, by rw [split, List.cons_append], ?_, ?_, status⟩
      · rw [posted, logged, List.append_assoc, List.singleton_append]
      · rw [← only]
        cases msgs with
        | nil => simp [OnlyLastFails]
        | cons next msgs => exact and_iff_right failed

/-- **One pass and its posts.** The retries it charges are those it sends and those it does not, and
there are none of the latter exactly under `ChargesSent`. -/
theorem drivePendingControlAcks_posted (ord : IterOrder) (ctx : RuntimeContext (PostLog ω)) :
    ∃ sent unsent, PendingControlAcks.retriesOf (ord.arrange ctx.pendingControlAcks.entries) = sent ++ unsent ∧
      (drivePendingControlAcks ord ctx).2.transport.posted = ctx.transport.posted ++ sent ∧
      (ChargesSent ord ctx ↔ unsent = []) ∧ (unsent ≠ [] → (drivePendingControlAcks ord ctx).1 ≠ .kOk) := by
  have advanced := PendingControlAcks.advance_eq ord ctx.config ctx.pendingControlAcks
  by_cases stops : ∃ id e, ctx.pendingControlAcks.lookup id = some e ∧ e.expired = true
  · have timedOut := (PendingControlAcks.advance_timedOut_iff ord ctx.config ctx.pendingControlAcks).mpr stops
    refine ⟨[], PendingControlAcks.retriesOf (ord.arrange ctx.pendingControlAcks.entries), rfl, ?_, ?_, fun _ => ?_⟩
    · simp [drivePendingControlAcks, timedOut]
    · rw [PendingControlAcks.retriesOf, List.map_eq_nil_iff, List.filter_eq_nil_iff]
      constructor
      · intro quiet e member
        rw [quiet.timeout stops e member]
        decide
      · intro none
        refine ⟨fun _ e member => Bool.eq_false_iff.mpr (none e member), fun goes => ?_⟩
        obtain ⟨id, e, found, expired⟩ := stops
        exact absurd expired (by simp [goes id e found])
    · simp [drivePendingControlAcks, timedOut]
  · have goes : ∀ id e, ctx.pendingControlAcks.lookup id = some e → e.expired = false :=
      fun id e found => Bool.eq_false_iff.mpr fun expired => stops ⟨id, e, found, expired⟩
    have ok := PendingControlAcks.advance_ok ord ctx.config goes
    have passed := PendingControlAcks.passed_arrange ord goes
    have drive : drivePendingControlAcks ord ctx =
        postAll { ctx with pendingControlAcks := (ctx.pendingControlAcks.advance ord ctx.config).2.2 }
          (PendingControlAcks.retriesOf (ord.arrange ctx.pendingControlAcks.entries)) := by
      unfold drivePendingControlAcks
      simp only
      rw [if_neg (not_not.mpr ok), advanced]
    obtain ⟨sent, unsent, split, posted, only, status⟩ := postAll_posted
      { ctx with pendingControlAcks := (ctx.pendingControlAcks.advance ord ctx.config).2.2 }
      (PendingControlAcks.retriesOf (ord.arrange ctx.pendingControlAcks.entries))
    rw [drive]
    refine ⟨sent, unsent, split, posted, ?_, status⟩
    rw [← only, PendingControlAcks.retriesOf, passed]
    constructor
    · intro quiet
      exact quiet.posts goes
    · intro passes
      exact ⟨fun expired => absurd expired stops, fun _ => passes⟩

theorem drivePendingControlAcks_acks {ω : Type} [Transport ω] (ord : IterOrder) (ctx : RuntimeContext ω) :
    (drivePendingControlAcks ord ctx).2.pendingControlAcks = (ctx.pendingControlAcks.advance ord ctx.config).2.2 := by
  unfold drivePendingControlAcks
  simp only
  split
  · rfl
  · exact postAll_keeps (I := fun c => c.pendingControlAcks = (ctx.pendingControlAcks.advance ord ctx.config).2.2)
      (fun _ _ _ same => same) rfl

/-! ## What every pending request has been charged -/

/-- Every pending request was handed to `PostControlMessage` once, and once more for each charge. -/
def Sent (ctx : RuntimeContext (PostLog ω)) : Prop :=
  ∀ id e, ctx.pendingControlAcks.lookup id = some e →
    ctx.transport.posted.count e.message = 1 + (ctx.config.controlAckMaxRetries.toNat - e.retriesRemaining.toNat)

/-- `Sent` with what carries it: requests are stored under ids of their own, and an id not yet drawn
is that of no request posted so far. -/
structure Charged (ctx : RuntimeContext (PostLog ω)) : Prop where
  sent : Sent ctx
  named : ctx.pendingControlAcks.Each fun id m => m.requestId = id
  requests : ctx.pendingControlAcks.Each fun _ m => isAckOpcode m.opcode = false
  within : ∀ id e, ctx.pendingControlAcks.lookup id = some e →
    e.retriesRemaining.toNat ≤ ctx.config.controlAckMaxRetries.toNat
  drawn : ∀ m ∈ ctx.transport.posted, isAckOpcode m.opcode = false →
    m.requestId.toNat < ctx.nextControlRequestId.toNat

namespace Charged
variable {ctx ctx' : RuntimeContext (PostLog ω)}

omit [Transport ω] in
theorem init (cfg : Config) (w : ω) : Charged (RuntimeContext.init cfg (⟨w, []⟩ : PostLog ω)) where
  sent _ _ none := nomatch none
  named _ _ none := nomatch none
  requests _ _ none := nomatch none
  within _ _ none := nomatch none
  drawn _ none := nomatch none

omit [Transport ω] in
/-- Requests may complete and acknowledgements may be posted. -/
theorem of_acks (charged : Charged ctx) (config : ctx'.config = ctx.config)
    (next : ctx'.nextControlRequestId = ctx.nextControlRequestId)
    (fewer : ∀ id e, ctx'.pendingControlAcks.lookup id = some e → ctx.pendingControlAcks.lookup id = some e)
    (answers : List ControlMessage) (acks : ∀ m ∈ answers, isAckOpcode m.opcode = true)
    (posted : ctx'.transport.posted = ctx.transport.posted ++ answers) : Charged ctx' where
  sent id e found := by
    have request := charged.requests id e (fewer id e found)
    have other : e.message ∉ answers := fun member => absurd (acks _ member) (by simp [request])
    rw [posted, config, List.count_append, List.count_eq_zero_of_not_mem other]
    exact charged.sent id e (fewer id e found)
  named id e found := charged.named id e (fewer id e found)
  requests id e found := charged.requests id e (fewer id e found)
  within id e found := config ▸ charged.within id e (fewer id e found)
  drawn m member request := by
    rw [posted] at member
    rw [next]
    rcases List.mem_append.mp member with old | new
    · exact charged.drawn m old request
    · exact absurd (acks m new) (by simp [request])

omit [Transport ω] in
theorem congr (charged : Charged ctx) (config : ctx'.config = ctx.config)
    (next : ctx'.nextControlRequestId = ctx.nextControlRequestId)
    (same : ctx'.pendingControlAcks = ctx.pendingControlAcks) (posted : ctx'.transport.posted = ctx.transport.posted) :
    Charged ctx' := by
  refine charged.of_acks config next (fun id e found => same ▸ found) [] (fun _ none => nomatch none) ?_
  rw [posted, List.append_nil]

section
variable {ord : IterOrder} (acks : ctx'.pendingControlAcks = (ctx.pendingControlAcks.advance ord ctx.config).2.2)
  (config : ctx'.config = ctx.config)

omit [Transport ω] in
include acks config in
/-- A pass that sends every retry it charges. -/
theorem of_pass (charged : Charged ctx) (next : ctx'.nextControlRequestId = ctx.nextControlRequestId)
    (posted : ctx'.transport.posted =
      ctx.transport.posted ++ PendingControlAcks.retriesOf (ord.arrange ctx.pendingControlAcks.entries)) :
    Charged ctx' := by
  have came {id : UInt64} {e' : PendingControlAck} (found : ctx'.pendingControlAcks.lookup id = some e') :=
    PendingControlAcks.charged_of_lookup_advance ord ctx.config charged.named (acks ▸ found)
  refine ⟨fun id e' found => ?_, fun id e' found => ?_, fun id e' found => ?_, fun id e' found => ?_,
    fun m member request => ?_⟩
  · obtain ⟨e, before, message, charge⟩ := came found
    have counted := charged.sent id e before
    have within := charged.within id e before
    rw [message, posted, config, List.count_append, counted]
    omega
  · obtain ⟨e, before, message, -⟩ := came found
    exact message ▸ charged.named id e before
  · obtain ⟨e, before, message, -⟩ := came found
    exact message ▸ charged.requests id e before
  · obtain ⟨e, before, -, charge⟩ := came found
    have within := charged.within id e before
    rw [config]
    omega
  · rw [next]
    rw [posted] at member
    refine charged.drawn m ?_ request
    rcases List.mem_append.mp member with old | new
    · exact old
    · obtain ⟨id, e, before, rfl⟩ := PendingControlAcks.lookup_of_mem_retriesOf ord new
      exact List.count_pos_iff.mp (by rw [charged.sent id e before]; omega)

omit [Transport ω] in
include acks config in
/-- A pass that charges a retry it does not send leaves a request with a post too few. -/
theorem not_sent_of_pass (charged : Charged ctx) {sent unsent : List ControlMessage}
    (split : PendingControlAcks.retriesOf (ord.arrange ctx.pendingControlAcks.entries) = sent ++ unsent)
    (posted : ctx'.transport.posted = ctx.transport.posted ++ sent) (some : unsent ≠ []) : ¬Sent ctx' := by
  intro all
  have once := PendingControlAcks.nodup_retriesOf ord charged.named
  obtain ⟨m, left⟩ := List.exists_mem_of_ne_nil unsent some
  obtain ⟨id, e, before, rfl⟩ :=
    PendingControlAcks.lookup_of_mem_retriesOf ord (split ▸ List.mem_append_right sent left)
  obtain ⟨e', held, message, charge⟩ := PendingControlAcks.lookup_advance_charged ord ctx.config charged.named before
  rw [split] at charge once
  have notSent : e.message ∉ sent := fun member => (List.disjoint_of_nodup_append once) member left
  have counted := charged.sent id e before
  have within := charged.within id e before
  have wanted := all id e' (acks ▸ held)
  rw [List.count_eq_one_of_mem once (List.mem_append_right sent left)] at charge
  rw [message, posted, config, List.count_append, counted, List.count_eq_zero_of_not_mem notSent] at wanted
  omega

end

/-- **One pass**: it leaves every charge sent exactly under `ChargesSent`, and otherwise it fails. -/
theorem drive (charged : Charged ctx) (ord : IterOrder) :
    (ChargesSent ord ctx → Charged (drivePendingControlAcks ord ctx).2) ∧
      (¬ChargesSent ord ctx →
        (drivePendingControlAcks ord ctx).1 ≠ .kOk ∧ ¬Sent (drivePendingControlAcks ord ctx).2) := by
  obtain ⟨sent, unsent, split, posted, quiet, failed⟩ := drivePendingControlAcks_posted ord ctx
  have acks := drivePendingControlAcks_acks ord ctx
  have next := congrArg Prod.fst (drivePendingControlAcks_books ord ctx)
  have config := (controlStep_drivePendingControlAcks controlKeeps_noObs.post ctx ord).config
  rw [quiet]
  constructor
  · rintro rfl
    rw [List.append_nil] at split
    rw [← split] at posted
    exact charged.of_pass acks config next posted
  · intro some
    exact ⟨failed some, charged.not_sent_of_pass acks config split posted some⟩

/-! ### Taking messages in -/

theorem takeMessages (charged : Charged ctx) : Charged (takeMessages ctx) := charged.congr rfl rfl rfl rfl

omit [Transport ω] in
theorem complete (charged : Charged ctx) (requestId : UInt64) :
    Charged { ctx with pendingControlAcks := ctx.pendingControlAcks.complete requestId } := by
  refine charged.of_acks rfl rfl (fun id e found => ?_) [] (fun _ none => nomatch none) (List.append_nil _).symm
  have left : (ctx.pendingControlAcks.complete requestId).lookup id = some e := found
  rw [PendingControlAcks.lookup_complete] at left
  split at left
  · cases left
  · exact left

/-- Both handlers answer a request with an acknowledgement. -/
theorem post_ack (charged : Charged ctx) (msg : ControlMessage) : Charged (ctx.post (msg.ack ctx.config)).2 := by
  refine charged.of_acks rfl rfl (fun _ _ found => found) [msg.ack ctx.config] (fun m member => ?_) rfl
  cases List.mem_singleton.mp member
  exact isAckOpcode_ackOpcodeFor msg.opcode

theorem handled (charged : Charged ctx) {msg : ControlMessage} {r : Status × RuntimeContext (PostLog ω)}
    (handled : Handled ctx msg r) : Charged r.2 := by
  cases handled with
  | completed => exact charged.complete msg.requestId
  | acknowledged request within recorded =>
    refine post_ack (charged.congr ?_ ?_ ?_ ?_) msg
    all_goals rfl
  | ignored => exact charged

end Charged

section
variable {ω : Type} [Transport ω]

/-- The state in which messages taken in are followed by a pass over the pending requests. -/
def drivePoint (handle : Handler ω) (ctx : RuntimeContext ω) : List (RuntimeContext ω) :=
  if postFailed (Transport.drainControlMessages ctx.config 64 ctx.transport).1.1 then []
  else
    let r := handleAll handle (takeMessages ctx) (takenMessages ctx)
    if r.1 ≠ .kOk then [] else [r.2]

/-- The passes of an access: none when its arguments are refused. -/
def accessDrives (ord : IterOrder) (ctx : RuntimeContext ω) (addr : GlobalAddr) (size : UInt64) : List (RuntimeContext ω) :=
  if ctx.initialized = false then []
  else if addr.isValid = false ∨ size = 0 then []
  else drivePoint (processMessage ord) ctx

/-- The passes of a fence. -/
def fenceDrives (ord : IterOrder) (ctx : RuntimeContext ω) : List (RuntimeContext ω) :=
  if ctx.initialized = false then []
  else
    let ctrl := drainControl ord ctx
    let flushed := flushFence ord ctrl.2
    if ctrl.1 ≠ .kOk ∨ flushed.1 ≠ .kOk then drivePoint (drainMessage ord) ctx
    else drivePoint (drainMessage ord) ctx ++ drivePoint (drainMessage ord) flushed.2

/-- The states in which a call runs `AdvanceControlAckTimeouts`, in order. -/
def drivePoints (ctx : RuntimeContext ω) (i : Invocation) : List (RuntimeContext ω) :=
  match i.call with
  | .malloc _ => []
  | .free _ => []
  | .read addr size => accessDrives i.ord ctx addr size
  | .write addr buf => accessDrives i.ord ctx addr buf.size
  | .fence => fenceDrives i.ord ctx

end

namespace Charged
variable {ctx : RuntimeContext (PostLog ω)} {ord : IterOrder} {addr : GlobalAddr} {size : UInt64} {buf : Bytes}

theorem takeIn {handle : Handler (PostLog ω)} (handles : ∀ c m, Charged c → Charged (handle c m).2) (charged : Charged ctx)
    (ord : IterOrder) :
    ((∀ c ∈ drivePoint handle ctx, ChargesSent ord c) → Charged (takeIn handle ord ctx).2) ∧
      ((¬∀ c ∈ drivePoint handle ctx, ChargesSent ord c) →
        (LeoMem.takeIn handle ord ctx).1 ≠ .kOk ∧ ¬Sent (LeoMem.takeIn handle ord ctx).2) := by
  have handled : Charged (handleAll handle (LeoMem.takeMessages ctx) (takenMessages ctx)).2 :=
    handleAll_keeps (W := fun _ => True) (fun c m _ _ held => handles c m held) (fun _ _ => trivial) charged.takeMessages
  unfold LeoMem.takeIn drivePoint
  simp only
  split
  · exact ⟨fun _ => charged.takeMessages, fun broken => absurd (fun c none => nomatch none) broken⟩
  · split
    · exact ⟨fun _ => handled, fun broken => absurd (fun c none => nomatch none) broken⟩
    · simp only [List.forall_mem_singleton]
      exact handled.drive ord

theorem openAccess (charged : Charged ctx) (ord : IterOrder) (addr : GlobalAddr) (size : UInt64) :
    ((∀ c ∈ accessDrives ord ctx addr size, ChargesSent ord c) → Charged (openAccess ord ctx addr size).2) ∧
      ((¬∀ c ∈ accessDrives ord ctx addr size, ChargesSent ord c) →
        ∃ s c, LeoMem.openAccess ord ctx addr size = (.error s, c) ∧ ¬Sent c) := by
  have taken := charged.takeIn (fun c m held => held.handled (handled_processMessage ord c m)) ord
  rw [← processPendingControlMessages_eq] at taken
  unfold LeoMem.openAccess accessDrives
  split
  · exact ⟨fun _ => charged, fun broken => absurd (fun c none => nomatch none) broken⟩
  · split
    · exact ⟨fun _ => charged, fun broken => absurd (fun c none => nomatch none) broken⟩
    · simp only
      refine ⟨fun quiet => ?_, fun broken => ?_⟩
      · have kept := taken.1 quiet
        split
        · exact kept
        · exact kept
      · obtain ⟨failed, unsent⟩ := taken.2 broken
        rw [if_pos failed]
        exact ⟨_, _, rfl, unsent⟩

/-! ### New requests -/

omit [Transport ω] in
/-- A request with an id just drawn is posted, and tracked or not. -/
theorem posted (charged : Charged ctx) (room : ctx.nextControlRequestId.toNat + 1 < 2 ^ 64) (msg : ControlMessage)
    (id : msg.requestId = ctx.nextControlRequestId) (request : isAckOpcode msg.opcode = false)
    {ctx' : RuntimeContext (PostLog ω)} (config : ctx'.config = ctx.config)
    (next : ctx'.nextControlRequestId = ctx.nextControlRequestId + 1)
    (posted : ctx'.transport.posted = ctx.transport.posted ++ [msg])
    (acks : ctx'.pendingControlAcks = ctx.pendingControlAcks ∨
      ctx'.pendingControlAcks = ctx.pendingControlAcks.track ctx.config msg) : Charged ctx' := by
  have drawn : ctx'.nextControlRequestId.toNat = ctx.nextControlRequestId.toNat + 1 := by
    rw [next, toNat_succ room]
  have fresh : msg ∉ ctx.transport.posted := by
    intro member
    have smaller := charged.drawn msg member request
    rw [id] at smaller
    omega
  have waits : ∀ {k e}, ctx.pendingControlAcks.lookup k = some e → e.message ∈ ctx.transport.posted := by
    intro k e found
    exact List.count_pos_iff.mp (by rw [charged.sent k e found]; omega)
  have cases : ∀ {k e}, ctx'.pendingControlAcks.lookup k = some e → ctx.pendingControlAcks.lookup k = some e ∨
      (k = msg.requestId ∧ e = ⟨msg, ctx.config.controlAckTimeoutPolls, ctx.config.controlAckMaxRetries⟩) := by
    intro k e found
    rcases acks with same | tracked
    · exact .inl (same ▸ found)
    · rw [tracked, PendingControlAcks.lookup_track] at found
      split at found
      · rename_i here
        exact .inr ⟨here.1, (Option.some.inj found).symm⟩
      · exact .inl found
  refine ⟨fun k e found => ?_, fun k e found => ?_, fun k e found => ?_, fun k e found => ?_, fun m member isRequest => ?_⟩
  · rw [posted, config, List.count_append]
    rcases cases found with old | ⟨-, rfl⟩
    · have other : e.message ≠ msg := fun same => fresh (same ▸ waits old)
      rw [charged.sent k e old, List.count_eq_zero_of_not_mem (by simpa using other), Nat.add_zero]
    · rw [List.count_eq_zero_of_not_mem fresh, List.count_singleton_self, Nat.sub_self]
  · rcases cases found with old | ⟨here, rfl⟩
    · exact charged.named k e old
    · exact here.symm
  · rcases cases found with old | ⟨-, rfl⟩
    · exact charged.requests k e old
    · exact request
  · rw [config]
    rcases cases found with old | ⟨-, rfl⟩
    · exact charged.within k e old
    · exact Nat.le_refl _
  · rw [posted] at member
    rw [drawn]
    rcases List.mem_append.mp member with old | new
    · exact Nat.lt_succ_of_lt (charged.drawn m old isRequest)
    · cases List.mem_singleton.mp new
      rw [id]
      exact Nat.lt_succ_self _

theorem postRequest (charged : Charged ctx) (room : ctx.nextControlRequestId.toNat + 1 < 2 ^ 64) (addr : GlobalAddr)
    (range : BlockRange) (mode : CoherenceMode) {opcode : ControlOpcode} (request : isAckOpcode opcode = false)
    (version : Version) : Charged (postRequest ctx addr range mode opcode version).2 := by
  refine charged.posted room (makeControlMessage ctx.config ctx.nextControlRequestId addr range mode opcode version) rfl
    request (postRequest_config ctx addr range mode opcode version) (postRequest_nextId ctx addr range mode opcode version)
    ?_ ?_
  · unfold LeoMem.postRequest trackPosted
    simp only
    split <;> rfl
  · unfold LeoMem.postRequest trackPosted
    simp only
    split
    · exact .inr rfl
    · exact .inl rfl

/-- A write draws at most two ids. -/
theorem postWriteMessages (charged : Charged ctx) (room : ctx.nextControlRequestId.toNat + 2 < 2 ^ 64) (addr : GlobalAddr)
    (range : BlockRange) (modes : List CoherenceMode) (ownerHandoff : Bool) (maxVersion : Version) :
    Charged (postWriteMessages ctx addr range modes ownerHandoff maxVersion).2 ∧
      (postWriteMessages ctx addr range modes ownerHandoff maxVersion).2.nextControlRequestId.toNat ≤
        ctx.nextControlRequestId.toNat + 2 := by
  have next : (ctx.nextControlRequestId + 1).toNat = ctx.nextControlRequestId.toNat + 1 := toNat_succ (by omega)
  have one (mode : CoherenceMode) (opcode : ControlOpcode) (request : isAckOpcode opcode = false) :
      Charged (LeoMem.postRequest ctx addr range mode opcode maxVersion).2 ∧
        (LeoMem.postRequest ctx addr range mode opcode maxVersion).2.nextControlRequestId.toNat =
          ctx.nextControlRequestId.toNat + 1 := by
    refine ⟨charged.postRequest (by omega) addr range mode request maxVersion, ?_⟩
    rw [postRequest_nextId, next]
  obtain ⟨invalidation, drawn⟩ := one .kWI .kInvalidateRange rfl
  obtain ⟨transfer, drawn'⟩ := one .kAdaptive .kOwnerTransfer rfl
  refine postWriteMessages_rule (J := fun c => Charged c ∧ c.nextControlRequestId.toNat ≤ ctx.nextControlRequestId.toNat + 2)
    ⟨charged, by omega⟩ ⟨invalidation, by omega⟩ ⟨transfer, by omega⟩ ⟨invalidation.postRequest ?_ addr range _ rfl _, ?_⟩
  · omega
  · rw [postRequest_nextId, UInt64.toNat_add, UInt64.toNat_one]
    exact (Nat.mod_le _ _).trans (by omega)

/-! ### Calls -/

theorem lmRead (opened : Charged (LeoMem.openAccess ord ctx addr size).2) : Charged (lmRead ord ctx addr size).2 := by
  refine lmRead_framed PostLog.readKeeps_posted (fun c range c' frame next held => ?_) opened
  exact held.congr frame.config next frame.acks frame.transport

theorem writeThrough (charged : Charged ctx) (addr : GlobalAddr) (buf : Bytes) (isLocal : Bool) :
    Charged (writeThrough ctx addr buf isLocal).2 := by
  have same := (writeThrough_same ctx addr buf isLocal).1
  have written := congrArg (fun r : Status × PostLog ω => r.2.posted) (writeThrough_written ctx addr buf isLocal)
  exact charged.congr same.config (unmoved_nextId.writeThrough ctx addr buf isLocal) same.acks written

theorem writeRemote (charged : Charged ctx) (room : ctx.nextControlRequestId.toNat + 2 < 2 ^ 64) (ord : IterOrder)
    (addr : GlobalAddr) (filled : buf.size ≠ 0) (range : BlockRange) (modes : List CoherenceMode) :
    Charged (writeRemote ord ctx addr buf range modes).2 ∧
      (LeoMem.writeRemote ord ctx addr buf range modes).2.nextControlRequestId.toNat ≤ ctx.nextControlRequestId.toNat + 2 := by
  let applied := applyWriteMetadata ctx.config addr ((range.ids addr.regionId).zip modes) { table := ctx.blockTable }
  have recorded : Charged { ctx with blockTable := applied.table } := charged.congr rfl rfl rfl rfl
  obtain ⟨posted, drawn⟩ := recorded.postWriteMessages room addr range modes applied.ownerHandoff
    (maxObservedVersion applied.table (range.ids addr.regionId))
  unfold LeoMem.writeRemote
  simp only
  split
  · exact ⟨posted, drawn⟩
  · have wrote := writeData_wrote ord (LeoMem.postWriteMessages { ctx with blockTable := applied.table } addr range modes
      applied.ownerHandoff (maxObservedVersion applied.table (range.ids addr.regionId))).2 addr filled modes applied.ownerBiased
      applied.ownerHandoff
    have next := unmoved_nextId.writeData ord (LeoMem.postWriteMessages { ctx with blockTable := applied.table } addr range modes
      applied.ownerHandoff (maxObservedVersion applied.table (range.ids addr.regionId))).2 addr buf modes applied.ownerBiased
      applied.ownerHandoff
    refine ⟨posted.congr wrote.same.config next wrote.same.acks (wrote.moved.keeps PostLog.writeKeeps_posted), ?_⟩
    rw [next]
    exact drawn

theorem lmWrite (opened : Charged (LeoMem.openAccess ord ctx addr buf.size).2)
    (room : ctx.nextControlRequestId.toNat + 2 < 2 ^ 64) :
    Charged (lmWrite ord ctx addr buf).2 ∧
      (LeoMem.lmWrite ord ctx addr buf).2.nextControlRequestId.toNat ≤ ctx.nextControlRequestId.toNat + 2 := by
  refine lmWrite_rule (I := fun c => Charged c ∧ c.nextControlRequestId = ctx.nextControlRequestId)
    (J := fun r => Charged r.2 ∧ r.2.nextControlRequestId.toNat ≤ ctx.nextControlRequestId.toNat + 2)
    ⟨opened, openAccess_nextId ord ctx addr buf.size⟩ (fun s c _ held => ⟨held.1, by rw [held.2]; omega⟩)
    (fun c range _ _ held => ?_) (fun c range found _ held => ?_)
  · have touched : Charged (touchMetadata c addr range .kWrite).2 := held.1.congr rfl rfl rfl rfl
    refine ⟨touched.writeThrough addr buf true, ?_⟩
    rw [unmoved_nextId.writeThrough (touchMetadata c addr range .kWrite).2 addr buf true]
    exact Nat.le_trans (Nat.le_of_eq (congrArg UInt64.toNat held.2)) (Nat.le_add_right _ _)
  · have touched : Charged (touchMetadata c addr range .kWrite).2 := held.1.congr rfl rfl rfl rfl
    have next : (touchMetadata c addr range .kWrite).2.nextControlRequestId = ctx.nextControlRequestId := held.2
    have written := touched.writeRemote (by rwa [next]) ord addr (openAccess_filled found) range
      (touchMetadata c addr range .kWrite).1
    rwa [next] at written

theorem flushFence (charged : Charged ctx) (ord : IterOrder) :
    Charged (flushFence ord ctx).2 ∧ (LeoMem.flushFence ord ctx).2.nextControlRequestId = ctx.nextControlRequestId := by
  have flushed := flushDestinations_induct
    (P := fun c => Charged c ∧ c.nextControlRequestId = ctx.nextControlRequestId)
    (fun c node held => by
      have flush := flushDestination_flushed c node
      have next := unmoved_nextId.flushDestination c node
      exact ⟨held.1.congr flush.same.config next flush.same.acks (flush.keeps PostLog.writeKeeps_posted), next.trans held.2⟩)
    (ctx.queues.pendingDestinations ord) ⟨charged, rfl⟩
  unfold LeoMem.flushFence
  simp only
  split
  · exact flushed
  · exact ⟨flushed.1.congr rfl rfl rfl rfl, flushed.2⟩

theorem lmFence (charged : Charged ctx) (ord : IterOrder) :
    ((∀ c ∈ fenceDrives ord ctx, ChargesSent ord c) →
        Charged (lmFence ord ctx).2 ∧ (LeoMem.lmFence ord ctx).2.nextControlRequestId = ctx.nextControlRequestId) ∧
      ((¬∀ c ∈ fenceDrives ord ctx, ChargesSent ord c) → ¬Sent (LeoMem.lmFence ord ctx).2) := by
  have taken {c : RuntimeContext (PostLog ω)} (held : Charged c) :=
    held.takeIn (fun c m held => held.handled (handled_drainMessage ord c m)) ord
  simp only [← drainControl_eq] at taken
  rw [lmFence_eq]
  unfold fenceDrives
  split
  · exact ⟨fun _ => ⟨charged, rfl⟩, fun broken => absurd (fun c none => nomatch none) broken⟩
  simp only
  by_cases quiet : ∀ c ∈ drivePoint (LeoMem.drainMessage ord) ctx, ChargesSent ord c
  · have drained := (taken charged).1 quiet
    obtain ⟨flushed, next⟩ := drained.flushFence ord
    have drawn (c : RuntimeContext (PostLog ω)) : (drainControl ord c).2.nextControlRequestId = c.nextControlRequestId :=
      congrArg Prod.fst (drainControl_books ord c)
    have next := next.trans (drawn ctx)
    by_cases ctrl : (drainControl ord ctx).1 ≠ .kOk
    · simp only [ctrl, true_or, if_true, ne_eq, not_false_eq_true]
      exact ⟨fun _ => ⟨drained, drawn ctx⟩, fun broken => absurd quiet broken⟩
    by_cases flush : (LeoMem.flushFence ord (drainControl ord ctx).2).1 ≠ .kOk
    · rw [if_pos (.inr flush), if_neg ctrl, if_pos flush]
      exact ⟨fun _ => ⟨flushed, next⟩, fun broken => absurd quiet broken⟩
    rw [if_neg (not_or.mpr ⟨ctrl, flush⟩), if_neg ctrl, if_neg flush]
    refine ⟨fun all => ⟨(taken flushed).1 fun c member => all c (List.mem_append_right _ member), ?_⟩, fun broken => ?_⟩
    · exact (drawn _).trans next
    · refine ((taken flushed).2 fun all => broken fun c member => ?_).2
      rcases List.mem_append.mp member with first | second
      · exact quiet c first
      · exact all c second
  · obtain ⟨failed, unsent⟩ := (taken charged).2 quiet
    rw [if_pos (.inl failed), if_pos failed]
    exact ⟨fun all => absurd all quiet, fun _ => unsent⟩

/-- **One call.** It leaves every charge sent exactly when each of its passes does. -/
theorem exec (charged : Charged ctx) (room : ctx.nextControlRequestId.toNat + 2 < 2 ^ 64) (i : Invocation) :
    ((∀ c ∈ drivePoints ctx i, ChargesSent i.ord c) →
        Charged (exec ctx i).2 ∧ (LeoMem.exec ctx i).2.nextControlRequestId.toNat ≤ ctx.nextControlRequestId.toNat + 2) ∧
      ((¬∀ c ∈ drivePoints ctx i, ChargesSent i.ord c) → ¬Sent (LeoMem.exec ctx i).2) := by
  obtain ⟨ord, call⟩ := i
  cases call with
  | malloc size =>
    obtain ⟨config, -, acks, transport⟩ := lmMalloc_keeps ctx size
    obtain ⟨allocator, table, stats, same⟩ := lmMalloc_eq ctx size
    have next : (lmMalloc ctx size).2.nextControlRequestId = ctx.nextControlRequestId := by rw [same]
    refine ⟨fun _ => ⟨charged.congr config next acks (congrArg PostLog.posted transport), ?_⟩, fun broken => ?_⟩
    · change (lmMalloc ctx size).2.nextControlRequestId.toNat ≤ _
      rw [next]
      omega
    · exact absurd (fun c none => nomatch none) broken
  | free addr =>
    exact ⟨fun _ => ⟨charged, Nat.le_add_right _ _⟩, fun broken => absurd (fun c none => nomatch none) broken⟩
  | read addr size =>
    obtain ⟨kept, lost⟩ := charged.openAccess ord addr size
    refine ⟨fun quiet => ⟨lmRead (kept quiet), ?_⟩, fun broken => ?_⟩
    · change (LeoMem.lmRead ord ctx addr size).2.nextControlRequestId.toNat ≤ _
      rw [lmRead_nextId]
      omega
    · obtain ⟨s, c, opened, unsent⟩ := lost broken
      change ¬Sent (LeoMem.lmRead ord ctx addr size).2
      rwa [lmRead_rejected opened]
  | write addr buf =>
    obtain ⟨kept, lost⟩ := charged.openAccess ord addr buf.size
    refine ⟨fun quiet => lmWrite (kept quiet) room, fun broken => ?_⟩
    obtain ⟨s, c, opened, unsent⟩ := lost broken
    change ¬Sent (LeoMem.lmWrite ord ctx addr buf).2
    rwa [lmWrite_rejected opened]
  | fence =>
    obtain ⟨kept, lost⟩ := charged.lmFence ord
    refine ⟨fun quiet => ⟨(kept quiet).1, ?_⟩, lost⟩
    change (LeoMem.lmFence ord ctx).2.nextControlRequestId.toNat ≤ _
    rw [(kept quiet).2]
    omega

end Charged

/-! ## Whole runs -/

/-- A run of few enough calls for the ids to last, from any state in which every charge is sent. -/
theorem charged_run_iff {ctx : RuntimeContext (PostLog ω)} (charged : Charged ctx) (calls : List Invocation)
    (room : ctx.nextControlRequestId.toNat + 2 * calls.length < 2 ^ 64) :
    (∀ before after, calls = before ++ after → Sent (run exec ctx before).2) ↔
      Along exec (fun c i => ∀ d ∈ drivePoints c i, ChargesSent i.ord d) ctx calls := by
  induction calls generalizing ctx with
  | nil =>
    refine iff_of_true (fun before after split => ?_) trivial
    obtain ⟨rfl, -⟩ := List.append_eq_nil_iff.mp split.symm
    exact charged.sent
  | cons i calls ih =>
    rw [List.length_cons] at room
    obtain ⟨kept, lost⟩ := charged.exec (by omega) i
    rw [along_cons]
    by_cases quiet : ∀ d ∈ drivePoints ctx i, ChargesSent i.ord d
    · obtain ⟨next, drawn⟩ := kept quiet
      rw [and_iff_right quiet, ← ih next (by omega)]
      constructor
      · intro all before after split
        have whole := all (i :: before) after (by rw [split, List.cons_append])
        rwa [run_cons] at whole
      · rintro all (_ | ⟨first, before⟩) after split
        · exact charged.sent
        · obtain ⟨rfl, rest⟩ := List.cons.inj split
          rw [run_cons]
          exact all before after rest
    · refine iff_of_false (fun all => lost quiet ?_) fun along => quiet along.1
      have once := all [i] calls rfl
      rwa [run_cons] at once

/-- **Every retry that is charged is sent** in every state of a run exactly when each pass of the run
sends what it charges. The run is of fewer than `2 ^ 63 - 1` calls, so no request id is drawn twice. -/
theorem every_charge_sent_iff (cfg : Config) (w : ω) (calls : List Invocation) (few : 2 * calls.length + 1 < 2 ^ 64) :
    (∀ before after, calls = before ++ after → Sent (run exec (RuntimeContext.init cfg (⟨w, []⟩ : PostLog ω)) before).2) ↔
      Along exec (fun c i => ∀ d ∈ drivePoints c i, ChargesSent i.ord d) (RuntimeContext.init cfg (⟨w, []⟩ : PostLog ω))
        calls := by
  refine charged_run_iff (Charged.init cfg w) calls ?_
  change 1 + 2 * calls.length < 2 ^ 64
  omega

end

/-! ### Two invalidations that no one answers -/

/-- Every remote write invalidates, a request is sent again once, at the first pass after it. -/
def oneRetry : Config :=
  { nrNodes := 2, blockSize := 4, coherenceModeOverride := 0, controlAckTimeoutPolls := 0, controlAckMaxRetries := 1 }

/-- A node whose messages stay on their way. -/
def unansweredNode : RuntimeContext (PostLog PeerTransport) := .init oneRetry ⟨{ memory := fun _ => Bytes.zeros 16 }, []⟩

def invalidatingWrites (offsets : List UInt64) : List Invocation :=
  offsets.map fun offset => ⟨.stored, .write ⟨1, 0, offset⟩ (.ofList [7])⟩

theorem two_writes_sent : Sent (run exec unansweredNode (invalidatingWrites [0, 4])).2 := by
  have along : Along exec (fun c i => ∀ d ∈ drivePoints c i, ChargesSent i.ord d)
      (RuntimeContext.init oneRetry (⟨{ memory := fun _ => Bytes.zeros 16 }, []⟩ : PostLog PeerTransport))
      (invalidatingWrites [0, 4]) := ⟨by decide +kernel, by decide +kernel, trivial⟩
  exact (every_charge_sent_iff oneRetry _ (invalidatingWrites [0, 4]) (by decide)).mpr along _ [] (by simp)

/-- The third write's pass charges the second request's retry, meets the first request without retries
left and times out: the retry is never sent. -/
theorem third_write_drops_retry :
    let node := (run exec unansweredNode (invalidatingWrites [0, 4, 8])).2
    (run exec unansweredNode (invalidatingWrites [0, 4, 8])).1 = [.status .kOk, .status .kOk, .status .kTimedOut] ∧
      (node.pendingControlAcks.lookup 2).map (fun e => (e.retriesRemaining, node.transport.posted.count e.message)) =
        some (0, 1) ∧ ¬Sent node := by
  refine ⟨by decide +kernel, by decide +kernel, fun sent => ?_⟩
  have charged : ((run exec unansweredNode (invalidatingWrites [0, 4, 8])).2.pendingControlAcks.lookup 2).all (fun e =>
      (run exec unansweredNode (invalidatingWrites [0, 4, 8])).2.transport.posted.count e.message ≠
        1 + ((run exec unansweredNode (invalidatingWrites [0, 4, 8])).2.config.controlAckMaxRetries.toNat -
          e.retriesRemaining.toNat)) = true ∧
      ((run exec unansweredNode (invalidatingWrites [0, 4, 8])).2.pendingControlAcks.lookup 2).isSome = true := by
    decide +kernel
  obtain ⟨wrong, some⟩ := charged
  obtain ⟨e, found⟩ := Option.isSome_iff_exists.mp some
  rw [found] at wrong
  simp [sent 2 e found] at wrong

end LeoMem
