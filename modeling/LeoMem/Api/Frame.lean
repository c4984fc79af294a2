import LeoMem.Api.Handling

/-!
# What control traffic leaves alone

Handling control messages, waiting for acknowledgements and keeping block records
never touch the allocator or the write queues, add no cache entry, and reach the
transport through its control path only. `ControlStep` states this once, for any
part `obs` of the transport's state that the control path keeps.
-/

namespace LeoMem
open Lib RuntimeContext

section
variable {ω α : Type}

/-- A step of the control plane: the node's data is as it was, but for cache entries that
are gone. -/
structure ControlStep (obs : ω → α) (ctx ctx' : RuntimeContext ω) : Prop where
  initialized : ctx'.initialized = ctx.initialized
  config : ctx'.config = ctx.config
  allocator : ctx'.allocator = ctx.allocator
  queues : ctx'.queues = ctx.queues
  cache : ctx'.cache.Within ctx.cache
  transport : obs ctx'.transport = obs ctx.transport

variable {obs : ω → α} {ctx : RuntimeContext ω}

theorem ControlStep.refl (obs : ω → α) (ctx : RuntimeContext ω) : ControlStep obs ctx ctx :=
  ⟨rfl, rfl, rfl, rfl, .refl _, rfl⟩

theorem ControlStep.trans {a b c : RuntimeContext ω} (first : ControlStep obs a b) (second : ControlStep obs b c) :
    ControlStep obs a c :=
  ⟨second.initialized.trans first.initialized, second.config.trans first.config,
    second.allocator.trans first.allocator, second.queues.trans first.queues,
    second.cache.trans first.cache, second.transport.trans first.transport⟩

/-- Block records, acknowledgements, statistics and request ids are the control plane's own. -/
theorem controlStep_bookkeeping (obs : ω → α) (ctx : RuntimeContext ω) (table : BlockTable) (stats : StatsCollector)
    (nextId : UInt64) (acks : PendingControlAcks) :
    ControlStep obs ctx
      { ctx with blockTable := table, stats := stats, nextControlRequestId := nextId, pendingControlAcks := acks } :=
  ⟨rfl, rfl, rfl, rfl, .refl _, rfl⟩

theorem controlStep_setCache (obs : ω → α) {c : ReadCache} (within : c.Within ctx.cache) :
    ControlStep obs ctx (ctx.setCache c) :=
  ⟨rfl, rfl, rfl, rfl, within, rfl⟩

theorem controlStep_touchMetadata (obs : ω → α) (ctx : RuntimeContext ω) (addr : GlobalAddr) (range : BlockRange)
    (type : AccessType) : ControlStep obs ctx (touchMetadata ctx addr range type).2 :=
  ⟨rfl, rfl, rfl, rfl, .refl _, rfl⟩

/-- `lm_malloc` touches the allocator, the block records and the statistics only. -/
theorem lmMalloc_eq (ctx : RuntimeContext ω) (size : UInt64) :
    ∃ allocator table stats,
      (lmMalloc ctx size).2 = { ctx with allocator := allocator, blockTable := table, stats := stats } := by
  unfold lmMalloc
  split
  · exact ⟨_, _, _, rfl⟩
  · simp only
    split
    · split <;> exact ⟨_, _, _, rfl⟩
    · exact ⟨_, _, _, rfl⟩

theorem lmMalloc_keeps (ctx : RuntimeContext ω) (size : UInt64) :
    (lmMalloc ctx size).2.config = ctx.config ∧ (lmMalloc ctx size).2.cacheManager = ctx.cacheManager ∧
      (lmMalloc ctx size).2.pendingControlAcks = ctx.pendingControlAcks ∧
      (lmMalloc ctx size).2.transport = ctx.transport := by
  obtain ⟨allocator, table, stats, same⟩ := lmMalloc_eq ctx size
  rw [same]
  exact ⟨rfl, rfl, rfl, rfl⟩

/-- What `lm_malloc` makes of the allocator and of its answer. -/
theorem lmMalloc_spec (ready : ctx.initialized = true) (size : UInt64) {r : GlobalAddr × DsmAllocator}
    (allocated : ctx.allocator.allocate ctx.config size = r) :
    (lmMalloc ctx size).2.initialized = true ∧ (lmMalloc ctx size).2.allocator = r.2 ∧
      (lmMalloc ctx size).1 =
        if r.1.isValid = true ∧ r.2.validateRangeUnlocked ctx.config r.1 size = false then invalidGlobalAddr else r.1 := by
  cases valid : r.1.isValid
  · simp [lmMalloc, ready, allocated, valid]
  · cases accepted : r.2.validateRangeUnlocked ctx.config r.1 size
    · simp [lmMalloc, ready, allocated, valid, accepted, DsmAllocator.resolveBlockRange]
    · simp [lmMalloc, ready, allocated, valid, accepted, DsmAllocator.resolveBlockRange]

variable [Transport ω]

/-- Posting a control message keeps `obs`. -/
def PostKeeps (obs : ω → α) : Prop := ∀ cfg msg w, obs (Transport.postControlMessage cfg msg w).2 = obs w

/-- The control path of the transport and its fence keep `obs`. -/
structure ControlKeeps (obs : ω → α) : Prop where
  post : PostKeeps obs
  drain : ∀ cfg n w, obs (Transport.drainControlMessages cfg n w).2 = obs w
  fence : ∀ cfg w, obs (Transport.fence cfg w).2 = obs w

/-- Nothing of the transport's state. -/
def noObs (_ : ω) : Unit := ()

theorem controlKeeps_noObs : ControlKeeps (noObs (ω := ω)) := ⟨fun _ _ _ => rfl, fun _ _ _ => rfl, fun _ _ => rfl⟩

/-- `I` looks at the configuration, the pending requests and `obs` only. -/
def OfControl (obs : ω → α) (I : RuntimeContext ω → Prop) : Prop :=
  ∀ c c', c'.config = c.config → c'.pendingControlAcks = c.pendingControlAcks → obs c'.transport = obs c.transport → I c → I c'

theorem controlStep_post (keeps : PostKeeps obs) (ctx : RuntimeContext ω) (msg : ControlMessage) :
    ControlStep obs ctx (ctx.post msg).2 :=
  ⟨rfl, rfl, rfl, rfl, .refl _, keeps _ msg _⟩

variable {I : RuntimeContext ω → Prop} {mid : RuntimeContext ω} {ord : IterOrder} {size : UInt64}

/-- What each post keeps, the posts of a list keep. -/
theorem postAll_keeps {msgs : List ControlMessage} (post : ∀ c, ∀ msg ∈ msgs, I c → I (c.post msg).2) (start : I ctx) :
    I (ctx.postAll msgs).2 := by
  induction msgs generalizing ctx with
  | nil => exact start
  | cons msg msgs ih =>
    have posted := post ctx msg List.mem_cons_self start
    unfold postAll
    simp only
    split
    · exact posted
    · exact ih (fun c later member => post c later (List.mem_cons_of_mem _ member)) posted

theorem controlStep_postAll (keeps : PostKeeps obs) (ctx : RuntimeContext ω) (msgs : List ControlMessage) :
    ControlStep obs ctx (ctx.postAll msgs).2 :=
  postAll_keeps (fun c msg _ step => step.trans (controlStep_post keeps c msg)) (.refl obs ctx)

theorem controlStep_drivePendingControlAcks (keeps : PostKeeps obs) (ctx : RuntimeContext ω) (ord : IterOrder) :
    ControlStep obs ctx (drivePendingControlAcks ord ctx).2 := by
  have advanced := controlStep_bookkeeping obs ctx ctx.blockTable ctx.stats ctx.nextControlRequestId
    (ctx.pendingControlAcks.advance ord ctx.config).2.2
  unfold drivePendingControlAcks
  simp only
  split
  · exact advanced
  · exact advanced.trans (controlStep_postAll keeps _ _)

/-! ## The two message handlers -/

/-- **The rule for an access's messages**: what taking them, handling one and driving the
acknowledgements keep. -/
theorem openAccess_keeps (start : I ctx) (taken : I (takeMessages ctx))
    (handle : ∀ c, ∀ msg ∈ takenMessages ctx, I c → I (processMessage ord c msg).2)
    (drive : ∀ c, I c → I (drivePendingControlAcks ord c).2) (addr : GlobalAddr) (size : UInt64) :
    I (openAccess ord ctx addr size).2 := by
  have processed : I (processPendingControlMessages ord ctx).2 := by
    rw [processPendingControlMessages_eq]
    exact takeIn_keeps (W := fun _ => True) taken (fun c msg member _ => handle c msg member) (fun _ _ => trivial) drive
  unfold openAccess
  split
  · exact start
  · split
    · exact start
    · simp only
      split <;> exact processed

/-- The same rule for `DrainControl`. -/
theorem drainControl_keeps (taken : I (takeMessages ctx))
    (handle : ∀ c, ∀ msg ∈ takenMessages ctx, I c → I (drainMessage ord c msg).2)
    (drive : ∀ c, I c → I (drivePendingControlAcks ord c).2) : I (drainControl ord ctx).2 := by
  rw [drainControl_eq]
  exact takeIn_keeps (W := fun _ => True) taken (fun c msg member _ => handle c msg member) (fun _ _ => trivial) drive

theorem controlStep_takeMessages (keeps : ControlKeeps obs) (ctx : RuntimeContext ω) :
    ControlStep obs ctx (takeMessages ctx) :=
  ⟨rfl, rfl, rfl, rfl, .refl _, keeps.drain _ 64 _⟩

theorem Handled.controlStep (keeps : PostKeeps obs) {msg : ControlMessage} {r : Status × RuntimeContext ω}
    (handled : Handled ctx msg r) : ControlStep obs ctx r.2 := by
  cases handled with
  | completed => exact controlStep_bookkeeping obs ctx _ _ _ _
  | acknowledged request within recorded =>
    have dropped := controlStep_setCache obs within
    exact (dropped.trans (controlStep_bookkeeping obs _ _ _ _ _)).trans (controlStep_post keeps _ _)
  | ignored => exact .refl obs ctx

theorem controlStep_drainControl (keeps : ControlKeeps obs) (ctx : RuntimeContext ω) (ord : IterOrder) :
    ControlStep obs ctx (drainControl ord ctx).2 :=
  drainControl_keeps (controlStep_takeMessages keeps ctx)
    (fun c msg _ held => held.trans ((handled_drainMessage ord c msg).controlStep keeps.post))
    (fun c held => held.trans (controlStep_drivePendingControlAcks keeps.post c ord))

theorem controlStep_openAccess (keeps : ControlKeeps obs) (ctx : RuntimeContext ω) (ord : IterOrder) (addr : GlobalAddr)
    (size : UInt64) : ControlStep obs ctx (openAccess ord ctx addr size).2 :=
  openAccess_keeps (.refl obs ctx) (controlStep_takeMessages keeps ctx)
    (fun c msg _ held => held.trans ((handled_processMessage ord c msg).controlStep keeps.post))
    (fun c held => held.trans (controlStep_drivePendingControlAcks keeps.post c ord)) addr size

/-! ### Request ids and statistics -/

omit [Transport ω] in
/-- What the control plane leaves alone: the next request id and the statistics. -/
def RuntimeContext.books (ctx : RuntimeContext ω) : UInt64 × StatsCollector := (ctx.nextControlRequestId, ctx.stats)

theorem Handled.books {msg : ControlMessage} {r : Status × RuntimeContext ω} (handled : Handled ctx msg r) :
    r.2.books = ctx.books := by
  cases handled with
  | completed => rfl
  | acknowledged request within recorded => rfl
  | ignored => rfl

theorem postAll_books (ctx : RuntimeContext ω) (msgs : List ControlMessage) : (ctx.postAll msgs).2.books = ctx.books :=
  postAll_keeps (I := fun c => c.books = ctx.books) (fun _ _ _ same => same) rfl

theorem drivePendingControlAcks_books (ord : IterOrder) (ctx : RuntimeContext ω) :
    (drivePendingControlAcks ord ctx).2.books = ctx.books := by
  unfold drivePendingControlAcks
  simp only
  split
  · rfl
  · exact postAll_books _ _

/-- An access draws no id and counts nothing before its data moves. -/
theorem openAccess_books (ord : IterOrder) (ctx : RuntimeContext ω) (addr : GlobalAddr) (size : UInt64) :
    (openAccess ord ctx addr size).2.books = ctx.books :=
  openAccess_keeps (I := fun c => c.books = ctx.books) rfl rfl
    (fun c msg _ same => (handled_processMessage ord c msg).books.trans same)
    (fun c same => (drivePendingControlAcks_books ord c).trans same) addr size

theorem openAccess_nextId (ord : IterOrder) (ctx : RuntimeContext ω) (addr : GlobalAddr) (size : UInt64) :
    (openAccess ord ctx addr size).2.nextControlRequestId = ctx.nextControlRequestId :=
  congrArg Prod.fst (openAccess_books ord ctx addr size)

theorem drainControl_books (ord : IterOrder) (ctx : RuntimeContext ω) : (drainControl ord ctx).2.books = ctx.books :=
  drainControl_keeps (I := fun c => c.books = ctx.books) rfl
    (fun c msg _ same => (handled_drainMessage ord c msg).books.trans same)
    (fun c same => (drivePendingControlAcks_books ord c).trans same)

/-! ## The steps of an access before its data moves -/

omit [Transport ω] in
theorem validateAndResolveRange_failed {cfg : Config} {d : DsmAllocator} {addr : GlobalAddr} {s : Status}
    (failed : validateAndResolveRange cfg d addr size = .error s) : s ≠ .kOk := by
  unfold validateAndResolveRange at failed
  split at failed
  · cases failed
    simp
  · split at failed
    · split at failed <;> cases failed
      simp
    · cases failed

/-- The blocks of an access. -/
def accessIds (cfg : Config) (addr : GlobalAddr) (size : UInt64) : List BlockId :=
  (resolveBlockRange cfg addr size).ids addr.regionId

/-- The three ways an access goes on from its checks: turned away, on its own memory, or on a
peer's. -/
theorem openAccess_rule {P : Prop} {ctx : RuntimeContext ω} {addr : GlobalAddr} (after : I (openAccess ord ctx addr size).2)
    (rejected : ∀ s c, openAccess ord ctx addr size = (.error s, c) → I c → P)
    (own : ∀ c range, openAccess ord ctx addr size = (.ok range, c) → addr.homeNode = c.config.nodeId → I c → P)
    (remote : ∀ c range, openAccess ord ctx addr size = (.ok range, c) → addr.homeNode ≠ c.config.nodeId → I c → P) : P := by
  cases opened : openAccess ord ctx addr size with
  | mk outcome mid =>
    rw [opened] at after
    cases outcome with
    | error s => exact rejected s mid opened after
    | ok range =>
      by_cases home : addr.homeNode = mid.config.nodeId
      · exact own mid range opened home after
      · exact remote mid range opened home after

/-- An access that gets past its checks is not empty, and its range is resolved in the state its
messages leave. -/
theorem openAccess_ok {addr : GlobalAddr} {range : BlockRange} (opened : openAccess ord ctx addr size = (.ok range, mid)) :
    size ≠ 0 ∧ validateAndResolveRange mid.config mid.allocator addr size = .ok range := by
  unfold openAccess at opened
  split at opened
  · cases opened
  · split at opened
    · cases opened
    · rename_i filled
      simp only at opened
      split at opened
      · cases opened
      · injection opened with found rest
        rw [rest] at found
        exact ⟨fun empty => filled (Or.inr empty), found⟩

theorem openAccess_filled {addr : GlobalAddr} {range : BlockRange}
    (opened : openAccess ord ctx addr size = (.ok range, mid)) : size ≠ 0 :=
  (openAccess_ok opened).1

theorem openAccess_failed {addr : GlobalAddr} {s : Status} (opened : openAccess ord ctx addr size = (.error s, mid)) :
    s ≠ .kOk := by
  unfold openAccess at opened
  split at opened
  · cases opened
    simp
  · split at opened
    · cases opened
      simp
    · simp only at opened
      split at opened
      · rename_i failed
        cases opened
        exact failed
      · exact validateAndResolveRange_failed (congrArg Prod.fst opened)

omit [Transport ω] in
/-- The allocator's own range check resolves a range to the same blocks. -/
theorem validateAndResolveRange_ok {cfg : Config} {d : DsmAllocator} {addr : GlobalAddr} {range : BlockRange}
    (found : validateAndResolveRange cfg d addr size = .ok range) : range = resolveBlockRange cfg addr size := by
  unfold validateAndResolveRange at found
  split at found
  · cases found
  · split at found
    · split at found
      · cases found
      · rename_i resolved
        exact (Except.ok.inj found).symm.trans (DsmAllocator.resolveBlockRange_eq_some.mp resolved).2
    · exact (Except.ok.inj found).symm

theorem openAccess_range {addr : GlobalAddr} {range : BlockRange} (opened : openAccess ord ctx addr size = (.ok range, mid)) :
    range = resolveBlockRange mid.config addr size := validateAndResolveRange_ok (openAccess_ok opened).2

theorem controlStep_postRequest (keeps : PostKeeps obs) (ctx : RuntimeContext ω) (addr : GlobalAddr) (range : BlockRange)
    (mode : CoherenceMode) (opcode : ControlOpcode) (version : Version) :
    ControlStep obs ctx (postRequest ctx addr range mode opcode version).2 := by
  have numbered := controlStep_bookkeeping obs ctx ctx.blockTable ctx.stats (ctx.nextControlRequestId + 1)
    ctx.pendingControlAcks
  have posted := numbered.trans (controlStep_post keeps _
    (makeControlMessage ctx.config ctx.nextControlRequestId addr range mode opcode version))
  unfold postRequest trackPosted
  simp only
  split
  · exact posted.trans (controlStep_bookkeeping obs _ _ _ _ _)
  · exact posted

theorem postRequest_nextId (ctx : RuntimeContext ω) (addr : GlobalAddr) (range : BlockRange) (mode : CoherenceMode)
    (opcode : ControlOpcode) (version : Version) :
    (postRequest ctx addr range mode opcode version).2.nextControlRequestId = ctx.nextControlRequestId + 1 := by
  unfold postRequest trackPosted
  simp only
  split <;> rfl

theorem postRequest_config (ctx : RuntimeContext ω) (addr : GlobalAddr) (range : BlockRange) (mode : CoherenceMode)
    (opcode : ControlOpcode) (version : Version) :
    (postRequest ctx addr range mode opcode version).2.config = ctx.config := by
  unfold postRequest trackPosted
  simp only
  split <;> rfl

/-- **The rule for the requests of a write**: none, an invalidation, an owner transfer or both. -/
theorem postWriteMessages_rule {J : RuntimeContext ω → Prop} {addr : GlobalAddr} {range : BlockRange}
    {modes : List CoherenceMode} {ownerHandoff : Bool} {maxVersion : Version} (none : J ctx)
    (invalidation : J (postRequest ctx addr range .kWI .kInvalidateRange maxVersion).2)
    (transfer : J (postRequest ctx addr range .kAdaptive .kOwnerTransfer maxVersion).2)
    (both : J (postRequest (postRequest ctx addr range .kWI .kInvalidateRange maxVersion).2 addr range .kAdaptive
      .kOwnerTransfer maxVersion).2) : J (postWriteMessages ctx addr range modes ownerHandoff maxVersion).2 := by
  unfold postWriteMessages
  cases hasMode modes .kWI with
  | true =>
    simp only [if_true]
    split
    · exact invalidation
    · split
      · exact both
      · exact invalidation
  | false =>
    simp only [Bool.false_eq_true, if_false]
    split
    · exact none
    · split
      · exact transfer
      · exact none

theorem postRequest_stats (ctx : RuntimeContext ω) (addr : GlobalAddr) (range : BlockRange) (mode : CoherenceMode)
    (opcode : ControlOpcode) (version : Version) :
    (postRequest ctx addr range mode opcode version).2.stats = ctx.stats := by
  unfold postRequest trackPosted
  simp only
  split <;> rfl

theorem postWriteMessages_stats (ctx : RuntimeContext ω) (addr : GlobalAddr) (range : BlockRange)
    (modes : List CoherenceMode) (ownerHandoff : Bool) (maxVersion : Version) :
    (postWriteMessages ctx addr range modes ownerHandoff maxVersion).2.stats = ctx.stats :=
  postWriteMessages_rule (J := fun c => c.stats = ctx.stats) rfl (postRequest_stats ctx addr range _ _ _)
    (postRequest_stats ctx addr range _ _ _)
    ((postRequest_stats _ addr range _ _ _).trans (postRequest_stats ctx addr range _ _ _))

theorem controlStep_postWriteMessages (keeps : PostKeeps obs) (ctx : RuntimeContext ω) (addr : GlobalAddr)
    (range : BlockRange) (modes : List CoherenceMode) (ownerHandoff : Bool) (maxVersion : Version) :
    ControlStep obs ctx (postWriteMessages ctx addr range modes ownerHandoff maxVersion).2 :=
  postWriteMessages_rule (.refl obs ctx) (controlStep_postRequest keeps ctx addr range _ _ _)
    (controlStep_postRequest keeps ctx addr range _ _ _)
    ((controlStep_postRequest keeps ctx addr range _ _ _).trans (controlStep_postRequest keeps _ addr range _ _ _))

end

/-- Posts leave the mailboxes alone: what a peer is sent is on its way first. -/
theorem PeerTransport.postKeeps_mailbox : PostKeeps PeerTransport.mailbox := by
  intro cfg msg t
  change (PeerTransport.postControlMessage cfg msg t).2.mailbox = _
  unfold PeerTransport.postControlMessage
  split
  · rfl
  · split <;> rfl

end LeoMem
