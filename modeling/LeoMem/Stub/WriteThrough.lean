import LeoMem.Api.Records
import LeoMem.Stub.Session

/-!
# Batches that fill at once

A remote write flushes its destination as soon as as many writes wait there as the
most eager mode among its blocks asks for, and none asks for more than SI does. So
no call leaves a destination with a full batch (`BelowThreshold`), and with a
threshold of at most one it leaves nothing at all: every write has gone out alone,
as it does with batching off.
-/

namespace LeoMem
open Lib RuntimeContext

section
variable {ω : Type}

/-- No destination has as many writes waiting as make a batch. -/
def BelowThreshold (ctx : RuntimeContext ω) : Prop :=
  ∀ node, (ctx.queues.of node).length < (max 1 ctx.config.remoteWriteBatchThreshold).toNat

variable {ctx ctx' : RuntimeContext ω}

theorem threshold_pos (cfg : Config) : 0 < (max 1 cfg.remoteWriteBatchThreshold).toNat := by
  rw [toNat_max]
  exact Nat.lt_of_lt_of_le Nat.one_pos (Nat.le_max_left _ _)

theorem belowThreshold_init (cfg : Config) (w : ω) : BelowThreshold (RuntimeContext.init cfg w) :=
  fun _ => threshold_pos cfg

/-- Queues that stay or empty stay below the threshold. -/
theorem BelowThreshold.of_queues (below : BelowThreshold ctx) (config : ctx'.config = ctx.config)
    (queues : ∀ n, ctx'.queues.of n = ctx.queues.of n ∨ ctx'.queues.of n = []) : BelowThreshold ctx' := by
  intro n
  rw [config]
  rcases queues n with same | empty
  · exact same ▸ below n
  · exact empty ▸ threshold_pos ctx.config

theorem BelowThreshold.control {α : Type} {obs : ω → α} (below : BelowThreshold ctx) (step : ControlStep obs ctx ctx') :
    BelowThreshold ctx' :=
  below.of_queues step.config fun n => Or.inl (congrArg (WriteQueues.of · n) step.queues)

variable [Transport ω]

theorem BelowThreshold.wrote (below : BelowThreshold ctx) {addr : GlobalAddr} {buf : Bytes} {modes : List CoherenceMode}
    {ownerBiased : Bool} {r : Status × RuntimeContext ω} (wrote : Wrote ctx addr buf modes ownerBiased r) :
    BelowThreshold r.2 := by
  cases wrote.moved with
  | through _ _ kept => exact below.of_queues wrote.same.config fun n => Or.inl (congrArg (WriteQueues.of · n) kept)
  | queued w _ _ _ _ _ queues _ short =>
    intro n
    rw [wrote.same.config, queues]
    split
    · exact short
    · exact below n
  | flushed w _ _ _ _ queues =>
    refine below.of_queues wrote.same.config fun n => ?_
    rw [queues]
    split
    · exact Or.inr rfl
    · exact Or.inl rfl

theorem BelowThreshold.flush (below : BelowThreshold ctx) (node : NodeId) :
    BelowThreshold (flushDestination ctx node).2 := by
  have flushed := flushDestination_flushed ctx node
  refine below.of_queues flushed.same.config fun n => ?_
  rw [flushed.queues]
  split
  · exact Or.inr rfl
  · exact Or.inl rfl

/-- **One call** keeps every destination below the threshold, whatever its status. -/
theorem BelowThreshold.exec (below : BelowThreshold ctx) (i : Invocation) : BelowThreshold (exec ctx i).2 := by
  obtain ⟨ord, call⟩ := i
  cases call with
  | malloc size =>
    obtain ⟨config, manager, -, -⟩ := lmMalloc_keeps ctx size
    exact below.of_queues config fun n => Or.inl (congrArg (fun m : CacheManager => m.writeQueues.of n) manager)
  | free addr => exact below
  | read addr size =>
    obtain ⟨mid, step, frame⟩ := lmRead_frame controlKeeps_noObs ctx (fun _ _ _ _ => rfl) ord addr size
    exact (below.control step).of_queues frame.config fun n => Or.inl (congrArg (WriteQueues.of · n) frame.queues)
  | write addr buf =>
    change BelowThreshold (lmWrite ord ctx addr buf).2
    cases lmWrite_outcome controlKeeps_noObs ord ctx addr buf with
    | stopped _ step => exact below.control step
    | own opened step _ same manager _ =>
      exact (below.control step).of_queues same.config
        fun n => Or.inl (congrArg (fun m : CacheManager => m.writeQueues.of n) manager)
    | remote posted modes ownerBiased step _ _ wrote => exact (below.control step).wrote wrote
  | fence =>
    exact lmFence_induct controlKeeps_noObs (fun _ _ step held => held.control step) (fun _ node held => held.flush node)
      ord below

end

/-! ## A threshold of one -/

/-- The same configuration with batching off. -/
def Config.unbatched (cfg : Config) : Config := { cfg with enableWriteBatching := false }

/-- Two nodes that differ in batching, caches, queues and statistics only. -/
structure Twins (ctx ctx' : RuntimeContext StubTransport) : Prop where
  initialized : ctx'.initialized = ctx.initialized
  config : ctx'.config = ctx.config.unbatched
  allocator : ctx'.allocator = ctx.allocator
  accessEpoch : ctx'.cacheManager.accessEpoch = ctx.cacheManager.accessEpoch
  table : ctx'.blockTable = ctx.blockTable
  nextId : ctx'.nextControlRequestId = ctx.nextControlRequestId
  acks : ctx'.pendingControlAcks = ctx.pendingControlAcks
  transport : ctx'.transport = ctx.transport

/-- Observing a block looks at neither the batching switch nor the statistics. -/
theorem observeMetas_unbatched (cfg : Config) (type : AccessType) (isLocal : Bool) (bids : List BlockId)
    (epoch : UInt64) (table : BlockTable) (stats stats' : StatsCollector) :
    let r := observeMetas cfg type isLocal bids ⟨epoch, table, stats⟩
    let r' := observeMetas cfg.unbatched type isLocal bids ⟨epoch, table, stats'⟩
    r'.1 = r.1 ∧ r'.2.accessEpoch = r.2.accessEpoch ∧ r'.2.table = r.2.table := by
  induction bids generalizing epoch table stats stats' with
  | nil => exact ⟨rfl, rfl, rfl⟩
  | cons bid bids ih =>
    have same : observeAccess cfg.unbatched epoch (table.get bid) type isLocal =
      observeAccess cfg epoch (table.get bid) type isLocal := rfl
    simp only [observeMetas, same]
    generalize observeAccess cfg epoch (table.get bid) type isLocal = seen
    obtain ⟨modes, epochs, tables⟩ := ih seen.2.1 (table.modify bid fun _ => seen.2.2)
      (stats.recordCoherenceMode seen.1 (decide ((table.get bid).mode ≠ seen.1)))
      (stats'.recordCoherenceMode seen.1 (decide ((table.get bid).mode ≠ seen.1)))
    exact ⟨congrArg (List.cons seen.1) modes, epochs, tables⟩

theorem applyWriteMetadata_unbatched (cfg : Config) (addr : GlobalAddr) (pairs : List (BlockId × CoherenceMode))
    (acc : WriteMetadata) : applyWriteMetadata cfg.unbatched addr pairs acc = applyWriteMetadata cfg addr pairs acc := by
  induction pairs generalizing acc with
  | nil => rfl
  | cons pair pairs ih => exact ih _

/-- A batch of one is a write. -/
theorem batchWriteWith_single {ω : Type} (write : GlobalAddr → Bytes → ω → Status × ω) (req : RemoteWriteRequest)
    (w : ω) : batchWriteWith write [req] w = write req.addr req.buf w := by
  simp only [batchWriteWith]
  split
  · rfl
  · rename_i ok
    rw [← not_not.mp ok]

variable {ctx ctx' : RuntimeContext StubTransport} {addr : GlobalAddr} {buf : Bytes} {range : BlockRange}

theorem BelowThreshold.idle (below : BelowThreshold ctx) (single : ctx.config.remoteWriteBatchThreshold ≤ 1)
    (node : NodeId) : ctx.queues.of node = [] := by
  have short := below node
  have one : (1 : UInt64).toNat = 1 := rfl
  rw [UInt64.le_iff_toNat_le] at single
  rw [toNat_max] at short
  apply List.eq_nil_of_length_eq_zero
  omega

/-- **A write over empty queues** reaches the transport as it does with batching off. -/
theorem Wrote.written (modes : List CoherenceMode) (ownerBiased : Bool) {r : Status × RuntimeContext StubTransport}
    (wrote : Wrote ctx addr buf modes ownerBiased r) (single : ctx.config.remoteWriteBatchThreshold ≤ 1)
    (idle : ctx.queues.of addr.homeNode = []) :
    (r.1, r.2.transport) = StubTransport.write ctx.config ctx.allocator addr buf ctx.transport := by
  cases wrote.moved with
  | through _ written _ => exact written
  | queued w _ _ _ _ _ _ _ short =>
    have one : (1 : UInt64).toNat = 1 := rfl
    rw [UInt64.le_iff_toNat_le] at single
    rw [toNat_max, idle] at short
    have alone : (enqueue [] w).2.length = 1 := rfl
    omega
  | flushed w _ here payload written _ =>
    rw [written, idle]
    have alone : (enqueue [] w).2.map PendingRemoteWrite.request = [w.request] := rfl
    rw [alone]
    refine (batchWriteWith_single _ w.request ctx.transport).trans ?_
    rw [← here, ← payload]
    rfl

theorem Twins.settle (twins : Twins ctx ctx') : Twins (settle ctx) (settle ctx') := by
  refine ⟨twins.initialized, twins.config, twins.allocator, twins.accessEpoch, twins.table, twins.nextId, rfl, ?_⟩
  simp only [LeoMem.settle, twins.transport, twins.config]
  rfl

/-- Twins open an access alike. -/
theorem Twins.openAccess (twins : Twins ctx ctx') (settled : Settled 2 ctx) (settled' : Settled 2 ctx')
    (ord ord' : IterOrder) (addr : GlobalAddr) (size : UInt64) :
    (openAccess ord' ctx' addr size).1 = (openAccess ord ctx addr size).1 ∧
      Twins (openAccess ord ctx addr size).2 (LeoMem.openAccess ord' ctx' addr size).2 := by
  rw [settled.openAccess (by omega), settled'.openAccess (by omega), twins.initialized]
  split
  · exact ⟨rfl, twins⟩
  · split
    · exact ⟨rfl, twins⟩
    · refine ⟨?_, twins.settle⟩
      rw [twins.config, twins.allocator]
      rfl

theorem Twins.touch (twins : Twins ctx ctx') (addr : GlobalAddr) (range : BlockRange) (type : AccessType) :
    (touchMetadata ctx' addr range type).1 = (touchMetadata ctx addr range type).1 ∧
      Twins (touchMetadata ctx addr range type).2 (touchMetadata ctx' addr range type).2 := by
  have observed := observeMetas_unbatched ctx.config type (decide (addr.homeNode = ctx.config.nodeId))
    (range.ids addr.regionId) ctx.cacheManager.accessEpoch
    (prepareMetadata ctx.config ctx.blockTable range addr type) ctx.stats ctx'.stats
  have same : touchMetadata ctx' addr range type =
      (let r := observeMetas ctx.config.unbatched type (decide (addr.homeNode = ctx.config.nodeId))
        (range.ids addr.regionId) ⟨ctx.cacheManager.accessEpoch,
          prepareMetadata ctx.config ctx.blockTable range addr type, ctx'.stats⟩
      (r.1, { ctx' with
        cacheManager := { ctx'.cacheManager with accessEpoch := r.2.accessEpoch }
        blockTable := r.2.table
        stats := r.2.stats })) := by
    simp only [touchMetadata, twins.config, twins.accessEpoch, twins.table]
    rfl
  obtain ⟨modes, epochs, tables⟩ := observed
  rw [same]
  exact ⟨modes, twins.initialized, twins.config, twins.allocator, epochs, tables, twins.nextId, twins.acks, twins.transport⟩

theorem Twins.postRequest (twins : Twins ctx ctx') (addr : GlobalAddr) (range : BlockRange) (mode : CoherenceMode)
    (opcode : ControlOpcode) (version : Version) :
    (postRequest ctx' addr range mode opcode version).1 = (postRequest ctx addr range mode opcode version).1 ∧
      Twins (postRequest ctx addr range mode opcode version).2 (LeoMem.postRequest ctx' addr range mode opcode version).2 := by
  obtain ⟨initialized, config, allocator, epoch, table, nextId, acks, transport⟩ := twins
  have sent : Transport.postControlMessage ctx'.config
        (makeControlMessage ctx'.config ctx'.nextControlRequestId addr range mode opcode version) ctx'.transport =
      Transport.postControlMessage ctx.config
        (makeControlMessage ctx.config ctx.nextControlRequestId addr range mode opcode version) ctx.transport := by
    rw [config, nextId, transport]
    rfl
  unfold LeoMem.postRequest trackPosted RuntimeContext.post
  simp only [sent]
  split
  · refine ⟨rfl, initialized, config, allocator, epoch, table, by simp only [nextId], ?_, rfl⟩
    simp only [acks, config, nextId]
    rfl
  · exact ⟨rfl, initialized, config, allocator, epoch, table, by simp only [nextId], acks, rfl⟩

theorem Twins.postWriteMessages (twins : Twins ctx ctx') (addr : GlobalAddr) (range : BlockRange)
    (modes : List CoherenceMode) (ownerHandoff : Bool) (maxVersion : Version) :
    (postWriteMessages ctx' addr range modes ownerHandoff maxVersion).1 =
        (postWriteMessages ctx addr range modes ownerHandoff maxVersion).1 ∧
      Twins (postWriteMessages ctx addr range modes ownerHandoff maxVersion).2
        (LeoMem.postWriteMessages ctx' addr range modes ownerHandoff maxVersion).2 := by
  have sent : (if hasMode modes .kWI then LeoMem.postRequest ctx' addr range .kWI .kInvalidateRange maxVersion
        else (.kOk, ctx')).1 =
        (if hasMode modes .kWI then LeoMem.postRequest ctx addr range .kWI .kInvalidateRange maxVersion
          else (.kOk, ctx)).1 ∧
      Twins (if hasMode modes .kWI then LeoMem.postRequest ctx addr range .kWI .kInvalidateRange maxVersion
          else (.kOk, ctx)).2
        (if hasMode modes .kWI then LeoMem.postRequest ctx' addr range .kWI .kInvalidateRange maxVersion
          else (.kOk, ctx')).2 := by
    split
    · exact twins.postRequest addr range .kWI .kInvalidateRange maxVersion
    · exact ⟨rfl, twins⟩
  unfold LeoMem.postWriteMessages
  generalize (if hasMode modes .kWI then LeoMem.postRequest ctx addr range .kWI .kInvalidateRange maxVersion
    else (.kOk, ctx)) = r at sent
  generalize (if hasMode modes .kWI then LeoMem.postRequest ctx' addr range .kWI .kInvalidateRange maxVersion
    else (.kOk, ctx')) = r' at sent
  simp only [sent.1]
  split
  · exact sent
  · split
    · exact sent.2.postRequest addr range .kAdaptive .kOwnerTransfer maxVersion
    · exact ⟨rfl, sent.2⟩

/-- Twins whose data reaches the transport alike stay twins. -/
theorem Twins.moved {r r' : Status × RuntimeContext StubTransport} (twins : Twins ctx ctx') (same : SameNode ctx r.2)
    (same' : SameNode ctx' r'.2) (books : (r.2.nextControlRequestId, r.2.cacheManager.accessEpoch) =
      (ctx.nextControlRequestId, ctx.cacheManager.accessEpoch))
    (books' : (r'.2.nextControlRequestId, r'.2.cacheManager.accessEpoch) =
      (ctx'.nextControlRequestId, ctx'.cacheManager.accessEpoch))
    (written : (r.1, r.2.transport) = StubTransport.write ctx.config ctx.allocator addr buf ctx.transport)
    (written' : (r'.1, r'.2.transport) = StubTransport.write ctx'.config ctx'.allocator addr buf ctx'.transport) :
    r'.1 = r.1 ∧ Twins r.2 r'.2 := by
  have alike : (r'.1, r'.2.transport) = (r.1, r.2.transport) := by
    rw [written, written', twins.config, twins.allocator, twins.transport]
    rfl
  obtain ⟨status, transport⟩ := Prod.mk.inj alike
  exact ⟨status,
    { initialized := same'.initialized.trans (twins.initialized.trans same.initialized.symm)
      config := by rw [same'.config, same.config, twins.config]
      allocator := same'.allocator.trans (twins.allocator.trans same.allocator.symm)
      accessEpoch := (congrArg Prod.snd books').trans (twins.accessEpoch.trans (congrArg Prod.snd books).symm)
      table := same'.table.trans (twins.table.trans same.table.symm)
      nextId := (congrArg Prod.fst books').trans (twins.nextId.trans (congrArg Prod.fst books).symm)
      acks := same'.acks.trans (twins.acks.trans same.acks.symm)
      transport := transport }⟩

/-- What moving data leaves of a node's counters. -/
theorem unmoved_counters :
    Unmoved fun c : RuntimeContext StubTransport => (c.nextControlRequestId, c.cacheManager.accessEpoch) :=
  fun _ _ _ _ _ => rfl

theorem Twins.writeThrough (twins : Twins ctx ctx') (addr : GlobalAddr) (buf : Bytes) (isLocal : Bool) :
    (writeThrough ctx' addr buf isLocal).1 = (writeThrough ctx addr buf isLocal).1 ∧
      Twins (writeThrough ctx addr buf isLocal).2 (LeoMem.writeThrough ctx' addr buf isLocal).2 :=
  twins.moved (writeThrough_same ctx addr buf isLocal).1 (writeThrough_same ctx' addr buf isLocal).1
    (unmoved_counters.writeThrough ctx addr buf isLocal) (unmoved_counters.writeThrough ctx' addr buf isLocal)
    (writeThrough_written ctx addr buf isLocal) (writeThrough_written ctx' addr buf isLocal)

/-- Idle twins write another node's region alike. -/
theorem Twins.writeRemote (twins : Twins ctx ctx') (single : ctx.config.remoteWriteBatchThreshold ≤ 1)
    (idle : ∀ n, ctx.queues.of n = []) (idle' : ∀ n, ctx'.queues.of n = []) (ord ord' : IterOrder) (addr : GlobalAddr)
    (filled : buf.size ≠ 0) (range : BlockRange) (modes : List CoherenceMode) :
    (writeRemote ord' ctx' addr buf range modes).1 = (writeRemote ord ctx addr buf range modes).1 ∧
      Twins (writeRemote ord ctx addr buf range modes).2 (LeoMem.writeRemote ord' ctx' addr buf range modes).2 := by
  have applied : applyWriteMetadata ctx'.config addr ((range.ids addr.regionId).zip modes) { table := ctx'.blockTable } =
      applyWriteMetadata ctx.config addr ((range.ids addr.regionId).zip modes) { table := ctx.blockTable } := by
    rw [twins.config, twins.table, applyWriteMetadata_unbatched]
  unfold LeoMem.writeRemote
  simp only [applied]
  generalize applyWriteMetadata ctx.config addr ((range.ids addr.regionId).zip modes) { table := ctx.blockTable } = metadata
  have recorded : Twins { ctx with blockTable := metadata.table } { ctx' with blockTable := metadata.table } :=
    ⟨twins.initialized, twins.config, twins.allocator, twins.accessEpoch, rfl, twins.nextId, twins.acks, twins.transport⟩
  obtain ⟨status, posted⟩ := recorded.postWriteMessages addr range modes metadata.ownerHandoff
    (maxObservedVersion metadata.table (range.ids addr.regionId))
  have step := controlStep_postWriteMessages controlKeeps_noObs.post { ctx with blockTable := metadata.table }
    addr range modes metadata.ownerHandoff (maxObservedVersion metadata.table (range.ids addr.regionId))
  have step' := controlStep_postWriteMessages controlKeeps_noObs.post { ctx' with blockTable := metadata.table }
    addr range modes metadata.ownerHandoff (maxObservedVersion metadata.table (range.ids addr.regionId))
  rw [status]
  generalize LeoMem.postWriteMessages { ctx with blockTable := metadata.table } addr range modes metadata.ownerHandoff
    (maxObservedVersion metadata.table (range.ids addr.regionId)) = sent at status posted step
  generalize LeoMem.postWriteMessages { ctx' with blockTable := metadata.table } addr range modes metadata.ownerHandoff
    (maxObservedVersion metadata.table (range.ids addr.regionId)) = sent' at status posted step'
  split
  · exact ⟨status, posted⟩
  · have wrote := writeData_wrote ord sent.2 addr filled modes metadata.ownerBiased metadata.ownerHandoff
    have wrote' := writeData_wrote ord' sent'.2 addr filled modes metadata.ownerBiased metadata.ownerHandoff
    have queues : sent.2.queues = ctx.queues := step.queues
    have queues' : sent'.2.queues = ctx'.queues := step'.queues
    have config : sent.2.config = ctx.config := step.config
    have single' : sent'.2.config.remoteWriteBatchThreshold ≤ 1 := by
      rw [posted.config, config]
      exact single
    exact posted.moved wrote.same wrote'.same (unmoved_counters.writeData ord _ addr buf modes _ _)
      (unmoved_counters.writeData ord' _ addr buf modes _ _)
      (wrote.written modes _ (config ▸ single) (queues ▸ idle _)) (wrote'.written modes _ single' (queues' ▸ idle' _))

theorem Twins.lmWrite (twins : Twins ctx ctx') (settled : Settled 2 ctx) (settled' : Settled 2 ctx')
    (single : ctx.config.remoteWriteBatchThreshold ≤ 1) (idle : ∀ n, ctx.queues.of n = [])
    (idle' : ∀ n, ctx'.queues.of n = []) (ord ord' : IterOrder) (addr : GlobalAddr) (buf : Bytes) :
    (lmWrite ord' ctx' addr buf).1 = (lmWrite ord ctx addr buf).1 ∧
      Twins (lmWrite ord ctx addr buf).2 (LeoMem.lmWrite ord' ctx' addr buf).2 := by
  obtain ⟨outcome, mids⟩ := twins.openAccess settled settled' ord ord' addr buf.size
  have step := controlStep_openAccess controlKeeps_noObs ctx ord addr buf.size
  have step' := controlStep_openAccess controlKeeps_noObs ctx' ord' addr buf.size
  cases opened : LeoMem.openAccess ord ctx addr buf.size with
  | mk answer mid =>
    cases opened' : LeoMem.openAccess ord' ctx' addr buf.size with
    | mk answer' mid' =>
      rw [opened] at outcome mids step
      rw [opened'] at outcome mids step'
      obtain rfl : answer' = answer := outcome
      cases answer' with
      | error s =>
        rw [lmWrite_rejected opened, lmWrite_rejected opened']
        exact ⟨rfl, mids⟩
      | ok range =>
        obtain ⟨modes, touched⟩ := mids.touch addr range .kWrite
        have switched : mid'.config = mid.config.unbatched := mids.config
        have node : mid'.config.nodeId = mid.config.nodeId := by
          rw [switched]
          rfl
        by_cases home : addr.homeNode = mid.config.nodeId
        · rw [lmWrite_local opened home, lmWrite_local opened' (home.trans node.symm)]
          exact touched.writeThrough addr buf true
        · rw [lmWrite_remote opened home, lmWrite_remote opened' (node ▸ home), modes]
          have config : mid.config = ctx.config := step.config
          have queues : mid.queues = ctx.queues := step.queues
          have queues' : mid'.queues = ctx'.queues := step'.queues
          refine touched.writeRemote ?_ ?_ ?_ ord ord' addr (openAccess_filled opened) range _
          · exact config ▸ single
          · exact fun n => queues ▸ idle n
          · exact fun n => queues' ▸ idle' n

/-- A fence with nothing pending takes its messages in, twice. -/
theorem Settled.fence_idle (settled : Settled 2 ctx) (idle : ∀ n, ctx.queues.of n = []) (ord : IterOrder) :
    lmFence ord ctx =
      if ctx.initialized = false then (.kNotInitialized, ctx) else (.kOk, LeoMem.settle (LeoMem.settle ctx)) := by
  have none : ctx.queues.pendingDestinations ord = [] := by
    refine List.eq_nil_iff_forall_not_mem.mpr fun n member => ?_
    exact WriteQueues.mem_pendingDestinations.mp member (idle n)
  cases ready : ctx.initialized with
  | false => simp [LeoMem.lmFence, ready]
  | true =>
    rw [settled.fence_eq ready (by rw [none]; rfl), none]
    rfl

theorem Twins.lmFence (twins : Twins ctx ctx') (settled : Settled 2 ctx) (settled' : Settled 2 ctx')
    (idle : ∀ n, ctx.queues.of n = []) (idle' : ∀ n, ctx'.queues.of n = []) (ord ord' : IterOrder) :
    (lmFence ord' ctx').1 = (lmFence ord ctx).1 ∧ Twins (lmFence ord ctx).2 (LeoMem.lmFence ord' ctx').2 := by
  rw [settled.fence_idle idle, settled'.fence_idle idle', twins.initialized]
  split
  · exact ⟨rfl, twins⟩
  · exact ⟨rfl, twins.settle.settle⟩

theorem Twins.lmMalloc (twins : Twins ctx ctx') (size : UInt64) :
    (lmMalloc ctx' size).1 = (lmMalloc ctx size).1 ∧ Twins (lmMalloc ctx size).2 (LeoMem.lmMalloc ctx' size).2 := by
  obtain ⟨initialized, config, allocator, epoch, table, nextId, acks, transport⟩ := twins
  have allocated : ctx'.allocator.allocate ctx'.config size = ctx.allocator.allocate ctx.config size := by
    rw [config, allocator]
    rfl
  have resolved (d : DsmAllocator) (addr : GlobalAddr) :
      d.resolveBlockRange ctx'.config addr size = d.resolveBlockRange ctx.config addr size := by
    rw [config]
    rfl
  unfold LeoMem.lmMalloc
  simp only [initialized, allocated, resolved]
  split
  · exact ⟨rfl, initialized, config, allocator, epoch, table, nextId, acks, transport⟩
  · split
    · split
      · exact ⟨rfl, rfl, config, rfl, epoch, table, nextId, acks, transport⟩
      · refine ⟨rfl, rfl, config, rfl, epoch, ?_, nextId, acks, transport⟩
        simp only [table, config]
        rfl
    · exact ⟨rfl, rfl, config, rfl, epoch, table, nextId, acks, transport⟩

/-- Two invocations of one call that reads nothing, in whatever orders the hash maps show. -/
structure SameUpdate (i j : Invocation) : Prop where
  call : j.call = i.call
  update : ∀ addr size, i.call ≠ .read addr size

/-- Twins between two calls, one of them with batching off. -/
structure IdleTwins (ctx ctx' : RuntimeContext StubTransport) : Prop where
  twins : Twins ctx ctx'
  settled : SettledNode ctx
  settled' : SettledNode ctx'
  below : BelowThreshold ctx
  below' : BelowThreshold ctx'
  single : ctx.config.remoteWriteBatchThreshold ≤ 1

theorem idleTwins_stubNode {cfg : Config} (single : cfg.remoteWriteBatchThreshold ≤ 1) :
    IdleTwins (stubNode cfg) (stubNode cfg.unbatched) where
  twins := ⟨rfl, rfl, rfl, rfl, rfl, rfl, rfl, rfl⟩
  settled := settledNode_stubNode cfg
  settled' := settledNode_stubNode cfg.unbatched
  below := belowThreshold_init cfg _
  below' := belowThreshold_init cfg.unbatched _
  single := single

/-- **One call** that reads nothing is answered alike. -/
theorem IdleTwins.exec (idle : IdleTwins ctx ctx') {i j : Invocation} (same : SameUpdate i j) :
    (exec ctx i).1 = (exec ctx' j).1 ∧ IdleTwins (exec ctx i).2 (LeoMem.exec ctx' j).2 := by
  obtain ⟨twins, settled, settled', below, below', single⟩ := idle
  have single' : ctx'.config.remoteWriteBatchThreshold ≤ 1 := by
    rw [twins.config]
    exact single
  have alike : (LeoMem.exec ctx' j).1 = (LeoMem.exec ctx i).1 ∧ Twins (LeoMem.exec ctx i).2 (LeoMem.exec ctx' j).2 := by
    obtain ⟨ord, call⟩ := i
    obtain ⟨ord', call'⟩ := j
    obtain rfl : call' = call := same.call
    cases call' with
    | malloc size =>
      obtain ⟨answer, next⟩ := twins.lmMalloc size
      exact ⟨congrArg Response.addr answer, next⟩
    | free addr =>
      refine ⟨congrArg Response.status ?_, twins⟩
      simp only [lmFree, twins.initialized, twins.allocator, twins.config]
      rfl
    | read addr size => exact absurd rfl (same.update addr size)
    | write addr buf =>
      obtain ⟨status, next⟩ := twins.lmWrite settled.settled settled'.settled single (below.idle single)
        (below'.idle single') ord ord' addr buf
      exact ⟨congrArg Response.status status, next⟩
    | fence =>
      obtain ⟨status, next⟩ := twins.lmFence settled.settled settled'.settled (below.idle single) (below'.idle single')
        ord ord'
      exact ⟨congrArg Response.status status, next⟩
  have config : (LeoMem.exec ctx i).2.config = ctx.config := exec_config ctx i
  exact ⟨alike.1.symm, alike.2, settled.exec i, settled'.exec j, below.exec i, below'.exec j, config ▸ single⟩

/-- A call with its answer and the memories it leaves. -/
def execObserved (ctx : RuntimeContext StubTransport) (i : Invocation) :
    (Response × (NodeId → Bytes)) × RuntimeContext StubTransport :=
  let r := exec ctx i
  ((r.1, r.2.transport.regions r.2.config), r.2)

/-- **The batch threshold bounds what is pending, and a threshold of one writes through**.
Between calls no destination has a full batch waiting. On the stub, with a threshold of at
most one, calls that read nothing are answered as they are with batching off, and leave the
same memories after each. -/
theorem pending_below_threshold :
    (∀ (ω : Type) [Transport ω] (cfg : Config) (w : ω) (calls : List Invocation) (node : NodeId),
      ((run exec (RuntimeContext.init cfg w) calls).2.queues.of node).length <
        max 1 cfg.remoteWriteBatchThreshold.toNat) ∧
    ∀ (cfg : Config) (calls calls' : List Invocation), cfg.remoteWriteBatchThreshold ≤ 1 →
      List.Forall₂ SameUpdate calls calls' →
      (run execObserved (stubNode cfg) calls).1 = (run execObserved (stubNode cfg.unbatched) calls').1 := by
  constructor
  · intro ω _ cfg w calls node
    have below := run_keeps (I := fun c => BelowThreshold c ∧ c.config = cfg)
      (fun c i held => ⟨held.1.exec i, (exec_config c i).trans held.2⟩) calls ⟨belowThreshold_init cfg w, rfl⟩
    have short := below.1 node
    rw [below.2, toNat_max] at short
    exact short
  · intro cfg calls calls' single same
    refine (run_simulation_inputs (R := IdleTwins) (fun c c' i j here idle => ?_) same (idleTwins_stubNode single)).1
    obtain ⟨answer, next⟩ := idle.exec here
    have regions : (exec c' j).2.transport.regions (exec c' j).2.config = (exec c i).2.transport.regions (exec c i).2.config := by
      rw [next.twins.transport, next.twins.config]
      rfl
    exact ⟨Prod.ext answer regions.symm, next⟩

/-- Two nodes with the default threshold. -/
def smallPair : Config := { nrNodes := 2, blockSize := 4, localRegionSize := 16 }

/-- Two writes, the second of them out of bounds, and a fence. -/
def writesAndFence : List Invocation :=
  [⟨.stored, .write ⟨1, 0, 2⟩ (.ofList [1, 2, 3])⟩, ⟨.stored, .write ⟨1, 0, 14⟩ (.ofList [4, 5, 6])⟩, ⟨.stored, .fence⟩]

theorem writesAndFence_through :
    (run execObserved (stubNode smallPair) writesAndFence).1 =
        (run execObserved (stubNode smallPair.unbatched) writesAndFence).1 ∧
      ((run execObserved (stubNode smallPair) writesAndFence).1.map Prod.fst =
        [.status .kOk, .status .kOutOfRange, .status .kOk]) := by
  refine ⟨pending_below_threshold.2 smallPair writesAndFence writesAndFence (by decide) ?_, by decide +kernel⟩
  exact .cons ⟨rfl, by simp⟩ (.cons ⟨rfl, by simp⟩ (.cons ⟨rfl, by simp⟩ .nil))

end LeoMem
