import LeoMem.Api.Drains
import LeoMem.Api.Instrument
import LeoMem.Lib.Run
import LeoMem.Stub.Memory

/-!
# The statistics balance

The counters are bumped one by one at a dozen places of `lm_read`, `lm_write` and the
flushes. Each place is one posting to the books (`StatsCollector.Balanced`): it keeps
every identity between the counters, given what it adds to the entries pending, the
blocks touched and the remote reads that failed. `stats_conserved` is the sum over a
run.
-/

namespace LeoMem
open Lib RuntimeContext

/-! ## The books -/

namespace StatsCollector

/-- The identities between the counters, given the remote reads that failed, the blocks touched and
the queued writes that are neither merged nor flushed. -/
structure Balanced (s : StatsCollector) (failed touched owed : UInt64) : Prop where
  reads : s.readOps = s.localReads + s.remoteReads
  writes : s.writeOps = s.localWrites + s.remoteWrites
  remote : s.remoteReads = s.cacheHits + s.cacheAdmissions + s.cacheRejections
  misses : s.cacheMisses = s.cacheAdmissions + s.cacheRejections + failed
  queued : s.queuedRemoteWrites = s.mergedRemoteWrites + s.flushedRemoteWrites + owed
  modes : s.coherenceModeWi + s.coherenceModeSi + s.coherenceModeAdaptive = touched

namespace Balanced
variable {s : StatsCollector} {failed touched owed : UInt64}

theorem incAlloc (held : s.Balanced failed touched owed) : s.incAlloc.Balanced failed touched owed :=
  ⟨held.reads, held.writes, held.remote, held.misses, held.queued, held.modes⟩

theorem incLocalRead (held : s.Balanced failed touched owed) : (s.incRead true).Balanced failed touched owed := by
  refine ⟨?_, held.writes, held.remote, held.misses, held.queued, held.modes⟩
  have reads := held.reads
  simp only [incRead, if_true]
  grind

theorem hit (held : s.Balanced failed touched owed) : (s.incCacheHit.incRead false).Balanced failed touched owed := by
  have reads := held.reads
  have remote := held.remote
  refine ⟨?_, held.writes, ?_, held.misses, held.queued, held.modes⟩
  · simp only [incCacheHit, incRead, Bool.false_eq_true, if_false]
    grind
  · simp only [incCacheHit, incRead, Bool.false_eq_true, if_false]
    grind

/-- A miss that the owner or the home serves is admitted or rejected. -/
theorem served (held : s.Balanced failed touched owed) (admitted : Bool) :
    ((s.incCacheMiss.incCacheAdmission admitted).incRead false).Balanced failed touched owed := by
  have reads := held.reads
  have remote := held.remote
  have misses := held.misses
  cases admitted with
  | true =>
    simp only [incCacheMiss, incCacheAdmission, incRead, Bool.false_eq_true, if_false, if_true]
    refine ⟨?_, held.writes, ?_, ?_, held.queued, held.modes⟩
    all_goals grind
  | false =>
    simp only [incCacheMiss, incCacheAdmission, incRead, Bool.false_eq_true, if_false]
    refine ⟨?_, held.writes, ?_, ?_, held.queued, held.modes⟩
    all_goals grind

theorem unserved (held : s.Balanced failed touched owed) : s.incCacheMiss.Balanced (failed + 1) touched owed := by
  refine ⟨held.reads, held.writes, held.remote, ?_, held.queued, held.modes⟩
  have misses := held.misses
  simp only [incCacheMiss]
  grind

theorem incWrite (held : s.Balanced failed touched owed) (isLocal : Bool) :
    (s.incWrite isLocal).Balanced failed touched owed := by
  have writes := held.writes
  cases isLocal with
  | true =>
    refine ⟨held.reads, ?_, held.remote, held.misses, held.queued, held.modes⟩
    simp only [StatsCollector.incWrite, if_true]
    grind
  | false =>
    refine ⟨held.reads, ?_, held.remote, held.misses, held.queued, held.modes⟩
    simp only [StatsCollector.incWrite, Bool.false_eq_true, if_false]
    grind

theorem merge (held : s.Balanced failed touched owed) :
    s.incQueuedRemoteWrite.incMergedRemoteWrite.Balanced failed touched owed := by
  have queued := held.queued
  simp only [incQueuedRemoteWrite, incMergedRemoteWrite]
  refine ⟨held.reads, held.writes, held.remote, held.misses, ?_, held.modes⟩
  grind

theorem append (held : s.Balanced failed touched owed) : s.incQueuedRemoteWrite.Balanced failed touched (owed + 1) := by
  refine ⟨held.reads, held.writes, held.remote, held.misses, ?_, held.modes⟩
  have queued := held.queued
  simp only [incQueuedRemoteWrite]
  grind

theorem flush {writes : UInt64} (held : s.Balanced failed touched (owed + writes)) (bytes : UInt64) :
    (s.addFlushedRemoteBatch writes bytes).Balanced failed touched owed := by
  refine ⟨held.reads, held.writes, held.remote, held.misses, ?_, held.modes⟩
  have queued := held.queued
  simp only [addFlushedRemoteBatch]
  grind

theorem recordCoherenceMode (held : s.Balanced failed touched owed) (mode : CoherenceMode) (switched : Bool) :
    (s.recordCoherenceMode mode switched).Balanced failed (touched + 1) owed := by
  have modes := held.modes
  cases switched with
  | true =>
    cases mode with
    | _ =>
      simp only [StatsCollector.recordCoherenceMode, if_true]
      refine ⟨held.reads, held.writes, held.remote, held.misses, held.queued, ?_⟩
      grind
  | false =>
    cases mode with
    | _ =>
      simp only [StatsCollector.recordCoherenceMode, Bool.false_eq_true, if_false]
      refine ⟨held.reads, held.writes, held.remote, held.misses, held.queued, ?_⟩
      grind

theorem addCacheInvalidations (held : s.Balanced failed touched owed) (rangeBased : Bool) (count : UInt64) :
    (s.addCacheInvalidations rangeBased count).Balanced failed touched owed := by
  cases rangeBased with
  | _ => exact ⟨held.reads, held.writes, held.remote, held.misses, held.queued, held.modes⟩

theorem ownerFlags (held : s.Balanced failed touched owed) (pending : PendingRemoteWrite) :
    (let s := if pending.ownerBiased then s.incOwnerBiasedWrite else s
      if pending.ownerHandoff then s.incOwnerHandoff else s).Balanced failed touched owed := by
  cases pending.ownerBiased with
  | _ =>
    cases pending.ownerHandoff with
    | _ =>
      simp only [Bool.false_eq_true, if_false, if_true, incOwnerBiasedWrite, incOwnerHandoff]
      exact ⟨held.reads, held.writes, held.remote, held.misses, held.queued, held.modes⟩

/-- A batch that is flushed is as many entries fewer that are owed. -/
theorem recordFlush {batch : DrainedRemoteWriteBatch}
    (held : s.Balanced failed touched (owed + .ofNat batch.writes.length)) :
    (recordFlush s batch).Balanced failed touched owed := by
  have flagged : ∀ (writes : List PendingRemoteWrite) (s : StatsCollector),
      s.Balanced failed touched (owed + .ofNat batch.writes.length) →
        (writes.foldl (fun s pending =>
          let s := if pending.ownerBiased then s.incOwnerBiasedWrite else s
          if pending.ownerHandoff then s.incOwnerHandoff else s) s).Balanced failed touched
            (owed + .ofNat batch.writes.length) := by
    intro writes
    induction writes with
    | nil => exact fun _ held => held
    | cons write writes ih => exact fun s held => ih _ (held.ownerFlags write)
  have flags := flagged batch.writes s held
  unfold LeoMem.recordFlush
  simp only
  split
  · rename_i empty
    rw [List.isEmpty_iff.mp empty] at flags ⊢
    have none : owed + UInt64.ofNat ([] : List PendingRemoteWrite).length = owed := UInt64.add_zero owed
    rwa [none] at flags
  · exact flags.flush batch.totalBytes

end Balanced
end StatsCollector

/-! ## Pending entries -/

/-- The entries that wait for a flush, over all destinations. -/
def WriteQueues.pending (q : WriteQueues) : Nat := HashMap.total (fun e => e.2.length) q

theorem length_enqueue (queue : List PendingRemoteWrite) (w : PendingRemoteWrite) :
    (enqueue queue w).2.length = queue.length + if (enqueue queue w).1 then 0 else 1 := by
  rcases enqueue_cases queue w with ⟨front, e, back, split, result, -, -⟩ | ⟨result, -⟩
  · rw [result, split]
    simp
  · simp [result]

namespace WriteQueues
variable {q : WriteQueues}

theorem pending_erase (q : WriteQueues) (node : NodeId) : pending (q.erase node) + (of q node).length = pending q := by
  cases found : q.lookup node with
  | none => rw [HashMap.erase_of_absent found, of, found]; rfl
  | some queue => rw [of, found]; exact HashMap.total_erase _ found

theorem pending_drainRemoteWrites (q : WriteQueues) (node : NodeId) :
    pending (q.drainRemoteWrites node).2 + (q.drainRemoteWrites node).1.writes.length = pending q := by
  have erased := pending_erase q node
  unfold drainRemoteWrites
  cases found : q.lookup node with
  | none => rfl
  | some queue =>
    rw [of, found] at erased
    exact erased

theorem pending_queueRemoteWrite {cfg : Config} (batching : cfg.enableWriteBatching = true) (q : WriteQueues)
    (addr : GlobalAddr) {buf : Bytes} (filled : buf.size ≠ 0) (mode : CoherenceMode) (ownerBiased ownerHandoff : Bool) :
    pending (q.queueRemoteWrite cfg addr buf mode ownerBiased ownerHandoff).2 =
      pending q + if (q.queueRemoteWrite cfg addr buf mode ownerBiased ownerHandoff).1 then 0 else 1 := by
  have erased := pending_erase q addr.homeNode
  have longer := length_enqueue (of q addr.homeNode) ⟨addr, buf, mode, ownerBiased, ownerHandoff⟩
  simp only [queueRemoteWrite, filled, batching, Bool.true_eq_false, or_self, if_false]
  change HashMap.total _ _ = _
  rw [HashMap.total_insert]
  change _ + pending (q.erase addr.homeNode) = _
  simp only
  omega

end WriteQueues

/-! ## Batches that fail -/

/-- A transport with the batches its `BatchWrite` has failed to write so far. -/
structure BatchLog (ω : Type) where
  inner : ω
  failed : List (List RemoteWriteRequest) := []

section
variable {ω : Type} [Transport ω]

instance : Transport (BatchLog ω) where
  read cfg d addr size w :=
    let r := Transport.read cfg d addr size w.inner
    (r.1, { w with inner := r.2 })
  write cfg d addr buf w :=
    let r := Transport.write cfg d addr buf w.inner
    (r.1, { w with inner := r.2 })
  batchWrite cfg d requests w :=
    let r := Transport.batchWrite cfg d requests w.inner
    (r.1, { inner := r.2, failed := if r.1 = .kOk then w.failed else w.failed ++ [requests] })
  fence cfg w :=
    let r := Transport.fence cfg w.inner
    (r.1, { w with inner := r.2 })
  postControlMessage cfg msg w :=
    let r := Transport.postControlMessage cfg msg w.inner
    (r.1, { w with inner := r.2 })
  drainControlMessages cfg n w :=
    let r := Transport.drainControlMessages cfg n w.inner
    (r.1, { w with inner := r.2 })

namespace BatchLog

theorem inner_hom : TransportHom (inner : BatchLog ω → ω) :=
  ⟨fun _ _ _ _ _ => rfl, fun _ _ _ _ _ => rfl, fun _ _ _ _ => rfl, fun _ _ => rfl, fun _ _ _ => rfl, fun _ _ _ => rfl⟩

theorem controlKeeps_failed : ControlKeeps (failed : BatchLog ω → _) :=
  ⟨fun _ _ _ => rfl, fun _ _ _ => rfl, fun _ _ => rfl⟩

theorem readKeeps_failed (cfg : Config) : ReadKeeps cfg (failed : BatchLog ω → _) := fun _ _ _ _ => rfl

omit [Transport ω] in
/-- The entries of the batches that failed. -/
def lost (w : BatchLog ω) : Nat := (w.failed.map List.length).sum

end BatchLog

omit [Transport ω] in
/-- The queued writes that are neither merged nor flushed: they wait, or their batch failed. -/
def owed (ctx : RuntimeContext (BatchLog ω)) : UInt64 := .ofNat (ctx.queues.pending + ctx.transport.lost)

omit [Transport ω] in
/-- The books of a node. -/
def InBalance (failed touched : UInt64) (ctx : RuntimeContext (BatchLog ω)) : Prop :=
  ctx.stats.Balanced failed touched (owed ctx)

namespace InBalance
variable {failed touched : UInt64} {ctx ctx' : RuntimeContext (BatchLog ω)} {ord : IterOrder} {addr : GlobalAddr}
  {size : UInt64} {buf : Bytes}

omit [Transport ω] in
theorem post (held : InBalance failed touched ctx) (queues : ctx'.queues = ctx.queues)
    (lost : ctx'.transport.failed = ctx.transport.failed) {failed' touched' : UInt64}
    (posting : ∀ owed, ctx.stats.Balanced failed touched owed → ctx'.stats.Balanced failed' touched' owed) :
    InBalance failed' touched' ctx' := by
  have same : owed ctx' = owed ctx := by rw [owed, BatchLog.lost, queues, lost]; rfl
  unfold InBalance
  rw [same]
  exact posting _ held

omit [Transport ω] in
theorem congr (held : InBalance failed touched ctx) (stats : ctx'.stats = ctx.stats) (queues : ctx'.queues = ctx.queues)
    (lost : ctx'.transport.failed = ctx.transport.failed) : InBalance failed touched ctx' :=
  held.post queues lost fun _ balanced => stats ▸ balanced

/-! ### Accesses up to their data -/

theorem openAccess (held : InBalance failed touched ctx) (ord : IterOrder) (addr : GlobalAddr) (size : UInt64) :
    InBalance failed touched (openAccess ord ctx addr size).2 := by
  have step := controlStep_openAccess BatchLog.controlKeeps_failed ctx ord addr size
  exact held.congr (congrArg Prod.snd (openAccess_books ord ctx addr size)) step.queues step.transport

end InBalance

theorem observeMetas_balanced {failed touched owed : UInt64} (cfg : Config) (type : AccessType) (isLocal : Bool)
    (bids : List BlockId) {o : Observation} (held : o.stats.Balanced failed touched owed) :
    (observeMetas cfg type isLocal bids o).2.stats.Balanced failed (touched + .ofNat bids.length) owed := by
  induction bids generalizing o touched with
  | nil =>
    have none : touched + UInt64.ofNat ([] : List BlockId).length = touched := UInt64.add_zero touched
    rw [none]
    exact held
  | cons bid bids ih =>
    have more : touched + UInt64.ofNat (bid :: bids).length = touched + 1 + UInt64.ofNat bids.length := by
      rw [List.length_cons, UInt64.ofNat_add, UInt64.add_comm (UInt64.ofNat bids.length), ← UInt64.add_assoc]
      rfl
    rw [more]
    exact ih (held.recordCoherenceMode _ _)

namespace InBalance
variable {failed touched : UInt64} {ctx ctx' : RuntimeContext (BatchLog ω)} {ord : IterOrder} {addr : GlobalAddr}
  {size : UInt64} {buf : Bytes}

omit [Transport ω] in
theorem touch (held : InBalance failed touched ctx) (addr : GlobalAddr) (range : BlockRange) (type : AccessType) :
    InBalance failed (touched + .ofNat (range.ids addr.regionId).length) (touchMetadata ctx addr range type).2 := by
  refine held.post ?_ ?_ fun owed balanced => ?_
  · rfl
  · rfl
  · exact observeMetas_balanced ctx.config type _ _ balanced

/-! ### Reads -/

theorem readLocal (held : InBalance failed touched ctx) (addr : GlobalAddr) (size : UInt64) :
    InBalance failed touched (readLocal ctx addr size).2 := by
  have frame := (readLocal_spec ctx (BatchLog.readKeeps_failed _) addr size).1
  refine held.post frame.queues frame.transport fun owed balanced => ?_
  have stats : (readHome ctx addr size).2.stats = ctx.stats := rfl
  unfold LeoMem.readLocal
  generalize readHome ctx addr size = r at stats
  obtain ⟨_ | buf, c⟩ := r
  · exact (show c.stats = ctx.stats from stats) ▸ balanced
  · exact ((show c.stats = ctx.stats from stats).symm ▸ balanced : c.stats.Balanced failed touched owed).incLocalRead

/-- A remote read is a hit, or a miss that is served or fails. -/
theorem readRemote (held : InBalance failed touched ctx) (ord : IterOrder) (addr : GlobalAddr) (size : UInt64)
    (metas : List BlockId) (modes : List CoherenceMode) :
    InBalance (failed + match (readRemote ord ctx addr size metas modes).1 with
      | .ok _ => 0
      | .error _ => 1) touched (LeoMem.readRemote ord ctx addr size metas modes).2 := by
  have frame := readRemote_frame ctx (BatchLog.readKeeps_failed _) ord addr size metas modes
  refine held.post frame.queues frame.transport fun owed balanced => ?_
  cases looked : (ctx.cache.tryReadCached ord addr size).1 with
  | some buf =>
    rw [readRemote_hit looked]
    simp only [UInt64.add_zero]
    exact balanced.hit
  | none =>
    have stats : (tryOwnerAwareRead ord (countMiss ctx metas) addr size metas).2.stats = ctx.stats.incCacheMiss :=
      congrArg Prod.snd (tryOwnerAwareRead_books ord (countMiss ctx metas) addr size metas)
    rw [readRemote_miss looked]
    generalize tryOwnerAwareRead ord (countMiss ctx metas) addr size metas = r at stats
    obtain ⟨⟨s | buf, redirected⟩, c⟩ := r
    · simp only at stats ⊢
      rw [stats]
      exact balanced.unserved
    · simp only [UInt64.add_zero] at stats ⊢
      unfold admitRead
      simp only
      change ((c.stats.incCacheAdmission _).incRead false).Balanced _ _ _
      rw [stats]
      exact balanced.served _

/-! ### Writes -/

theorem writeThrough (held : InBalance failed touched ctx) (addr : GlobalAddr) (buf : Bytes) (isLocal : Bool) :
    InBalance failed touched (writeThrough ctx addr buf isLocal).2 := by
  unfold LeoMem.writeThrough
  simp only
  split
  · refine held.post ?_ ?_ fun owed balanced => ?_
    · rfl
    · rfl
    · exact balanced.incWrite isLocal
  · exact held.congr rfl rfl rfl

omit [Transport ω] in
theorem dropCopies (held : InBalance failed touched ctx) (ord : IterOrder) (addr : GlobalAddr) (size : UInt64)
    (modes : List CoherenceMode) : InBalance failed touched (dropCopies ord ctx addr size modes) := by
  refine held.post ?_ ?_ fun owed balanced => ?_
  · rfl
  · rfl
  · exact balanced.addCacheInvalidations _ _

omit [Transport ω] in
theorem stageWrite (held : InBalance failed touched ctx) (addr : GlobalAddr) (batching : ctx.config.enableWriteBatching = true)
    (filled : buf.size ≠ 0) (modes : List CoherenceMode) (ownerBiased ownerHandoff : Bool) :
    InBalance failed touched (stageWrite ctx addr buf modes ownerBiased ownerHandoff) := by
  have more := WriteQueues.pending_queueRemoteWrite batching ctx.queues addr filled (dominantMode modes) ownerBiased ownerHandoff
  have debt : owed (LeoMem.stageWrite ctx addr buf modes ownerBiased ownerHandoff) = .ofNat
      ((ctx.queues.queueRemoteWrite ctx.config addr buf (dominantMode modes) ownerBiased ownerHandoff).2.pending +
        ctx.transport.lost) := rfl
  unfold InBalance
  rw [debt, more]
  change StatsCollector.Balanced (if (ctx.queues.queueRemoteWrite ctx.config addr buf (dominantMode modes) ownerBiased
    ownerHandoff).1 then ctx.stats.incQueuedRemoteWrite.incMergedRemoteWrite else ctx.stats.incQueuedRemoteWrite) _ _ _
  split
  · exact StatsCollector.Balanced.merge held
  · have one : UInt64.ofNat (ctx.queues.pending + 1 + ctx.transport.lost) = owed ctx + 1 := by
      rw [Nat.add_right_comm, UInt64.ofNat_add]
      rfl
    rw [one]
    exact StatsCollector.Balanced.append held

omit ctx in
/-- A batch is written, or it is lost as a whole. -/
theorem lost_batchWrite (cfg : Config) (d : DsmAllocator) (requests : List RemoteWriteRequest) (w : BatchLog ω) :
    (Transport.batchWrite cfg d requests w).2.lost =
      w.lost + if (Transport.batchWrite cfg d requests w).1 = .kOk then 0 else requests.length := by
  change (((if (Transport.batchWrite cfg d requests w.inner).1 = .kOk then w.failed else w.failed ++ [requests]).map
    List.length).sum) = (w.failed.map List.length).sum +
      if (Transport.batchWrite cfg d requests w.inner).1 = .kOk then 0 else requests.length
  split
  · rfl
  · simp

theorem flushDestination (held : InBalance failed touched ctx) (node : NodeId) :
    InBalance failed touched (flushDestination ctx node).2 := by
  have drained := WriteQueues.pending_drainRemoteWrites ctx.queues node
  have whole : owed ctx = .ofNat ((ctx.queues.drainRemoteWrites node).2.pending + ctx.transport.lost) +
      .ofNat (ctx.queues.drainRemoteWrites node).1.writes.length := by
    rw [← UInt64.ofNat_add, owed, ← drained, Nat.add_right_comm]
  unfold InBalance at held
  rw [whole] at held
  unfold LeoMem.flushDestination
  simp only
  generalize sent : (if ((ctx.queues.drainRemoteWrites node).1.writes.map PendingRemoteWrite.request).isEmpty then
      (Status.kOk, (ctx.setQueues (ctx.queues.drainRemoteWrites node).2).transport) else _) = r
  have lost : r.2.lost =
      ctx.transport.lost + if r.1 = .kOk then 0 else (ctx.queues.drainRemoteWrites node).1.writes.length := by
    rw [← sent]
    split
    · rfl
    · exact (lost_batchWrite _ _ _ ctx.transport).trans (by rw [List.length_map]; rfl)
  split
  · rename_i fails
    change ctx.stats.Balanced failed touched (.ofNat ((ctx.queues.drainRemoteWrites node).2.pending + r.2.lost))
    rw [lost, if_neg fails, ← Nat.add_assoc, UInt64.ofNat_add]
    exact held
  · rename_i ok
    change StatsCollector.Balanced (LeoMem.recordFlush ctx.stats (ctx.queues.drainRemoteWrites node).1) failed touched
      (.ofNat ((ctx.queues.drainRemoteWrites node).2.pending + r.2.lost))
    rw [lost, if_pos (not_not.mp ok)]
    exact held.recordFlush

theorem writeBatched (held : InBalance failed touched ctx) (addr : GlobalAddr)
    (batching : ctx.config.enableWriteBatching = true) (filled : buf.size ≠ 0) (modes : List CoherenceMode)
    (ownerBiased ownerHandoff : Bool) :
    InBalance failed touched (writeBatched ctx addr buf modes ownerBiased ownerHandoff).2 := by
  have staged := held.stageWrite addr batching filled modes ownerBiased ownerHandoff
  have flushed := staged.flushDestination addr.homeNode
  unfold LeoMem.writeBatched
  simp only
  generalize sent : (if hasMode modes .kWI || (LeoMem.stageWrite ctx addr buf modes ownerBiased
    ownerHandoff).queues.shouldFlushDestination addr.homeNode _ then _ else _) = r
  have balanced : InBalance failed touched r.2 := by
    rw [← sent]
    split
    · exact flushed
    · exact staged
  split
  · exact balanced
  · refine balanced.post ?_ ?_ fun owed balanced => ?_
    · rfl
    · rfl
    · exact balanced.incWrite false

theorem writeRemote (held : InBalance failed touched ctx) (ord : IterOrder) (addr : GlobalAddr) (filled : buf.size ≠ 0)
    (range : BlockRange) (modes : List CoherenceMode) :
    InBalance failed touched (writeRemote ord ctx addr buf range modes).2 := by
  let applied := applyWriteMetadata ctx.config addr ((range.ids addr.regionId).zip modes) { table := ctx.blockTable }
  let version := maxObservedVersion applied.table (range.ids addr.regionId)
  have posted : InBalance failed touched
      (postWriteMessages { ctx with blockTable := applied.table } addr range modes applied.ownerHandoff version).2 := by
    have step := controlStep_postWriteMessages BatchLog.controlKeeps_failed.post { ctx with blockTable := applied.table } addr
      range modes applied.ownerHandoff version
    have stats := postWriteMessages_stats { ctx with blockTable := applied.table } addr range modes applied.ownerHandoff version
    exact held.congr stats step.queues step.transport
  unfold LeoMem.writeRemote
  simp only
  split
  · exact posted
  · have dropped := posted.dropCopies ord addr buf.size modes
    unfold writeData
    simp only
    split
    · exact dropped.writeThrough addr buf false
    · rename_i on
      exact dropped.writeBatched addr (by simpa using on) filled modes _ _

end InBalance

/-! ## Runs -/

section
variable {ω : Type} [Transport ω]

/-- The blocks a call touches: those of an access that passes range validation. -/
def touchedBlocks (ctx : RuntimeContext ω) (i : Invocation) : Nat :=
  let ids (addr : GlobalAddr) (size : UInt64) : Nat :=
    match (openAccess i.ord ctx addr size).1 with
    | .ok range => (range.ids addr.regionId).length
    | .error _ => 0
  match i.call with
  | .read addr size => ids addr size
  | .write addr buf => ids addr buf.size
  | _ => 0

/-- The remote reads of a call that fail in the transport: past range validation, nothing else can. -/
def failedRemoteReads (ctx : RuntimeContext ω) (i : Invocation) : Nat :=
  match i.call with
  | .read addr size =>
    match openAccess i.ord ctx addr size, (lmRead i.ord ctx addr size).1 with
    | (.ok _, mid), .error _ => if addr.homeNode = mid.config.nodeId then 0 else 1
    | _, _ => 0
  | _ => 0

end

namespace InBalance
variable {failed touched : UInt64} {ctx : RuntimeContext (BatchLog ω)}

omit [Transport ω] in
theorem lmMalloc (held : InBalance failed touched ctx) (size : UInt64) : InBalance failed touched (lmMalloc ctx size).2 := by
  obtain ⟨-, manager, -, transport⟩ := lmMalloc_keeps ctx size
  refine held.post (congrArg CacheManager.writeQueues manager) (congrArg BatchLog.failed transport) fun owed balanced => ?_
  unfold LeoMem.lmMalloc
  split
  · exact balanced
  · simp only
    split
    · split
      · exact balanced
      · exact balanced.incAlloc
    · exact balanced

omit ctx failed touched in
theorem add_ofNat_zero (n : UInt64) : n + .ofNat 0 = n := UInt64.add_zero n

theorem lmRead (held : InBalance failed touched ctx) (ord : IterOrder) (addr : GlobalAddr) (size : UInt64) :
    InBalance (failed + .ofNat (failedRemoteReads ctx ⟨ord, .read addr size⟩))
      (touched + .ofNat (touchedBlocks ctx ⟨ord, .read addr size⟩)) (lmRead ord ctx addr size).2 := by
  have after := held.openAccess ord addr size
  rcases opened : LeoMem.openAccess ord ctx addr size with ⟨s | range, mid⟩
  · rw [opened] at after
    simp only [failedRemoteReads, touchedBlocks, opened, add_ofNat_zero]
    rw [lmRead_rejected opened]
    exact after
  · rw [opened] at after
    have touch := after.touch addr range .kRead
    have blocks : touchedBlocks ctx ⟨ord, .read addr size⟩ = (range.ids addr.regionId).length := by
      simp only [touchedBlocks, opened]
    rw [blocks]
    by_cases home : addr.homeNode = mid.config.nodeId
    · have none : failedRemoteReads ctx ⟨ord, .read addr size⟩ = 0 := by
        simp only [failedRemoteReads, opened]
        cases (LeoMem.lmRead ord ctx addr size).1 with
        | ok buf => rfl
        | error s => exact if_pos home
      rw [none, add_ofNat_zero, lmRead_local opened home]
      exact touch.readLocal addr size
    · have count : UInt64.ofNat (failedRemoteReads ctx ⟨ord, .read addr size⟩) =
          match (LeoMem.lmRead ord ctx addr size).1 with
          | .ok _ => 0
          | .error _ => 1 := by
        simp only [failedRemoteReads, opened]
        cases (LeoMem.lmRead ord ctx addr size).1 with
        | ok buf => rfl
        | error s => exact congrArg UInt64.ofNat (if_neg home)
      rw [count, lmRead_remote opened home]
      exact touch.readRemote ord addr size _ _

theorem lmWrite (held : InBalance failed touched ctx) (ord : IterOrder) (addr : GlobalAddr) (buf : Bytes) :
    InBalance failed (touched + .ofNat (touchedBlocks ctx ⟨ord, .write addr buf⟩)) (lmWrite ord ctx addr buf).2 := by
  have after := held.openAccess ord addr buf.size
  rcases opened : LeoMem.openAccess ord ctx addr buf.size with ⟨s | range, mid⟩
  · rw [opened] at after
    simp only [touchedBlocks, opened, add_ofNat_zero]
    rw [lmWrite_rejected opened]
    exact after
  · rw [opened] at after
    have touch := after.touch addr range .kWrite
    simp only [touchedBlocks, opened]
    by_cases home : addr.homeNode = mid.config.nodeId
    · rw [lmWrite_local opened home]
      exact touch.writeThrough addr buf true
    · rw [lmWrite_remote opened home]
      exact touch.writeRemote ord addr (openAccess_filled opened) range _

theorem lmFence (held : InBalance failed touched ctx) (ord : IterOrder) : InBalance failed touched (lmFence ord ctx).2 := by
  refine lmFence_keeps (P := InBalance failed touched) (fun c held => ?_) (fun c held => ?_)
    (fun c node held => held.flushDestination node) held
  · have step := controlStep_drainControl BatchLog.controlKeeps_failed c ord
    exact held.congr (congrArg Prod.snd (drainControl_books ord c)) step.queues step.transport
  · exact held.congr rfl rfl rfl

/-- **One call** posts to the books what it touches and what fails. -/
theorem exec (held : InBalance failed touched ctx) (i : Invocation) :
    InBalance (failed + .ofNat (failedRemoteReads ctx i)) (touched + .ofNat (touchedBlocks ctx i)) (exec ctx i).2 := by
  obtain ⟨ord, call⟩ := i
  cases call with
  | malloc size =>
    simp only [failedRemoteReads, touchedBlocks, add_ofNat_zero]
    exact held.lmMalloc size
  | free addr =>
    simp only [failedRemoteReads, touchedBlocks, add_ofNat_zero]
    exact held
  | read addr size => exact held.lmRead ord addr size
  | write addr buf =>
    simp only [failedRemoteReads, add_ofNat_zero]
    exact held.lmWrite ord addr buf
  | fence =>
    simp only [failedRemoteReads, touchedBlocks, add_ofNat_zero]
    exact held.lmFence ord

end InBalance

/-- **A run** posts to the books what its calls touch and what fails in them. -/
theorem run_balanced {failed touched : UInt64} {ctx : RuntimeContext (BatchLog ω)} (held : InBalance failed touched ctx)
    (calls : List Invocation) :
    InBalance (failed + .ofNat (tally exec failedRemoteReads ctx calls))
      (touched + .ofNat (tally exec touchedBlocks ctx calls)) (run exec ctx calls).2 := by
  induction calls generalizing failed touched ctx with
  | nil =>
    simp only [tally, InBalance.add_ofNat_zero]
    exact held
  | cons i calls ih =>
    have rest := ih (held.exec i)
    rw [UInt64.add_assoc, UInt64.add_assoc, ← UInt64.ofNat_add, ← UInt64.ofNat_add] at rest
    rw [run_cons]
    exact rest

omit [Transport ω] in
theorem inBalance_init (cfg : Config) (w : ω) : InBalance 0 0 (RuntimeContext.init cfg (⟨w, []⟩ : BatchLog ω)) :=
  ⟨rfl, rfl, rfl, rfl, rfl, rfl⟩

/-! ### Without the record of failed batches -/

theorem touchedBlocks_inner (ctx : RuntimeContext (BatchLog ω)) (i : Invocation) :
    touchedBlocks ctx i = touchedBlocks (mapTransport BatchLog.inner ctx) i := by
  obtain ⟨ord, call⟩ := i
  simp only [touchedBlocks, ← map_openAccess BatchLog.inner_hom]

theorem failedRemoteReads_inner (ctx : RuntimeContext (BatchLog ω)) (i : Invocation) :
    failedRemoteReads ctx i = failedRemoteReads (mapTransport BatchLog.inner ctx) i := by
  obtain ⟨ord, call⟩ := i
  cases call with
  | read addr size =>
    simp only [failedRemoteReads, ← map_openAccess BatchLog.inner_hom, ← map_lmRead BatchLog.inner_hom]
    rcases openAccess ord ctx addr size with ⟨s | range, mid⟩
    · rfl
    · cases (lmRead ord ctx addr size).1 with
      | ok buf => rfl
      | error s => rfl
  | _ => rfl

/-- **The statistics are conserved.** In every state of a run in which no `BatchWrite` fails, the
identities between the counters hold, with the remote reads that failed, the blocks touched and the
entries pending. -/
theorem stats_conserved (cfg : Config) (w : ω) (calls : List Invocation)
    (unfailed : (run exec (RuntimeContext.init cfg (⟨w, []⟩ : BatchLog ω)) calls).2.transport.failed = []) :
    let node := (run exec (RuntimeContext.init cfg w) calls).2
    node.stats.Balanced (.ofNat (tally exec failedRemoteReads (RuntimeContext.init cfg w) calls))
      (.ofNat (tally exec touchedBlocks (RuntimeContext.init cfg w) calls)) (.ofNat node.queues.pending) := by
  have balanced := run_balanced (inBalance_init cfg w) calls
  obtain ⟨-, bare⟩ := run_map BatchLog.inner_hom (RuntimeContext.init cfg (⟨w, []⟩ : BatchLog ω)) calls
  have failures := tally_map BatchLog.inner_hom failedRemoteReads_inner (RuntimeContext.init cfg (⟨w, []⟩ : BatchLog ω)) calls
  have touches := tally_map BatchLog.inner_hom touchedBlocks_inner (RuntimeContext.init cfg (⟨w, []⟩ : BatchLog ω)) calls
  rw [UInt64.zero_add, UInt64.zero_add, failures, touches] at balanced
  intro node
  have stats : node.stats = (run exec (RuntimeContext.init cfg (⟨w, []⟩ : BatchLog ω)) calls).2.stats :=
    congrArg RuntimeContext.stats bare.symm
  have queues : node.queues = (run exec (RuntimeContext.init cfg (⟨w, []⟩ : BatchLog ω)) calls).2.queues :=
    congrArg RuntimeContext.queues bare.symm
  rw [stats, queues]
  rw [InBalance, owed, BatchLog.lost, unfailed] at balanced
  exact balanced

end

/-- Two nodes whose remote writes go out two at a time. -/
def batchOfTwo : Config :=
  { nrNodes := 2, blockSize := 4, localRegionSize := 16, coherenceModeOverride := 1, remoteWriteBatchThreshold := 2 }

/-- A local write, four remote reads (the first is not admitted to the cache, the second is, the third
hits and the fourth fails) and three remote writes: two in a batch, one pending. -/
def countedCalls : List Invocation :=
  [⟨.stored, .malloc 4⟩, ⟨.stored, .write ⟨0, 0, 0⟩ (.ofList [1])⟩, ⟨.stored, .read ⟨1, 0, 0⟩ 8⟩, ⟨.stored, .read ⟨1, 0, 0⟩ 8⟩,
    ⟨.stored, .read ⟨1, 0, 0⟩ 8⟩, ⟨.stored, .read ⟨1, 0, 16⟩ 1⟩, ⟨.stored, .write ⟨1, 0, 0⟩ (.ofList [2])⟩,
    ⟨.stored, .write ⟨1, 0, 4⟩ (.ofList [3])⟩, ⟨.stored, .write ⟨1, 0, 8⟩ (.ofList [4])⟩]

theorem countedCalls_conserved :
    let node := (run exec (RuntimeContext.init batchOfTwo (StubTransport.init batchOfTwo)) countedCalls).2
    (node.stats.cacheHits, node.stats.cacheMisses, node.stats.queuedRemoteWrites) = (1, 3, 3) ∧
      node.stats.Balanced 1 11 1 := by
  have held := stats_conserved batchOfTwo (StubTransport.init batchOfTwo) countedCalls (by decide +kernel)
  have failures : tally exec failedRemoteReads (RuntimeContext.init batchOfTwo (StubTransport.init batchOfTwo)) countedCalls = 1 := by
    decide +kernel
  have touches : tally exec touchedBlocks (RuntimeContext.init batchOfTwo (StubTransport.init batchOfTwo)) countedCalls = 11 := by
    decide +kernel
  have pending : (run exec (RuntimeContext.init batchOfTwo (StubTransport.init batchOfTwo)) countedCalls).2.queues.pending = 1 := by
    decide +kernel
  simp only [failures, touches, pending] at held
  exact ⟨by decide +kernel, held⟩

end LeoMem
