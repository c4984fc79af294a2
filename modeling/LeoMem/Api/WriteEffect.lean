import LeoMem.Api.Frame
import LeoMem.Batching.Merge

/-!
# What `lm_write` and `lm_fence` do

One lemma for each function that moves written data: a flush empties one
destination's queue into one `BatchWrite`, a write goes to the transport or into
its destination's queue, and a queue that is long enough is flushed at once.
-/

namespace LeoMem
open Lib RuntimeContext

section
variable {ω : Type}

/-- What moving written data leaves alone. -/
structure SameNode (ctx ctx' : RuntimeContext ω) : Prop where
  initialized : ctx'.initialized = ctx.initialized
  config : ctx'.config = ctx.config
  allocator : ctx'.allocator = ctx.allocator
  table : ctx'.blockTable = ctx.blockTable
  acks : ctx'.pendingControlAcks = ctx.pendingControlAcks

theorem SameNode.trans {a b c : RuntimeContext ω} (first : SameNode a b) (second : SameNode b c) : SameNode a c :=
  ⟨second.initialized.trans first.initialized, second.config.trans first.config,
    second.allocator.trans first.allocator, second.table.trans first.table, second.acks.trans first.acks⟩

/-! ## Queueing a write -/

theorem stageWrite_queues {ctx : RuntimeContext ω} (addr : GlobalAddr) {buf : Bytes}
    (batching : ctx.config.enableWriteBatching = true) (filled : buf.size ≠ 0) (modes : List CoherenceMode)
    (ownerBiased ownerHandoff : Bool) (n : NodeId) :
    (stageWrite ctx addr buf modes ownerBiased ownerHandoff).queues.of n =
      if n = addr.homeNode then
        (enqueue (ctx.queues.of addr.homeNode) ⟨addr, buf, dominantMode modes, ownerBiased, ownerHandoff⟩).2
      else ctx.queues.of n := by
  change (ctx.queues.queueRemoteWrite ctx.config addr buf (dominantMode modes) ownerBiased ownerHandoff).2.of n = _
  simp only [WriteQueues.queueRemoteWrite, filled, batching, Bool.true_eq_false, or_self, if_false]
  exact WriteQueues.of_insert _ _ _ _

theorem stageWrite_cache (ctx : RuntimeContext ω) (addr : GlobalAddr) (buf : Bytes) (modes : List CoherenceMode)
    (ownerBiased ownerHandoff : Bool) {k : CacheKey} {p : Bytes}
    (held : (stageWrite ctx addr buf modes ownerBiased ownerHandoff).cache.payload? k = some p) :
    (k = ⟨addr, buf.size⟩ ∧ p = buf ∧ ownerBiased = true ∧ ctx.config.enableCache = true) ∨
      ctx.cache.payload? k = some p := by
  cases ownerBiased with
  | false => exact Or.inr held
  | true =>
    have held' : (ctx.cache.insertCached ctx.config addr buf).payload? k = some p := held
    cases enabled : ctx.config.enableCache with
    | false =>
      rw [ReadCache.insertCached_disabled enabled] at held'
      exact Or.inr held'
    | true =>
      rcases ReadCache.insertCached_within _ _ _ _ k p held' with ⟨key, payload⟩ | old
      · exact Or.inl ⟨key, payload, rfl, rfl⟩
      · exact Or.inr old

theorem dropCopies_survives (ord : IterOrder) (ctx : RuntimeContext ω) (addr : GlobalAddr) (size : UInt64)
    (modes : List CoherenceMode) {k : CacheKey} {p : Bytes}
    (held : (dropCopies ord ctx addr size modes).cache.payload? k = some p) :
    ctx.cache.payload? k = some p ∧
      if hasMode modes .kWI then rangesOverlap k.addr k.size addr size = false else k ≠ ⟨addr, size⟩ := by
  cases wi : hasMode modes .kWI with
  | true =>
    have left : (ctx.cache.invalidateRange ord addr size).2.payload? k = some p := by
      simpa [dropCopies, setCache, wi] using held
    rw [ReadCache.payload?_invalidateRange] at left
    split at left
    · cases left
    · rename_i apart
      exact ⟨left, by simpa using apart⟩
  | false =>
    have left : (ctx.cache.invalidate addr size).2.payload? k = some p := by
      simpa [dropCopies, setCache, wi] using held
    rw [ReadCache.payload?_invalidate] at left
    split at left
    · cases left
    · rename_i other
      exact ⟨left, by simpa using other⟩

variable [Transport ω]

/-! ## Flushing one destination -/

/-- The node after a flush of `node`, whatever its outcome. -/
structure Flushed (ctx : RuntimeContext ω) (node : NodeId) (r : Status × RuntimeContext ω) : Prop where
  same : SameNode ctx r.2
  cache : r.2.cache = ctx.cache
  queues : ∀ n, r.2.queues.of n = if n = node then [] else ctx.queues.of n
  written : (r.1, r.2.transport) =
    if ctx.queues.of node = [] then (.kOk, ctx.transport)
    else Transport.batchWrite ctx.config ctx.allocator ((ctx.queues.of node).map PendingRemoteWrite.request)
      ctx.transport

variable {buf : Bytes} (ctx : RuntimeContext ω)

theorem flushDestination_flushed (node : NodeId) : Flushed ctx node (flushDestination ctx node) := by
  have queues := WriteQueues.of_drainRemoteWrites ctx.queues node
  have batch := WriteQueues.drainRemoteWrites_writes ctx.queues node
  unfold flushDestination
  simp only [batch, List.isEmpty_map, List.isEmpty_iff]
  generalize sent : (if ctx.queues.of node = [] then
      (Status.kOk, (ctx.setQueues (ctx.queues.drainRemoteWrites node).2).transport) else _) = r
  split
  · exact ⟨⟨rfl, rfl, rfl, rfl, rfl⟩, rfl, queues, sent.symm⟩
  · rename_i ok
    have same : (Status.kOk, r.2) = r := by rw [← not_not.mp ok]
    exact ⟨⟨rfl, rfl, rfl, rfl, rfl⟩, rfl, queues, same.trans sent.symm⟩

/-! ## Thresholds -/

theorem foldl_min_le (f : CoherenceMode → UInt64) (modes : List CoherenceMode) (t : UInt64) :
    (modes.foldl (fun threshold mode => min threshold (f mode)) t).toNat ≤ t.toNat := by
  induction modes generalizing t with
  | nil => exact Nat.le_refl _
  | cons mode modes ih =>
    refine (ih _).trans ?_
    rw [toNat_min]
    exact Nat.min_le_left _ _

/-- No mode waits for more writes than SI does. -/
theorem mostAggressiveBatchThreshold_le (cfg : Config) (modes : List CoherenceMode) :
    (max 1 (mostAggressiveBatchThreshold cfg modes)).toNat ≤ (max 1 cfg.remoteWriteBatchThreshold).toNat := by
  have least := foldl_min_le (effectiveBatchThreshold cfg) modes (effectiveBatchThreshold cfg .kSI)
  change (mostAggressiveBatchThreshold cfg modes).toNat ≤ (max 1 cfg.remoteWriteBatchThreshold).toNat at least
  rw [toNat_max] at least ⊢
  rw [toNat_max]
  have one : (1 : UInt64).toNat = 1 := rfl
  omega

theorem shouldFlushDestination_iff (q : WriteQueues) (node : NodeId) (threshold : UInt64) :
    q.shouldFlushDestination node threshold = true ↔ (max 1 threshold).toNat ≤ (q.of node).length := by
  have one : (1 : UInt64).toNat = 1 := rfl
  unfold WriteQueues.shouldFlushDestination WriteQueues.of
  cases q.lookup node with
  | none =>
    rw [toNat_max]
    simp
  | some queue => simp

/-! ## Writing -/

/-- What a write of `buf` at `addr` does to the queues and the transport. -/
inductive WriteMoved (ctx : RuntimeContext ω) (addr : GlobalAddr) (buf : Bytes) (modes : List CoherenceMode)
    (r : Status × RuntimeContext ω) : Prop where
  | through : ctx.config.enableWriteBatching = false →
      (r.1, r.2.transport) = Transport.write ctx.config ctx.allocator addr buf ctx.transport →
      r.2.queues = ctx.queues → WriteMoved ctx addr buf modes r
  | queued (w : PendingRemoteWrite) : ctx.config.enableWriteBatching = true → w.addr = addr → w.payload = buf →
      r.1 = .kOk → r.2.transport = ctx.transport →
      (∀ n, r.2.queues.of n =
        if n = addr.homeNode then (enqueue (ctx.queues.of addr.homeNode) w).2 else ctx.queues.of n) →
      hasMode modes .kWI = false →
      (enqueue (ctx.queues.of addr.homeNode) w).2.length < (max 1 ctx.config.remoteWriteBatchThreshold).toNat →
      WriteMoved ctx addr buf modes r
  | flushed (w : PendingRemoteWrite) : ctx.config.enableWriteBatching = true → w.addr = addr → w.payload = buf →
      (r.1, r.2.transport) = Transport.batchWrite ctx.config ctx.allocator
        ((enqueue (ctx.queues.of addr.homeNode) w).2.map PendingRemoteWrite.request) ctx.transport →
      (∀ n, r.2.queues.of n = if n = addr.homeNode then [] else ctx.queues.of n) → WriteMoved ctx addr buf modes r

theorem WriteMoved.congr {ctx : RuntimeContext ω} {addr : GlobalAddr} {modes : List CoherenceMode}
    {r r' : Status × RuntimeContext ω} (moved : WriteMoved ctx addr buf modes r) (status : r'.1 = r.1)
    (queues : r'.2.queues = r.2.queues) (transport : r'.2.transport = r.2.transport) : WriteMoved ctx addr buf modes r' := by
  cases moved with
  | through off written same => exact .through off (by rw [status, transport, written]) (queues.trans same)
  | queued w on addr payload ok sent inserted noWI short =>
    exact .queued w on addr payload (status.trans ok) (transport.trans sent) (queues ▸ inserted) noWI short
  | flushed w on addr payload written drained =>
    exact .flushed w on addr payload (by rw [status, transport, written]) (queues ▸ drained)

theorem WriteMoved.of_ctx {ctx ctx' : RuntimeContext ω} {addr : GlobalAddr} {modes : List CoherenceMode}
    {r : Status × RuntimeContext ω} (moved : WriteMoved ctx' addr buf modes r) (same : SameNode ctx ctx')
    (queues : ctx'.queues = ctx.queues) (transport : ctx'.transport = ctx.transport) : WriteMoved ctx addr buf modes r := by
  cases moved with
  | through off written kept =>
    exact .through (same.config ▸ off) (by rw [written, same.config, same.allocator, transport]) (kept.trans queues)
  | queued w on addr payload ok sent inserted noWI short =>
    exact .queued w (same.config ▸ on) addr payload ok (sent.trans transport) (queues ▸ inserted) noWI
      (by rwa [queues, same.config] at short)
  | flushed w on addr payload written drained =>
    exact .flushed w (same.config ▸ on) addr payload
      (by rw [written, same.config, same.allocator, transport, queues]) (queues ▸ drained)

/-- The cache entries a write at `addr` leaves: survivors of its invalidation, and the copy
an owner-biased write keeps. -/
def WriteCaches (ctx : RuntimeContext ω) (addr : GlobalAddr) (buf : Bytes) (modes : List CoherenceMode)
    (ownerBiased : Bool) (after : ReadCache) : Prop :=
  ∀ k p, after.payload? k = some p →
    (k = ⟨addr, buf.size⟩ ∧ p = buf ∧ ownerBiased = true ∧ ctx.config.enableCache = true) ∨
    (ctx.cache.payload? k = some p ∧
      if hasMode modes .kWI then rangesOverlap k.addr k.size addr buf.size = false else k ≠ ⟨addr, buf.size⟩)

/-- The node after a write of data. -/
structure Wrote (ctx : RuntimeContext ω) (addr : GlobalAddr) (buf : Bytes) (modes : List CoherenceMode)
    (ownerBiased : Bool) (r : Status × RuntimeContext ω) : Prop where
  same : SameNode ctx r.2
  cache : WriteCaches ctx addr buf modes ownerBiased r.2.cache
  moved : WriteMoved ctx addr buf modes r

theorem writeThrough_written (addr : GlobalAddr) (buf : Bytes) (isLocal : Bool) :
    ((writeThrough ctx addr buf isLocal).1, (writeThrough ctx addr buf isLocal).2.transport) =
      Transport.write ctx.config ctx.allocator addr buf ctx.transport := by
  unfold writeThrough
  simp only
  split
  · rename_i ok
    rw [← ok]
  · rfl

theorem writeThrough_same (addr : GlobalAddr) (buf : Bytes) (isLocal : Bool) :
    SameNode ctx (writeThrough ctx addr buf isLocal).2 ∧
      (writeThrough ctx addr buf isLocal).2.cacheManager = ctx.cacheManager := by
  unfold writeThrough
  simp only
  split <;> exact ⟨⟨rfl, rfl, rfl, rfl, rfl⟩, rfl⟩

/-- The node after a batched write, from the state its cache was invalidated in. -/
theorem writeBatched_spec (addr : GlobalAddr) (batching : ctx.config.enableWriteBatching = true) (filled : buf.size ≠ 0)
    (modes : List CoherenceMode) (ownerBiased ownerHandoff : Bool) :
    let r := writeBatched ctx addr buf modes ownerBiased ownerHandoff
    SameNode ctx r.2 ∧ r.2.cache = (stageWrite ctx addr buf modes ownerBiased ownerHandoff).cache ∧
      WriteMoved ctx addr buf modes r := by
  have queues := stageWrite_queues addr batching filled modes ownerBiased ownerHandoff
  have staged : SameNode ctx (stageWrite ctx addr buf modes ownerBiased ownerHandoff) := ⟨rfl, rfl, rfl, rfl, rfl⟩
  have transport : (stageWrite ctx addr buf modes ownerBiased ownerHandoff).transport = ctx.transport := rfl
  unfold writeBatched
  simp only
  generalize stageWrite ctx addr buf modes ownerBiased ownerHandoff = c at queues staged transport
  generalize sent : (if hasMode modes .kWI || c.queues.shouldFlushDestination addr.homeNode
      (mostAggressiveBatchThreshold c.config modes) then flushDestination c addr.homeNode else (.kOk, c)) = r
  have here := queues addr.homeNode
  rw [if_pos rfl] at here
  have moved : SameNode ctx r.2 ∧ r.2.cache = c.cache ∧ WriteMoved ctx addr buf modes r := by
    split at sent
    · subst sent
      have flushed := flushDestination_flushed c addr.homeNode
      refine ⟨staged.trans flushed.same, flushed.cache, ?_⟩
      refine .flushed ⟨addr, buf, dominantMode modes, ownerBiased, ownerHandoff⟩ batching rfl rfl ?_ ?_
      · rw [flushed.written, here, staged.config, staged.allocator, transport, if_neg (enqueue_ne_nil _ _)]
      · intro n
        rw [flushed.queues, queues]
        split <;> simp_all
    · rename_i due
      subst sent
      simp only [Bool.or_eq_true, not_or, Bool.not_eq_true, shouldFlushDestination_iff, here, staged.config] at due
      refine ⟨staged, rfl, .queued _ batching rfl rfl rfl transport queues due.1 ?_⟩
      exact lt_of_lt_of_le (not_le.mp due.2) (mostAggressiveBatchThreshold_le ctx.config modes)
  obtain ⟨same, cache, wrote⟩ := moved
  split
  · exact ⟨same, cache, wrote⟩
  · rename_i ok
    refine ⟨same.trans ⟨rfl, rfl, rfl, rfl, rfl⟩, cache, ?_⟩
    exact wrote.congr (not_not.mp ok).symm rfl rfl

/-- **A write of data**, from the state its control messages were posted in. -/
theorem writeData_wrote (ord : IterOrder) (ctx : RuntimeContext ω) (addr : GlobalAddr) (filled : buf.size ≠ 0)
    (modes : List CoherenceMode) (ownerBiased ownerHandoff : Bool) :
    Wrote ctx addr buf modes ownerBiased (writeData ord ctx addr buf modes ownerBiased ownerHandoff) := by
  have survives := fun k p => @dropCopies_survives ω ord ctx addr buf.size modes k p
  have dropped : SameNode ctx (dropCopies ord ctx addr buf.size modes) := ⟨rfl, rfl, rfl, rfl, rfl⟩
  have queues : (dropCopies ord ctx addr buf.size modes).queues = ctx.queues := rfl
  have transport : (dropCopies ord ctx addr buf.size modes).transport = ctx.transport := rfl
  unfold writeData
  simp only
  generalize dropCopies ord ctx addr buf.size modes = c at survives dropped queues transport
  split
  · rename_i off
    have written := writeThrough_written c addr buf false
    have same := writeThrough_same c addr buf false
    rw [dropped.config, dropped.allocator, transport] at written
    refine ⟨dropped.trans same.1, fun k p held => Or.inr (survives k p ?_), .through (dropped.config ▸ off) written ?_⟩
    · exact (congrArg (fun m : CacheManager => m.cache.payload? k) same.2).symm.trans held
    · exact (congrArg CacheManager.writeQueues same.2).trans queues
  · rename_i on
    obtain ⟨same, cache, moved⟩ := writeBatched_spec c addr (by simpa using on) filled modes
      ownerBiased ownerHandoff
    refine ⟨dropped.trans same, fun k p held => ?_, moved.of_ctx dropped queues transport⟩
    rw [cache] at held
    rcases stageWrite_cache c addr buf modes ownerBiased ownerHandoff held with ⟨key, payload, biased, enabled⟩ | old
    · exact Or.inl ⟨key, payload, biased, dropped.config ▸ enabled⟩
    · exact Or.inr (survives k p old)

/-! ### What moving data leaves alone -/

omit [Transport ω] in
/-- `f` looks at none of the parts that moving data changes: cache, queues, statistics and
transport. -/
def Unmoved {β : Type} (f : RuntimeContext ω → β) : Prop :=
  ∀ (c : RuntimeContext ω) cache queues stats w,
    f { c with
      cacheManager := { c.cacheManager with cache := cache, writeQueues := queues }
      stats := stats
      transport := w } = f c

section
variable {β : Type} {f : RuntimeContext ω → β}

theorem Unmoved.writeThrough (unmoved : Unmoved f) (ctx : RuntimeContext ω) (addr : GlobalAddr) (buf : Bytes)
    (isLocal : Bool) : f (writeThrough ctx addr buf isLocal).2 = f ctx := by
  unfold LeoMem.writeThrough
  simp only
  split
  · exact unmoved ctx ctx.cache ctx.queues _ _
  · exact unmoved ctx ctx.cache ctx.queues ctx.stats _

theorem Unmoved.flushDestination (unmoved : Unmoved f) (ctx : RuntimeContext ω) (node : NodeId) :
    f (flushDestination ctx node).2 = f ctx := by
  unfold LeoMem.flushDestination
  simp only
  generalize (if ((ctx.queues.drainRemoteWrites node).1.writes.map PendingRemoteWrite.request).isEmpty then _ else _) = r
  split
  · exact unmoved ctx ctx.cache _ ctx.stats _
  · exact unmoved ctx ctx.cache _ _ _

theorem Unmoved.writeData (unmoved : Unmoved f) (ord : IterOrder) (ctx : RuntimeContext ω) (addr : GlobalAddr)
    (buf : Bytes) (modes : List CoherenceMode) (ownerBiased ownerHandoff : Bool) :
    f (writeData ord ctx addr buf modes ownerBiased ownerHandoff).2 = f ctx := by
  have dropped : f (dropCopies ord ctx addr buf.size modes) = f ctx := unmoved ctx _ ctx.queues _ ctx.transport
  unfold LeoMem.writeData
  simp only
  generalize dropCopies ord ctx addr buf.size modes = c at dropped
  split
  · exact (unmoved.writeThrough c addr buf false).trans dropped
  · have staged : f (stageWrite c addr buf modes ownerBiased ownerHandoff) = f ctx :=
      (unmoved c _ _ _ c.transport).trans dropped
    have flushed := unmoved.flushDestination (stageWrite c addr buf modes ownerBiased ownerHandoff) addr.homeNode
    unfold writeBatched
    simp only
    generalize sent : (if hasMode modes .kWI || (stageWrite c addr buf modes ownerBiased ownerHandoff).queues.shouldFlushDestination
      addr.homeNode _ then _ else _) = r
    have same : f r.2 = f ctx := by
      rw [← sent]
      split
      · exact flushed.trans staged
      · exact staged
    split
    · exact same
    · exact (unmoved r.2 r.2.cache r.2.queues _ r.2.transport).trans same

end

omit [Transport ω] in
/-- Moving data draws no request ids. -/
theorem unmoved_nextId : Unmoved (ω := ω) RuntimeContext.nextControlRequestId := fun _ _ _ _ _ => rfl

/-- Writes and batches of writes keep `obs`. -/
structure WriteKeeps {α : Type} (obs : ω → α) : Prop where
  write : ∀ cfg d addr buf w, obs (Transport.write cfg d addr buf w).2 = obs w
  batchWrite : ∀ cfg d reqs w, obs (Transport.batchWrite cfg d reqs w).2 = obs w

theorem WriteMoved.keeps {α : Type} {obs : ω → α} (keeps : WriteKeeps obs) {ctx : RuntimeContext ω} {addr : GlobalAddr}
    {modes : List CoherenceMode} {r : Status × RuntimeContext ω} (moved : WriteMoved ctx addr buf modes r) :
    obs r.2.transport = obs ctx.transport := by
  cases moved with
  | through _ written _ => exact (congrArg (fun w => obs w.2) written).trans (keeps.write _ _ _ _ _)
  | queued _ _ _ _ _ sent _ _ _ => rw [sent]
  | flushed _ _ _ _ written _ => exact (congrArg (fun w => obs w.2) written).trans (keeps.batchWrite _ _ _ _)

theorem Flushed.keeps {α : Type} {obs : ω → α} (keeps : WriteKeeps obs) {ctx : RuntimeContext ω} {node : NodeId}
    {r : Status × RuntimeContext ω} (flushed : Flushed ctx node r) : obs r.2.transport = obs ctx.transport := by
  refine (congrArg (fun w => obs w.2) flushed.written).trans ?_
  split
  · rfl
  · exact keeps.batchWrite _ _ _ _

/-! ## `lm_write` by its branches -/

theorem applyWriteMetadata_flags (cfg : Config) (addr : GlobalAddr) (pairs : List (BlockId × CoherenceMode))
    (acc : WriteMetadata) (flag : (applyWriteMetadata cfg addr pairs acc).ownerBiased = true ∨
      (applyWriteMetadata cfg addr pairs acc).ownerHandoff = true) :
    (acc.ownerBiased = true ∨ acc.ownerHandoff = true) ∨ ∃ pair ∈ pairs, pair.2 = .kAdaptive := by
  induction pairs generalizing acc with
  | nil => exact Or.inl flag
  | cons pair pairs ih =>
    rcases ih _ flag with here | ⟨later, member, adaptive⟩
    · simp only [Bool.or_eq_true, Bool.and_eq_true, decide_eq_true_eq] at here
      rcases here with (before | now) | (before | ⟨now, -⟩)
      · exact Or.inl (Or.inl before)
      · exact Or.inr ⟨pair, List.mem_cons_self, now⟩
      · exact Or.inl (Or.inr before)
      · exact Or.inr ⟨pair, List.mem_cons_self, now⟩
    · exact Or.inr ⟨later, List.mem_cons_of_mem _ member, adaptive⟩

/-- Only a block in Adaptive mode raises an owner flag of a write. -/
theorem adaptive_of_flags {cfg : Config} {addr : GlobalAddr} {ids : List BlockId} {modes : List CoherenceMode}
    {table : BlockTable} (flag : (applyWriteMetadata cfg addr (ids.zip modes) { table := table }).ownerBiased = true ∨
      (applyWriteMetadata cfg addr (ids.zip modes) { table := table }).ownerHandoff = true) :
    CoherenceMode.kAdaptive ∈ modes := by
  rcases applyWriteMetadata_flags cfg addr _ _ flag with impossible | ⟨pair, member, adaptive⟩
  · rcases impossible with raised | raised <;> cases raised
  · exact adaptive ▸ (List.of_mem_zip member).2

variable {α : Type} {obs : ω → α} {ctx mid : RuntimeContext ω} {addr : GlobalAddr} {buf : Bytes} {ord : IterOrder}
  {range : BlockRange}

theorem lmWrite_rejected {s : Status} (opened : openAccess ord ctx addr buf.size = (.error s, mid)) :
    lmWrite ord ctx addr buf = (s, mid) := by
  simp [lmWrite, opened]

theorem lmWrite_remote (opened : openAccess ord ctx addr buf.size = (.ok range, mid))
    (remote : addr.homeNode ≠ mid.config.nodeId) :
    lmWrite ord ctx addr buf =
      writeRemote ord (touchMetadata mid addr range .kWrite).2 addr buf range (touchMetadata mid addr range .kWrite).1 := by
  simp [lmWrite, opened, remote]

theorem lmWrite_local (opened : openAccess ord ctx addr buf.size = (.ok range, mid))
    (home : addr.homeNode = mid.config.nodeId) :
    lmWrite ord ctx addr buf = writeThrough (touchMetadata mid addr range .kWrite).2 addr buf true := by
  simp [lmWrite, opened, home]

variable {I P : RuntimeContext ω → Prop}

/-- **The rule for a write**, as for a read. -/
theorem lmWrite_rule {J : Status × RuntimeContext ω → Prop} (after : I (openAccess ord ctx addr buf.size).2)
    (rejected : ∀ s c, openAccess ord ctx addr buf.size = (.error s, c) → I c → J (s, c))
    (own : ∀ c range, openAccess ord ctx addr buf.size = (.ok range, c) → addr.homeNode = c.config.nodeId → I c →
      J (writeThrough (touchMetadata c addr range .kWrite).2 addr buf true))
    (remote : ∀ c range, openAccess ord ctx addr buf.size = (.ok range, c) → addr.homeNode ≠ c.config.nodeId → I c →
      J (writeRemote ord (touchMetadata c addr range .kWrite).2 addr buf range (touchMetadata c addr range .kWrite).1)) :
    J (lmWrite ord ctx addr buf) := by
  apply openAccess_rule after
  · intro s mid opened held
    rw [lmWrite_rejected opened]
    exact rejected s mid opened held
  · intro mid range opened home held
    rw [lmWrite_local opened home]
    exact own mid range opened home held
  · intro mid range opened home held
    rw [lmWrite_remote opened home]
    exact remote mid range opened home held

/-- **A remote write** records its blocks and posts its messages; where they can be posted it
writes its data. -/
theorem writeRemote_branches (ord : IterOrder) (ctx : RuntimeContext ω) (addr : GlobalAddr) {buf : Bytes}
    (filled : buf.size ≠ 0) (range : BlockRange) (modes : List CoherenceMode) :
    ∃ table handoff version ownerBiased, (ownerBiased = true → CoherenceMode.kAdaptive ∈ modes) ∧
      let sent := postWriteMessages { ctx with blockTable := table } addr range modes handoff version
      (postFailed sent.1 = true ∧ writeRemote ord ctx addr buf range modes = sent ∨
        postFailed sent.1 = false ∧ Wrote sent.2 addr buf modes ownerBiased (writeRemote ord ctx addr buf range modes)) := by
  let applied := applyWriteMetadata ctx.config addr ((range.ids addr.regionId).zip modes) { table := ctx.blockTable }
  refine ⟨applied.table, applied.ownerHandoff, maxObservedVersion applied.table (range.ids addr.regionId),
    applied.ownerBiased, fun biased => adaptive_of_flags (Or.inl biased), ?_⟩
  unfold writeRemote
  simp only
  split
  · rename_i failed
    exact Or.inl ⟨failed, rfl⟩
  · rename_i passed
    exact Or.inr ⟨by simpa using passed, writeData_wrote ord _ addr filled modes _ _⟩

/-- A remote write keeps what its messages leave of the control plane and of the id counter. -/
theorem writeRemote_numbered (writes : WriteKeeps obs)
    (control : ∀ c c' : RuntimeContext ω, c'.config = c.config → c'.pendingControlAcks = c.pendingControlAcks →
      obs c'.transport = obs c.transport → c'.nextControlRequestId = c.nextControlRequestId → I c → I c') (ord : IterOrder)
    (filled : buf.size ≠ 0) {modes : List CoherenceMode} (posted : ∀ table handoff version,
      I (postWriteMessages { ctx with blockTable := table } addr range modes handoff version).2) :
    I (writeRemote ord ctx addr buf range modes).2 := by
  unfold writeRemote
  simp only
  split
  · exact posted _ _ _
  · have wrote (c : RuntimeContext ω) (biased handoff : Bool) := writeData_wrote ord c addr filled modes biased handoff
    exact control _ _ (wrote _ _ _).same.config (wrote _ _ _).same.acks ((wrote _ _ _).moved.keeps writes)
      (unmoved_nextId.writeData ord _ addr buf modes _ _) (posted _ _ _)

/-- A remote write keeps what its messages leave of the control plane. -/
theorem writeRemote_keeps (writes : WriteKeeps obs) (control : OfControl obs I) (ord : IterOrder) (filled : buf.size ≠ 0)
    {modes : List CoherenceMode} (posted : ∀ table handoff version,
      I (postWriteMessages { ctx with blockTable := table } addr range modes handoff version).2) :
    I (writeRemote ord ctx addr buf range modes).2 :=
  writeRemote_numbered writes (fun c c' config acks transport _ => control c c' config acks transport) ord filled posted

/-- A remote write either stops at its control messages or goes on to write its data. -/
theorem writeRemote_cases (keeps : PostKeeps obs) (ord : IterOrder) (ctx : RuntimeContext ω) (addr : GlobalAddr)
    {buf : Bytes} (filled : buf.size ≠ 0) (range : BlockRange) (modes : List CoherenceMode) :
    ((writeRemote ord ctx addr buf range modes).1 ≠ .kOk ∧
        ControlStep obs ctx (writeRemote ord ctx addr buf range modes).2) ∨
      ∃ posted ownerBiased, ControlStep obs ctx posted ∧
        (ownerBiased = true → CoherenceMode.kAdaptive ∈ modes) ∧
        Wrote posted addr buf modes ownerBiased (writeRemote ord ctx addr buf range modes) := by
  obtain ⟨table, handoff, version, ownerBiased, biased, branch⟩ := writeRemote_branches ord ctx addr filled range modes
  have recorded := controlStep_bookkeeping obs ctx table ctx.stats ctx.nextControlRequestId ctx.pendingControlAcks
  have posted := recorded.trans (controlStep_postWriteMessages keeps _ addr range modes handoff version)
  rcases branch with ⟨failed, stopped⟩ | ⟨-, wrote⟩
  · rw [stopped]
    refine Or.inl ⟨?_, posted⟩
    rintro ok
    simp [postFailed, ok] at failed
  · exact Or.inr ⟨_, ownerBiased, posted, biased, wrote⟩

/-- A whole write: it stops before its data moves, or writes this node's own region, or
writes another node's. -/
inductive WriteOutcome (obs : ω → α) (ctx : RuntimeContext ω) (addr : GlobalAddr) (buf : Bytes)
    (r : Status × RuntimeContext ω) : Prop where
  | stopped : r.1 ≠ .kOk → ControlStep obs ctx r.2 → WriteOutcome obs ctx addr buf r
  | own (opened : RuntimeContext ω) : ControlStep obs ctx opened → addr.homeNode = ctx.config.nodeId →
      SameNode opened r.2 → r.2.cacheManager = opened.cacheManager →
      (r.1, r.2.transport) = Transport.write opened.config opened.allocator addr buf opened.transport →
      WriteOutcome obs ctx addr buf r
  | remote (posted : RuntimeContext ω) (modes : List CoherenceMode) (ownerBiased : Bool) :
      ControlStep obs ctx posted → addr.homeNode ≠ ctx.config.nodeId → buf.size ≠ 0 →
      Wrote posted addr buf modes ownerBiased r → WriteOutcome obs ctx addr buf r

/-- **A write, whatever becomes of it.** -/
theorem lmWrite_outcome (keeps : ControlKeeps obs) (ord : IterOrder) (ctx : RuntimeContext ω) (addr : GlobalAddr)
    (buf : Bytes) : WriteOutcome obs ctx addr buf (lmWrite ord ctx addr buf) := by
  refine lmWrite_rule (J := WriteOutcome obs ctx addr buf) (controlStep_openAccess keeps ctx ord addr buf.size)
    (fun s c opened step => ?_) (fun c range _ home step => ?_) (fun c range opened home step => ?_)
  · exact .stopped (openAccess_failed opened) step
  · have touched := step.trans (controlStep_touchMetadata obs c addr range .kWrite)
    obtain ⟨same, cache⟩ := writeThrough_same (touchMetadata c addr range .kWrite).2 addr buf true
    exact .own _ touched (step.config ▸ home) same cache (writeThrough_written _ addr buf true)
  · have filled := openAccess_filled opened
    have touched := step.trans (controlStep_touchMetadata obs c addr range .kWrite)
    rcases writeRemote_cases keeps.post ord (touchMetadata c addr range .kWrite).2 addr filled range
      (touchMetadata c addr range .kWrite).1 with ⟨failed, stopped⟩ | ⟨posted, ownerBiased, sent, -, wrote⟩
    · exact .stopped failed (touched.trans stopped)
    · exact .remote posted _ ownerBiased (touched.trans sent) (step.config ▸ home) filled wrote

/-! ## `lm_fence` -/

theorem flushDestinations_induct (flush : ∀ c node, P c → P (flushDestination c node).2) (nodes : List NodeId)
    {ctx : RuntimeContext ω} (start : P ctx) : P (flushDestinations ctx nodes).2 := by
  induction nodes generalizing ctx with
  | nil => exact start
  | cons node nodes ih =>
    unfold flushDestinations
    simp only
    split
    · exact flush ctx node start
    · exact ih (flush ctx node start)

/-- A flush loop that succeeds empties every queue it visits and fills none. -/
theorem flushDestinations_ok (nodes : List NodeId) {ctx : RuntimeContext ω}
    (ok : (flushDestinations ctx nodes).1 = .kOk) (n : NodeId)
    (visited : n ∈ nodes ∨ ctx.queues.of n = []) : (flushDestinations ctx nodes).2.queues.of n = [] := by
  induction nodes generalizing ctx with
  | nil => simpa [flushDestinations] using visited
  | cons node nodes ih =>
    have flushed := flushDestination_flushed ctx node
    unfold flushDestinations at ok ⊢
    simp only at ok ⊢
    split at ok
    · rename_i failed
      exact absurd ok failed
    · rename_i done
      rw [if_neg done]
      refine ih ok ?_
      rw [flushed.queues]
      by_cases here : n = node
      · simp [here]
      · simpa [here] using visited

/-- **The fence rule**: from `P` through `Q` after the first control messages to `R` after the
last ones, where flushes and the transport's fence in between keep `Q`. -/
theorem lmFence_phases {P Q R : RuntimeContext ω → Prop} {ord : IterOrder} (weaker : ∀ c, P c → Q c)
    (weakest : ∀ c, Q c → R c) (first : ∀ c, P c → Q (drainControl ord c).2)
    (fence : ∀ c : RuntimeContext ω, Q c → Q { c with transport := (Transport.fence c.config c.transport).2 })
    (flush : ∀ c node, Q c → Q (flushDestination c node).2) (last : ∀ c, Q c → R (drainControl ord c).2)
    (start : P ctx) : R (lmFence ord ctx).2 := by
  have drained := first ctx start
  unfold lmFence
  split
  · exact weakest _ (weaker _ start)
  simp only
  split
  · exact weakest _ drained
  have flushed := flushDestinations_induct flush ((drainControl ord ctx).2.queues.pendingDestinations ord) drained
  split
  · exact weakest _ flushed
  generalize (flushDestinations (drainControl ord ctx).2
    ((drainControl ord ctx).2.queues.pendingDestinations ord)).2 = c at flushed
  split
  · exact weakest _ (fence c flushed)
  · exact last _ (fence c flushed)

/-- What taking control messages, the transport's fence and flushes keep, a fence keeps. -/
theorem lmFence_keeps {ord : IterOrder} (drain : ∀ c, P c → P (drainControl ord c).2)
    (fence : ∀ c : RuntimeContext ω, P c → P { c with transport := (Transport.fence c.config c.transport).2 })
    (flush : ∀ c node, P c → P (flushDestination c node).2) (start : P ctx) : P (lmFence ord ctx).2 :=
  lmFence_phases (fun _ => id) (fun _ => id) drain fence flush drain start

/-- A fence draws no request ids. -/
theorem lmFence_nextId (ord : IterOrder) (ctx : RuntimeContext ω) :
    (lmFence ord ctx).2.nextControlRequestId = ctx.nextControlRequestId :=
  lmFence_keeps (P := fun c => c.nextControlRequestId = ctx.nextControlRequestId)
    (fun c same => (congrArg Prod.fst (drainControl_books ord c)).trans same) (fun _ same => same)
    (fun c node same => (unmoved_nextId.flushDestination c node).trans same) rfl

/-- The fence rule for what control steps keep. -/
theorem lmFence_induct (keeps : ControlKeeps obs) (control : ∀ a b, ControlStep obs a b → P a → P b)
    (flush : ∀ c node, P c → P (flushDestination c node).2) (ord : IterOrder) (start : P ctx) : P (lmFence ord ctx).2 :=
  lmFence_keeps (fun c held => control _ _ (controlStep_drainControl keeps c ord) held)
    (fun c held => control c _ ⟨rfl, rfl, rfl, rfl, .refl _, keeps.fence _ _⟩ held) flush start

/-- A fence that succeeds leaves nothing pending. -/
theorem lmFence_ok (keeps : ControlKeeps obs) {ord : IterOrder} (ok : (lmFence ord ctx).1 = .kOk) (n : NodeId) :
    (lmFence ord ctx).2.queues.of n = [] := by
  unfold lmFence at ok ⊢
  split at ok
  · cases ok
  rename_i ready
  rw [if_neg ready]
  simp only at ok ⊢
  split at ok
  · rename_i failed
    exact absurd ok failed
  rename_i drained
  rw [if_neg drained]
  split at ok
  · rename_i failed
    exact absurd ok failed
  rename_i flushed
  rw [if_neg flushed]
  have empty : (flushDestinations (drainControl ord ctx).2
      ((drainControl ord ctx).2.queues.pendingDestinations ord)).2.queues.of n = [] := by
    refine flushDestinations_ok _ (not_not.mp flushed) n ?_
    rw [WriteQueues.mem_pendingDestinations]
    exact (em _).symm
  generalize (flushDestinations (drainControl ord ctx).2
    ((drainControl ord ctx).2.queues.pendingDestinations ord)).2 = c at ok empty
  split
  · exact empty
  · have step := controlStep_drainControl keeps { c with transport := (Transport.fence c.config c.transport).2 } ord
    rw [step.queues]
    exact empty

/-- **The rule for cache entries**: what every entry satisfies it still satisfies after a call, if the
reads keep it and the bytes of a remote write have it. -/
theorem exec_entries {Q : CacheKey → Bytes → Prop} (keeps : ControlKeeps obs) (i : Invocation)
    (read : ∀ addr size, i.call = .read addr size →
      ∀ k p, (lmRead i.ord ctx addr size).2.cache.payload? k = some p → Q k p)
    (write : ∀ addr buf, i.call = .write addr buf → addr.homeNode ≠ ctx.config.nodeId → Q ⟨addr, buf.size⟩ buf)
    (start : ∀ k p, ctx.cache.payload? k = some p → Q k p) :
    ∀ k p, (exec ctx i).2.cache.payload? k = some p → Q k p := by
  obtain ⟨ord, call⟩ := i
  cases call with
  | malloc size =>
    obtain ⟨-, manager, -, -⟩ := lmMalloc_keeps ctx size
    have cache : (lmMalloc ctx size).2.cache = ctx.cache := congrArg CacheManager.cache manager
    exact cache ▸ start
  | free addr => exact start
  | read addr size => exact read addr size rfl
  | write addr buf =>
    intro k p held
    change (lmWrite ord ctx addr buf).2.cache.payload? k = some p at held
    cases lmWrite_outcome keeps ord ctx addr buf with
    | stopped _ step => exact start k p (step.cache k p held)
    | own opened step _ _ manager _ =>
      have cache : (lmWrite ord ctx addr buf).2.cache = opened.cache := congrArg CacheManager.cache manager
      exact start k p (step.cache k p (cache ▸ held))
    | remote posted modes ownerBiased step away _ wrote =>
      rcases wrote.cache k p held with ⟨rfl, rfl, -, -⟩ | ⟨survivor, -⟩
      · exact write addr p rfl away
      · exact start k p (step.cache k p survivor)
  | fence =>
    exact lmFence_induct (P := fun c => ∀ k p, c.cache.payload? k = some p → Q k p) keeps
      (fun _ _ step held k p found => held k p (step.cache k p found))
      (fun c node held => (flushDestination_flushed c node).cache ▸ held) ord start

end
end LeoMem
