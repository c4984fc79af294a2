import LeoMem.Api.Conservation
import LeoMem.Api.Records
import LeoMem.Stub.FailedFlush
import LeoMem.Stub.Session
import Mathlib.Algebra.BigOperators.Group.List.Basic

/-!
# What a fence delivers

On the stub a fence takes its messages in and flushes the destinations one after
the other. Every entry waits in the queue of its own home, so a flush touches one
region and leaves the other queues alone, and the counters it adds to commute: the
order in which the destinations come shows nowhere.
-/

namespace LeoMem
open Lib RuntimeContext

/-! ## The batch of a queue -/

/-- The batch `DrainRemoteWrites` makes of a queue. -/
def DrainedRemoteWriteBatch.ofQueue (queue : List PendingRemoteWrite) : DrainedRemoteWriteBatch :=
  ⟨queue, queue.foldl (fun total write => total + write.payload.size) 0⟩

/-- The bytes of the entries of a queue. -/
def queueBytes (queue : List PendingRemoteWrite) : Nat := (queue.map fun e => e.payload.data.length).sum

theorem foldl_payloads (queue : List PendingRemoteWrite) (t : UInt64) :
    queue.foldl (fun total write => total + write.payload.size) t = t + .ofNat (queueBytes queue) := by
  induction queue generalizing t with
  | nil => exact (UInt64.add_zero t).symm
  | cons e queue ih =>
    have split : queueBytes (e :: queue) = e.payload.data.length + queueBytes queue := List.sum_cons
    rw [List.foldl_cons, ih, split, UInt64.ofNat_add, UInt64.add_assoc]
    rfl

namespace WriteQueues

theorem drainRemoteWrites_batch (q : WriteQueues) (node : NodeId) :
    (q.drainRemoteWrites node).1 = .ofQueue (of q node) := by
  unfold drainRemoteWrites of
  cases q.lookup node <;> rfl

/-- The bytes that wait for a flush, over all destinations. -/
def pendingBytes (q : WriteQueues) : Nat := HashMap.total (fun e => queueBytes e.2) q

theorem of_mem_entries {q : WriteQueues} {e : Sigma fun _ : NodeId => List PendingRemoteWrite} (member : e ∈ q.entries) :
    of q e.1 = e.2 := by
  rw [of, HashMap.mem_entries.mp member]
  rfl

/-- The destinations come in any order. -/
theorem pendingDestinations_perm (ord ord' : IterOrder) (q : WriteQueues) :
    (q.pendingDestinations ord).Perm (q.pendingDestinations ord') :=
  (((ord.perm q.entries).trans (ord'.perm q.entries).symm).filter _).map _

/-- Each destination comes once. -/
theorem nodup_pendingDestinations (ord : IterOrder) (q : WriteQueues) : (q.pendingDestinations ord).Nodup := by
  have stored : (q.pendingDestinations .stored).Nodup := by
    have keys : (q.entries.map Sigma.fst).Nodup := q.nodupKeys
    exact keys.sublist (List.filter_sublist.map _)
  exact (pendingDestinations_perm ord .stored q).nodup_iff.mpr stored

/-- What the destinations add up to. -/
theorem sum_pendingDestinations (ord : IterOrder) (q : WriteQueues) {f : List PendingRemoteWrite → Nat}
    (empty : f [] = 0) : ((q.pendingDestinations ord).map fun n => f (of q n)).sum = HashMap.total (fun e => f e.2) q := by
  rw [((pendingDestinations_perm ord .stored q).map _).sum_eq]
  change ((((q.entries.filter fun e => !e.2.isEmpty).map Sigma.fst).map fun n => f (of q n)).sum) = (q.entries.map _).sum
  rw [List.map_map]
  have looked : ∀ e ∈ q.entries, of q e.1 = e.2 := fun e member => of_mem_entries member
  generalize q.entries = entries at looked
  induction entries with
  | nil => rfl
  | cons e entries ih =>
    have rest := ih fun later member => looked later (List.mem_cons_of_mem _ member)
    cases filled : e.2 with
    | nil => simp [filled, empty, rest]
    | cons w queue => simp [filled, looked e List.mem_cons_self, rest]

end WriteQueues

/-! ## The counters of a flush -/

/-- The owner flags of a batch, counted. -/
theorem foldl_ownerFlags (writes : List PendingRemoteWrite) (s : StatsCollector) :
    writes.foldl (fun s pending =>
        let s := if pending.ownerBiased then s.incOwnerBiasedWrite else s
        if pending.ownerHandoff then s.incOwnerHandoff else s) s =
      { s with
        ownerBiasedWrites := s.ownerBiasedWrites + .ofNat (writes.countP (·.ownerBiased))
        ownerHandoffs := s.ownerHandoffs + .ofNat (writes.countP (·.ownerHandoff)) } := by
  have next (n : UInt64) (k : Nat) : n + 1 + .ofNat k = n + .ofNat (k + 1) := by
    rw [UInt64.ofNat_add, UInt64.add_assoc, UInt64.add_comm 1]
    rfl
  induction writes generalizing s with
  | nil =>
    simp only [List.foldl_nil, List.countP_nil]
    exact congrArg₂ (fun biased handoffs => { s with ownerBiasedWrites := biased, ownerHandoffs := handoffs })
      (UInt64.add_zero _).symm (UInt64.add_zero _).symm
  | cons w writes ih =>
    rw [List.foldl_cons, ih]
    cases biased : w.ownerBiased <;> cases handoff : w.ownerHandoff <;>
      simp [biased, handoff, StatsCollector.incOwnerBiasedWrite, StatsCollector.incOwnerHandoff, next]

theorem recordFlush_eq (s : StatsCollector) (batch : DrainedRemoteWriteBatch) :
    recordFlush s batch =
      { s with
        ownerBiasedWrites := s.ownerBiasedWrites + .ofNat (batch.writes.countP (·.ownerBiased))
        ownerHandoffs := s.ownerHandoffs + .ofNat (batch.writes.countP (·.ownerHandoff))
        flushedRemoteBatches := s.flushedRemoteBatches + if batch.writes.isEmpty then 0 else 1
        flushedRemoteWrites := s.flushedRemoteWrites + .ofNat batch.writes.length
        flushedRemoteWriteBytes := s.flushedRemoteWriteBytes + if batch.writes.isEmpty then 0 else batch.totalBytes } := by
  unfold recordFlush
  rw [foldl_ownerFlags]
  cases batch.writes with
  | nil => simp
  | cons w writes => simp [StatsCollector.addFlushedRemoteBatch]

/-- Two flushes are counted in either order. -/
theorem recordFlush_comm (s : StatsCollector) (a b : DrainedRemoteWriteBatch) :
    recordFlush (recordFlush s a) b = recordFlush (recordFlush s b) a := by
  have swap (n x y : UInt64) : n + x + y = n + y + x := by rw [UInt64.add_assoc, UInt64.add_comm x, UInt64.add_assoc]
  simp only [recordFlush_eq]
  rw [swap s.ownerBiasedWrites, swap s.ownerHandoffs, swap s.flushedRemoteBatches, swap s.flushedRemoteWrites,
    swap s.flushedRemoteWriteBytes]

/-- The counters after the queues of `nodes` are flushed one by one. -/
def recordFlushes (q : WriteQueues) (s : StatsCollector) (nodes : List NodeId) : StatsCollector :=
  nodes.foldl (fun s n => recordFlush s (.ofQueue (q.of n))) s

theorem recordFlushes_perm (q : WriteQueues) (s : StatsCollector) {nodes nodes' : List NodeId} (perm : nodes.Perm nodes') :
    recordFlushes q s nodes = recordFlushes q s nodes' :=
  perm.foldl_eq' (fun _ _ _ _ s => recordFlush_comm s _ _) s

theorem recordFlush_ofQueue (s : StatsCollector) (queue : List PendingRemoteWrite) :
    (recordFlush s (.ofQueue queue)).flushedRemoteWrites = s.flushedRemoteWrites + .ofNat queue.length ∧
      (recordFlush s (.ofQueue queue)).flushedRemoteWriteBytes =
        s.flushedRemoteWriteBytes + .ofNat (queueBytes queue) := by
  rw [recordFlush_eq]
  refine ⟨rfl, ?_⟩
  cases queue with
  | nil => rfl
  | cons w queue =>
    change _ + (w :: queue).foldl _ 0 = _
    rw [foldl_payloads, UInt64.zero_add]

theorem recordFlushes_flushed (q : WriteQueues) (s : StatsCollector) (nodes : List NodeId) :
    (recordFlushes q s nodes).flushedRemoteWrites =
        s.flushedRemoteWrites + .ofNat (nodes.map fun n => (q.of n).length).sum ∧
      (recordFlushes q s nodes).flushedRemoteWriteBytes =
        s.flushedRemoteWriteBytes + .ofNat (nodes.map fun n => queueBytes (q.of n)).sum := by
  induction nodes generalizing s with
  | nil => exact ⟨(UInt64.add_zero _).symm, (UInt64.add_zero _).symm⟩
  | cons n nodes ih =>
    obtain ⟨writes, bytes⟩ := ih (recordFlush s (.ofQueue (q.of n)))
    obtain ⟨here, hereBytes⟩ := recordFlush_ofQueue s (q.of n)
    rw [here, UInt64.add_assoc, ← UInt64.ofNat_add] at writes
    rw [hereBytes, UInt64.add_assoc, ← UInt64.ofNat_add] at bytes
    exact ⟨writes, bytes⟩

/-! ## Flushing in bounds -/

section
variable {cfg : Config} {ctx : RuntimeContext StubTransport}

/-- The entries of a queue laid over a region, in order. -/
def deliver (queue : List PendingRemoteWrite) (region : Bytes) : Bytes :=
  queue.foldl (fun region e => region.blit e.addr.offset.toNat e.payload) region

theorem overlayAll_requests (queue : List PendingRemoteWrite) (region : Bytes) :
    overlayAll (queue.map PendingRemoteWrite.request) region = deliver queue region :=
  List.foldl_map

/-- All that is pending lies in its home's region. -/
def PendingInBounds (cfg : Config) (ctx : RuntimeContext StubTransport) : Prop :=
  ∀ node, ∀ e ∈ ctx.queues.of node, InBounds cfg e.addr e.payload.size

theorem flushDestination_stats {node : NodeId} (ok : (flushDestination ctx node).1 = .kOk) :
    (flushDestination ctx node).2.stats = recordFlush ctx.stats (.ofQueue (ctx.queues.of node)) := by
  rw [← WriteQueues.drainRemoteWrites_batch]
  unfold flushDestination at ok ⊢
  simp only at ok ⊢
  generalize (if ((ctx.queues.drainRemoteWrites node).1.writes.map PendingRemoteWrite.request).isEmpty then _ else _) = r
    at ok ⊢
  split at ok
  · rename_i failed
    exact absurd ok failed
  · rename_i passed
    rw [if_neg passed]
    rfl

/-- **A flush in bounds** lays its queue over its destination's region, and touches nothing else. -/
theorem WellQueued.flush_delivers (well : WellQueued cfg ctx) (inside : PendingInBounds cfg ctx) (node : NodeId) :
    (flushDestination ctx node).1 = .kOk ∧
      (flushDestination ctx node).2.stats = recordFlush ctx.stats (.ofQueue (ctx.queues.of node)) ∧
      ∀ n, (flushDestination ctx node).2.transport.regions cfg n =
        if n = node then deliver (ctx.queues.of n) (ctx.transport.regions cfg n) else ctx.transport.regions cfg n := by
  have flushed := flushDestination_flushed ctx node
  have sent : (flushDestination ctx node).1 = .kOk ∧ ∀ n, (flushDestination ctx node).2.transport.regions cfg n =
      if n = node then deliver (ctx.queues.of n) (ctx.transport.regions cfg n) else ctx.transport.regions cfg n := by
    by_cases empty : ctx.queues.of node = []
    · have written := flushed.written
      rw [if_pos empty] at written
      obtain ⟨ok, transport⟩ := Prod.mk.inj written
      refine ⟨ok, fun n => ?_⟩
      rw [transport]
      split
      · rename_i here
        rw [here, empty]
        rfl
      · rfl
    · obtain ⟨e, rest, filled⟩ := List.exists_cons_of_ne_nil empty
      have remote : node ≠ cfg.nodeId := (well.queued node e (filled ▸ List.mem_cons_self)).2
      have fits : ∀ req ∈ (ctx.queues.of node).map PendingRemoteWrite.request,
          req.addr.homeNode = node ∧ InBounds cfg req.addr req.buf.size := by
        intro req member
        obtain ⟨e, queued, rfl⟩ := List.mem_map.mp member
        exact ⟨(well.queued node e queued).1, inside node e queued⟩
      obtain ⟨ok, -, -, regions⟩ := batchWrite_regions well.shaped ctx.allocator remote fits
      have written := flushed.written
      rw [if_neg empty, well.config] at written
      obtain ⟨status, transport⟩ := Prod.mk.inj written
      refine ⟨status.trans ok, fun n => ?_⟩
      rw [transport]
      refine (regions n).trans ?_
      split
      · rename_i here
        rw [overlayAll_requests, here]
      · rfl
  exact ⟨sent.1, flushDestination_stats sent.1, sent.2⟩

theorem PendingInBounds.flush (inside : PendingInBounds cfg ctx) (node : NodeId) :
    PendingInBounds cfg (flushDestination ctx node).2 := by
  intro n e member
  rw [(flushDestination_flushed ctx node).queues] at member
  split at member
  · cases member
  · exact inside n e member

/-- **The flush loop of a fence**: each destination's queue is laid over its region once. -/
theorem WellQueued.flushAll_delivers (well : WellQueued cfg ctx) (inside : PendingInBounds cfg ctx) {nodes : List NodeId}
    (distinct : nodes.Nodup) :
    (flushDestinations ctx nodes).1 = .kOk ∧
      (flushDestinations ctx nodes).2.stats = recordFlushes ctx.queues ctx.stats nodes ∧
      ∀ n, (flushDestinations ctx nodes).2.transport.regions cfg n =
        if n ∈ nodes then deliver (ctx.queues.of n) (ctx.transport.regions cfg n) else ctx.transport.regions cfg n := by
  induction nodes generalizing ctx with
  | nil => exact ⟨rfl, rfl, fun _ => rfl⟩
  | cons node nodes ih =>
    obtain ⟨fresh, distinct⟩ := List.nodup_cons.mp distinct
    obtain ⟨ok, stats, regions⟩ := well.flush_delivers inside node
    obtain ⟨ok', stats', regions'⟩ := ih (well.flush node) (inside.flush node) distinct
    have queues := (flushDestination_flushed ctx node).queues
    have away : ∀ n ∈ nodes, n ≠ node := fun n member here => fresh (here ▸ member)
    have others : ∀ n ∈ nodes, (flushDestination ctx node).2.queues.of n = ctx.queues.of n := by
      intro n member
      rw [queues, if_neg (away n member)]
    unfold flushDestinations
    simp only [ok, ne_eq, not_true_eq_false, if_false]
    refine ⟨ok', ?_, fun n => ?_⟩
    · rw [stats', stats]
      exact List.foldl_ext _ _ _ fun s n member => by rw [others n member]
    · rw [regions', regions]
      by_cases later : n ∈ nodes
      · rw [if_pos later, if_pos (List.mem_cons_of_mem _ later), others n later, if_neg (away n later)]
      · by_cases here : n = node
        · rw [if_neg later, if_pos here, if_pos (here ▸ List.mem_cons_self)]
        · rw [if_neg later, if_neg here, if_neg (by simp [here, later])]

/-- What a fence owes: it succeeds, leaves nothing pending, lays every queue over its
destination's region and counts its entries and their bytes. -/
structure FenceDelivers (cfg : Config) (ctx : RuntimeContext StubTransport) (r : Status × RuntimeContext StubTransport) :
    Prop where
  status : r.1 = .kOk
  drained : ∀ ord, r.2.queues.pendingDestinations ord = []
  memories : ∀ n, r.2.transport.regions cfg n = deliver (ctx.queues.of n) (ctx.transport.regions cfg n)
  writes : r.2.stats.flushedRemoteWrites = ctx.stats.flushedRemoteWrites + .ofNat ctx.queues.pending
  bytes : r.2.stats.flushedRemoteWriteBytes = ctx.stats.flushedRemoteWriteBytes + .ofNat ctx.queues.pendingBytes

/-- **A fence with everything in bounds**, from any settled node. -/
theorem WellQueued.fence_delivers (well : WellQueued cfg ctx) (inside : PendingInBounds cfg ctx) (settled : Settled 2 ctx)
    (ready : ctx.initialized = true) (ord : IterOrder) :
    FenceDelivers cfg ctx (lmFence ord ctx) ∧
      (lmFence ord ctx).2.stats = recordFlushes ctx.queues ctx.stats (ctx.queues.pendingDestinations ord) := by
  have wellSettled : WellQueued cfg (settle ctx) := ⟨well.config, well.shaped, well.queued⟩
  obtain ⟨ok, stats, regions⟩ := wellSettled.flushAll_delivers inside (WriteQueues.nodup_pendingDestinations ord ctx.queues)
  have fenced := settled.fence_eq ready ok
  have counted : (lmFence ord ctx).2.stats = recordFlushes ctx.queues ctx.stats (ctx.queues.pendingDestinations ord) := by
    rw [fenced]
    exact stats
  obtain ⟨writes, bytes⟩ := recordFlushes_flushed ctx.queues ctx.stats (ctx.queues.pendingDestinations ord)
  rw [WriteQueues.sum_pendingDestinations ord ctx.queues (f := List.length) rfl] at writes
  rw [WriteQueues.sum_pendingDestinations ord ctx.queues (f := queueBytes) rfl] at bytes
  have status : (lmFence ord ctx).1 = .kOk := by rw [fenced]
  refine ⟨⟨status, fun ord' => ?_, fun n => ?_, counted ▸ writes, counted ▸ bytes⟩, counted⟩
  · refine List.eq_nil_iff_forall_not_mem.mpr fun n member => ?_
    exact WriteQueues.mem_pendingDestinations.mp member (lmFence_ok (StubTransport.controlKeeps_regions cfg) status n)
  · rw [fenced]
    refine (regions n).trans ?_
    split
    · rfl
    · rename_i idle
      -- a destination that is not pending has an empty queue
      have empty : ctx.queues.of n = [] := not_not.mp (mt WriteQueues.mem_pendingDestinations.mpr idle)
      rw [empty]
      rfl

end

theorem initialized_run (cfg : Config) (calls : List Invocation) :
    (run exec (stubNode cfg) calls).2.initialized = true :=
  run_keeps (I := fun c : RuntimeContext StubTransport => c.initialized = true)
    (fun c i ready => (exec_setup c i).2.1.trans ready) calls rfl

/-- **A fence delivers what is pending**, once and in queue order, and no order of the
destinations shows in the memories or the counters. -/
theorem fence_delivers_pending (cfg : Config) (calls : List Invocation)
    (inside : PendingInBounds cfg (run exec (stubNode cfg) calls).2) (ord : IterOrder) :
    FenceDelivers cfg (run exec (stubNode cfg) calls).2 (lmFence ord (run exec (stubNode cfg) calls).2) ∧
      ∀ ord', (lmFence ord' (run exec (stubNode cfg) calls).2).2.transport.regions cfg =
          (lmFence ord (run exec (stubNode cfg) calls).2).2.transport.regions cfg ∧
        (lmFence ord' (run exec (stubNode cfg) calls).2).2.stats = (lmFence ord (run exec (stubNode cfg) calls).2).2.stats := by
  have well := wellQueued_run cfg calls
  have settled := (run_keeps (fun _ i node => node.exec i) calls (settledNode_stubNode cfg)).settled
  have ready := initialized_run cfg calls
  obtain ⟨delivered, counted⟩ := well.fence_delivers inside settled ready ord
  refine ⟨delivered, fun ord' => ?_⟩
  obtain ⟨delivered', counted'⟩ := well.fence_delivers inside settled ready ord'
  refine ⟨funext fun n => (delivered'.memories n).trans (delivered.memories n).symm, ?_⟩
  rw [counted, counted']
  exact recordFlushes_perm _ _ (WriteQueues.pendingDestinations_perm ord' ord _)

theorem pendingInBounds_of_entries {cfg : Config} {ctx : RuntimeContext StubTransport}
    (all : ∀ queue ∈ ctx.queues.entries, ∀ e ∈ queue.2, InBounds cfg e.addr e.payload.size) : PendingInBounds cfg ctx := by
  intro node e member
  cases found : ctx.queues.lookup node with
  | none =>
    rw [WriteQueues.of, found] at member
    cases member
  | some queue =>
    rw [WriteQueues.of, found] at member
    exact all ⟨node, queue⟩ (HashMap.mem_entries.mpr found) e member

/-- Three nodes in SI mode that wait for four writes. -/
def fourWaiting : Config :=
  { nrNodes := 3, blockSize := 4, localRegionSize := 16, coherenceModeOverride := 1, remoteWriteBatchThreshold := 4 }

/-- Two entries for node 1 and one for node 2. -/
def threePending : List Invocation :=
  [⟨.stored, .write ⟨1, 0, 0⟩ (.ofList [1])⟩, ⟨.stored, .write ⟨2, 0, 4⟩ (.ofList [2, 3])⟩,
    ⟨.stored, .write ⟨1, 0, 8⟩ (.ofList [4])⟩]

theorem threePending_delivered :
    FenceDelivers fourWaiting (run exec (stubNode fourWaiting) threePending).2
        (lmFence .stored (run exec (stubNode fourWaiting) threePending).2) ∧
      (run exec (stubNode fourWaiting) threePending).2.queues.pending = 3 ∧
      (run exec (stubNode fourWaiting) threePending).2.queues.pendingBytes = 4 := by
  have inside : PendingInBounds fourWaiting (run exec (stubNode fourWaiting) threePending).2 :=
    pendingInBounds_of_entries (by decide +kernel)
  exact ⟨(fence_delivers_pending fourWaiting threePending inside .stored).1, by decide +kernel, by decide +kernel⟩

end LeoMem
