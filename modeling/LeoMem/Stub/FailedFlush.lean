import LeoMem.Lib.Run
import LeoMem.Stub.Memory
import LeoMem.Api.Queued

/-!
# Flushes that fail

A flush drains its destination's queue before it calls `BatchWrite`, and returns
at the first error. What the batch had not applied by then is in neither the
queue nor the region, so a failed flush loses no accepted write exactly when every
accepted entry of the batch is in bounds (`failed_flush_keeps_accepted_iff`).
-/

namespace LeoMem
open Lib RuntimeContext

/-- The requests `batchWriteWith` applies before the first that fails. -/
def batchApplied {ω : Type} (write : GlobalAddr → Bytes → ω → Status × ω) : List RemoteWriteRequest → ω → Nat
  | [], _ => 0
  | req :: reqs, w =>
    let r := write req.addr req.buf w
    if r.1 ≠ .kOk then 0 else batchApplied write reqs r.2 + 1

/-! ## Where a call flushes -/

/-- A call of `FlushDestination`. -/
structure FlushPoint (ω : Type) where
  ctx : RuntimeContext ω
  node : NodeId
  /-- How many entries at the front of the queue hold writes of earlier calls. -/
  accepted : Nat

section
variable {ω : Type} [Transport ω]

/-- The context in which `lm_write` calls `FlushDestination`, if it gets that far. -/
def writeFlushPoint (ord : IterOrder) (ctx : RuntimeContext ω) (addr : GlobalAddr) (buf : Bytes) :
    Option (RuntimeContext ω) :=
  match openAccess ord ctx addr buf.size with
  | (.error _, _) => none
  | (.ok range, ctx) =>
    let modes := (touchMetadata ctx addr range .kWrite).1
    let touched := (touchMetadata ctx addr range .kWrite).2
    let metas := range.ids addr.regionId
    let applied := applyWriteMetadata touched.config addr (metas.zip modes) { table := touched.blockTable }
    let posted := postWriteMessages { touched with blockTable := applied.table } addr range modes applied.ownerHandoff
      (maxObservedVersion applied.table metas)
    let staged := stageWrite (dropCopies ord posted.2 addr buf.size modes) addr buf modes applied.ownerBiased
      applied.ownerHandoff
    if addr.homeNode ≠ ctx.config.nodeId ∧ postFailed posted.1 = false ∧
        posted.2.config.enableWriteBatching = true ∧
        (hasMode modes .kWI || staged.queues.shouldFlushDestination addr.homeNode
          (mostAggressiveBatchThreshold staged.config modes)) = true then some staged
    else none

/-- The flushes of `lm_fence`'s loop. -/
def loopFlushPoints (ctx : RuntimeContext ω) : List NodeId → List (FlushPoint ω)
  | [] => []
  | node :: nodes =>
    let r := flushDestination ctx node
    ⟨ctx, node, (ctx.queues.of node).length⟩ :: if r.1 ≠ .kOk then [] else loopFlushPoints r.2 nodes

/-- The flushes of one call. -/
def flushPoints (ctx : RuntimeContext ω) (i : Invocation) : List (FlushPoint ω) :=
  match i.call with
  | .write addr buf =>
    match writeFlushPoint i.ord ctx addr buf with
    | none => []
    | some staged => [⟨staged, addr.homeNode, (ctx.queues.of addr.homeNode).length⟩]
  | .fence =>
    let ctrl := drainControl i.ord ctx
    if ctx.initialized = true ∧ ctrl.1 = .kOk then
      loopFlushPoints ctrl.2 (ctrl.2.queues.pendingDestinations i.ord)
    else []
  | _ => []

theorem writeData_of_failed_flush {ord : IterOrder} {ctx staged : RuntimeContext ω} {addr : GlobalAddr} {buf : Bytes}
    {modes : List CoherenceMode} {ownerBiased ownerHandoff : Bool} (batching : ctx.config.enableWriteBatching = true)
    (stage : stageWrite (dropCopies ord ctx addr buf.size modes) addr buf modes ownerBiased ownerHandoff = staged)
    (due : (hasMode modes .kWI || staged.queues.shouldFlushDestination addr.homeNode
      (mostAggressiveBatchThreshold staged.config modes)) = true)
    (failed : (flushDestination staged addr.homeNode).1 ≠ .kOk) :
    writeData ord ctx addr buf modes ownerBiased ownerHandoff = flushDestination staged addr.homeNode := by
  have on : ¬ (dropCopies ord ctx addr buf.size modes).config.enableWriteBatching = false := by
    change ¬ ctx.config.enableWriteBatching = false
    simp [batching]
  unfold writeData
  simp only
  rw [if_neg on]
  unfold writeBatched
  simp only [stage]
  rw [if_pos due, if_pos failed]

/-- A flush that fails ends `lm_write`. -/
theorem lmWrite_of_failed_flush {ord : IterOrder} {ctx staged : RuntimeContext ω} {addr : GlobalAddr} {buf : Bytes}
    (point : writeFlushPoint ord ctx addr buf = some staged)
    (failed : (flushDestination staged addr.homeNode).1 ≠ .kOk) :
    lmWrite ord ctx addr buf = flushDestination staged addr.homeNode := by
  unfold writeFlushPoint at point
  split at point
  · cases point
  rename_i range opened result
  simp only at point
  split at point
  · rename_i reached
    obtain ⟨remote, sent, batching, due⟩ := reached
    injection point with point
    rw [lmWrite_remote result remote, writeRemote, if_neg (by simp [sent])]
    exact writeData_of_failed_flush batching point (point ▸ due) failed
  · cases point

/-- A flush that fails ends the loop of `lm_fence`. -/
theorem flushDestinations_of_failed_flush {ctx : RuntimeContext ω} {nodes : List NodeId} {p : FlushPoint ω}
    (point : p ∈ loopFlushPoints ctx nodes) (failed : (flushDestination p.ctx p.node).1 ≠ .kOk) :
    flushDestinations ctx nodes = flushDestination p.ctx p.node := by
  induction nodes generalizing ctx with
  | nil => cases point
  | cons node nodes ih =>
    unfold loopFlushPoints at point
    unfold flushDestinations
    simp only at point ⊢
    rcases List.mem_cons.mp point with rfl | later
    · rw [if_pos failed]
    · split at later
      · cases later
      · rename_i ok
        rw [if_neg ok]
        exact ih later

/-- **A flush that fails ends the call**, with its status and in its state. -/
theorem exec_of_failed_flush {ctx : RuntimeContext ω} {i : Invocation} {p : FlushPoint ω}
    (point : p ∈ flushPoints ctx i) (failed : (flushDestination p.ctx p.node).1 ≠ .kOk) :
    exec ctx i = (.status (flushDestination p.ctx p.node).1, (flushDestination p.ctx p.node).2) := by
  obtain ⟨ord, call⟩ := i
  cases call with
  | write addr buf =>
    simp only [flushPoints] at point
    split at point
    · cases point
    · rename_i staged reached
      obtain rfl := List.mem_singleton.mp point
      simp only [exec, lmWrite_of_failed_flush reached failed]
  | fence =>
    simp only [flushPoints] at point
    split at point
    · rename_i ready
      have ended := flushDestinations_of_failed_flush point failed
      simp only [exec, lmFence]
      rw [if_neg (by simp [ready.1]), if_neg (by simp [ready.2]), ended, if_pos failed]
    · cases point
  | malloc size => cases point
  | free addr => cases point
  | read addr size => cases point

end

/-! ## What the stub applies -/

/-- The sum the stub compares with the size of a remote region is within it. -/
def PassesCheck (cfg : Config) (addr : GlobalAddr) (size : UInt64) : Prop := addr.offset + size ≤ cfg.localRegionSize

namespace StubTransport
variable {cfg : Config} {t : StubTransport}

theorem write_ok_iff (shaped : Shaped cfg (t.regions cfg)) (d : DsmAllocator) {addr : GlobalAddr}
    (remote : addr.homeNode ≠ cfg.nodeId) (buf : Bytes) :
    (write cfg d addr buf t).1 = .kOk ↔ PassesCheck cfg addr buf.size := by
  have full := shaped addr.homeNode remote
  rw [regions_remote t remote] at full
  unfold write PassesCheck
  rw [if_neg remote]
  simp only [full]
  split
  · rename_i outside
    simpa using outside
  · rename_i inside
    simpa using inside

/-- Whatever is written, the regions keep their size. -/
theorem shaped_write (shaped : Shaped cfg (t.regions cfg)) (d : DsmAllocator) (addr : GlobalAddr) (buf : Bytes) :
    Shaped cfg ((write cfg d addr buf t).2.regions cfg) := by
  have region : ∀ n, n ≠ cfg.nodeId → (t.region cfg n).size = cfg.localRegionSize := fun n away =>
    (congrArg Bytes.size (regions_remote t away)).symm.trans (shaped n away)
  intro n away
  rw [regions_remote _ away]
  unfold write
  split
  · split <;> exact region n away
  · rename_i remote
    simp only
    split
    · rw [region_prepared]
      exact region n away
    · rw [region_setRegion]
      split
      · split
        · exact Bytes.size_zeros _
        · rw [Bytes.size_blit, region _ remote]
      · rw [region_prepared]
        exact region n away

theorem shaped_batchWrite (shaped : Shaped cfg (t.regions cfg)) (d : DsmAllocator) (reqs : List RemoteWriteRequest) :
    Shaped cfg ((batchWriteWith (write cfg d) reqs t).2.regions cfg) :=
  batchWriteWith_keeps (I := fun t : StubTransport => Shaped cfg (t.regions cfg))
    (fun req _ _ shaped => shaped_write shaped d req.addr req.buf) shaped

/-- A batch applies the requests before the first that does not pass the check. -/
theorem lt_batchApplied_iff (shaped : Shaped cfg (t.regions cfg)) (d : DsmAllocator) {reqs : List RemoteWriteRequest}
    (remote : ∀ req ∈ reqs, req.addr.homeNode ≠ cfg.nodeId) (k : Nat) :
    k < batchApplied (write cfg d) reqs t ↔
      k < reqs.length ∧ ∀ j req, j ≤ k → reqs[j]? = some req → PassesCheck cfg req.addr req.buf.size := by
  induction reqs generalizing t k with
  | nil => simp [batchApplied]
  | cons req reqs ih =>
    have here := write_ok_iff shaped d (remote req List.mem_cons_self) req.buf
    have rest := ih (shaped_write shaped d req.addr req.buf)
      fun later member => remote later (List.mem_cons_of_mem _ member)
    unfold batchApplied
    simp only
    split
    · rename_i failed
      refine ⟨fun impossible => absurd impossible (Nat.not_lt_zero k), fun passes => ?_⟩
      exact absurd (here.mpr (passes.2 0 req (Nat.zero_le k) rfl)) failed
    · rename_i ok
      have first := here.mp (not_not.mp ok)
      cases k with
      | zero =>
        refine ⟨fun _ => ⟨by simp, fun j found le at_j => ?_⟩, fun _ => Nat.succ_pos _⟩
        obtain rfl := Nat.le_zero.mp le
        simp only [List.getElem?_cons_zero, Option.some.injEq] at at_j
        exact at_j ▸ first
      | succ k =>
        rw [Nat.add_lt_add_iff_right, rest, List.length_cons, Nat.add_lt_add_iff_right]
        refine and_congr_right fun _ => ⟨fun later j found le at_j => ?_, fun all j found le at_j => ?_⟩
        · cases j with
          | zero =>
            simp only [List.getElem?_cons_zero, Option.some.injEq] at at_j
            exact at_j ▸ first
          | succ j => exact later j found (Nat.le_of_succ_le_succ le) (by simpa using at_j)
        · exact all (j + 1) found (Nat.succ_le_succ le) (by simpa using at_j)

end StubTransport

/-! ## The queues of a reachable state -/

/-- Every pending write is queued for its home, another node, and the regions have their size. -/
structure WellQueued (cfg : Config) (ctx : RuntimeContext StubTransport) : Prop where
  config : ctx.config = cfg
  shaped : Shaped cfg (ctx.transport.regions cfg)
  queued : ∀ n, ∀ e ∈ ctx.queues.of n, e.addr.homeNode = n ∧ n ≠ cfg.nodeId

section
variable {cfg : Config} {ctx ctx' : RuntimeContext StubTransport}

theorem wellQueued_stubNode (cfg : Config) : WellQueued cfg (stubNode cfg) :=
  ⟨rfl, StubTransport.shaped_init cfg, fun _ _ member => (by cases member)⟩

theorem WellQueued.control (well : WellQueued cfg ctx) (step : ControlStep (StubTransport.regions cfg) ctx ctx') :
    WellQueued cfg ctx' :=
  ⟨step.config.trans well.config, step.transport ▸ well.shaped, step.queues ▸ well.queued⟩

/-- What is pending, as a rule for the node's queues: every batch keeps the regions' size. -/
theorem queueRule_well (cfg : Config) :
    QueueRule (StubTransport.regions cfg) cfg (fun n e => e.addr.homeNode = n ∧ n ≠ cfg.nodeId)
      fun t => Shaped cfg (t.regions cfg) where
  absorb _ _ _ old _ _ := old
  batch _ d _ _ _ shaped := StubTransport.shaped_batchWrite shaped d _
  congr _ _ same shaped := same ▸ shaped

theorem WellQueued.pending (well : WellQueued cfg ctx) :
    Queued cfg (fun n e => e.addr.homeNode = n ∧ n ≠ cfg.nodeId) (fun t => Shaped cfg (t.regions cfg)) ctx :=
  ⟨well.config, well.queued, well.shaped⟩

theorem WellQueued.flush (well : WellQueued cfg ctx) (node : NodeId) : WellQueued cfg (flushDestination ctx node).2 := by
  obtain ⟨config, queued, shaped⟩ := well.pending.flush (queueRule_well cfg) node
  exact ⟨config, shaped, queued⟩

/-- Every call keeps the queues in order, whatever it is given and whatever it returns. -/
theorem WellQueued.exec (well : WellQueued cfg ctx) (i : Invocation) : WellQueued cfg (LeoMem.exec ctx i).2 := by
  obtain ⟨config, queued, shaped⟩ := well.pending.exec (queueRule_well cfg) (StubTransport.controlKeeps_regions cfg)
    (StubTransport.readKeeps_regions cfg) i (fun _ _ _ away _ at_addr _ => ⟨congrArg _ at_addr, away⟩)
    fun addr buf _ d _ shaped => StubTransport.shaped_write shaped d addr buf
  exact ⟨config, shaped, queued⟩

variable {addr : GlobalAddr} {buf : Bytes}

theorem wellQueued_run (cfg : Config) (calls : List Invocation) : WellQueued cfg (run exec (stubNode cfg) calls).2 :=
  run_keeps (fun _ i well => well.exec i) calls (wellQueued_stubNode cfg)

theorem WellQueued.stage (well : WellQueued cfg ctx) (remote : addr.homeNode ≠ cfg.nodeId)
    (batching : ctx.config.enableWriteBatching = true) (filled : buf.size ≠ 0) (modes : List CoherenceMode)
    (ownerBiased ownerHandoff : Bool) : WellQueued cfg (stageWrite ctx addr buf modes ownerBiased ownerHandoff) := by
  refine ⟨well.config, well.shaped, fun n e member => ?_⟩
  rw [stageWrite_queues addr batching filled] at member
  split at member
  · rename_i here
    exact here ▸ enqueue_forall (fun _ old _ _ => ⟨old.1, old.2⟩) (well.queued addr.homeNode) ⟨rfl, remote⟩ e member
  · exact well.queued n e member

theorem WellQueued.dropAndStage (well : WellQueued cfg ctx) (ord : IterOrder) (remote : addr.homeNode ≠ cfg.nodeId)
    (batching : ctx.config.enableWriteBatching = true) (filled : buf.size ≠ 0) (modes : List CoherenceMode)
    (ownerBiased ownerHandoff : Bool) :
    WellQueued cfg (stageWrite (dropCopies ord ctx addr buf.size modes) addr buf modes ownerBiased ownerHandoff) := by
  have dropped : WellQueued cfg (dropCopies ord ctx addr buf.size modes) := ⟨well.config, well.shaped, well.queued⟩
  exact dropped.stage remote batching filled modes ownerBiased ownerHandoff

/-- The state in which `lm_write` flushes. -/
theorem WellQueued.writeFlushPoint (well : WellQueued cfg ctx) {ord : IterOrder}
    (point : writeFlushPoint ord ctx addr buf = some ctx') : WellQueued cfg ctx' := by
  have control := StubTransport.controlKeeps_regions cfg
  unfold LeoMem.writeFlushPoint at point
  split at point
  · cases point
  rename_i range opened result
  have step := controlStep_openAccess control ctx ord addr buf.size
  rw [result] at step
  have touched := step.trans (controlStep_touchMetadata _ opened addr range .kWrite)
  have filled := openAccess_filled result
  simp only at point
  split at point
  · rename_i reached
    obtain ⟨remote, -, batching, -⟩ := reached
    injection point with stage
    subst stage
    rw [step.config, well.config] at remote
    refine WellQueued.dropAndStage ((well.control touched).control ?_) ord remote batching filled _ _ _
    exact (controlStep_bookkeeping _ _ _ _ _ _).trans (controlStep_postWriteMessages control.post _ addr range _ _ _)
  · cases point

theorem WellQueued.loopFlushPoints (well : WellQueued cfg ctx) {nodes : List NodeId} {p : FlushPoint StubTransport}
    (point : p ∈ loopFlushPoints ctx nodes) : WellQueued cfg p.ctx := by
  induction nodes generalizing ctx with
  | nil => cases point
  | cons node nodes ih =>
    unfold LeoMem.loopFlushPoints at point
    rcases List.mem_cons.mp point with rfl | later
    · exact well
    · split at later
      · cases later
      · exact ih (well.flush node) later

theorem WellQueued.flushPoints (well : WellQueued cfg ctx) {i : Invocation} {p : FlushPoint StubTransport}
    (point : p ∈ flushPoints ctx i) : WellQueued cfg p.ctx := by
  obtain ⟨ord, call⟩ := i
  cases call with
  | write addr buf =>
    simp only [LeoMem.flushPoints] at point
    split at point
    · cases point
    · rename_i staged reached
      obtain rfl := List.mem_singleton.mp point
      exact well.writeFlushPoint reached
  | fence =>
    simp only [LeoMem.flushPoints] at point
    split at point
    · have drained := controlStep_drainControl (StubTransport.controlKeeps_regions cfg) ctx ord
      exact (well.control drained).loopFlushPoints point
    · cases point
  | malloc size => cases point
  | free addr => cases point
  | read addr size => cases point

end

/-! ## Accepted writes -/

/-- The entries of the batch that `BatchWrite` applies. -/
def FlushPoint.applied (p : FlushPoint StubTransport) : Nat :=
  batchApplied (StubTransport.write p.ctx.config p.ctx.allocator)
    ((p.ctx.queues.of p.node).map PendingRemoteWrite.request) p.ctx.transport

/-- Every entry of an earlier call that is pending when `i` flushes is applied by the flush or
still pending after `i`. -/
def KeepsAccepted (ctx : RuntimeContext StubTransport) (i : Invocation) (p : FlushPoint StubTransport) : Prop :=
  ∀ n k e, (p.ctx.queues.of n)[k]? = some e → (n = p.node → k < p.accepted) →
    (n = p.node ∧ k < p.applied) ∨ e ∈ (exec ctx i).2.queues.of n

/-- **A failed flush loses no accepted write** exactly when every accepted entry of its batch
passes the bounds check, whatever run led to it. -/
theorem failed_flush_keeps_accepted_iff (cfg : Config) (calls : List Invocation) (i : Invocation)
    (p : FlushPoint StubTransport) (point : p ∈ flushPoints (run exec (stubNode cfg) calls).2 i)
    (failed : (flushDestination p.ctx p.node).1 ≠ .kOk) :
    KeepsAccepted (run exec (stubNode cfg) calls).2 i p ↔
      ∀ k e, k < p.accepted → (p.ctx.queues.of p.node)[k]? = some e → PassesCheck cfg e.addr e.payload.size := by
  have well := (wellQueued_run cfg calls).flushPoints point
  have flushed := flushDestination_flushed p.ctx p.node
  have applied : ∀ k e, (p.ctx.queues.of p.node)[k]? = some e →
      (k < p.applied ↔
        ∀ j f, j ≤ k → (p.ctx.queues.of p.node)[j]? = some f → PassesCheck cfg f.addr f.payload.size) := by
    intro k e found
    unfold FlushPoint.applied
    rw [well.config, StubTransport.lt_batchApplied_iff well.shaped]
    · have bound := (List.getElem?_eq_some_iff.mp found).1
      simp only [List.length_map, bound, true_and, List.getElem?_map, Option.map_eq_some_iff]
      refine ⟨fun all j f le at_j => all j f.request le ⟨f, at_j, rfl⟩, ?_⟩
      rintro all j _ le ⟨f, at_j, rfl⟩
      exact all j f le at_j
    · intro req member
      obtain ⟨f, queued, rfl⟩ := List.mem_map.mp member
      obtain ⟨home, remote⟩ := well.queued p.node f queued
      exact home ▸ remote
  rw [KeepsAccepted, exec_of_failed_flush point failed]
  simp only [flushed.queues]
  constructor
  · intro keeps k e accepted found
    rcases keeps p.node k e found fun _ => accepted with ⟨-, sent⟩ | pending
    · exact (applied k e found).mp sent k e (Nat.le_refl k) found
    · rw [if_pos rfl] at pending
      cases pending
  · intro passes n k e found accepted
    by_cases here : n = p.node
    · subst here
      refine Or.inl ⟨rfl, (applied k e found).mpr fun j f le at_j => ?_⟩
      exact passes j f (Nat.lt_of_le_of_lt le (accepted rfl)) at_j
    · rw [if_neg here]
      exact Or.inr (List.mem_of_getElem? found)

/-- Two nodes in SI mode that flush every second write. -/
def pairConfig : Config :=
  { nrNodes := 2, blockSize := 4, localRegionSize := 16, coherenceModeOverride := 1, remoteWriteBatchThreshold := 2 }

/-- A write in bounds, pending. -/
def goodWriteFirst : List Invocation := [⟨.stored, .write ⟨1, 0, 0⟩ (.ofList [7])⟩]

/-- A write out of bounds. -/
def badWrite : Invocation := ⟨.stored, .write ⟨1, 0, 100⟩ (.ofList [2])⟩

theorem goodWriteFirst_flushes : flushPoints (run exec (stubNode pairConfig) goodWriteFirst).2 badWrite ≠ [] := by
  rw [← List.isEmpty_eq_false_iff]
  decide +kernel

/-- The flush that the write out of bounds makes due. -/
def goodWriteFirstFlush : FlushPoint StubTransport := (flushPoints _ _).head goodWriteFirst_flushes

/-- The batch applies the write that was pending and fails at the one no call had accepted. -/
theorem goodWriteFirst_kept :
    goodWriteFirstFlush ∈ flushPoints (run exec (stubNode pairConfig) goodWriteFirst).2 badWrite ∧
      (flushDestination goodWriteFirstFlush.ctx goodWriteFirstFlush.node).1 = .kOutOfRange ∧
      KeepsAccepted (run exec (stubNode pairConfig) goodWriteFirst).2 badWrite goodWriteFirstFlush := by
  have point := List.head_mem goodWriteFirst_flushes
  refine ⟨point, by decide +kernel, (failed_flush_keeps_accepted_iff pairConfig goodWriteFirst badWrite _ point
    (by decide +kernel)).mpr fun k e accepted found => ?_⟩
  have one : goodWriteFirstFlush.accepted = 1 := by decide +kernel
  have pending : (goodWriteFirstFlush.ctx.queues.of goodWriteFirstFlush.node)[0]? =
      some { addr := ⟨1, 0, 0⟩, payload := .ofList [7] } := by decide +kernel
  obtain rfl : k = 0 := Nat.lt_one_iff.mp (one ▸ accepted)
  obtain rfl := Option.some.inj (pending.symm.trans found)
  unfold PassesCheck
  decide

/-- Two nodes in SI mode that queue up to two writes. -/
def twoPendingConfig : Config := { pairConfig with remoteWriteBatchThreshold := 3 }

/-- A write out of bounds and one in bounds, both accepted. -/
def badWriteFirst : List Invocation := [badWrite, ⟨.stored, .write ⟨1, 0, 0⟩ (.ofList [7])⟩]

theorem badWriteFirst_flushes :
    flushPoints (run exec (stubNode twoPendingConfig) badWriteFirst).2 ⟨.stored, .fence⟩ ≠ [] := by
  rw [← List.isEmpty_eq_false_iff]
  decide +kernel

/-- The flush of the fence that follows them. -/
def badWriteFirstFlush : FlushPoint StubTransport := (flushPoints _ _).head badWriteFirst_flushes

/-- The fence fails at the first write and drops the second with it: the next fence succeeds
and the home still has a zero. -/
theorem badWriteFirst_lost :
    (run exec (stubNode twoPendingConfig)
        (badWriteFirst ++ [⟨.stored, .fence⟩, ⟨.stored, .fence⟩, ⟨.stored, .read ⟨1, 0, 0⟩ 1⟩])).1 =
        [.status .kOk, .status .kOk, .status .kOutOfRange, .status .kOk, .bytes (.ofList [0])] ∧
      badWriteFirstFlush ∈ flushPoints (run exec (stubNode twoPendingConfig) badWriteFirst).2 ⟨.stored, .fence⟩ ∧
      (flushDestination badWriteFirstFlush.ctx badWriteFirstFlush.node).1 = .kOutOfRange ∧
      ¬ KeepsAccepted (run exec (stubNode twoPendingConfig) badWriteFirst).2 ⟨.stored, .fence⟩ badWriteFirstFlush := by
  refine ⟨by decide +kernel, List.head_mem badWriteFirst_flushes, by decide +kernel, fun keeps => ?_⟩
  have kept := keeps 1 1 { addr := ⟨1, 0, 0⟩, payload := .ofList [7] } (by decide +kernel) (by decide +kernel)
  exact absurd kept (by decide +kernel)

end LeoMem
