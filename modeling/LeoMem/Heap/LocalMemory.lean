import LeoMem.Api.Queued
import LeoMem.Heap.Layout
import LeoMem.Stub.Session

/-!
# Home-local memory is flat

What a node reads of its own region on the stub, told by the answers of its calls
alone: which allocations it was handed and which of its local writes succeeded. No
remote access, no fence and no other allocation's write has a part in it, as long as
no `lm_malloc` wraps the bump pointer's sum and no access its range
(`local_memory_flat`). A remote range that wraps passes the stub's bounds check and is
copied outside its vector, possibly over this region.
-/

namespace LeoMem
open Lib RuntimeContext DsmAllocator

/-- The calls of a run with their answers. -/
abbrev History := List (Invocation × Response)

/-- The allocation a call handed out: its request, in whole blocks. -/
def returnedBy (cfg : Config) (e : Invocation × Response) : Option AllocationMeta :=
  match e.1.call, e.2 with
  | .malloc size, .addr a => if a.isValid then some ⟨a.offset, alignUp size cfg.blockSize⟩ else none
  | _, _ => none

/-- What a local write that succeeded laid over the region. -/
def writtenBy (cfg : Config) (e : Invocation × Response) : Option (Patch Nat UInt8) :=
  match e.1.call, e.2 with
  | .write addr buf, .status .kOk => if addr.homeNode = cfg.nodeId then some (buf.patch addr.offset.toNat) else none
  | _, _ => none

def returned (cfg : Config) (history : History) : List AllocationMeta := history.filterMap (returnedBy cfg)

def localWrites (cfg : Config) (history : History) : List (Patch Nat UInt8) := history.filterMap (writtenBy cfg)

/-- The latest byte written locally at `x`, or zero. -/
def latestByte (cfg : Config) (history : History) (x : Nat) : UInt8 := (Patch.last (localWrites cfg history) x).getD 0

/-- `[offset, offset + size)` lies inside one allocation handed out so far. -/
def Allocated (cfg : Config) (history : History) (addr : GlobalAddr) (size : UInt64) : Prop :=
  ∃ a ∈ returned cfg history, a.offset.toNat ≤ addr.offset.toNat ∧
    addr.offset.toNat + size.toNat ≤ a.offset.toNat + a.size.toNat

instance (cfg : Config) (history : History) (addr : GlobalAddr) (size : UInt64) :
    Decidable (Allocated cfg history addr size) := inferInstanceAs (Decidable (∃ a ∈ _, _ ∧ _))

/-- A local access whose range validation is reached: on the stub only its arguments can
keep it from there. -/
def ReachesValidation (cfg : Config) (addr : GlobalAddr) (size : UInt64) : Prop :=
  addr.homeNode = cfg.nodeId ∧ addr.isValid = true ∧ size ≠ 0

/-- What a flat memory answers to a call. -/
def FlatAnswer (cfg : Config) (history : History) (i : Invocation) (r : Response) : Prop :=
  match i.call with
  | .read addr size => ReachesValidation cfg addr size →
      ((∃ buf, r = .bytes buf) ↔ Allocated cfg history addr size) ∧
        ∀ buf, r = .bytes buf → buf = Bytes.tabulate size fun k => latestByte cfg history (addr.offset.toNat + k)
  | .write addr buf => ReachesValidation cfg addr buf.size →
      (r = .status .kOk ↔ Allocated cfg history addr buf.size)
  | _ => True

/-- An `lm_malloc` does not wrap the bump pointer's sum, or is refused even wrapped. -/
def MallocFits (ctx : RuntimeContext StubTransport) (i : Invocation) : Prop :=
  match i.call with
  | .malloc size => ctx.allocator.NoWrap ctx.config size
  | _ => True

/-! ### What leaves the home region alone -/

namespace StubTransport

theorem controlKeeps_localRegion : ControlKeeps localRegion where
  post cfg msg t := by
    change (postControlMessage cfg msg t).2.localRegion = _
    unfold postControlMessage
    split <;> rfl
  drain _ _ _ := rfl
  fence _ _ := rfl

theorem readKeeps_localRegion (cfg : Config) : ReadKeeps cfg localRegion := by
  intro d addr size t
  change (read cfg d addr size t).2.localRegion = _
  unfold read
  split
  · split <;> rfl
  · simp only
    split <;> rfl

variable {addr : GlobalAddr} {cfg : Config}

theorem write_remote_localRegion (remote : addr.homeNode ≠ cfg.nodeId) (d : DsmAllocator) (buf : Bytes) (t : StubTransport) :
    (write cfg d addr buf t).2.localRegion = t.localRegion := by
  unfold write
  rw [if_neg remote]
  simp only
  split <;> rfl

theorem batchWrite_remote_localRegion {requests : List RemoteWriteRequest}
    (remote : ∀ req ∈ requests, req.addr.homeNode ≠ cfg.nodeId) (d : DsmAllocator) (t : StubTransport) :
    (batchWriteWith (write cfg d) requests t).2.localRegion = t.localRegion :=
  batchWriteWith_keeps (I := fun t' => t'.localRegion = t.localRegion)
    (fun req member t' same => (write_remote_localRegion (remote req member) d req.buf t').trans same) rfl

theorem read_local {d : DsmAllocator} {size : UInt64} (home : addr.homeNode = cfg.nodeId)
    (accepted : d.validateRangeUnlocked cfg addr size = true) (t : StubTransport) :
    (read cfg d addr size t).1 = .ok (t.localRegion.slice addr.offset.toNat size) := by
  unfold read
  rw [if_pos home, DsmAllocator.translateLocal, if_pos accepted]

theorem write_local (home : addr.homeNode = cfg.nodeId) (d : DsmAllocator) (buf : Bytes) (t : StubTransport) :
    write cfg d addr buf t =
      if d.validateRangeUnlocked cfg addr buf.size then
        (.kOk, { t with localRegion := t.localRegion.blit addr.offset.toNat buf })
      else (.kOutOfRange, t) := by
  unfold write
  rw [if_pos home, DsmAllocator.translateLocal]
  cases d.validateRangeUnlocked cfg addr buf.size <;> rfl

end StubTransport

/-- No pending write is one to this node. -/
def QueuedAway (ctx : RuntimeContext StubTransport) : Prop :=
  ∀ n, ∀ w ∈ ctx.queues.of n, w.addr.homeNode ≠ ctx.config.nodeId

/-- The node's own memory is as it was. -/
structure SameHeap (ctx ctx' : RuntimeContext StubTransport) : Prop where
  initialized : ctx'.initialized = ctx.initialized
  config : ctx'.config = ctx.config
  allocator : ctx'.allocator = ctx.allocator
  region : ctx'.transport.localRegion = ctx.transport.localRegion
  away : QueuedAway ctx'

section
variable {ctx ctx' : RuntimeContext StubTransport}

theorem SameHeap.refl (away : QueuedAway ctx) : SameHeap ctx ctx := ⟨rfl, rfl, rfl, rfl, away⟩

theorem SameHeap.trans {ctx'' : RuntimeContext StubTransport} (first : SameHeap ctx ctx') (second : SameHeap ctx' ctx'') :
    SameHeap ctx ctx'' :=
  ⟨second.initialized.trans first.initialized, second.config.trans first.config, second.allocator.trans first.allocator,
    second.region.trans first.region, second.away⟩

theorem sameHeap_of_controlStep (away : QueuedAway ctx) (step : ControlStep StubTransport.localRegion ctx ctx') :
    SameHeap ctx ctx' :=
  ⟨step.initialized, step.config, step.allocator, step.transport, by
    unfold QueuedAway
    rw [step.queues, step.config]
    exact away⟩

theorem sameHeap_of_readFrame (away : QueuedAway ctx) (frame : ReadFrame StubTransport.localRegion ctx ctx') :
    SameHeap ctx ctx' :=
  ⟨frame.initialized, frame.config, frame.allocator, frame.transport, by
    unfold QueuedAway
    rw [frame.queues, frame.config]
    exact away⟩

theorem queueRule_away (cfg : Config) (region : Bytes) :
    QueueRule StubTransport.localRegion cfg (fun _ w => w.addr.homeNode ≠ cfg.nodeId) (·.localRegion = region) where
  absorb _ _ _ old _ _ := old
  batch _ d _ t queued same := by
    refine (StubTransport.batchWrite_remote_localRegion (fun req member => ?_) d t).trans same
    obtain ⟨w, among, rfl⟩ := List.mem_map.mp member
    exact queued w among
  congr _ _ kept same := kept.trans same

theorem QueuedAway.pending (away : QueuedAway ctx) :
    Queued ctx.config (fun _ w => w.addr.homeNode ≠ ctx.config.nodeId) (·.localRegion = ctx.transport.localRegion) ctx :=
  ⟨rfl, away, rfl⟩

theorem sameHeap_flush (away : QueuedAway ctx) (node : NodeId) : SameHeap ctx (flushDestination ctx node).2 := by
  have same := (flushDestination_flushed ctx node).same
  obtain ⟨-, queued, region⟩ := away.pending.flush (queueRule_away _ _) node
  exact ⟨same.initialized, same.config, same.allocator, region, fun n w member => same.config ▸ queued n w member⟩

theorem sameHeap_wrote {addr : GlobalAddr} {buf : Bytes} {modes : List CoherenceMode} {ownerBiased : Bool}
    {r : Status × RuntimeContext StubTransport} (away : QueuedAway ctx) (remote : addr.homeNode ≠ ctx.config.nodeId)
    (wrote : Wrote ctx addr buf modes ownerBiased r) : SameHeap ctx r.2 := by
  obtain ⟨-, queued, region⟩ := away.pending.wrote (queueRule_away _ _) (fun _ at_addr _ => at_addr ▸ remote)
    (fun d t same => (StubTransport.write_remote_localRegion remote d buf t).trans same) wrote
  exact ⟨wrote.same.initialized, wrote.same.config, wrote.same.allocator, region,
    fun n w member => wrote.same.config ▸ queued n w member⟩

/-- A remote write, a fence and every read leave the home region and its allocator alone. -/
theorem sameHeap_lmRead (away : QueuedAway ctx) (ord : IterOrder) (addr : GlobalAddr) (size : UInt64) :
    SameHeap ctx (lmRead ord ctx addr size).2 := by
  obtain ⟨mid, step, frame⟩ := lmRead_frame StubTransport.controlKeeps_localRegion ctx
    (StubTransport.readKeeps_localRegion _) ord addr size
  have first := sameHeap_of_controlStep away step
  exact first.trans (sameHeap_of_readFrame first.away frame)

theorem sameHeap_lmFence (away : QueuedAway ctx) (ord : IterOrder) : SameHeap ctx (lmFence ord ctx).2 :=
  lmFence_induct (P := SameHeap ctx) StubTransport.controlKeeps_localRegion
    (fun _ _ step held => held.trans (sameHeap_of_controlStep held.away step))
    (fun _ node held => held.trans (sameHeap_flush held.away node)) ord (.refl away)

end

/-! ### The state behind a history -/

/-- The node after the calls of `history`. -/
structure HeapState (cfg : Config) (history : History) (ctx : RuntimeContext StubTransport) : Prop where
  ready : ctx.initialized = true
  config : ctx.config = cfg
  settled : SettledNode ctx
  away : QueuedAway ctx
  bumped : ctx.allocator.Bumped
  bounds : ctx.allocator.regionSize = cfg.localRegionSize
  /-- A recorded allocation was handed out, or is empty. -/
  recorded : cfg.nodeId ≠ kInvalidNodeId → ∀ e ∈ ctx.allocator.allocations, e.2.size ≠ 0 → e.2 ∈ returned cfg history
  handed : ∀ a ∈ returned cfg history, ∃ e ∈ ctx.allocator.allocations, e.2 = a
  blocks : ctx.allocator.allocations ≠ [] → cfg.blockSize ≠ 0
  size : ctx.transport.localRegion.size = cfg.localRegionSize
  bytes : ctx.transport.localRegion.byte = latestByte cfg history

variable (cfg : Config)

theorem heapState_stubNode : HeapState cfg [] (stubNode cfg) where
  ready := rfl
  config := rfl
  settled := settledNode_stubNode cfg
  away _ _ member := by cases member
  bumped := bumped_init cfg
  bounds := rfl
  recorded _ _ member := by cases member
  handed _ member := by cases member
  blocks some := absurd rfl some
  size := Bytes.size_zeros _
  bytes := by
    funext x
    exact Bytes.byte_zeros _ x

theorem returned_snoc (history : History) (e : Invocation × Response) :
    returned cfg (history ++ [e]) = returned cfg history ++ (returnedBy cfg e).toList := by
  unfold returned
  rw [List.filterMap_append]
  cases found : returnedBy cfg e <;> simp [found]

theorem latestByte_snoc (history : History) (e : Invocation × Response) :
    latestByte cfg (history ++ [e]) =
      match writtenBy cfg e with
      | none => latestByte cfg history
      | some patch => patch.apply (latestByte cfg history) := by
  funext x
  unfold latestByte localWrites
  rw [List.filterMap_append]
  cases found : writtenBy cfg e with
  | none => simp [found]
  | some patch =>
    simp only [List.filterMap_cons, found, List.filterMap_nil, Patch.last_append, Patch.apply, Patch.last_cons,
      Patch.last_nil, Option.none_or]
    cases patch x <;> rfl

section
variable {cfg : Config} {history : History} {ctx ctx' : RuntimeContext StubTransport}

/-- A call that allocates nothing, whatever it does to the region's bytes. -/
theorem HeapState.snoc (state : HeapState cfg history ctx) (ready : ctx'.initialized = ctx.initialized)
    (config : ctx'.config = ctx.config) (allocator : ctx'.allocator = ctx.allocator) (away : QueuedAway ctx')
    (settled : SettledNode ctx') {e : Invocation × Response} (nothing : returnedBy cfg e = none)
    (size : ctx'.transport.localRegion.size = ctx.transport.localRegion.size)
    (bytes : ctx'.transport.localRegion.byte = latestByte cfg (history ++ [e])) : HeapState cfg (history ++ [e]) ctx' := by
  have returned : returned cfg (history ++ [e]) = returned cfg history := by simp [returned_snoc, nothing]
  refine ⟨ready.trans state.ready, config.trans state.config, settled, away, ?_, ?_, ?_, ?_, ?_, size.trans state.size, bytes⟩
  · rw [allocator]
    exact state.bumped
  · rw [allocator]
    exact state.bounds
  · rw [allocator, returned]
    exact state.recorded
  · rw [allocator, returned]
    exact state.handed
  · rw [allocator]
    exact state.blocks

/-- A call that hands out nothing and writes nothing locally. -/
theorem HeapState.quiet (state : HeapState cfg history ctx) (same : SameHeap ctx ctx') (settled : SettledNode ctx')
    {e : Invocation × Response} (nothing : returnedBy cfg e = none) (unwritten : writtenBy cfg e = none) :
    HeapState cfg (history ++ [e]) ctx' := by
  refine state.snoc same.initialized same.config same.allocator same.away settled nothing ?_ ?_
  · rw [same.region]
  · rw [same.region, state.bytes, latestByte_snoc, unwritten]

variable {addr : GlobalAddr} {d : DsmAllocator} {size : UInt64}

/-- Validation accepts exactly what was handed out. -/
theorem HeapState.validate_iff (state : HeapState cfg history ctx) (reaches : ReachesValidation cfg addr size)
    (fits : addr.offset.toNat + size.toNat < 2 ^ 64) :
    ctx.allocator.validateRangeUnlocked cfg addr size = true ↔ Allocated cfg history addr size := by
  obtain ⟨home, valid, filled⟩ := reaches
  have positive := toNat_pos filled
  have node : cfg.nodeId ≠ kInvalidNodeId := by
    rw [← home]
    simpa [GlobalAddr.isValid] using valid
  constructor
  · intro accepted
    have block := ((validateRange_iff filled).mp accepted).2.2.1
    obtain ⟨e, member, start, stops⟩ := (state.bumped.validate_iff valid home block filled fits).mp accepted
    refine ⟨e.2, state.recorded node e member fun empty => ?_, start, stops⟩
    rw [DsmAllocator.stop, empty] at stops
    simp only [UInt64.toNat_zero] at stops
    omega
  · rintro ⟨a, given, start, stops⟩
    obtain ⟨e, member, rfl⟩ := state.handed a given
    have block := state.blocks (List.ne_nil_of_mem member)
    exact (state.bumped.validate_iff valid home block filled fits).mpr ⟨e, member, start, stops⟩

/-! ### Allocation -/

/-- A record of no bytes at an offset hides whatever starts there. -/
theorem not_validate_of_empty (bumped : d.Bumped) (filled : size ≠ 0) {e : UInt64 × AllocationMeta}
    (member : e ∈ d.allocations) (empty : e.2 = ⟨addr.offset, 0⟩) : d.validateRangeUnlocked cfg addr size = false := by
  have key : e.1 = addr.offset := (bumped.keyed e member).trans (by rw [empty])
  have found : d.lookupFloor addr.offset = some e.2 := by
    have last : (d.allocations.takeWhile fun a => a.1 ≤ addr.offset).getLast? = some e :=
      lookupFloor_of_sorted bumped.increasing member (key ▸ UInt64.le_refl _) fun a _ lt => key ▸ lt
    simp [DsmAllocator.lookupFloor, last]
  rw [Bool.eq_false_iff]
  intro accepted
  obtain ⟨-, -, -, alloc, same, -, inside, -⟩ := (validateRange_iff filled).mp accepted
  rw [found, empty] at same
  cases same
  simp only [UInt64.sub_self, UInt64.zero_add] at inside
  exact filled (UInt64.le_zero_iff.mp inside)

/-- A granted request that is not empty once rounded up is recorded and handed out; one that
is, or that finds an empty record in its place, is neither. -/
theorem allocate_validate (bumped : d.Bumped) (granted : d.grants cfg size) (noWrap : d.NoWrap cfg size)
    (node : cfg.nodeId ≠ kInvalidNodeId) :
    ((d.allocate cfg size).2.validateRangeUnlocked cfg (d.allocate cfg size).1 size = true ∧
      (d.allocate cfg size).2.allocations =
        d.allocations ++ [(d.nextOffset, ⟨d.nextOffset, alignUp size cfg.blockSize⟩)]) ∨
    ((d.allocate cfg size).2.validateRangeUnlocked cfg (d.allocate cfg size).1 size = false ∧
      ∀ e ∈ (d.allocate cfg size).2.allocations, e.2.size ≠ 0 → e ∈ d.allocations) := by
  have next := bumped.allocate noWrap
  have ⟨filled, block, _⟩ := granted
  have valid : (d.allocate cfg size).1.isValid = true := by
    rw [allocate_granted granted]
    simpa [GlobalAddr.isValid] using node
  have home : (d.allocate cfg size).1.homeNode = cfg.nodeId := by rw [allocate_granted granted]
  have offset : (d.allocate cfg size).1.offset = d.nextOffset := by rw [allocate_granted granted]
  have allocations : (d.allocate cfg size).2.allocations =
      emplace d.nextOffset ⟨d.nextOffset, alignUp size cfg.blockSize⟩ d.allocations := by rw [allocate_granted granted]
  rcases bumped.emplace_next ⟨d.nextOffset, alignUp size cfg.blockSize⟩ with appended | ⟨same, e, member, empty⟩
  · rw [appended] at allocations
    have inside : ((d.nextOffset, ⟨d.nextOffset, alignUp size cfg.blockSize⟩) : UInt64 × AllocationMeta) ∈
        (d.allocate cfg size).2.allocations := by
      rw [allocations]
      exact List.mem_append_right _ List.mem_cons_self
    by_cases rounded : alignUp size cfg.blockSize = 0
    · refine Or.inr ⟨not_validate_of_empty next filled inside ?_, fun e member notEmpty => ?_⟩
      · rw [rounded, offset]
      · rw [allocations] at member
        rcases List.mem_append.mp member with old | new
        · exact old
        · rw [List.mem_singleton.mp new] at notEmpty
          exact absurd rounded notEmpty
    · refine Or.inl ⟨?_, allocations⟩
      have fits : size.toNat + cfg.blockSize.toNat - 1 < 2 ^ 64 := by
        by_contra wraps
        have up : (alignUp size cfg.blockSize).toNat = _ := toNat_alignUp block
        rw [if_neg wraps] at up
        exact rounded (UInt64.toNat_inj.mp up)
      have enough := UInt64.le_iff_toNat_le.mp (alignUp_bounds block fits).1
      have pointer := noWrap.toNat_next granted
      have bound := (d.nextOffset + alignUp size cfg.blockSize).toNat_lt
      refine (next.validate_iff valid home block filled ?_).mpr ⟨_, inside, ?_, ?_⟩
      · rw [offset]
        omega
      · rw [offset]
      · rw [offset, DsmAllocator.stop]
        simp only
        omega
  · rw [same] at allocations
    refine Or.inr ⟨not_validate_of_empty next filled (allocations ▸ member) (offset ▸ empty), fun e member _ => ?_⟩
    rw [allocations] at member
    exact member

/-- The allocations after an `lm_malloc` and what it handed out. -/
theorem HeapState.malloc_returned (state : HeapState cfg history ctx) (size : UInt64)
    (noWrap : ctx.allocator.NoWrap cfg size) {answer : GlobalAddr}
    (answered : answer =
      if (ctx.allocator.allocate cfg size).1.isValid = true ∧
        (ctx.allocator.allocate cfg size).2.validateRangeUnlocked cfg (ctx.allocator.allocate cfg size).1 size = false
      then invalidGlobalAddr else (ctx.allocator.allocate cfg size).1) :
    let handed := if answer.isValid then [⟨answer.offset, alignUp size cfg.blockSize⟩] else []
    (cfg.nodeId ≠ kInvalidNodeId → ∀ e ∈ (ctx.allocator.allocate cfg size).2.allocations, e.2.size ≠ 0 →
        e.2 ∈ returned cfg history ++ handed) ∧
      (∀ a ∈ returned cfg history ++ handed, ∃ e ∈ (ctx.allocator.allocate cfg size).2.allocations, e.2 = a) ∧
      ((ctx.allocator.allocate cfg size).2.allocations ≠ [] → cfg.blockSize ≠ 0) := by
  intro handed
  have kept : ∀ a ∈ returned cfg history, ∃ e ∈ (ctx.allocator.allocate cfg size).2.allocations, e.2 = a := by
    intro a member
    obtain ⟨e, inside, same⟩ := state.handed a member
    exact ⟨e, mem_allocate_of_mem cfg size inside, same⟩
  by_cases granted : ctx.allocator.grants cfg size
  · have address : (ctx.allocator.allocate cfg size).1 = ⟨cfg.nodeId, kDefaultRegionId, ctx.allocator.nextOffset⟩ := by
      rw [allocate_granted granted]
    by_cases node : cfg.nodeId = kInvalidNodeId
    · -- no address of this node is valid
      have nothing : handed = [] := by
        have invalid : (ctx.allocator.allocate cfg size).1.isValid = false := by
          rw [address]
          simp [GlobalAddr.isValid, node]
        have answer_invalid : answer.isValid = false := by
          rw [answered, if_neg (by simp [invalid])]
          exact invalid
        simp [handed, answer_invalid]
      rw [nothing, List.append_nil]
      exact ⟨fun away => absurd node away, kept, fun _ => granted.2.1⟩
    · have valid : (ctx.allocator.allocate cfg size).1.isValid = true := by
        rw [address]
        simpa [GlobalAddr.isValid] using node
      rcases allocate_validate state.bumped granted noWrap node with ⟨accepted, appended⟩ | ⟨rejected, old⟩
      · have here : handed = [⟨ctx.allocator.nextOffset, alignUp size cfg.blockSize⟩] := by
          rw [if_neg (by simp [accepted])] at answered
          simp only [handed, answered, valid, if_true]
          rw [address]
        rw [here, appended]
        refine ⟨fun _ e member notEmpty => ?_, fun a member => ?_, fun _ => granted.2.1⟩
        · rcases List.mem_append.mp member with before | new
          · exact List.mem_append_left _ (state.recorded node e before notEmpty)
          · rw [List.mem_singleton.mp new]
            exact List.mem_append_right _ List.mem_cons_self
        · rcases List.mem_append.mp member with before | new
          · obtain ⟨e, inside, same⟩ := state.handed a before
            exact ⟨e, List.mem_append_left _ inside, same⟩
          · exact ⟨_, List.mem_append_right _ List.mem_cons_self, (List.mem_singleton.mp new).symm⟩
      · have nothing : handed = [] := by
          rw [if_pos ⟨valid, rejected⟩] at answered
          simp only [handed, answered]
          rfl
        rw [nothing, List.append_nil]
        exact ⟨fun node e member notEmpty => state.recorded node e (old e member notEmpty) notEmpty, kept,
          fun _ => granted.2.1⟩
  · have nothing : handed = [] := by
      rw [allocate_refused granted] at answered
      have invalid : answer.isValid = false := by
        rw [answered]
        split <;> rfl
      simp [handed, invalid]
    rw [nothing, List.append_nil, allocate_refused granted]
    exact ⟨state.recorded, state.handed, state.blocks⟩

theorem HeapState.malloc (state : HeapState cfg history ctx) (ord : IterOrder) (size : UInt64)
    (noWrap : ctx.allocator.NoWrap ctx.config size) :
    HeapState cfg (history ++ [(⟨ord, .malloc size⟩, .addr (lmMalloc ctx size).1)]) (lmMalloc ctx size).2 := by
  obtain ⟨config, manager, -, transport⟩ := lmMalloc_keeps ctx size
  obtain ⟨ready, allocator, answer⟩ := lmMalloc_spec state.ready size rfl
  rw [state.config] at allocator answer noWrap
  have bumped := state.bumped.allocate noWrap
  have handed := state.malloc_returned size noWrap answer
  have returned : returned cfg (history ++ [(⟨ord, .malloc size⟩, .addr (lmMalloc ctx size).1)]) =
      returned cfg history ++
        if (lmMalloc ctx size).1.isValid then [⟨(lmMalloc ctx size).1.offset, alignUp size cfg.blockSize⟩] else [] := by
    rw [returned_snoc, returnedBy]
    simp only
    split <;> rfl
  have away : QueuedAway (lmMalloc ctx size).2 := by
    unfold QueuedAway RuntimeContext.queues
    rw [manager, config]
    exact state.away
  rw [← allocator] at bumped
  refine ⟨ready, config.trans state.config, state.settled.exec ⟨ord, .malloc size⟩, away, bumped, ?_, ?_, ?_, ?_, ?_, ?_⟩
  · rw [allocator, allocate_regionSize]
    exact state.bounds
  · rw [allocator, returned]
    exact handed.1
  · rw [allocator, returned]
    exact handed.2.1
  · rw [allocator]
    exact handed.2.2
  · rw [transport]
    exact state.size
  · rw [transport, latestByte_snoc]
    exact state.bytes

/-! ### Local accesses -/

/-- On the stub an access with proper arguments gets to its range. -/
theorem HeapState.openAccess (state : HeapState cfg history ctx) (ord : IterOrder) (valid : addr.isValid = true)
    (filled : size ≠ 0) :
    LeoMem.openAccess ord ctx addr size = (validateAndResolveRange cfg ctx.allocator addr size, settle ctx) := by
  rw [state.settled.settled.opens (by omega) state.ready valid filled, state.config]

/-- What the metadata path makes of a local range. -/
theorem validateAndResolveRange_home (home : addr.homeNode = cfg.nodeId) (filled : size ≠ 0) (block : cfg.blockSize ≠ 0) :
    validateAndResolveRange cfg d addr size =
      if d.validateRangeUnlocked cfg addr size then .ok (resolveBlockRange cfg addr size) else .error .kOutOfRange := by
  unfold validateAndResolveRange DsmAllocator.resolveBlockRange
  rw [if_neg (by simp [filled, block]), if_pos home]
  cases d.validateRangeUnlocked cfg addr size <;> rfl

/-- The metadata path resolves a local range exactly when validation accepts it. -/
theorem validateAndResolveRange_local (home : addr.homeNode = cfg.nodeId) (filled : size ≠ 0) :
    (d.validateRangeUnlocked cfg addr size = true ∧ ∃ range, validateAndResolveRange cfg d addr size = .ok range) ∨
      (d.validateRangeUnlocked cfg addr size = false ∧ ∃ s, validateAndResolveRange cfg d addr size = .error s) := by
  cases accepted : d.validateRangeUnlocked cfg addr size with
  | true =>
    have block := ((validateRange_iff filled).mp accepted).2.2.1
    refine Or.inl ⟨rfl, resolveBlockRange cfg addr size, ?_⟩
    rw [validateAndResolveRange_home home filled block, if_pos accepted]
  | false =>
    refine Or.inr ⟨rfl, ?_⟩
    by_cases block : cfg.blockSize = 0
    · exact ⟨.kInvalidArg, by simp [validateAndResolveRange, block]⟩
    · refine ⟨.kOutOfRange, ?_⟩
      rw [validateAndResolveRange_home home filled block, if_neg (by simp [accepted])]

/-- A local read answers with the region's bytes exactly when its range is accepted. -/
theorem HeapState.read_answer (state : HeapState cfg history ctx) (ord : IterOrder)
    (reaches : ReachesValidation cfg addr size) :
    (ctx.allocator.validateRangeUnlocked cfg addr size = true ∧
        (lmRead ord ctx addr size).1 = .ok (ctx.transport.localRegion.slice addr.offset.toNat size)) ∨
      (ctx.allocator.validateRangeUnlocked cfg addr size = false ∧ ∃ s, (lmRead ord ctx addr size).1 = .error s) := by
  obtain ⟨home, valid, filled⟩ := reaches
  have opened := state.openAccess ord valid filled
  rcases validateAndResolveRange_local (d := ctx.allocator) home filled with ⟨accepted, range, found⟩ | ⟨rejected, s, failed⟩
  · refine Or.inl ⟨accepted, ?_⟩
    rw [found] at opened
    have own : addr.homeNode = (settle ctx).config.nodeId := home.trans (congrArg Config.nodeId state.config.symm)
    rw [lmRead_local opened own]
    obtain ⟨w, region, answer⟩ := (readLocal_spec (touchMetadata (settle ctx) addr range .kRead).2
      (StubTransport.readKeeps_localRegion _) addr size).2.2.2
    have same : w.localRegion = ctx.transport.localRegion := region
    rw [← answer, ← same]
    exact StubTransport.read_local own (state.config ▸ accepted) w
  · refine Or.inr ⟨rejected, s, ?_⟩
    rw [failed] at opened
    rw [lmRead_rejected opened]

/-- A local write succeeds exactly when its range is accepted. -/
theorem HeapState.write_answer (state : HeapState cfg history ctx) (ord : IterOrder) {buf : Bytes}
    (reaches : ReachesValidation cfg addr buf.size) :
    (lmWrite ord ctx addr buf).1 = .kOk ↔ ctx.allocator.validateRangeUnlocked cfg addr buf.size = true := by
  obtain ⟨home, valid, filled⟩ := reaches
  have opened := state.openAccess ord valid filled
  rcases validateAndResolveRange_local (d := ctx.allocator) home filled with ⟨accepted, range, found⟩ | ⟨rejected, s, failed⟩
  · rw [found] at opened
    have own : addr.homeNode = (settle ctx).config.nodeId := home.trans (congrArg Config.nodeId state.config.symm)
    have written := congrArg Prod.fst (writeThrough_written (touchMetadata (settle ctx) addr range .kWrite).2 addr buf true)
    rw [lmWrite_local opened own]
    simp only [accepted, iff_true]
    refine written.trans ?_
    exact (write_local_ok_iff own).mpr (state.config ▸ accepted)
  · rw [failed] at opened
    have stopped := openAccess_failed opened
    rw [lmWrite_rejected opened, rejected]
    simp [stopped]

theorem HeapState.answer (state : HeapState cfg history ctx) (i : Invocation) (fits : i.call.InRange) :
    FlatAnswer cfg history i (exec ctx i).1 := by
  obtain ⟨ord, call⟩ := i
  cases call with
  | malloc size => trivial
  | free addr => trivial
  | fence => trivial
  | write addr buf =>
    intro reaches
    have fits : addr.offset.toNat + buf.size.toNat < 2 ^ 64 := by simpa [ApiCall.InRange] using fits
    rw [← state.validate_iff reaches fits, ← state.write_answer ord reaches]
    simp [LeoMem.exec]
  | read addr size =>
    intro reaches
    rw [← state.validate_iff reaches fits]
    change ((∃ buf, Response.ofRead (lmRead ord ctx addr size).1 = .bytes buf) ↔ _) ∧
      ∀ buf, Response.ofRead (lmRead ord ctx addr size).1 = .bytes buf → _
    rcases state.read_answer ord reaches with ⟨accepted, ok⟩ | ⟨rejected, s, failed⟩
    · rw [ok]
      refine ⟨by simp [Response.ofRead, accepted], fun buf same => ?_⟩
      cases same
      rw [Bytes.slice, state.bytes]
    · rw [failed]
      simp [Response.ofRead, rejected]

/-! ### Whole runs -/

/-- A write that failed or went to another home wrote nothing here. -/
theorem writtenBy_eq_none {ord : IterOrder} {buf : Bytes} {s : Status} (not : s ≠ .kOk ∨ addr.homeNode ≠ cfg.nodeId) :
    writtenBy cfg (⟨ord, .write addr buf⟩, .status s) = none := by
  unfold writtenBy
  split
  · rename_i call answer
    cases call
    rcases not with failed | remote
    · cases answer
      exact absurd rfl failed
    · rw [if_neg remote]
  · rfl

/-- A write, local or remote. -/
theorem HeapState.write (state : HeapState cfg history ctx) (ord : IterOrder) (addr : GlobalAddr) (buf : Bytes)
    (fits : addr.offset.toNat + buf.data.length < 2 ^ 64) :
    HeapState cfg (history ++ [(⟨ord, .write addr buf⟩, .status (lmWrite ord ctx addr buf).1)])
      (lmWrite ord ctx addr buf).2 := by
  have settled := state.settled.exec ⟨ord, .write addr buf⟩
  cases lmWrite_outcome StubTransport.controlKeeps_localRegion ord ctx addr buf with
  | stopped failed step =>
    exact state.quiet (sameHeap_of_controlStep state.away step) settled rfl (writtenBy_eq_none (Or.inl failed))
  | remote posted modes ownerBiased step remote filled wrote =>
    have first := sameHeap_of_controlStep state.away step
    have same := first.trans (sameHeap_wrote first.away (step.config.symm ▸ remote) wrote)
    exact state.quiet same settled rfl (writtenBy_eq_none (Or.inr (state.config ▸ remote)))
  | own opened step home same manager written =>
    have first := sameHeap_of_controlStep state.away step
    have config : opened.config = cfg := first.config.trans state.config
    have home : addr.homeNode = cfg.nodeId := state.config ▸ home
    have moved := written.trans (StubTransport.write_local (config ▸ home) opened.allocator buf opened.transport)
    have away : QueuedAway (lmWrite ord ctx addr buf).2 := by
      unfold QueuedAway RuntimeContext.queues
      rw [manager, same.config]
      exact first.away
    rw [config, first.allocator] at moved
    cases accepted : ctx.allocator.validateRangeUnlocked cfg addr buf.size with
    | false =>
      rw [if_neg (by simp [accepted])] at moved
      obtain ⟨status, transport⟩ := Prod.mk.inj moved
      have kept : SameHeap ctx (lmWrite ord ctx addr buf).2 :=
        ⟨same.initialized.trans first.initialized, same.config.trans first.config, same.allocator.trans first.allocator,
          (congrArg StubTransport.localRegion transport).trans first.region, away⟩
      exact state.quiet kept settled rfl (writtenBy_eq_none (Or.inl (by simp [status])))
    | true =>
      rw [if_pos accepted] at moved
      obtain ⟨status, transport⟩ := Prod.mk.inj moved
      have filled : buf.size ≠ 0 := by
        intro empty
        simp [DsmAllocator.validateRangeUnlocked, empty] at accepted
      have inside := (inAllocation_of_noWrap filled (by simpa using fits) accepted).2
      rw [state.bounds, ← state.size, Bytes.toNat_size, Bytes.toNat_size] at inside
      have region : (lmWrite ord ctx addr buf).2.transport.localRegion =
          ctx.transport.localRegion.blit addr.offset.toNat buf := by
        rw [transport]
        exact congrArg (fun region : Bytes => region.blit addr.offset.toNat buf) first.region
      refine state.snoc (same.initialized.trans first.initialized) (same.config.trans first.config)
        (same.allocator.trans first.allocator) away settled rfl ?_ ?_
      · rw [region, Bytes.size_blit]
      · rw [region, Bytes.byte_blit_of_le inside, state.bytes, latestByte_snoc, status, writtenBy]
        simp only [home, if_true]

/-- **One call**, of any kind. -/
theorem HeapState.exec (state : HeapState cfg history ctx) (i : Invocation) (fits : i.call.InRange)
    (malloc : MallocFits ctx i) : HeapState cfg (history ++ [(i, (exec ctx i).1)]) (exec ctx i).2 := by
  have settled := state.settled.exec i
  obtain ⟨ord, call⟩ := i
  cases call with
  | malloc size => exact state.malloc ord size malloc
  | free addr => exact state.quiet (.refl state.away) settled rfl rfl
  | read addr size =>
    refine state.quiet (sameHeap_lmRead state.away ord addr size) settled rfl rfl
  | write addr buf => exact state.write ord addr buf fits
  | fence => exact state.quiet (sameHeap_lmFence state.away ord) settled rfl rfl

end

/-- **Home-local memory is a flat byte memory.** However `lm_malloc`, `lm_free`, local and
remote accesses and fences follow each other, a local access that reaches its validation
succeeds exactly when it lies inside one allocation handed out before it, and a local read
returns the latest bytes written there locally, as long as no access wraps its range and no
`lm_malloc` the bump pointer's sum. -/
theorem local_memory_flat {cfg : Config} (calls : List Invocation) (i : Invocation)
    (fits : ∀ j ∈ calls ++ [i], j.call.InRange) (mallocs : Along exec MallocFits (stubNode cfg) calls) :
    FlatAnswer cfg (trace exec (stubNode cfg) calls) i (exec (run exec (stubNode cfg) calls).2 i).1 := by
  have guarded := mallocs.and (along_of_inputs (fun j member => fits j (List.mem_append_left _ member)) _)
  have state := trace_invariant (J := HeapState cfg)
    (fun _ _ j guard held => held.exec j guard.2 guard.1) guarded (heapState_stubNode cfg)
  exact state.answer i (fits i (List.mem_append_right _ List.mem_cons_self))

/-- A region of four blocks. -/
def fourBlocks : Config := { blockSize := 4, localRegionSize := 16 }

/-- A block is allocated and written, another home's bytes are written and fenced. -/
def mixedCalls : List Invocation :=
  [⟨.stored, .malloc 4⟩, ⟨.stored, .write ⟨0, 0, 1⟩ (.ofList [7, 8])⟩, ⟨.stored, .write ⟨1, 0, 0⟩ (.ofList [9, 9, 9, 9])⟩,
    ⟨.stored, .fence⟩]

theorem mixedCalls_flat :
    FlatAnswer fourBlocks (trace exec (stubNode fourBlocks) mixedCalls) ⟨.stored, .read ⟨0, 0, 0⟩ 4⟩
      (exec (run exec (stubNode fourBlocks) mixedCalls).2 ⟨.stored, .read ⟨0, 0, 0⟩ 4⟩).1 ∧
    (exec (run exec (stubNode fourBlocks) mixedCalls).2 ⟨.stored, .read ⟨0, 0, 0⟩ 4⟩).1 =
      .bytes (.ofList [0, 7, 8, 0]) := by
  refine ⟨local_memory_flat mixedCalls _ (by decide +kernel) ⟨?_, trivial, trivial, trivial, trivial⟩, by decide +kernel⟩
  change (stubNode fourBlocks).allocator.NoWrap fourBlocks 4
  decide +kernel

/-- A block is allocated, then a request that wraps the bump pointer's sum is turned away. -/
def wrappedMalloc : List Invocation := [⟨.stored, .malloc 4⟩, ⟨.stored, .malloc 0xfffffffffffffff9⟩]

/-- The request that was turned away is recorded all the same: a byte of the region that no
call ever handed out is read with success. -/
theorem wrappedMalloc_readable :
    (run exec (stubNode fourBlocks) wrappedMalloc).1 = [.addr ⟨0, 0, 0⟩, .addr invalidGlobalAddr] ∧
      (exec (run exec (stubNode fourBlocks) wrappedMalloc).2 ⟨.stored, .read ⟨0, 0, 8⟩ 1⟩).1 = .bytes (.ofList [0]) ∧
      (∀ j ∈ wrappedMalloc ++ [⟨.stored, .read ⟨0, 0, 8⟩ 1⟩], j.call.InRange) ∧
      ¬ FlatAnswer fourBlocks (trace exec (stubNode fourBlocks) wrappedMalloc) ⟨.stored, .read ⟨0, 0, 8⟩ 1⟩
        (exec (run exec (stubNode fourBlocks) wrappedMalloc).2 ⟨.stored, .read ⟨0, 0, 8⟩ 1⟩).1 := by
  refine ⟨by decide +kernel, by decide +kernel, by decide +kernel, fun flat => ?_⟩
  have allocated := (flat ⟨rfl, rfl, by decide⟩).1.mp ⟨.ofList [0], by decide +kernel⟩
  exact absurd allocated (by decide +kernel)

end LeoMem
