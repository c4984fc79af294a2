import LeoMem.Api.Records
import LeoMem.Api.Call

/-!
# What a failed write leaves behind

`lm_write` records its blocks, posts its control messages and drops its cached
copies before it writes the data, and undoes none of it when the data cannot be
written. So a remote write past the control messages leaves no trace only where
there is nothing to record: where its wrapped range names no block, and yet counts few
enough for `PrepareMetadata` not to throw.
-/

namespace LeoMem
open Lib RuntimeContext

section
variable {ω : Type}

/-- `ctx'` stands where `ctx` does: every block's record, the cached bytes, the requests that wait. -/
structure NoTrace (ctx ctx' : RuntimeContext ω) : Prop where
  version : ∀ b, (ctx'.blockTable.get b).version = (ctx.blockTable.get b).version
  ownerNode : ∀ b, (ctx'.blockTable.get b).ownerNode = (ctx.blockTable.get b).ownerNode
  ownerEpoch : ∀ b, (ctx'.blockTable.get b).ownerEpoch = (ctx.blockTable.get b).ownerEpoch
  state : ∀ b, (ctx'.blockTable.get b).state = (ctx.blockTable.get b).state
  cache : ∀ k, ctx'.cache.payload? k = ctx.cache.payload? k
  acks : ∀ id, ctx'.pendingControlAcks.lookup id = ctx.pendingControlAcks.lookup id

theorem NoTrace.refl (ctx : RuntimeContext ω) : NoTrace ctx ctx :=
  ⟨fun _ => rfl, fun _ => rfl, fun _ => rfl, fun _ => rfl, fun _ => rfl, fun _ => rfl⟩

/-! ## An access that names no block -/

/-- The last byte, its offset wrapped, lies in a block before the first byte's. -/
def NamesNoBlock (cfg : Config) (addr : GlobalAddr) (size : UInt64) : Prop :=
  (addr.offset + size - 1) / cfg.blockSize < addr.offset / cfg.blockSize

theorem accessIds_eq_nil_iff (cfg : Config) (addr : GlobalAddr) (size : UInt64) :
    accessIds cfg addr size = [] ↔ NamesNoBlock cfg addr size := by
  have members (b : BlockId) : b ∈ accessIds cfg addr size ↔ b.regionId = addr.regionId ∧
      addr.offset / cfg.blockSize ≤ b.blockIndex ∧ b.blockIndex ≤ (addr.offset + size - 1) / cfg.blockSize :=
    BlockRange.mem_ids
  rw [List.eq_nil_iff_forall_not_mem, NamesNoBlock, ← UInt64.not_le]
  constructor
  · intro none forward
    exact none ⟨addr.regionId, addr.offset / cfg.blockSize⟩ ((members _).mpr ⟨rfl, UInt64.le_refl _, forward⟩)
  · intro back b member
    obtain ⟨-, lower, upper⟩ := (members b).mp member
    exact back (UInt64.le_trans lower upper)

theorem touchMetadata_nothing (ctx : RuntimeContext ω) {addr : GlobalAddr} {range : BlockRange} (type : AccessType)
    (none : range.ids addr.regionId = []) : touchMetadata ctx addr range type = ([], ctx) := by
  simp only [touchMetadata, prepareMetadata, none, observeMetas, BlockTable.modifyAll]
  rfl

theorem length_observeMetas (cfg : Config) (type : AccessType) (isLocal : Bool) (bids : List BlockId) (o : Observation) :
    (observeMetas cfg type isLocal bids o).1.length = bids.length := by
  induction bids generalizing o with
  | nil => rfl
  | cons bid bids ih => exact congrArg (· + 1) (ih _)

variable [Transport ω]

variable {addr : GlobalAddr} {buf : Bytes} (ord : IterOrder) (ctx : RuntimeContext ω)

theorem writeData_cache (addr : GlobalAddr) (filled : buf.size ≠ 0) (modes : List CoherenceMode) (ownerHandoff : Bool) :
    (writeData ord ctx addr buf modes false ownerHandoff).2.cache = (dropCopies ord ctx addr buf.size modes).cache := by
  unfold writeData
  simp only
  generalize dropCopies ord ctx addr buf.size modes = c
  split
  · exact congrArg CacheManager.cache (writeThrough_same c addr buf false).2
  · rename_i on
    obtain ⟨-, cache, -⟩ := writeBatched_spec c addr (by simpa using on) filled modes false ownerHandoff
    exact cache

/-- A remote write that names no block records and posts nothing. -/
theorem writeRemote_nothing (buf : Bytes) {range : BlockRange} (none : range.ids addr.regionId = []) :
    writeRemote ord ctx addr buf range [] = writeData ord ctx addr buf [] false false := by
  simp only [writeRemote, none, List.zip_nil_left, applyWriteMetadata]
  rfl

/-- A remote write that names a block raises its version, whatever becomes of the write. -/
theorem writeRemote_version (addr : GlobalAddr) (filled : buf.size ≠ 0) (range : BlockRange) {modes : List CoherenceMode}
    (each : modes.length = (range.ids addr.regionId).length) {b : BlockId} (named : b ∈ range.ids addr.regionId) :
    ((writeRemote ord ctx addr buf range modes).2.blockTable.get b).version = (ctx.blockTable.get b).version + 1 := by
  have distinct := nodup_map_fst_zip (range.nodup_ids addr.regionId) modes
  rw [writeRemote_table ord ctx addr filled range modes]
  rcases applyWriteMetadata_get ctx.config addr distinct { table := ctx.blockTable } b with
    ⟨absent, -⟩ | ⟨mode, -, stored⟩
  · rw [List.map_fst_zip (Nat.le_of_eq each.symm)] at absent
    exact absurd named absent
  · rw [stored]
    cases mode with
    | kWI => rfl
    | kSI => rfl
    | kAdaptive => rfl

/-! ## The whole write -/

theorem openAccess_drained {ord : IterOrder} {ctx : RuntimeContext ω} {size : UInt64} (ready : ctx.initialized = true)
    (valid : addr.isValid = true) (filled : size ≠ 0) (drained : (processPendingControlMessages ord ctx).1 = .kOk) :
    openAccess ord ctx addr size =
      (validateAndResolveRange (processPendingControlMessages ord ctx).2.config
          (processPendingControlMessages ord ctx).2.allocator addr size,
        (processPendingControlMessages ord ctx).2) := by
  simp [openAccess, ready, valid, filled, drained]

/-- A remote write that names no block leaves no trace where its exact key is not cached. -/
theorem noTrace_writeData_iff (addr : GlobalAddr) (filled : buf.size ≠ 0) :
    NoTrace ctx (writeData ord ctx addr buf [] false false).2 ↔ ctx.cache.payload? ⟨addr, buf.size⟩ = none := by
  have same := (writeData_wrote ord ctx addr filled [] false false).same
  have cache (k : CacheKey) : (writeData ord ctx addr buf [] false false).2.cache.payload? k =
      if k = ⟨addr, buf.size⟩ then none else ctx.cache.payload? k := by
    rw [writeData_cache ord ctx addr filled]
    exact ReadCache.payload?_invalidate ctx.cache addr buf.size k
  constructor
  · intro traceless
    rw [← traceless.cache, cache, if_pos rfl]
  · intro absent
    refine ⟨fun b => ?_, fun b => ?_, fun b => ?_, fun b => ?_, fun k => ?_, fun id => ?_⟩
    · rw [same.table]
    · rw [same.table]
    · rw [same.table]
    · rw [same.table]
    · rw [cache]
      split
      · rename_i key
        rw [key, absent]
      · rfl
    · rw [same.acks]

/-- A write that gave a status is the write of the steps after the reservation. -/
theorem lmWriteOrThrow_returned {ord : IterOrder} {ctx : RuntimeContext ω} {s : Status}
    (returned : (lmWriteOrThrow ord ctx addr buf).1 = some s) :
    (lmWrite ord ctx addr buf).1 = s ∧ (lmWriteOrThrow ord ctx addr buf).2 = (lmWrite ord ctx addr buf).2 := by
  cases opened : openAccess ord ctx addr buf.size with
  | mk answer mid =>
    cases answer with
    | error e =>
      simp only [lmWriteOrThrow, opened, Option.some.injEq] at returned
      simp [lmWriteOrThrow, lmWrite, opened, returned]
    | ok range =>
      simp only [lmWriteOrThrow, opened] at returned ⊢
      split at returned
      · cases returned
      · rename_i reserved
        rw [if_neg reserved]
        exact ⟨Option.some.inj returned, rfl⟩

/-- **A write that fails after its control messages were taken in** leaves no trace exactly where no
block has a size, so that the write is refused, or where its wrapped range names no block and its
exact key is not cached. -/
theorem failed_write_traceless_iff (ord : IterOrder) (ctx : RuntimeContext ω) (addr : GlobalAddr) (buf : Bytes)
    (ready : ctx.initialized = true) (valid : addr.isValid = true) (filled : buf.size ≠ 0)
    (remote : addr.homeNode ≠ ctx.config.nodeId) (drained : (processPendingControlMessages ord ctx).1 = .kOk) {s : Status}
    (returned : (lmWriteOrThrow ord ctx addr buf).1 = some s) :
    s ≠ .kOk →
      (NoTrace (processPendingControlMessages ord ctx).2 (lmWriteOrThrow ord ctx addr buf).2 ↔
        ctx.config.blockSize = 0 ∨
          NamesNoBlock ctx.config addr buf.size ∧
            (processPendingControlMessages ord ctx).2.cache.payload? ⟨addr, buf.size⟩ = none) := by
  intro _
  rw [(lmWriteOrThrow_returned returned).2]
  have opened := openAccess_drained ready valid filled drained
  have config : (processPendingControlMessages ord ctx).2.config = ctx.config := by
    have step := controlStep_openAccess controlKeeps_noObs ctx ord addr buf.size
    rw [opened] at step
    exact step.config
  generalize (processPendingControlMessages ord ctx).2 = mid at opened config
  by_cases blocks : ctx.config.blockSize = 0
  · have refused : validateAndResolveRange mid.config mid.allocator addr buf.size = .error .kInvalidArg := by
      simp [validateAndResolveRange, config, blocks]
    rw [refused] at opened
    rw [lmWrite_rejected opened]
    exact iff_of_true (.refl mid) (.inl blocks)
  · have resolved : validateAndResolveRange mid.config mid.allocator addr buf.size =
        .ok (resolveBlockRange ctx.config addr buf.size) := by
      simp [validateAndResolveRange, config, blocks, filled, remote]
    rw [resolved] at opened
    rw [lmWrite_remote opened (config.symm ▸ remote), or_iff_right blocks]
    by_cases none : NamesNoBlock ctx.config addr buf.size
    · have ids : (resolveBlockRange ctx.config addr buf.size).ids addr.regionId = [] :=
        (accessIds_eq_nil_iff _ _ _).mpr none
      rw [touchMetadata_nothing mid .kWrite ids, writeRemote_nothing ord mid buf ids, noTrace_writeData_iff ord mid addr filled]
      exact (and_iff_right none).symm
    · obtain ⟨b, named⟩ := List.exists_mem_of_ne_nil _ (mt (accessIds_eq_nil_iff ctx.config addr buf.size).mp none)
      have named : b ∈ (resolveBlockRange ctx.config addr buf.size).ids addr.regionId := named
      refine iff_of_false (fun traceless => ?_) fun ⟨back, _⟩ => none back
      generalize resolveBlockRange ctx.config addr buf.size = range at named traceless
      have each : (touchMetadata mid addr range .kWrite).1.length = (range.ids addr.regionId).length :=
        length_observeMetas _ _ _ _ _
      have touched := (touchMetadata_ownership mid addr range .kWrite b).version
      rw [if_pos named, prepareMeta, config, if_neg remote] at touched
      have raised := writeRemote_version ord (touchMetadata mid addr range .kWrite).2 addr filled range each named
      rw [touched] at raised
      have unchanged := raised.symm.trans (traceless.version b)
      simp at unchanged

end

/-! ### Writes that fail on the stub -/

/-- Regions of eight bytes, remote writes that go out at once, every block in Adaptive mode. -/
def unbatchedAdaptive (blockSize : UInt64) : Config :=
  { blockSize := blockSize, localRegionSize := 8, enableWriteBatching := false, coherenceModeOverride := 2 }

def unbatchedNode (blockSize : UInt64) : RuntimeContext StubTransport :=
  .init (unbatchedAdaptive blockSize) (.init (unbatchedAdaptive blockSize))

def sixteenBytes : Bytes := .tabulate 16 fun _ => 7

/-- With blocks of one byte, sixteen bytes from the last address on name no block and count
sixteen: the write is turned down by the transport, without a trace. -/
theorem wrapped_write_traceless :
    (lmWriteOrThrow .stored (unbatchedNode 1) ⟨1, 0, 0xffffffffffffffff⟩ sixteenBytes).1 = some .kOutOfRange ∧
      NoTrace (processPendingControlMessages .stored (unbatchedNode 1)).2
        (lmWriteOrThrow .stored (unbatchedNode 1) ⟨1, 0, 0xffffffffffffffff⟩ sixteenBytes).2 := by
  have failed : (lmWriteOrThrow .stored (unbatchedNode 1) ⟨1, 0, 0xffffffffffffffff⟩ sixteenBytes).1 =
      some .kOutOfRange := by decide +kernel
  have back : NamesNoBlock (unbatchedNode 1).config ⟨1, 0, 0xffffffffffffffff⟩ sixteenBytes.size := by
    unfold NamesNoBlock
    decide +kernel
  refine ⟨failed, (failed_write_traceless_iff .stored (unbatchedNode 1) ⟨1, 0, 0xffffffffffffffff⟩ sixteenBytes rfl
    (by decide +kernel) (by decide +kernel) (by decide +kernel) (by decide +kernel) failed (by decide)).mpr
    (.inr ⟨back, by decide +kernel⟩)⟩

/-- With blocks of four the same range counts more blocks than a vector can hold. -/
example : (lmWriteOrThrow .stored (unbatchedNode 4) ⟨1, 0, 0xffffffffffffffff⟩ sixteenBytes).1 = none := by decide +kernel

/-- A write past the end of the region fails, and the node records itself as the owner of a block it
never wrote, at a version it does not have, with an owner transfer pending. -/
theorem out_of_range_write_traced :
    let drained := (processPendingControlMessages .stored (unbatchedNode 4)).2
    let after := (lmWriteOrThrow .stored (unbatchedNode 4) ⟨1, 0, 8⟩ (.ofList [7])).2
    (processPendingControlMessages .stored (unbatchedNode 4)).1 = .kOk ∧
      (lmWriteOrThrow .stored (unbatchedNode 4) ⟨1, 0, 8⟩ (.ofList [7])).1 = some .kOutOfRange ∧
      (drained.blockTable.get ⟨0, 2⟩).version = 0 ∧ (after.blockTable.get ⟨0, 2⟩).version = 1 ∧
      (drained.blockTable.get ⟨0, 2⟩).ownerNode = kInvalidNodeId ∧ (after.blockTable.get ⟨0, 2⟩).ownerNode = 0 ∧
      (drained.blockTable.get ⟨0, 2⟩).ownerEpoch = 0 ∧ (after.blockTable.get ⟨0, 2⟩).ownerEpoch = 1 ∧
      (after.blockTable.get ⟨0, 2⟩).state = .kOwner ∧
      (drained.pendingControlAcks.lookup 1).isNone = true ∧ (after.pendingControlAcks.lookup 1).isSome = true ∧
      ¬NoTrace drained after := by
  refine ⟨by decide +kernel, by decide +kernel, by decide +kernel, by decide +kernel, by decide +kernel, by decide +kernel,
    by decide +kernel, by decide +kernel, by decide +kernel, by decide +kernel, by decide +kernel, fun traceless => ?_⟩
  have same := traceless.version ⟨0, 2⟩
  exact absurd same (by decide +kernel)

end LeoMem
