import LeoMem.Api.Records
import LeoMem.Api.Resolve
import LeoMem.Heap.LocalMemory

/-!
# What a local write changes

`lm_write` to the node's own region passes two range checks, the one of the metadata
path and the one of the transport, and between them it counts the write in the record
of every block it touches. The module says what is left of each on the stub: which
writes are turned away with nothing changed, and which bytes and block records one
that goes through changes (`local_write_exact`).
-/

namespace LeoMem
open Lib RuntimeContext DsmAllocator

/-- The block shares a byte with `[offset, offset + size)`. -/
def BlockId.Intersects (cfg : Config) (addr : GlobalAddr) (size : UInt64) (b : BlockId) : Prop :=
  b.regionId = addr.regionId ∧ b.blockIndex.toNat * cfg.blockSize.toNat < addr.offset.toNat + size.toNat ∧
    addr.offset.toNat < (b.blockIndex.toNat + 1) * cfg.blockSize.toNat

instance (cfg : Config) (addr : GlobalAddr) (size : UInt64) (b : BlockId) : Decidable (b.Intersects cfg addr size) :=
  inferInstanceAs (Decidable (_ ∧ _ ∧ _))

/-- Some allocation of the node holds the whole range. -/
def DsmAllocator.Holds (d : DsmAllocator) (addr : GlobalAddr) (size : UInt64) : Prop :=
  ∃ e ∈ d.allocations, Inside addr size e

instance (d : DsmAllocator) (addr : GlobalAddr) (size : UInt64) : Decidable (d.Holds addr size) :=
  inferInstanceAs (Decidable (∃ e ∈ _, _))

/-- The access is one `lm_write` turns away whatever the node has allocated: its address is
no address, it is empty, or the node has no blocks. -/
def ImproperAccess (cfg : Config) (addr : GlobalAddr) (size : UInt64) : Prop :=
  addr.isValid = false ∨ size = 0 ∨ cfg.blockSize = 0

instance (cfg : Config) (addr : GlobalAddr) (size : UInt64) : Decidable (ImproperAccess cfg addr size) :=
  inferInstanceAs (Decidable (_ ∨ _ ∨ _))

/-- A call that was turned away with `status` and changed no data. -/
structure TurnedAway (cfg : Config) (ctx : RuntimeContext StubTransport) (status : Status)
    (r : Status × RuntimeContext StubTransport) : Prop where
  status : r.1 = status
  memories : r.2.transport.regions cfg = ctx.transport.regions cfg
  table : r.2.blockTable = ctx.blockTable
  cache : r.2.cache = ctx.cache
  queues : r.2.queues = ctx.queues

/-- A write that went through, and what it changed. -/
structure WroteLocally (cfg : Config) (ctx : RuntimeContext StubTransport) (addr : GlobalAddr) (buf : Bytes)
    (r : Status × RuntimeContext StubTransport) : Prop where
  status : r.1 = .kOk
  size : r.2.transport.localRegion.size = ctx.transport.localRegion.size
  bytes : ∀ x, r.2.transport.localRegion.byte x =
    if addr.offset.toNat ≤ x ∧ x < addr.offset.toNat + buf.size.toNat then buf.byte (x - addr.offset.toNat)
    else ctx.transport.localRegion.byte x
  version : ∀ b : BlockId, (r.2.blockTable.get b).version =
    if b.Intersects cfg addr buf.size then (ctx.blockTable.get b).version + 1 else (ctx.blockTable.get b).version
  owned : ∀ b : BlockId, b.Intersects cfg addr buf.size →
    (r.2.blockTable.get b).state = .kHome ∧ (r.2.blockTable.get b).ownerNode = cfg.nodeId
  cache : r.2.cache = ctx.cache
  queues : r.2.queues = ctx.queues
  remote : ∀ n, n ≠ cfg.nodeId → r.2.transport.regions cfg n = ctx.transport.regions cfg n

/-! ## The blocks of a range -/

/-- The range is resolved to the blocks it shares a byte with. -/
theorem mem_accessIds_iff {cfg : Config} {addr : GlobalAddr} {size : UInt64} (block : cfg.blockSize ≠ 0)
    (filled : size ≠ 0) (fits : addr.offset.toNat + size.toNat < 2 ^ 64) (b : BlockId) :
    b ∈ accessIds cfg addr size ↔ b.Intersects cfg addr size := by
  have positive := toNat_pos filled
  have shares := (resolve_meets block filled fits.le b.blockIndex.toNat).trans
    (Blocks.meets_iff_lt (toNat_pos block) (by omega))
  refine BlockRange.mem_ids.trans (and_congr_right fun _ => ?_)
  rw [UInt64.le_iff_toNat_le, UInt64.le_iff_toNat_le]
  exact shares

/-! ## The state behind every run -/

theorem controlKeeps_regionSize : ControlKeeps fun t : StubTransport => t.localRegion.size where
  post cfg msg t := congrArg Bytes.size (StubTransport.controlKeeps_localRegion.post cfg msg t)
  drain _ _ _ := rfl
  fence _ _ := rfl

theorem writeKeeps_regionSize : WriteKeeps fun t : StubTransport => t.localRegion.size := by
  have write : ∀ cfg d addr buf (t : StubTransport),
      (StubTransport.write cfg d addr buf t).2.localRegion.size = t.localRegion.size := by
    intro cfg d addr buf t
    by_cases home : addr.homeNode = cfg.nodeId
    · rw [StubTransport.write_local home]
      split
      · exact Bytes.size_blit _ _ _
      · rfl
    · rw [StubTransport.write_remote_localRegion home]
  refine ⟨write, fun cfg d reqs t => ?_⟩
  exact batchWriteWith_keeps (I := fun t' => t'.localRegion.size = t.localRegion.size)
    (fun req _ t' same => (write cfg d req.addr req.buf t').trans same) rfl

/-- A node whose allocations and region lie as `lm_init` and its `lm_malloc`s laid them. -/
structure Laid (cfg : Config) (ctx : RuntimeContext StubTransport) : Prop where
  ready : ctx.initialized = true
  config : ctx.config = cfg
  settled : SettledNode ctx
  bumped : ctx.allocator.Bumped
  bounds : ctx.allocator.regionSize = cfg.localRegionSize
  size : ctx.transport.localRegion.size = cfg.localRegionSize

theorem laid_stubNode (cfg : Config) : Laid cfg (stubNode cfg) :=
  ⟨rfl, rfl, settledNode_stubNode cfg, bumped_init cfg, rfl, Bytes.size_zeros _⟩

section
variable {cfg : Config} {ctx : RuntimeContext StubTransport} {addr : GlobalAddr} {buf : Bytes}

theorem Laid.exec (laid : Laid cfg ctx) (i : Invocation) (fits : MallocFits ctx i) : Laid cfg (exec ctx i).2 := by
  obtain ⟨config, ready, allocator⟩ := exec_setup ctx i
  have reads (cfg : Config) : ReadKeeps cfg fun t : StubTransport => t.localRegion.size := fun d addr size t =>
    congrArg Bytes.size (StubTransport.readKeeps_localRegion cfg d addr size t)
  have size := exec_keeps_obs controlKeeps_regionSize reads writeKeeps_regionSize ctx i
  have grown : (LeoMem.exec ctx i).2.allocator.Bumped ∧
      (LeoMem.exec ctx i).2.allocator.regionSize = ctx.allocator.regionSize := by
    rcases allocator with same | ⟨request, malloc, recorded⟩
    · rw [same]
      exact ⟨laid.bumped, rfl⟩
    · unfold MallocFits at fits
      rw [malloc] at fits
      rw [recorded]
      exact ⟨laid.bumped.allocate fits, allocate_regionSize _ _ _⟩
  exact ⟨ready.trans laid.ready, config.trans laid.config, laid.settled.exec i, grown.1, grown.2.trans laid.bounds,
    size.trans laid.size⟩

/-! ## One write -/

theorem turnedAway_settle (ctx : RuntimeContext StubTransport) (s : Status) : TurnedAway cfg ctx s (s, settle ctx) :=
  ⟨rfl, rfl, rfl, rfl, rfl⟩

/-- Bad arguments are found before the range is looked at, a node without blocks with it. -/
theorem Laid.write_improper (laid : Laid cfg ctx) (improper : ImproperAccess cfg addr buf.size) (ord : IterOrder) :
    TurnedAway cfg ctx .kInvalidArg (lmWrite ord ctx addr buf) := by
  have opened := laid.settled.settled.openAccess (by omega) ord addr buf.size
  rw [if_neg (by simp [laid.ready])] at opened
  by_cases proper : addr.isValid = false ∨ buf.size = 0
  · rw [if_pos proper] at opened
    rw [lmWrite_rejected opened]
    exact ⟨rfl, rfl, rfl, rfl, rfl⟩
  · have blockless : cfg.blockSize = 0 := by
      rcases improper with invalid | empty | blockless
      · exact absurd (Or.inl invalid) proper
      · exact absurd (Or.inr empty) proper
      · exact blockless
    have rejected : validateAndResolveRange ctx.config ctx.allocator addr buf.size = .error .kInvalidArg := by
      unfold validateAndResolveRange
      rw [laid.config, if_pos (Or.inr blockless)]
    rw [if_neg proper, rejected] at opened
    rw [lmWrite_rejected opened]
    exact turnedAway_settle ctx .kInvalidArg

/-- What the metadata path makes of a proper local range. -/
theorem Laid.opens (laid : Laid cfg ctx) (home : addr.homeNode = cfg.nodeId)
    (proper : ¬ ImproperAccess cfg addr buf.size) (ord : IterOrder) :
    openAccess ord ctx addr buf.size =
      (if ctx.allocator.validateRangeUnlocked cfg addr buf.size then .ok (resolveBlockRange cfg addr buf.size)
        else .error .kOutOfRange, settle ctx) := by
  simp only [ImproperAccess, not_or, Bool.not_eq_false] at proper
  obtain ⟨valid, filled, block⟩ := proper
  rw [laid.settled.settled.opens (by omega) laid.ready valid filled, laid.config,
    validateAndResolveRange_home home filled block]

theorem Laid.holds_iff (laid : Laid cfg ctx) (home : addr.homeNode = cfg.nodeId)
    (proper : ¬ ImproperAccess cfg addr buf.size) (fits : addr.offset.toNat + buf.size.toNat < 2 ^ 64) :
    ctx.allocator.validateRangeUnlocked cfg addr buf.size = true ↔ ctx.allocator.Holds addr buf.size := by
  simp only [ImproperAccess, not_or, Bool.not_eq_false] at proper
  obtain ⟨valid, filled, block⟩ := proper
  exact laid.bumped.validate_iff valid home block filled fits

theorem Laid.write_outside (laid : Laid cfg ctx) (home : addr.homeNode = cfg.nodeId)
    (proper : ¬ ImproperAccess cfg addr buf.size) (fits : addr.offset.toNat + buf.size.toNat < 2 ^ 64)
    (outside : ¬ ctx.allocator.Holds addr buf.size) (ord : IterOrder) :
    TurnedAway cfg ctx .kOutOfRange (lmWrite ord ctx addr buf) := by
  have opened := laid.opens home proper ord
  rw [if_neg fun accepted => outside ((laid.holds_iff home proper fits).mp accepted)] at opened
  rw [lmWrite_rejected opened]
  exact turnedAway_settle ctx .kOutOfRange

/-- The second check, in the transport, accepts what the first one did. -/
theorem writeThrough_accepted (home : addr.homeNode = ctx.config.nodeId)
    (accepted : ctx.allocator.validateRangeUnlocked ctx.config addr buf.size = true) :
    (writeThrough ctx addr buf true).1 = .kOk ∧
      (writeThrough ctx addr buf true).2.transport =
        { ctx.transport with localRegion := ctx.transport.localRegion.blit addr.offset.toNat buf } := by
  have stored := StubTransport.write_local home ctx.allocator buf ctx.transport
  rw [if_pos accepted] at stored
  exact Prod.mk.inj ((writeThrough_written ctx addr buf true).trans stored)

/-- The record `PrepareMetadata` leaves of a block; the profile's update does not touch it. -/
theorem touchMetadata_resolved (ctx : RuntimeContext StubTransport) {size : UInt64} (block : ctx.config.blockSize ≠ 0)
    (filled : size ≠ 0) (fits : addr.offset.toNat + size.toNat < 2 ^ 64) (type : AccessType) (b : BlockId) :
    (if b.Intersects ctx.config addr size then prepareMeta ctx.config addr type (ctx.blockTable.get b)
      else ctx.blockTable.get b).SameOwnership
        ((touchMetadata ctx addr (resolveBlockRange ctx.config addr size) type).2.blockTable.get b) := by
  have touched := touchMetadata_ownership ctx addr (resolveBlockRange ctx.config addr size) type b
  have shares : b ∈ (resolveBlockRange ctx.config addr size).ids addr.regionId ↔ b.Intersects ctx.config addr size :=
    mem_accessIds_iff block filled fits b
  simpa only [shares] using touched

theorem Laid.write_inside (laid : Laid cfg ctx) (home : addr.homeNode = cfg.nodeId)
    (proper : ¬ ImproperAccess cfg addr buf.size) (fits : addr.offset.toNat + buf.size.toNat < 2 ^ 64)
    (inside : ctx.allocator.Holds addr buf.size) (ord : IterOrder) :
    WroteLocally cfg ctx addr buf (lmWrite ord ctx addr buf) := by
  have accepted := (laid.holds_iff home proper fits).mpr inside
  have opened := laid.opens home proper ord
  rw [if_pos accepted] at opened
  simp only [ImproperAccess, not_or, Bool.not_eq_false] at proper
  obtain ⟨-, filled, block⟩ := proper
  obtain rfl : ctx.config = cfg := laid.config
  have within := (inAllocation_of_noWrap filled fits accepted).2
  rw [laid.bounds, ← laid.size, Bytes.toNat_size, Bytes.toNat_size] at within
  rw [lmWrite_local opened home]
  -- the transport checks the range again, against the same allocations: nothing fails once the records are counted
  let touched := (touchMetadata (settle ctx) addr (resolveBlockRange ctx.config addr buf.size) .kWrite).2
  change WroteLocally ctx.config ctx addr buf (writeThrough touched addr buf true)
  have recorded (b : BlockId) : (if b.Intersects ctx.config addr buf.size then
      prepareMeta ctx.config addr .kWrite (ctx.blockTable.get b) else ctx.blockTable.get b).SameOwnership
        (touched.blockTable.get b) := touchMetadata_resolved (settle ctx) block filled fits .kWrite b
  have home' : addr.homeNode = touched.config.nodeId := home
  have accepted' : touched.allocator.validateRangeUnlocked touched.config addr buf.size = true := accepted
  obtain ⟨status, transport⟩ := writeThrough_accepted home' accepted'
  obtain ⟨same, manager⟩ := writeThrough_same touched addr buf true
  have region : (writeThrough touched addr buf true).2.transport.localRegion =
      ctx.transport.localRegion.blit addr.offset.toNat buf := congrArg StubTransport.localRegion transport
  refine ⟨status, ?_, fun x => ?_, fun b => ?_, fun b shares => ?_, ?_, ?_, fun n away => ?_⟩
  · rw [region, Bytes.size_blit]
  · rw [region, Bytes.byte_blit_of_le within, Patch.apply, Bytes.patch, Bytes.toNat_size]
    split <;> rfl
  · rw [same.table, (recorded b).version]
    split
    · simp only [prepareMeta, home, if_true]
    · rfl
  · have kept := recorded b
    rw [if_pos shares] at kept
    rw [same.table, kept.state, kept.ownerNode]
    simp only [prepareMeta, home, if_true, and_self]
  · rw [RuntimeContext.cache, manager]
    rfl
  · rw [RuntimeContext.queues, manager]
    rfl
  · rw [transport, StubTransport.regions_remote _ away, StubTransport.regions_remote _ away]
    rfl

end

/-- **A local write changes exactly what it should**, in every state the stub reaches by calls
whose `lm_malloc`s do not wrap the bump pointer's sum: with arguments that are none it is
turned away, outside the allocations it is out of range, and otherwise it stores its bytes
and counts itself in the blocks it touches. -/
theorem local_write_exact (cfg : Config) (calls : List Invocation)
    (mallocs : Along exec MallocFits (stubNode cfg) calls) (ord : IterOrder) (addr : GlobalAddr) (buf : Bytes)
    (home : addr.homeNode = cfg.nodeId) (fits : addr.offset.toNat + buf.size.toNat < 2 ^ 64) :
    let ctx := (run exec (stubNode cfg) calls).2
    (ImproperAccess cfg addr buf.size → TurnedAway cfg ctx .kInvalidArg (lmWrite ord ctx addr buf)) ∧
      (¬ ImproperAccess cfg addr buf.size → ¬ ctx.allocator.Holds addr buf.size →
        TurnedAway cfg ctx .kOutOfRange (lmWrite ord ctx addr buf)) ∧
      (¬ ImproperAccess cfg addr buf.size → ctx.allocator.Holds addr buf.size →
        WroteLocally cfg ctx addr buf (lmWrite ord ctx addr buf)) := by
  intro ctx
  have laid : Laid cfg ctx := run_invariant (I := Laid cfg) (fun _ i guard held => held.exec i guard) mallocs
    (laid_stubNode cfg)
  exact ⟨fun improper => laid.write_improper improper ord,
    fun proper outside => laid.write_outside home proper fits outside ord,
    fun proper inside => laid.write_inside home proper fits inside ord⟩

/-- Two of four blocks are allocated. -/
def twoAllocated : List Invocation := [⟨.stored, .malloc 8⟩]

/-- A write up to the end of the allocation, from within its first block, and one that crosses
the end. -/
theorem twoAllocated_write_exact :
    let ctx := (run exec (stubNode fourBlocks) twoAllocated).2
    WroteLocally fourBlocks ctx ⟨0, 0, 3⟩ (.ofList [1, 2, 3, 4, 5])
        (lmWrite .stored ctx ⟨0, 0, 3⟩ (.ofList [1, 2, 3, 4, 5])) ∧
      TurnedAway fourBlocks ctx .kOutOfRange (lmWrite .stored ctx ⟨0, 0, 7⟩ (.ofList [1, 2])) := by
  have mallocs : Along exec MallocFits (stubNode fourBlocks) twoAllocated := by
    refine ⟨?_, trivial⟩
    change (stubNode fourBlocks).allocator.NoWrap fourBlocks 8
    decide +kernel
  have inside := local_write_exact fourBlocks twoAllocated mallocs .stored ⟨0, 0, 3⟩ (.ofList [1, 2, 3, 4, 5]) rfl
    (by decide)
  have across := local_write_exact fourBlocks twoAllocated mallocs .stored ⟨0, 0, 7⟩ (.ofList [1, 2]) rfl (by decide)
  exact ⟨inside.2.2 (by decide) (by decide +kernel), across.2.1 (by decide) (by decide +kernel)⟩

/-- An empty write is an invalid argument, whether or not an allocation holds its offset, and so
is every write of a node whose block size is zero. -/
theorem emptyWrite_invalid :
    (¬ (stubNode fourBlocks).allocator.Holds ⟨0, 0, 0⟩ 0 ∧
        (lmWrite .stored (stubNode fourBlocks) ⟨0, 0, 0⟩ (.ofList [])).1 = .kInvalidArg) ∧
      ((run exec (stubNode fourBlocks) twoAllocated).2.allocator.Holds ⟨0, 0, 0⟩ 0 ∧
        (lmWrite .stored (run exec (stubNode fourBlocks) twoAllocated).2 ⟨0, 0, 0⟩ (.ofList [])).1 = .kInvalidArg) ∧
      (¬ (stubNode { fourBlocks with blockSize := 0 }).allocator.Holds ⟨0, 0, 0⟩ 1 ∧
        (lmWrite .stored (stubNode { fourBlocks with blockSize := 0 }) ⟨0, 0, 0⟩ (.ofList [1])).1 = .kInvalidArg) := by
  decide +kernel

end LeoMem
