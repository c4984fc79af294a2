import LeoMem.Api.Sync
import LeoMem.Cache.Ranges

/-!
# Whose copies a received invalidation drops

An `InvalidateRange` request goes to the home of the written blocks and names them by
index only. Both handlers take the sender for their home, so they drop the
receiver's copies of the sender's memory at those offsets and keep its copies of the
blocks that were written.
-/

namespace LeoMem
open Lib RuntimeContext

/-- The invalidation `lm_write` makes on a node for blocks of `addr`'s home. -/
def writeInvalidation (sender : Config) (requestId : UInt64) (addr : GlobalAddr) (range : BlockRange)
    (version : Version) : ControlMessage :=
  makeControlMessage sender requestId addr range .kWI .kInvalidateRange version

/-- A cache key of `home` with a byte in the blocks from `first` to `last`. -/
def OnBlocks (cfg : Config) (home : NodeId) (first last : BlockId) (k : CacheKey) : Prop :=
  k.addr.homeNode = home ∧ k.addr.regionId = first.regionId ∧
    ∃ x, k.addr.offset.toNat ≤ x ∧ x < k.addr.offset.toNat + k.size.toNat ∧
      first.blockIndex.toNat * cfg.blockSize.toNat ≤ x ∧ x < (last.blockIndex.toNat + 1) * cfg.blockSize.toNat

/-- The entries that went from `before` to `after` are those of `home` on the blocks, and no other
entry changed. -/
def DropsBlocks (cfg : Config) (home : NodeId) (first last : BlockId) (before after : ReadCache) : Prop :=
  ∀ k, (OnBlocks cfg home first last k → after.payload? k = none) ∧
    (¬ OnBlocks cfg home first last k → after.payload? k = before.payload? k)

section
variable {ω : Type} [Transport ω]

/-- The copies either handler drops at an invalidation: those of the sender. -/
theorem payload?_invalidated (ord : IterOrder) (ctx : RuntimeContext ω) {msg : ControlMessage}
    (invalidation : msg.opcode = .kInvalidateRange) (k : CacheKey) :
    (processMessage ord ctx msg).2.cache.payload? k =
        (if rangesOverlap k.addr k.size (blockRangeBaseAddr ctx.config msg.range msg.sourceNode)
          (blockRangeSize ctx.config msg.range) then none else ctx.cache.payload? k) ∧
      (drainMessage ord ctx msg).2.cache.payload? k = (processMessage ord ctx msg).2.cache.payload? k := by
  have processed : (processMessage ord ctx msg).2.cache =
      (ctx.cache.invalidateRange ord (blockRangeBaseAddr ctx.config msg.range msg.sourceNode)
        (blockRangeSize ctx.config msg.range)).2 := by
    simp only [processMessage, invalidation]
    rfl
  have drained : (drainMessage ord ctx msg).2.cache =
      (ctx.cache.invalidateRange ord (blockRangeBaseAddr ctx.config msg.range msg.sourceNode)
        (blockRangeSize ctx.config msg.range)).2 := by
    simp only [drainMessage, invalidation, if_true]
    rfl
  rw [drained, processed]
  exact ⟨ReadCache.payload?_invalidateRange ord ctx.cache _ _ k, rfl⟩

/-- The receiver holds neither a copy of the written blocks nor one of the sender's memory that the
handlers take for them. -/
def NothingToDrop (ctx : RuntimeContext ω) (home : NodeId) (msg : ControlMessage) : Prop :=
  ∀ k, ctx.cache.payload? k ≠ none →
    ¬ OnBlocks ctx.config home msg.firstBlock msg.lastBlock k ∧
      rangesOverlap k.addr k.size (blockRangeBaseAddr ctx.config msg.range msg.sourceNode)
        (blockRangeSize ctx.config msg.range) = false

omit [Transport ω] in
/-- A cache that drops copies of another home in place of `home`'s is right only where there are neither. -/
theorem dropsBlocks_iff {ctx : RuntimeContext ω} {home : NodeId} (msg : ControlMessage) (other : home ≠ msg.sourceNode)
    {after : ReadCache}
    (left : ∀ k, after.payload? k =
      if rangesOverlap k.addr k.size (blockRangeBaseAddr ctx.config msg.range msg.sourceNode)
        (blockRangeSize ctx.config msg.range) then none else ctx.cache.payload? k) :
    DropsBlocks ctx.config home msg.firstBlock msg.lastBlock ctx.cache after ↔ NothingToDrop ctx home msg := by
  -- the two sets of keys are those of two different homes
  have apart : ∀ k, rangesOverlap k.addr k.size (blockRangeBaseAddr ctx.config msg.range msg.sourceNode)
      (blockRangeSize ctx.config msg.range) = true → ¬OnBlocks ctx.config home msg.firstBlock msg.lastBlock k :=
    fun k hit on => other (on.1.symm.trans (rangesOverlap_iff.mp hit).1)
  constructor
  · intro drops k held
    constructor
    · intro on
      have gone := (drops k).1 on
      rw [left k, if_neg fun hit => apart k hit on] at gone
      exact held gone
    · rw [Bool.eq_false_iff]
      intro hit
      have kept := (drops k).2 (apart k hit)
      rw [left k, if_pos hit] at kept
      exact held kept.symm
  · intro nothing k
    rw [left k]
    by_cases held : ctx.cache.payload? k = none
    · rw [held, ite_self]
      exact ⟨fun _ => rfl, fun _ => rfl⟩
    · obtain ⟨off, missed⟩ := nothing k held
      rw [missed]
      exact ⟨fun on => absurd on off, fun _ => rfl⟩

/-- **A received invalidation hits the right blocks** exactly where there is nothing to hit, for both
handlers, every receiver and every invalidation of a remote write. -/
theorem invalidation_hits_iff (ord : IterOrder) (ctx : RuntimeContext ω) (sender : Config) (requestId : UInt64)
    (addr : GlobalAddr) (range : BlockRange) (version : Version) (remote : addr.homeNode ≠ sender.nodeId) :
    let msg := writeInvalidation sender requestId addr range version
    (DropsBlocks ctx.config addr.homeNode range.first range.last ctx.cache (processMessage ord ctx msg).2.cache ↔
        NothingToDrop ctx addr.homeNode msg) ∧
      (DropsBlocks ctx.config addr.homeNode range.first range.last ctx.cache (drainMessage ord ctx msg).2.cache ↔
        NothingToDrop ctx addr.homeNode msg) := by
  intro msg
  have left := fun k => payload?_invalidated ord ctx (rfl : msg.opcode = .kInvalidateRange) k
  constructor
  · exact dropsBlocks_iff msg remote fun k => (left k).1
  · exact dropsBlocks_iff msg remote fun k => (left k).2.trans (left k).1

end

/-- Node 1 of three, with a copy of the first two bytes of `home`'s memory. -/
def nodeWithCopy (home : NodeId) : RuntimeContext PeerTransport :=
  let node := RuntimeContext.init { nodeId := 1, nrNodes := 3, blockSize := 4 } { memory := fun _ => Bytes.zeros 16 }
  node.setCache (node.cache.insertCached node.config ⟨home, 0, 0⟩ (.ofList [1, 2]))

/-- Node 0, which invalidates at every write. -/
def invalidatingNode : RuntimeContext PeerTransport :=
  .init { nodeId := 0, nrNodes := 3, blockSize := 4, coherenceModeOverride := 0 } { memory := fun _ => Bytes.zeros 16 }

/-- The first block of node 1, as node 0 invalidates it. -/
def firstBlockWritten : ControlMessage :=
  writeInvalidation invalidatingNode.config 1 ⟨1, 0, 0⟩ (resolveBlockRange invalidatingNode.config ⟨1, 0, 0⟩ 1) 1

theorem copyOfThird_kept :
    NothingToDrop (nodeWithCopy 2) 1 firstBlockWritten ∧
      DropsBlocks (nodeWithCopy 2).config 1 ⟨0, 0⟩ ⟨0, 0⟩ (nodeWithCopy 2).cache
        (processMessage .stored (nodeWithCopy 2) firstBlockWritten).2.cache := by
  have nothing : NothingToDrop (nodeWithCopy 2) 1 firstBlockWritten := by
    intro k held
    obtain ⟨p, found⟩ := Option.ne_none_iff_exists'.mp held
    rcases ReadCache.insertCached_within _ _ _ _ k p found with ⟨rfl, -⟩ | old
    · exact ⟨fun on => absurd on.1 (by decide), by decide⟩
    · cases old
  exact ⟨nothing, (invalidation_hits_iff .stored (nodeWithCopy 2) invalidatingNode.config 1 ⟨1, 0, 0⟩
    (resolveBlockRange invalidatingNode.config ⟨1, 0, 0⟩ 1) 1 (by decide)).1.mpr nothing⟩

/-- Node 0 writes a byte of node 1. At node 1 the invalidation drops a copy of node 0's own memory. -/
theorem invalidation_drops_senders_copy :
    (lmWrite .stored invalidatingNode ⟨1, 0, 0⟩ (.ofList [9])).2.transport.inFlight = [firstBlockWritten] ∧
      (nodeWithCopy 0).cache.payload? ⟨⟨0, 0, 0⟩, 2⟩ = some (.ofList [1, 2]) ∧
      ¬ DropsBlocks (nodeWithCopy 0).config 1 ⟨0, 0⟩ ⟨0, 0⟩ (nodeWithCopy 0).cache
        (processMessage .stored (nodeWithCopy 0) firstBlockWritten).2.cache ∧
      ¬ DropsBlocks (nodeWithCopy 0).config 1 ⟨0, 0⟩ ⟨0, 0⟩ (nodeWithCopy 0).cache
        (drainMessage .stored (nodeWithCopy 0) firstBlockWritten).2.cache := by
  have off : ¬ OnBlocks (nodeWithCopy 0).config 1 ⟨0, 0⟩ ⟨0, 0⟩ ⟨⟨0, 0, 0⟩, 2⟩ := fun on => absurd on.1 (by decide)
  refine ⟨by decide +kernel, by decide +kernel, fun drops => ?_, fun drops => ?_⟩
  · exact absurd ((drops ⟨⟨0, 0, 0⟩, 2⟩).2 off) (by decide +kernel)
  · exact absurd ((drops ⟨⟨0, 0, 0⟩, 2⟩).2 off) (by decide +kernel)

end LeoMem
