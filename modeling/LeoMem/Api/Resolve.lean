import LeoMem.Api.Access
import LeoMem.Lib.Blocks
import LeoMem.Rdma.Codec

/-!
# The blocks of a range

`ResolveBlockRange` and its copy in the allocator, and the way back: a control request
carries the two ends of a resolved range, and its receiver rebuilds a byte span from
them. For a range that does not wrap the resolved blocks are those it shares a byte
with, and the rebuilt span is the least one of whole blocks around it
(`resolve_exact`).
-/

namespace LeoMem
open Lib

section
variable {cfg : Config} {addr : GlobalAddr} {size : UInt64}

theorem toNat_resolve_first :
    (resolveBlockRange cfg addr size).first.blockIndex.toNat = addr.offset.toNat / cfg.blockSize.toNat :=
  UInt64.toNat_div _ _

theorem toNat_resolve_last (filled : size ≠ 0) (fits : addr.offset.toNat + size.toNat ≤ 2 ^ 64) :
    (resolveBlockRange cfg addr size).last.blockIndex.toNat =
      (addr.offset.toNat + size.toNat - 1) / cfg.blockSize.toNat := by
  change ((addr.offset + size - 1) / cfg.blockSize).toNat = _
  rw [UInt64.toNat_div, toNat_last filled fits]

theorem resolve_first_le_last (filled : size ≠ 0) (fits : addr.offset.toNat + size.toNat ≤ 2 ^ 64) :
    (resolveBlockRange cfg addr size).first.blockIndex ≤ (resolveBlockRange cfg addr size).last.blockIndex := by
  have positive := toNat_pos filled
  rw [UInt64.le_iff_toNat_le, toNat_resolve_first, toNat_resolve_last filled fits]
  exact Blocks.first_le_last (by omega)

variable (block : cfg.blockSize ≠ 0) (filled : size ≠ 0) (fits : addr.offset.toNat + size.toNat ≤ 2 ^ 64)

include block filled fits in
/-- The range is resolved to the blocks it shares a byte with. -/
theorem resolve_meets (k : Nat) :
    ((resolveBlockRange cfg addr size).first.blockIndex.toNat ≤ k ∧
      k ≤ (resolveBlockRange cfg addr size).last.blockIndex.toNat) ↔
    Blocks.Meets cfg.blockSize.toNat addr.offset.toNat (addr.offset.toNat + size.toNat) k := by
  have positive := toNat_pos filled
  rw [toNat_resolve_first, toNat_resolve_last filled fits, Blocks.meets_iff (toNat_pos block) (by omega)]

include block filled fits in
theorem toNat_resolve_count :
    (resolveBlockRange cfg addr size).count.toNat =
      (addr.offset.toNat + size.toNat - 1) / cfg.blockSize.toNat - addr.offset.toNat / cfg.blockSize.toNat + 1 := by
  have positive := toNat_pos filled
  have bound := size.toNat_lt
  have few := Blocks.last_sub_first_lt (toNat_pos block)
    (show addr.offset.toNat < addr.offset.toNat + size.toNat by omega)
  change ((resolveBlockRange cfg addr size).last.blockIndex - (resolveBlockRange cfg addr size).first.blockIndex + 1).toNat = _
  rw [UInt64.toNat_add, UInt64.toNat_sub_of_le _ _ (resolve_first_le_last filled fits), toNat_resolve_first,
    toNat_resolve_last filled fits, UInt64.toNat_one, Nat.mod_eq_of_lt (by omega)]

include block filled fits in
theorem resolve_span
    (below : ((resolveBlockRange cfg addr size).last.blockIndex.toNat + 1) * cfg.blockSize.toNat < 2 ^ 64)
    (home : NodeId) :
    Blocks.LeastSpan cfg.blockSize.toNat addr.offset.toNat (addr.offset.toNat + size.toNat)
      (blockRangeBaseAddr cfg (resolveBlockRange cfg addr size) home).offset.toNat
      ((blockRangeBaseAddr cfg (resolveBlockRange cfg addr size) home).offset.toNat +
        (blockRangeSize cfg (resolveBlockRange cfg addr size)).toNat) := by
  have positive := toNat_pos filled
  have interval : addr.offset.toNat < addr.offset.toNat + size.toNat := by omega
  have order := Blocks.first_le_last (b := cfg.blockSize.toNat) interval
  rw [toNat_resolve_last filled fits] at below
  have whole : ((addr.offset.toNat + size.toNat - 1) / cfg.blockSize.toNat + 1) * cfg.blockSize.toNat =
      addr.offset.toNat / cfg.blockSize.toNat * cfg.blockSize.toNat +
        ((addr.offset.toNat + size.toNat - 1) / cfg.blockSize.toNat - addr.offset.toNat / cfg.blockSize.toNat + 1) *
          cfg.blockSize.toNat := by
    rw [← Nat.add_mul]
    congr 1
    omega
  have base : (blockRangeBaseAddr cfg (resolveBlockRange cfg addr size) home).offset.toNat =
      addr.offset.toNat / cfg.blockSize.toNat * cfg.blockSize.toNat := by
    change ((resolveBlockRange cfg addr size).first.blockIndex * cfg.blockSize).toNat = _
    rw [UInt64.toNat_mul, toNat_resolve_first, Nat.mod_eq_of_lt (by omega)]
  have span : (blockRangeSize cfg (resolveBlockRange cfg addr size)).toNat =
      ((addr.offset.toNat + size.toNat - 1) / cfg.blockSize.toNat - addr.offset.toNat / cfg.blockSize.toNat + 1) *
        cfg.blockSize.toNat := by
    unfold blockRangeSize
    rw [UInt64.toNat_mul, toNat_resolve_count block filled fits, Nat.mod_eq_of_lt (by omega)]
  rw [base, span, ← whole]
  exact Blocks.leastSpan_blocks (toNat_pos block) interval

end

/-- What it is for `range` to be the blocks of `[offset, offset + size)`, and to stay so in
a control request. -/
structure ResolvesExactly (cfg : Config) (addr : GlobalAddr) (size : UInt64) (range : BlockRange) : Prop where
  allocator : ∀ d : DsmAllocator, d.validateRangeUnlocked cfg addr size = true →
    d.resolveBlockRange cfg addr size = some range
  region : range.first.regionId = addr.regionId ∧ range.last.regionId = addr.regionId
  blocks : ∀ k : Nat, (range.first.blockIndex.toNat ≤ k ∧ k ≤ range.last.blockIndex.toNat) ↔
    Blocks.Meets cfg.blockSize.toNat addr.offset.toNat (addr.offset.toNat + size.toNat) k
  count : range.count.toNat =
    {k | Blocks.Meets cfg.blockSize.toNat addr.offset.toNat (addr.offset.toNat + size.toNat) k}.ncard
  base : ∀ home, (blockRangeBaseAddr cfg range home).homeNode = home ∧
    (blockRangeBaseAddr cfg range home).regionId = addr.regionId
  span : (range.last.blockIndex.toNat + 1) * cfg.blockSize.toNat < 2 ^ 64 → ∀ home,
    Blocks.LeastSpan cfg.blockSize.toNat addr.offset.toNat (addr.offset.toNat + size.toNat)
      (blockRangeBaseAddr cfg range home).offset.toNat
      ((blockRangeBaseAddr cfg range home).offset.toNat + (blockRangeSize cfg range).toNat)
  message : ∀ requestId mode opcode version,
    (makeControlMessage cfg requestId addr range mode opcode version).range = range
  text : ∀ requestId mode opcode version,
    (makeControlMessage cfg requestId addr range mode opcode version).Addressed →
      ∃ received, parseControlMessage (formatControlMessage
        (makeControlMessage cfg requestId addr range mode opcode version)) = .ok (some received) ∧
        received.range = range

/-- **Block resolution is exact.** For every block size and every filled range that does not
wrap, the two resolvers give one range, its blocks are those the range shares a byte with,
its count is how many these are, and the span a receiver rebuilds from a request for it is
the least span of whole blocks around the range. -/
theorem resolve_exact (cfg : Config) (addr : GlobalAddr) (size : UInt64) (block : cfg.blockSize ≠ 0) (filled : size ≠ 0)
    (fits : addr.offset.toNat + size.toNat ≤ 2 ^ 64) :
    ResolvesExactly cfg addr size (resolveBlockRange cfg addr size) where
  allocator _ valid := DsmAllocator.resolveBlockRange_eq_some.mpr ⟨valid, rfl⟩
  region := ⟨rfl, rfl⟩
  blocks := resolve_meets block filled fits
  count := by
    have positive := toNat_pos filled
    rw [toNat_resolve_count block filled fits, Blocks.ncard_meets (toNat_pos block) (by omega)]
  base _ := ⟨rfl, rfl⟩
  span := resolve_span block filled fits
  message _ _ _ _ := rfl
  text _ _ _ _ addressed := ⟨_, parseControlMessage_format addressed, rfl⟩

/-- A range from inside block 1 to the end of block 2. -/
theorem resolve_exact_boundary :
    let cfg : Config := { blockSize := 64 }
    let addr : GlobalAddr := ⟨1, 0, 100⟩
    resolveBlockRange cfg addr 92 = ⟨⟨0, 1⟩, ⟨0, 2⟩, 2⟩ ∧ ResolvesExactly cfg addr 92 ⟨⟨0, 1⟩, ⟨0, 2⟩, 2⟩ := by
  refine ⟨by decide, ?_⟩
  exact resolve_exact { blockSize := 64 } ⟨1, 0, 100⟩ 92 (by decide) (by decide) (by decide)

end LeoMem
