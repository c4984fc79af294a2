import LeoMem.Lib.Bytes
import Mathlib.Data.List.Nodup
import Mathlib.Data.Rat.Defs

/-!
# Addresses, blocks, status codes and configuration

The public headers `include/leomem/{types,addr,block,status,config}.h`. Sizes and
offsets are the source's 64-bit words and wrap as they do. A configured ratio is
an exact rational where the source has a `double`.
-/

namespace LeoMem

abbrev NodeId := UInt16
abbrev RegionId := UInt16
abbrev BlockIndex := UInt64
abbrev Version := UInt64

/-- `static_cast<NodeId>(-1)`. -/
def kInvalidNodeId : NodeId := 0xffff

def kDefaultRegionId : RegionId := 0

structure GlobalAddr where
  homeNode : NodeId := kInvalidNodeId
  regionId : RegionId := kDefaultRegionId
  offset : UInt64 := 0
  deriving DecidableEq, Repr

def GlobalAddr.isValid (a : GlobalAddr) : Bool := a.homeNode != kInvalidNodeId

def invalidGlobalAddr : GlobalAddr := {}

inductive AccessType where
  | kRead
  | kWrite
  deriving DecidableEq, Repr

inductive BlockState where
  | kInvalid
  | kShared
  | kOwner
  | kHome
  | kTransient
  deriving DecidableEq, Repr

inductive CoherenceMode where
  | kWI
  | kSI
  | kAdaptive
  deriving DecidableEq, Repr

/-- `static_cast<int>(mode)`. -/
def CoherenceMode.toInt : CoherenceMode → Int
  | .kWI => 0
  | .kSI => 1
  | .kAdaptive => 2

structure BlockId where
  regionId : RegionId := kDefaultRegionId
  blockIndex : BlockIndex := 0
  deriving DecidableEq, Repr

inductive Status where
  | kOk
  | kInvalidArg
  | kNotInitialized
  | kAlreadyInitialized
  | kNoMemory
  | kNotFound
  | kOutOfRange
  | kTimedOut
  | kUnimplemented
  | kInternalError
  deriving DecidableEq, Repr

/-- The options the modelled functions read. -/
structure Config where
  nodeId : NodeId := 0
  nrNodes : UInt16 := 1
  blockSize : UInt64 := 4096
  localRegionSize : UInt64 := 64 * 1024 * 1024
  enableCache : Bool := true
  enableWriteBatching : Bool := true
  rdmaEnableControlPath : Bool := true
  coherenceModeOverride : Int := -1
  cacheAdmissionPolicy : Int := 0
  controlAckTimeoutPolls : UInt64 := 4
  controlAckMaxRetries : UInt64 := 2
  profilingWindowSize : UInt64 := 8
  cacheCapacityBytes : UInt64 := 0
  cacheAdmissionMinReads : UInt64 := 2
  cacheAdmissionMaxWrites : UInt64 := 1
  cacheAdmissionMaxSharers : UInt64 := 2
  cacheAdmissionMaxReuseDistance : UInt64 := 4
  cacheAdmissionMinReadRatio : ℚ := 60 / 100
  cacheAdmissionMaxPhaseChangeRatio : ℚ := 35 / 100
  remoteWriteBatchThreshold : UInt64 := 1
  coherenceSharerPromoteThreshold : UInt64 := 2
  coherenceInvalidationPromoteThreshold : UInt64 := 2
  coherenceWriteDominantRatio : ℚ := 55 / 100
  coherencePhaseChangePromoteRatio : ℚ := 30 / 100
  adaptiveModeBatchThreshold : UInt64 := 1

/-- `BlockRange` of `dsm_allocator.h`. -/
structure BlockRange where
  first : BlockId := {}
  last : BlockId := {}
  count : UInt64 := 0
  deriving DecidableEq, Repr

/-- The indices `for (index = first; index <= last; ++index)` visits, where it ends. -/
def blockIndices (first last : BlockIndex) : List BlockIndex :=
  (List.range' first.toNat (last.toNat + 1 - first.toNat)).map UInt64.ofNat

theorem mem_blockIndices {first last i : BlockIndex} : i ∈ blockIndices first last ↔ first ≤ i ∧ i ≤ last := by
  have bound := last.toNat_lt
  simp only [blockIndices, List.mem_map, List.mem_range'_1, UInt64.le_iff_toNat_le]
  constructor
  · rintro ⟨n, range, rfl⟩
    rw [UInt64.toNat_ofNat', Nat.mod_eq_of_lt (by omega)]
    omega
  · intro range
    exact ⟨i.toNat, by omega, UInt64.ofNat_toNat⟩

theorem nodup_blockIndices (first last : BlockIndex) : (blockIndices first last).Nodup := by
  have bound := last.toNat_lt
  apply List.Nodup.map_on _ List.nodup_range'
  intro a inA b inB same
  simp only [List.mem_range'_1] at inA inB
  have := congrArg UInt64.toNat same
  rw [UInt64.toNat_ofNat', UInt64.toNat_ofNat', Nat.mod_eq_of_lt (by omega), Nat.mod_eq_of_lt (by omega)] at this
  exact this

/-! ### Words as numbers -/

theorem toNat_min (a b : UInt64) : (min a b).toNat = min a.toNat b.toNat := by
  change (if a ≤ b then a else b).toNat = _
  rw [Nat.min_def, apply_ite UInt64.toNat]
  exact if_congr UInt64.le_iff_toNat_le rfl rfl

theorem toNat_max (a b : UInt64) : (max a b).toNat = max a.toNat b.toNat := by
  change (if a ≤ b then b else a).toNat = _
  rw [Nat.max_def, apply_ite UInt64.toNat]
  exact if_congr UInt64.le_iff_toNat_le rfl rfl

theorem toNat_succ {c : UInt64} (room : c.toNat + 1 < 2 ^ 64) : (c + 1).toNat = c.toNat + 1 := by
  rw [UInt64.toNat_add, UInt64.toNat_one, Nat.mod_eq_of_lt room]

theorem toNat_pos {n : UInt64} (filled : n ≠ 0) : 0 < n.toNat :=
  Nat.pos_of_ne_zero fun zero => filled (UInt64.toNat_inj.mp zero)

theorem blockIndices_of_lt {first last : BlockIndex} (passed : last < first) : blockIndices first last = [] := by
  rw [UInt64.lt_iff_toNat_lt] at passed
  rw [blockIndices, Nat.sub_eq_zero_of_le passed]
  rfl

/-- The loop's first round, at an index that has a successor. -/
theorem blockIndices_cons {first last : BlockIndex} (le : first ≤ last) (room : first.toNat + 1 < 2 ^ 64) :
    blockIndices first last = first :: blockIndices (first + 1) last := by
  rw [UInt64.le_iff_toNat_le] at le
  have left : last.toNat + 1 - first.toNat = last.toNat + 1 - (first.toNat + 1) + 1 := by omega
  rw [blockIndices, blockIndices, toNat_succ room, left, List.range'_succ, List.map_cons, UInt64.ofNat_toNat]

/-- The last offset of a range that does not wrap. -/
theorem toNat_last {offset size : UInt64} (filled : size ≠ 0) (fits : offset.toNat + size.toNat ≤ 2 ^ 64) :
    (offset + size - 1).toNat = offset.toNat + size.toNat - 1 := by
  have positive : size.toNat ≠ 0 := fun zero => filled (UInt64.toNat_inj.mp zero)
  have one : (1 : UInt64).toNat = 1 := rfl
  rw [UInt64.toNat_sub, UInt64.toNat_add, one]
  omega

end LeoMem
