import LeoMem.Transport

/-!
# Bounds checks of the stub transport

`ValidateRangeUnlocked` and the remote paths of `StubTransport` add before they
compare, in 64-bit words. Without a wrap an accepted range lies inside one
allocation and inside the region; with one it never does, so the checks are sound
exactly where the sum does not wrap or the wrapped sum is rejected all the same
(`boundsSound_iff`).
-/

namespace LeoMem
open Lib

/-- The states `Allocate` and the transport's reads and writes lead to. -/
inductive StubReachable (cfg : Config) : DsmAllocator → StubTransport → Prop where
  | init : StubReachable cfg (.init cfg) (.init cfg)
  | allocate {d : DsmAllocator} {t : StubTransport} (size : UInt64) :
      StubReachable cfg d t → StubReachable cfg (d.allocate cfg size).2 t
  | read {d : DsmAllocator} {t : StubTransport} (addr : GlobalAddr) (size : UInt64) :
      StubReachable cfg d t → StubReachable cfg d (t.read cfg d addr size).2
  | write {d : DsmAllocator} {t : StubTransport} (addr : GlobalAddr) (buf : Bytes) :
      StubReachable cfg d t → StubReachable cfg d (t.write cfg d addr buf).2

namespace StubTransport

/-- A remote region is unused so far or has the configured size. -/
def Sized (cfg : Config) (t : StubTransport) : Prop :=
  ∀ node, (t.remoteRegions node).data = [] ∨ (t.remoteRegions node).size = cfg.localRegionSize

theorem sized_init (cfg : Config) : (init cfg).Sized cfg := fun _ => Or.inl rfl

variable {cfg : Config} {t : StubTransport}

theorem Sized.size_region (sized : t.Sized cfg) (node : NodeId) : (t.region cfg node).size = cfg.localRegionSize := by
  unfold region
  split
  · exact Bytes.size_zeros _
  · rename_i used
    rcases sized node with blank | full
    · simp [blank] at used
    · exact full

theorem Sized.setRegion (sized : t.Sized cfg) (node : NodeId) {region : Bytes} (size : region.size = cfg.localRegionSize) :
    (t.setRegion node region).Sized cfg := by
  intro n
  by_cases same : n = node
  · subst same
    exact Or.inr (by simpa [StubTransport.setRegion] using size)
  · simpa [StubTransport.setRegion, same] using sized n

theorem Sized.read (sized : t.Sized cfg) (d : DsmAllocator) (addr : GlobalAddr) (size : UInt64) :
    (t.read cfg d addr size).2.Sized cfg := by
  unfold StubTransport.read
  split
  · split <;> exact sized
  · simp only
    split <;> exact sized.setRegion _ (sized.size_region _)

theorem Sized.write (sized : t.Sized cfg) (d : DsmAllocator) (addr : GlobalAddr) (buf : Bytes) :
    (t.write cfg d addr buf).2.Sized cfg := by
  unfold StubTransport.write
  split
  · split <;> exact sized
  · have prepared := sized.setRegion addr.homeNode (sized.size_region addr.homeNode)
    simp only
    split
    · exact prepared
    · exact prepared.setRegion _ (by rw [Bytes.size_blit, sized.size_region])

end StubTransport

theorem StubReachable.sized {cfg : Config} {d : DsmAllocator} {t : StubTransport} (reach : StubReachable cfg d t) :
    t.Sized cfg := by
  induction reach with
  | init => exact StubTransport.sized_init cfg
  | allocate _ _ ih => exact ih
  | read addr size _ ih => exact ih.read _ addr size
  | write addr buf _ ih => exact ih.write _ addr buf

/-- `[offset, offset + size)` lies in one recorded allocation and in the region, as natural
numbers. -/
def InAllocation (d : DsmAllocator) (addr : GlobalAddr) (size : UInt64) : Prop :=
  (∃ e ∈ d.allocations, e.2.offset.toNat ≤ addr.offset.toNat ∧
    addr.offset.toNat + size.toNat ≤ e.2.offset.toNat + e.2.size.toNat) ∧
  addr.offset.toNat + size.toNat ≤ d.regionSize.toNat

/-- What the bounds checks promise of one access. -/
structure BoundsSound (cfg : Config) (d : DsmAllocator) (t : StubTransport) (addr : GlobalAddr) (buf : Bytes) : Prop where
  pointer : ∀ p, d.translateLocal cfg addr buf.size = some p → InAllocation d addr buf.size
  localRead : addr.homeNode = cfg.nodeId → ∀ bytes, (t.read cfg d addr buf.size).1 = .ok bytes →
    InAllocation d addr buf.size
  localWrite : addr.homeNode = cfg.nodeId → (t.write cfg d addr buf).1 = .kOk → InAllocation d addr buf.size
  remoteRead : addr.homeNode ≠ cfg.nodeId → ∀ bytes, (t.read cfg d addr buf.size).1 = .ok bytes →
    addr.offset.toNat + buf.size.toNat ≤ cfg.localRegionSize.toNat
  remoteWrite : addr.homeNode ≠ cfg.nodeId → (t.write cfg d addr buf).1 = .kOk →
    addr.offset.toNat + buf.size.toNat ≤ cfg.localRegionSize.toNat

/-- A wrapped sum that some comparison still rejects: remotely the sum exceeds the region,
locally no allocation starts at or below the offset, or the sum from the allocation's start
exceeds its size, or the sum from the region's start exceeds the region. -/
def WrapCaught (cfg : Config) (d : DsmAllocator) (addr : GlobalAddr) (size : UInt64) : Prop :=
  if addr.homeNode = cfg.nodeId then
    addr.isValid = false ∨ cfg.blockSize = 0 ∨
      ∀ alloc, d.lookupFloor addr.offset = some alloc → alloc.offset ≤ addr.offset →
        alloc.size < addr.offset - alloc.offset + size ∨ d.regionSize < addr.offset + size
  else cfg.localRegionSize < addr.offset + size

section
variable {cfg : Config} {d : DsmAllocator} {t : StubTransport} {addr : GlobalAddr}

theorem lookupFloor_mem {offset : UInt64} {alloc : AllocationMeta} (found : d.lookupFloor offset = some alloc) :
    ∃ e ∈ d.allocations, e.2 = alloc := by
  obtain ⟨e, last, rfl⟩ := Option.map_eq_some_iff.mp found
  exact ⟨e, (List.takeWhile_sublist _).mem (List.mem_of_getLast? last), rfl⟩

variable {size : UInt64}

/-- What an accepted local range passed. -/
theorem validateRange_iff (filled : size ≠ 0) :
    d.validateRangeUnlocked cfg addr size = true ↔
      addr.isValid = true ∧ addr.homeNode = cfg.nodeId ∧ cfg.blockSize ≠ 0 ∧
        ∃ alloc, d.lookupFloor addr.offset = some alloc ∧ alloc.offset ≤ addr.offset ∧
          addr.offset - alloc.offset + size ≤ alloc.size ∧ addr.offset + size ≤ d.regionSize := by
  unfold DsmAllocator.validateRangeUnlocked
  cases valid : addr.isValid
  · simp
  by_cases home : addr.homeNode = cfg.nodeId
  · by_cases block : cfg.blockSize = 0
    · simp [block, filled, home]
    · cases found : d.lookupFloor addr.offset with
      | none => simp [filled, home, block]
      | some alloc => simp [filled, home, block, UInt64.not_lt]
  · simp [filled, home]

theorem translateLocal_isSome_iff :
    (∃ p, d.translateLocal cfg addr size = some p) ↔ d.validateRangeUnlocked cfg addr size = true := by
  unfold DsmAllocator.translateLocal
  split <;> simp_all

theorem read_local_ok_iff (home : addr.homeNode = cfg.nodeId) :
    (∃ bytes, (t.read cfg d addr size).1 = .ok bytes) ↔ d.validateRangeUnlocked cfg addr size = true := by
  rw [← translateLocal_isSome_iff]
  unfold StubTransport.read
  rw [if_pos home]
  cases d.translateLocal cfg addr size <;> simp

theorem write_local_ok_iff (home : addr.homeNode = cfg.nodeId) {buf : Bytes} :
    (t.write cfg d addr buf).1 = .kOk ↔ d.validateRangeUnlocked cfg addr buf.size = true := by
  rw [← translateLocal_isSome_iff]
  unfold StubTransport.write
  rw [if_pos home]
  cases d.translateLocal cfg addr buf.size <;> simp

theorem read_remote_ok_iff (sized : t.Sized cfg) (home : addr.homeNode ≠ cfg.nodeId) :
    (∃ bytes, (t.read cfg d addr size).1 = .ok bytes) ↔ addr.offset + size ≤ cfg.localRegionSize := by
  unfold StubTransport.read
  rw [if_neg home]
  simp only [sized.size_region]
  split
  · rename_i exceeds
    simpa using UInt64.not_le.mpr exceeds
  · rename_i fits
    simpa using UInt64.not_lt.mp fits

theorem write_remote_ok_iff (sized : t.Sized cfg) (home : addr.homeNode ≠ cfg.nodeId) {buf : Bytes} :
    (t.write cfg d addr buf).1 = .kOk ↔ addr.offset + buf.size ≤ cfg.localRegionSize := by
  unfold StubTransport.write
  rw [if_neg home]
  simp only [sized.size_region]
  split
  · rename_i exceeds
    simpa using UInt64.not_le.mpr exceeds
  · rename_i fits
    simpa using UInt64.not_lt.mp fits

/-- A range accepted without a wrap is where it should be. -/
theorem inAllocation_of_noWrap (filled : size ≠ 0) (fits : addr.offset.toNat + size.toNat < 2 ^ 64)
    (accepted : d.validateRangeUnlocked cfg addr size = true) : InAllocation d addr size := by
  obtain ⟨-, -, -, alloc, found, start, inAlloc, inRegion⟩ := (validateRange_iff filled).mp accepted
  obtain ⟨e, member, rfl⟩ := lookupFloor_mem found
  rw [UInt64.le_iff_toNat_le] at start inAlloc inRegion
  rw [UInt64.toNat_add, UInt64.toNat_sub_of_le _ _ (UInt64.le_iff_toNat_le.mpr start),
    Nat.mod_eq_of_lt (by omega)] at inAlloc
  rw [UInt64.toNat_add, Nat.mod_eq_of_lt fits] at inRegion
  exact ⟨⟨e, member, start, by omega⟩, inRegion⟩

/-- A wrapped range accepted locally is nowhere in the region. -/
theorem not_inAllocation_of_wrap (wraps : ¬ addr.offset.toNat + size.toNat < 2 ^ 64) : ¬ InAllocation d addr size := by
  rintro ⟨-, inRegion⟩
  have := d.regionSize.toNat_lt
  omega

/-- A local range is rejected exactly when one of the comparisons catches it. -/
theorem wrapCaught_local_iff (home : addr.homeNode = cfg.nodeId) (filled : size ≠ 0) :
    WrapCaught cfg d addr size ↔ d.validateRangeUnlocked cfg addr size = false := by
  rw [← Bool.not_eq_true, validateRange_iff filled, WrapCaught, if_pos home]
  simp only [home, true_and, not_and, not_exists]
  constructor
  · rintro (invalid | block | caught) valid filledBlock alloc found start inAlloc inRegion
    · simp [invalid] at valid
    · exact filledBlock block
    · rcases caught alloc found start with exceeds | exceeds
      · exact UInt64.not_le.mpr exceeds inAlloc
      · exact UInt64.not_le.mpr exceeds inRegion
  · intro rejected
    by_cases valid : addr.isValid = true
    · by_cases block : cfg.blockSize = 0
      · exact Or.inr (Or.inl block)
      · refine Or.inr (Or.inr fun alloc found start => ?_)
        by_cases inAlloc : addr.offset - alloc.offset + size ≤ alloc.size
        · exact Or.inr (UInt64.not_le.mp (rejected valid block alloc found start inAlloc))
        · exact Or.inl (UInt64.not_le.mp inAlloc)
    · exact Or.inl (by simpa using valid)

/-- **The bounds checks are sound** for an access, local or remote, exactly when
`offset + size` does not wrap or the wrapped sum is rejected all the same. -/
theorem boundsSound_iff (reach : StubReachable cfg d t) (addr : GlobalAddr) (buf : Bytes) (filled : buf.size ≠ 0) :
    BoundsSound cfg d t addr buf ↔
      addr.offset.toNat + buf.size.toNat < 2 ^ 64 ∨ WrapCaught cfg d addr buf.size := by
  have sized := reach.sized
  by_cases home : addr.homeNode = cfg.nodeId
  · have sound : BoundsSound cfg d t addr buf ↔
        (d.validateRangeUnlocked cfg addr buf.size = true → InAllocation d addr buf.size) := by
      constructor
      · intro h accepted
        obtain ⟨p, some⟩ := translateLocal_isSome_iff.mpr accepted
        exact h.pointer p some
      · intro h
        exact ⟨fun p some => h (translateLocal_isSome_iff.mp ⟨p, some⟩),
          fun _ bytes ok => h ((read_local_ok_iff home).mp ⟨bytes, ok⟩),
          fun _ ok => h ((write_local_ok_iff home).mp ok),
          fun away => absurd home away, fun away => absurd home away⟩
    rw [sound, wrapCaught_local_iff home filled]
    by_cases fits : addr.offset.toNat + buf.size.toNat < 2 ^ 64
    · simp only [fits, true_or, iff_true]
      exact inAllocation_of_noWrap filled fits
    · simp only [fits, false_or, not_inAllocation_of_wrap fits, imp_false, Bool.not_eq_true]
  · have noPointer : ∀ p, d.translateLocal cfg addr buf.size ≠ some p := by
      intro p some
      exact home ((validateRange_iff filled).mp (translateLocal_isSome_iff.mp ⟨p, some⟩)).2.1
    have sound : BoundsSound cfg d t addr buf ↔
        (addr.offset + buf.size ≤ cfg.localRegionSize →
          addr.offset.toNat + buf.size.toNat ≤ cfg.localRegionSize.toNat) := by
      constructor
      · intro h fits
        exact h.remoteWrite home ((write_remote_ok_iff sized home).mpr fits)
      · intro h
        exact ⟨fun p some => absurd some (noPointer p), fun here => absurd here home, fun here => absurd here home,
          fun _ bytes ok => h ((read_remote_ok_iff sized home).mp ⟨bytes, ok⟩),
          fun _ ok => h ((write_remote_ok_iff sized home).mp ok)⟩
    have bound := cfg.localRegionSize.toNat_lt
    rw [sound, WrapCaught, if_neg home, UInt64.le_iff_toNat_le, UInt64.lt_iff_toNat_lt, UInt64.toNat_add]
    by_cases fits : addr.offset.toNat + buf.size.toNat < 2 ^ 64
    · simp only [fits, true_or, iff_true, Nat.mod_eq_of_lt fits]
      exact id
    · simp only [fits, false_or]
      omega

end

/-- A region of four blocks, the first two of them allocated. -/
def halfAllocated : Config × DsmAllocator :=
  let cfg : Config := { blockSize := 4, localRegionSize := 16 }
  (cfg, ((DsmAllocator.init cfg).allocate cfg 8).2)

theorem halfAllocated_boundsSound :
    StubReachable halfAllocated.1 halfAllocated.2 (.init halfAllocated.1) ∧
      BoundsSound halfAllocated.1 halfAllocated.2 (.init halfAllocated.1) ⟨0, 0, 4⟩ (.ofList [7, 7, 7, 7]) :=
  ⟨.allocate 8 .init, (boundsSound_iff (.allocate 8 .init) _ _ (by decide)).mpr (Or.inl (by decide))⟩

/-- One byte at the last 64-bit offset passes both checks, at home and remotely. -/
theorem lastOffset_accepted :
    StubReachable halfAllocated.1 halfAllocated.2 (.init halfAllocated.1) ∧
      ¬ BoundsSound halfAllocated.1 halfAllocated.2 (.init halfAllocated.1) ⟨0, 0, 0xffffffffffffffff⟩ (.ofList [7]) ∧
      ¬ BoundsSound halfAllocated.1 halfAllocated.2 (.init halfAllocated.1) ⟨1, 0, 0xffffffffffffffff⟩ (.ofList [7]) := by
  refine ⟨.allocate 8 .init, fun sound => ?_, fun sound => ?_⟩
  · have inside := sound.pointer 0xffffffffffffffff (by decide +kernel)
    exact absurd inside.2 (by decide +kernel)
  · have inside := sound.remoteWrite (by decide) (by decide +kernel)
    exact absurd inside (by decide +kernel)

end LeoMem
