import LeoMem.Stub.Bounds
import LeoMem.Lib.Run

/-!
# The layout of the home region

`Allocate` moves a bump pointer, `next_offset_`. Where the pointer never passes the
end of the 64-bit words, the recorded allocations lie in key order, one behind the
other, below it (`Bumped`), and the lookup by `upper_bound` finds the one allocation a
range lies in.
-/

namespace LeoMem
open Lib

/-! ## Rounding up -/

theorem toNat_alignUp {size block : UInt64} (filled : block ≠ 0) :
    (alignUp size block).toNat =
      if size.toNat + block.toNat - 1 < 2 ^ 64 then
        (size.toNat + block.toNat - 1) / block.toNat * block.toNat
      else 0 := by
  have positive := toNat_pos filled
  have sizeLt := size.toNat_lt
  have blockLt := block.toNat_lt
  have one : (1 : UInt64).toNat = 1 := rfl
  have sum : (size + block - 1).toNat = (size.toNat + block.toNat - 1) % 2 ^ 64 := by
    rw [UInt64.toNat_sub, UInt64.toNat_add, one]
    omega
  rw [alignUp, if_neg filled, UInt64.toNat_mul, UInt64.toNat_div, sum]
  split
  · rename_i fits
    rw [Nat.mod_eq_of_lt fits]
    have le := Nat.div_mul_le_self (size.toNat + block.toNat - 1) block.toNat
    exact Nat.mod_eq_of_lt (by omega)
  · rename_i wraps
    have small : (size.toNat + block.toNat - 1) % 2 ^ 64 < block.toNat := by omega
    rw [Nat.div_eq_of_lt small, Nat.zero_mul, Nat.zero_mod]

/-- A request rounded up, where the sum does not wrap: a multiple of the block that takes
the request in and no more than a block beyond it. -/
theorem alignUp_bounds {size block : UInt64} (filled : block ≠ 0) (fits : size.toNat + block.toNat - 1 < 2 ^ 64) :
    size ≤ alignUp size block ∧ block.toNat ∣ (alignUp size block).toNat ∧
      (alignUp size block).toNat < size.toNat + block.toNat := by
  have positive := toNat_pos filled
  have up : (alignUp size block).toNat = _ := toNat_alignUp filled
  rw [if_pos fits] at up
  have division := Nat.div_add_mod (size.toNat + block.toNat - 1) block.toNat
  have rest := Nat.mod_lt (size.toNat + block.toNat - 1) positive
  rw [Nat.mul_comm] at division
  refine ⟨UInt64.le_iff_toNat_le.mpr (by omega), up ▸ Nat.dvd_mul_left _ _, by omega⟩

/-! ## One allocation -/

namespace DsmAllocator
variable {cfg : Config} {d : DsmAllocator} {size : UInt64}

/-- `Allocate` records the request: it is not empty, and the bump pointer's sum, wrapped or
not, does not exceed the region. -/
def grants (cfg : Config) (d : DsmAllocator) (size : UInt64) : Prop :=
  size ≠ 0 ∧ cfg.blockSize ≠ 0 ∧ d.nextOffset + alignUp size cfg.blockSize ≤ d.regionSize

instance (cfg : Config) (d : DsmAllocator) (size : UInt64) : Decidable (d.grants cfg size) :=
  inferInstanceAs (Decidable (_ ∧ _ ∧ _))

theorem allocate_granted (granted : d.grants cfg size) :
    d.allocate cfg size =
      (⟨cfg.nodeId, kDefaultRegionId, d.nextOffset⟩,
        { d with
          allocations := emplace d.nextOffset ⟨d.nextOffset, alignUp size cfg.blockSize⟩ d.allocations
          nextOffset := d.nextOffset + alignUp size cfg.blockSize }) := by
  obtain ⟨filled, block, fits⟩ := granted
  unfold allocate
  rw [if_neg (by simp [filled, block])]
  exact if_neg (UInt64.not_lt.mpr fits)

theorem allocate_refused (refused : ¬ d.grants cfg size) : d.allocate cfg size = (invalidGlobalAddr, d) := by
  unfold allocate
  split
  · rfl
  · rename_i filled
    rw [not_or] at filled
    exact if_pos (UInt64.not_le.mp fun fits => refused ⟨filled.1, filled.2, fits⟩)

theorem allocate_regionSize (cfg : Config) (d : DsmAllocator) (size : UInt64) :
    (d.allocate cfg size).2.regionSize = d.regionSize := by
  by_cases granted : d.grants cfg size
  · rw [allocate_granted granted]
  · rw [allocate_refused granted]

variable {e : UInt64 × AllocationMeta} {es : List (UInt64 × AllocationMeta)}

/-- Entries stay: `emplace` never removes or replaces one. -/
theorem mem_emplace_of_mem (key : UInt64) (a : AllocationMeta) (member : e ∈ es) : e ∈ emplace key a es := by
  induction es with
  | nil => cases member
  | cons head es ih =>
    unfold emplace
    split
    · exact List.mem_cons_of_mem _ member
    · split
      · exact member
      · rcases List.mem_cons.mp member with rfl | later
        · exact List.mem_cons_self
        · exact List.mem_cons_of_mem _ (ih later)

theorem mem_allocate_of_mem (cfg : Config) (size : UInt64) (member : e ∈ d.allocations) :
    e ∈ (d.allocate cfg size).2.allocations := by
  by_cases granted : d.grants cfg size
  · rw [allocate_granted granted]
    exact mem_emplace_of_mem _ _ member
  · rw [allocate_refused granted]
    exact member

/-- Above all keys `emplace` appends. -/
theorem emplace_of_lt {key : UInt64} {a : AllocationMeta} (above : ∀ e ∈ es, e.1 < key) :
    emplace key a es = es ++ [(key, a)] := by
  induction es with
  | nil => rfl
  | cons head es ih =>
    have lt := above head List.mem_cons_self
    unfold emplace
    rw [if_neg (UInt64.not_lt.mpr (UInt64.le_of_lt lt)), if_neg (fun same => UInt64.lt_irrefl _ (same ▸ lt)),
      ih fun e member => above e (List.mem_cons_of_mem _ member)]
    rfl

/-- At a key that is there `emplace` does nothing, as long as the keys increase. -/
theorem emplace_of_mem {a : AllocationMeta} (increasing : es.Pairwise fun a b => a.1 < b.1) (member : e ∈ es) :
    emplace e.1 a es = es := by
  induction es with
  | nil => cases member
  | cons head es ih =>
    obtain ⟨later, increasing⟩ := List.pairwise_cons.mp increasing
    unfold emplace
    rcases List.mem_cons.mp member with rfl | member
    · rw [if_neg (UInt64.lt_irrefl _), if_pos rfl]
    · have lt := later e member
      rw [if_neg (UInt64.not_lt.mpr (UInt64.le_of_lt lt)), if_neg (fun same => UInt64.lt_irrefl _ (same ▸ lt)),
        ih increasing member]

/-! ## The bump pointer -/

/-- The end of an allocation, as a number. -/
def stop (e : UInt64 × AllocationMeta) : Nat := e.2.offset.toNat + e.2.size.toNat

/-- **The layout**: every allocation under its own offset, one behind the other, none past
the bump pointer, and the pointer inside the region. An allocation may be empty. -/
structure Bumped (d : DsmAllocator) : Prop where
  keyed : ∀ e ∈ d.allocations, e.1 = e.2.offset
  increasing : d.allocations.Pairwise fun a b => a.1 < b.1
  apart : d.allocations.Pairwise fun a b => stop a ≤ b.2.offset.toNat
  below : ∀ e ∈ d.allocations, stop e ≤ d.nextOffset.toNat
  inRegion : d.nextOffset ≤ d.regionSize

theorem bumped_init (cfg : Config) : (init cfg).Bumped :=
  ⟨by simp [init], List.Pairwise.nil, List.Pairwise.nil, by simp [init], UInt64.zero_le⟩

/-- The sum of the bump pointer and the rounded request does not wrap, or is too large for
the region even wrapped. -/
def NoWrap (cfg : Config) (d : DsmAllocator) (size : UInt64) : Prop :=
  d.nextOffset.toNat + (alignUp size cfg.blockSize).toNat < 2 ^ 64 ∨
    d.regionSize < d.nextOffset + alignUp size cfg.blockSize

instance (cfg : Config) (d : DsmAllocator) (size : UInt64) : Decidable (d.NoWrap cfg size) :=
  inferInstanceAs (Decidable (_ ∨ _))

theorem NoWrap.toNat_next (noWrap : d.NoWrap cfg size) (granted : d.grants cfg size) :
    (d.nextOffset + alignUp size cfg.blockSize).toNat = d.nextOffset.toNat + (alignUp size cfg.blockSize).toNat := by
  rcases noWrap with fits | exceeds
  · rw [UInt64.toNat_add, Nat.mod_eq_of_lt fits]
  · exact absurd granted.2.2 (UInt64.not_le.mpr exceeds)

/-- An allocation at the bump pointer is recorded last, unless an empty one is there. -/
theorem Bumped.emplace_next (bumped : d.Bumped) (a : AllocationMeta) :
    emplace d.nextOffset a d.allocations = d.allocations ++ [(d.nextOffset, a)] ∨
      emplace d.nextOffset a d.allocations = d.allocations ∧ ∃ e ∈ d.allocations, e.2 = ⟨d.nextOffset, 0⟩ := by
  by_cases there : ∃ e ∈ d.allocations, e.1 = d.nextOffset
  · obtain ⟨e, member, key⟩ := there
    have below := bumped.below e member
    have offset : e.2.offset = d.nextOffset := (bumped.keyed e member).symm.trans key
    have empty : e.2.size = 0 := by
      rw [stop, offset] at below
      exact UInt64.toNat_inj.mp (Nat.le_zero.mp (by omega))
    refine Or.inr ⟨key ▸ emplace_of_mem bumped.increasing member, e, member, ?_⟩
    rw [← offset, ← empty]
  · refine Or.inl (emplace_of_lt fun e member => ?_)
    have below := bumped.below e member
    rw [stop, ← bumped.keyed e member] at below
    refine UInt64.lt_iff_toNat_lt.mpr (Nat.lt_of_le_of_ne (by omega) fun same => there ⟨e, member, ?_⟩)
    exact UInt64.toNat_inj.mp same

/-- **One `Allocate`** keeps the layout where its sum does not wrap. -/
theorem Bumped.allocate (bumped : d.Bumped) (noWrap : d.NoWrap cfg size) : (d.allocate cfg size).2.Bumped := by
  by_cases granted : d.grants cfg size
  · have next := noWrap.toNat_next granted
    have below : ∀ e ∈ d.allocations, stop e ≤ (d.nextOffset + alignUp size cfg.blockSize).toNat := fun e member =>
      (bumped.below e member).trans (by omega)
    rw [allocate_granted granted]
    rcases bumped.emplace_next ⟨d.nextOffset, alignUp size cfg.blockSize⟩ with appended | ⟨same, -⟩
    · simp only [appended]
      have fresh : ∀ e ∈ d.allocations, e.1 < d.nextOffset := by
        intro e member
        have sorted := bumped.increasing
        refine UInt64.lt_iff_toNat_lt.mpr (Nat.lt_of_le_of_ne ?_ fun same => ?_)
        · have := bumped.below e member
          rw [stop, ← bumped.keyed e member] at this
          omega
        · -- the key would be there already, and `emplace` would not have appended
          have kept := emplace_of_mem (a := ⟨d.nextOffset, alignUp size cfg.blockSize⟩) sorted member
          rw [UInt64.toNat_inj.mp same, appended] at kept
          simpa using congrArg List.length kept
      refine ⟨fun e member => ?_, ?_, ?_, fun e member => ?_, granted.2.2⟩
      · rcases List.mem_append.mp member with old | new
        · exact bumped.keyed e old
        · rw [List.mem_singleton.mp new]
      · exact List.pairwise_append.mpr ⟨bumped.increasing, List.pairwise_singleton _ _, fun e member new inNew => by
          rw [List.mem_singleton.mp inNew]
          exact fresh e member⟩
      · exact List.pairwise_append.mpr ⟨bumped.apart, List.pairwise_singleton _ _, fun e member new inNew => by
          rw [List.mem_singleton.mp inNew]
          exact bumped.below e member⟩
      · rcases List.mem_append.mp member with old | new
        · exact below e old
        · rw [List.mem_singleton.mp new, stop, next]
    · simp only [same]
      exact ⟨bumped.keyed, bumped.increasing, bumped.apart, below, granted.2.2⟩
  · rw [allocate_refused granted]
    exact bumped

/-! ## The lookup -/

/-- `[offset, offset + size)` lies inside the allocation, as numbers. -/
def Inside (addr : GlobalAddr) (size : UInt64) (e : UInt64 × AllocationMeta) : Prop :=
  e.2.offset.toNat ≤ addr.offset.toNat ∧ addr.offset.toNat + size.toNat ≤ stop e

instance (addr : GlobalAddr) (size : UInt64) (e : UInt64 × AllocationMeta) : Decidable (Inside addr size e) :=
  inferInstanceAs (Decidable (_ ∧ _))

/-- The greatest key at most an offset is the key of the allocation the offset lies in. -/
theorem lookupFloor_of_sorted {offset : UInt64} (increasing : es.Pairwise fun a b => a.1 < b.1) (member : e ∈ es)
    (start : e.1 ≤ offset) (last : ∀ a ∈ es, e.1 < a.1 → offset < a.1) :
    (es.takeWhile fun a => a.1 ≤ offset).getLast? = some e := by
  induction es with
  | nil => cases member
  | cons head es ih =>
    obtain ⟨later, increasing⟩ := List.pairwise_cons.mp increasing
    rcases List.mem_cons.mp member with rfl | member
    · have stops : es.takeWhile (fun a => a.1 ≤ offset) = [] := by
        cases es with
        | nil => rfl
        | cons a es =>
          have beyond := last a (by simp) (later a List.mem_cons_self)
          simp [beyond]
      simp [start, stops]
    · have below : head.1 ≤ offset := UInt64.le_trans (UInt64.le_of_lt (later e member)) start
      have rest := ih increasing member fun a inTail => last a (List.mem_cons_of_mem _ inTail)
      rw [List.takeWhile_cons_of_pos (by simpa using below), List.getLast?_cons, rest]
      rfl

/-- Of two allocations the one with the smaller key ends before the other starts. -/
theorem Bumped.stop_le (bumped : d.Bumped) {a b : UInt64 × AllocationMeta} (inA : a ∈ d.allocations)
    (inB : b ∈ d.allocations) (lt : a.1 < b.1) : stop a ≤ b.2.offset.toNat := by
  let ordered : UInt64 × AllocationMeta → UInt64 × AllocationMeta → Prop := fun a b => a.1 < b.1 → stop a ≤ b.2.offset.toNat
  have pairs : d.allocations.Pairwise fun a b => ordered a b ∧ ordered b a := by
    refine (bumped.increasing.and bumped.apart).imp fun {a b} both => ⟨fun _ => both.2, fun back => ?_⟩
    exact absurd (UInt64.lt_trans both.1 back) (UInt64.lt_irrefl _)
  have symm : Std.Symm fun a b => ordered a b ∧ ordered b a := ⟨fun _ _ both => ⟨both.2, both.1⟩⟩
  have self : ∀ a, ordered a a := fun a back => absurd back (UInt64.lt_irrefl _)
  exact (pairs.forall_of_forall (fun a _ => ⟨self a, self a⟩) inA inB).1 lt

theorem Bumped.lookupFloor (bumped : d.Bumped) {offset : UInt64} (member : e ∈ d.allocations)
    (start : e.2.offset.toNat ≤ offset.toNat) (inside : offset.toNat < stop e) : d.lookupFloor offset = some e.2 := by
  have found : (d.allocations.takeWhile fun a => a.1 ≤ offset).getLast? = some e := lookupFloor_of_sorted bumped.increasing member
    (UInt64.le_iff_toNat_le.mpr (bumped.keyed e member ▸ start)) fun a inList lt => by
      have apart := bumped.stop_le member inList lt
      rw [← bumped.keyed a inList] at apart
      exact UInt64.lt_iff_toNat_lt.mpr (by omega)
  simp [DsmAllocator.lookupFloor, found]

/-- **Validation**: a local range that is not empty and does not wrap is accepted exactly
when it lies inside one recorded allocation. -/
theorem Bumped.validate_iff (bumped : d.Bumped) {addr : GlobalAddr} (valid : addr.isValid = true)
    (home : addr.homeNode = cfg.nodeId) (block : cfg.blockSize ≠ 0) (filled : size ≠ 0)
    (fits : addr.offset.toNat + size.toNat < 2 ^ 64) :
    d.validateRangeUnlocked cfg addr size = true ↔ ∃ e ∈ d.allocations, Inside addr size e := by
  have positive := toNat_pos filled
  constructor
  · intro accepted
    obtain ⟨⟨e, member, start, stop⟩, -⟩ := inAllocation_of_noWrap filled fits accepted
    exact ⟨e, member, start, stop⟩
  · rintro ⟨e, member, start, stops⟩
    have inRegion := UInt64.le_iff_toNat_le.mp bumped.inRegion
    have below := bumped.below e member
    have startWord : e.2.offset ≤ addr.offset := UInt64.le_iff_toNat_le.mpr start
    refine (validateRange_iff filled).mpr ⟨valid, home, block, e.2, bumped.lookupFloor member start (by omega), startWord,
      UInt64.le_iff_toNat_le.mpr ?_, UInt64.le_iff_toNat_le.mpr ?_⟩
    · rw [stop] at stops
      rw [UInt64.toNat_add, UInt64.toNat_sub_of_le _ _ startWord, Nat.mod_eq_of_lt (by omega)]
      omega
    · rw [UInt64.toNat_add, Nat.mod_eq_of_lt fits]
      omega

end DsmAllocator
end LeoMem
