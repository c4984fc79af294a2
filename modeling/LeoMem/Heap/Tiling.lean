import LeoMem.Heap.Layout
import Mathlib.Data.Set.Basic

/-!
# Allocations tile the region

Every allocation is a whole number of blocks, so no block is shared by two of them and
the per-block metadata of one is never another's. Both the bump pointer and the range
check add before they compare. The layout is sound exactly where no accepted request
takes the sum past the 64-bit words, which no region that fits in memory allows; a range
across two allocations is turned down exactly where its own sum does not wrap, or is
caught wrapped (`allocations_tile_iff`).
-/

namespace LeoMem
open Lib DsmAllocator

/-- A request and the address `Allocate` answered it with. -/
abbrev AllocateCall := UInt64 × GlobalAddr

/-- The address of an allocation. -/
def allocationAddr (cfg : Config) (e : UInt64 × AllocationMeta) : GlobalAddr := ⟨cfg.nodeId, kDefaultRegionId, e.2.offset⟩

/-- The range has a byte of the allocation, as numbers. -/
def Meets (addr : GlobalAddr) (size : UInt64) (e : UInt64 × AllocationMeta) : Prop :=
  addr.offset.toNat < stop e ∧ e.2.offset.toNat < addr.offset.toNat + size.toNat

instance (addr : GlobalAddr) (size : UInt64) (e : UInt64 × AllocationMeta) : Decidable (Meets addr size e) :=
  inferInstanceAs (Decidable (_ ∧ _))

/-- A range of this node's region with bytes of two allocations. -/
def Crosses (cfg : Config) (d : DsmAllocator) (addr : GlobalAddr) (size : UInt64) : Prop :=
  addr.homeNode = cfg.nodeId ∧
    ∃ a ∈ d.allocations, ∃ b ∈ d.allocations, a ≠ b ∧ Meets addr size a ∧ Meets addr size b

/-- What the recorded allocations promise after the calls `calls`, where the ranges `asked`
are put to `ValidateRangeUnlocked`. -/
structure AllocationsSound (cfg : Config) (calls : List AllocateCall) (asked : Set (GlobalAddr × UInt64))
    (d : DsmAllocator) : Prop where
  disjoint : d.allocations.Pairwise fun a b => stop a ≤ b.2.offset.toNat
  aligned : ∀ e ∈ d.allocations, cfg.blockSize.toNat ∣ e.2.offset.toNat
  sized : ∀ e ∈ d.allocations, 0 < e.2.size.toNat ∧ cfg.blockSize.toNat ∣ e.2.size.toNat
  requested : ∀ e ∈ d.allocations, ∃ call ∈ calls, call.2 = allocationAddr cfg e ∧ call.1 ≤ e.2.size
  returned : ∀ call ∈ calls, call.2.isValid = true →
    ∃ e ∈ d.allocations, call.2 = allocationAddr cfg e ∧ call.1 ≤ e.2.size
  gapless : ∀ x < d.nextOffset.toNat, ∃ e ∈ d.allocations, e.2.offset.toNat ≤ x ∧ x < stop e
  below : ∀ e ∈ d.allocations, stop e ≤ d.nextOffset.toNat
  inRegion : ∀ e ∈ d.allocations, stop e ≤ d.regionSize.toNat
  /-- Sub-ranges of two allocations have no block in common. -/
  ownBlocks : ∀ a ∈ d.allocations, ∀ b ∈ d.allocations, a ≠ b → ∀ addr size addr' size' range range',
    Inside addr size a → Inside addr' size' b → d.resolveBlockRange cfg addr size = some range →
    d.resolveBlockRange cfg addr' size' = some range' →
    ∀ id ∈ range.ids addr.regionId, id ∉ range'.ids addr'.regionId
  accepted : ∀ e ∈ d.allocations, ∀ addr size, addr.isValid = true → addr.homeNode = cfg.nodeId → size ≠ 0 →
    Inside addr size e → d.validateRangeUnlocked cfg addr size = true
  /-- A range that does not wrap is accepted only inside one allocation. -/
  inside : ∀ addr size, addr.offset.toNat + size.toNat < 2 ^ 64 → d.validateRangeUnlocked cfg addr size = true →
    ∃ e ∈ d.allocations, Inside addr size e
  uncrossed : ∀ r ∈ asked, Crosses cfg d r.1 r.2 → d.validateRangeUnlocked cfg r.1 r.2 = false

/-- The layout of whole blocks, from the region's start up to the bump pointer. -/
structure Tiled (cfg : Config) (calls : List AllocateCall) (d : DsmAllocator) : Prop where
  bumped : d.Bumped
  region : d.regionSize = cfg.localRegionSize
  pointer : cfg.blockSize.toNat ∣ d.nextOffset.toNat
  aligned : ∀ e ∈ d.allocations, cfg.blockSize.toNat ∣ e.2.offset.toNat
  sized : ∀ e ∈ d.allocations, 0 < e.2.size.toNat ∧ cfg.blockSize.toNat ∣ e.2.size.toNat
  gapless : ∀ x < d.nextOffset.toNat, ∃ e ∈ d.allocations, e.2.offset.toNat ≤ x ∧ x < stop e
  requested : ∀ e ∈ d.allocations, ∃ call ∈ calls, call.2 = allocationAddr cfg e ∧ call.1 ≤ e.2.size
  returned : ∀ call ∈ calls, call.2.isValid = true →
    ∃ e ∈ d.allocations, call.2 = allocationAddr cfg e ∧ call.1 ≤ e.2.size

section
variable {cfg : Config} {calls : List AllocateCall} {d : DsmAllocator} {size : UInt64}

theorem tiled_init (cfg : Config) : Tiled cfg [] (init cfg) where
  bumped := bumped_init cfg
  region := rfl
  pointer := Nat.dvd_zero _
  aligned := by simp [init]
  sized := by simp [init]
  gapless x lt := absurd lt (by simp [init])
  requested := by simp [init]
  returned := by simp

/-- A request no larger than the region rounds up without a wrap. -/
theorem request_fits (room : cfg.localRegionSize.toNat + cfg.blockSize.toNat < 2 ^ 64)
    (within : size ≤ cfg.localRegionSize) : size.toNat + cfg.blockSize.toNat - 1 < 2 ^ 64 := by
  rw [UInt64.le_iff_toNat_le] at within
  omega

theorem alignUp_positive (block : cfg.blockSize ≠ 0) (fits : size.toNat + cfg.blockSize.toNat - 1 < 2 ^ 64)
    (filled : size ≠ 0) : 0 < (alignUp size cfg.blockSize).toNat := by
  have positive := toNat_pos filled
  have le := UInt64.le_iff_toNat_le.mp (alignUp_bounds block fits).1
  omega

/-- No empty allocation is in the way of the next one. -/
theorem Tiled.emplace_next (tiled : Tiled cfg calls d) (a : AllocationMeta) :
    emplace d.nextOffset a d.allocations = d.allocations ++ [(d.nextOffset, a)] := by
  rcases tiled.bumped.emplace_next a with appended | ⟨-, e, member, empty⟩
  · exact appended
  · have positive := (tiled.sized e member).1
    rw [empty] at positive
    exact absurd positive (by simp)

/-- **One `Allocate`** keeps the tiling where its sum does not wrap. -/
theorem Tiled.allocate (tiled : Tiled cfg calls d) (room : cfg.localRegionSize.toNat + cfg.blockSize.toNat < 2 ^ 64)
    (within : size ≤ cfg.localRegionSize) (noWrap : d.NoWrap cfg size) :
    Tiled cfg (calls ++ [(size, (d.allocate cfg size).1)]) (d.allocate cfg size).2 := by
  have bumped := tiled.bumped.allocate noWrap
  have older : ∀ call ∈ calls, call ∈ calls ++ [(size, (d.allocate cfg size).1)] := fun _ => List.mem_append_left _
  by_cases granted : d.grants cfg size
  · have ⟨filled, block, _⟩ := granted
    have fits := request_fits room within
    obtain ⟨enough, whole, -⟩ := alignUp_bounds block fits
    have positive := alignUp_positive block fits filled
    have next := noWrap.toNat_next granted
    rw [allocate_granted granted] at bumped older ⊢
    simp only [tiled.emplace_next] at bumped ⊢
    -- every fact is the old one for the old allocations, and direct for the new one
    have split : ∀ {P : UInt64 × AllocationMeta → Prop}, (∀ e ∈ d.allocations, P e) →
        P (d.nextOffset, ⟨d.nextOffset, alignUp size cfg.blockSize⟩) →
        ∀ e ∈ d.allocations ++ [(d.nextOffset, ⟨d.nextOffset, alignUp size cfg.blockSize⟩)], P e := by
      intro P old new e member
      rcases List.mem_append.mp member with inOld | inNew
      · exact old e inOld
      · rw [List.mem_singleton.mp inNew]
        exact new
    refine ⟨bumped, tiled.region, ?_, split tiled.aligned tiled.pointer, split tiled.sized ⟨positive, whole⟩,
      fun x lt => ?_, split (fun e member => ?_) ?_, fun call member valid => ?_⟩
    · rw [next]
      exact Nat.dvd_add tiled.pointer whole
    · rw [next] at lt
      by_cases old : x < d.nextOffset.toNat
      · obtain ⟨e, member, bounds⟩ := tiled.gapless x old
        exact ⟨e, List.mem_append_left _ member, bounds⟩
      · exact ⟨_, List.mem_append_right _ (List.mem_singleton.mpr rfl), Nat.not_lt.mp old, lt⟩
    · obtain ⟨call, member, facts⟩ := tiled.requested e member
      exact ⟨call, older call member, facts⟩
    · exact ⟨_, List.mem_append_right _ (List.mem_singleton.mpr rfl), rfl, enough⟩
    · rcases List.mem_append.mp member with old | new
      · obtain ⟨e, member, facts⟩ := tiled.returned call old valid
        exact ⟨e, List.mem_append_left _ member, facts⟩
      · rw [List.mem_singleton.mp new]
        exact ⟨_, List.mem_append_right _ (List.mem_singleton.mpr rfl), rfl, enough⟩
  · rw [allocate_refused granted] at bumped older ⊢
    refine ⟨bumped, tiled.region, tiled.pointer, tiled.aligned, tiled.sized, tiled.gapless, fun e member => ?_,
      fun call member valid => ?_⟩
    · obtain ⟨call, member, facts⟩ := tiled.requested e member
      exact ⟨call, older call member, facts⟩
    · rcases List.mem_append.mp member with old | new
      · exact tiled.returned call old valid
      · rw [List.mem_singleton.mp new] at valid
        cases valid

/-! ## What the tiling gives -/

/-- The blocks of a range inside an allocation are blocks of the allocation. -/
theorem Tiled.blocks_inside (tiled : Tiled cfg calls d) {e : UInt64 × AllocationMeta} (member : e ∈ d.allocations)
    {addr : GlobalAddr} (inside : Inside addr size e) {range : BlockRange}
    (resolved : d.resolveBlockRange cfg addr size = some range) {id : BlockId} (inRange : id ∈ range.ids addr.regionId) :
    e.2.offset.toNat / cfg.blockSize.toNat ≤ id.blockIndex.toNat ∧
      id.blockIndex.toNat < stop e / cfg.blockSize.toNat := by
  obtain ⟨start, stops⟩ := inside
  unfold DsmAllocator.resolveBlockRange at resolved
  split at resolved
  · rename_i accepted
    cases resolved
    obtain ⟨-, lower, upper⟩ := BlockRange.mem_ids.mp inRange
    have filled : size ≠ 0 := by
      rintro rfl
      simp [DsmAllocator.validateRangeUnlocked] at accepted
    have block := ((validateRange_iff filled).mp accepted).2.2.1
    have positive := toNat_pos filled
    have blockPositive := toNat_pos block
    have bound := (tiled.bumped.below e member).trans_lt d.nextOffset.toNat_lt
    rw [UInt64.le_iff_toNat_le, UInt64.toNat_div] at lower upper
    rw [toNat_last filled (stops.trans bound.le)] at upper
    have whole : cfg.blockSize.toNat ∣ stop e := Nat.dvd_add (tiled.aligned e member) (tiled.sized e member).2
    refine ⟨(Nat.div_le_div_right start).trans lower, upper.trans_lt ?_⟩
    rw [Nat.div_lt_iff_lt_mul blockPositive, Nat.div_mul_cancel whole]
    omega
  · cases resolved

theorem Tiled.ownBlocks (tiled : Tiled cfg calls d) {a b : UInt64 × AllocationMeta} (inA : a ∈ d.allocations)
    (inB : b ∈ d.allocations) (lt : a.1 < b.1) {addr addr' : GlobalAddr} {size size' : UInt64} {range range' : BlockRange}
    (inside : Inside addr size a) (inside' : Inside addr' size' b)
    (resolved : d.resolveBlockRange cfg addr size = some range)
    (resolved' : d.resolveBlockRange cfg addr' size' = some range') {id : BlockId}
    (member : id ∈ range.ids addr.regionId) : id ∉ range'.ids addr'.regionId := by
  intro member'
  have upper := (tiled.blocks_inside inA inside resolved member).2
  have lower := (tiled.blocks_inside inB inside' resolved' member').1
  have order := Nat.div_le_div_right (c := cfg.blockSize.toNat) (tiled.bumped.stop_le inA inB lt)
  omega

/-- Different allocations have different keys. -/
theorem Tiled.keys (tiled : Tiled cfg calls d) {a b : UInt64 × AllocationMeta} (inA : a ∈ d.allocations)
    (inB : b ∈ d.allocations) (different : a ≠ b) : a.1 ≠ b.1 := by
  intro same
  have distinct : (d.allocations.map Prod.fst).Nodup :=
    List.pairwise_map.mpr (tiled.bumped.increasing.imp fun lt => UInt64.ne_of_lt lt)
  exact different (List.inj_on_of_nodup_map distinct inA inB same)

/-- An accepted range that does not wrap lies inside one allocation. -/
theorem Tiled.inside (tiled : Tiled cfg calls d) {addr : GlobalAddr} (fits : addr.offset.toNat + size.toNat < 2 ^ 64)
    (accepted : d.validateRangeUnlocked cfg addr size = true) : ∃ e ∈ d.allocations, Inside addr size e := by
  have filled : size ≠ 0 := by
    rintro rfl
    simp [DsmAllocator.validateRangeUnlocked] at accepted
  obtain ⟨valid, home, block, -⟩ := (validateRange_iff filled).mp accepted
  exact (tiled.bumped.validate_iff valid home block filled fits).mp accepted

/-- A range inside one allocation has no byte of another. -/
theorem Tiled.not_crosses (tiled : Tiled cfg calls d) {addr : GlobalAddr} {e : UInt64 × AllocationMeta}
    (member : e ∈ d.allocations) (inside : Inside addr size e) : ¬ Crosses cfg d addr size := by
  have only : ∀ a ∈ d.allocations, Meets addr size a → a = e := by
    intro a inA ⟨before, reaches⟩
    obtain ⟨start, stops⟩ := inside
    by_contra different
    rcases UInt64.lt_or_lt_of_ne (tiled.keys inA member different) with lt | lt
    · have apart := tiled.bumped.stop_le inA member lt
      omega
    · have apart := tiled.bumped.stop_le member inA lt
      omega
  rintro ⟨-, a, inA, b, inB, different, meetsA, meetsB⟩
  exact different ((only a inA meetsA).trans (only b inB meetsB).symm)

/-- A range across two allocations is turned down exactly where its sum does not wrap, or is
caught wrapped. -/
theorem Tiled.rejected_iff (tiled : Tiled cfg calls d) {addr : GlobalAddr} (crosses : Crosses cfg d addr size) :
    d.validateRangeUnlocked cfg addr size = false ↔
      addr.offset.toNat + size.toNat < 2 ^ 64 ∨ WrapCaught cfg d addr size := by
  by_cases empty : size = 0
  · have fits := addr.offset.toNat_lt
    simp [empty, DsmAllocator.validateRangeUnlocked, fits]
  · rw [wrapCaught_local_iff crosses.1 empty]
    refine ⟨Or.inr, ?_⟩
    rintro (fits | rejected)
    · by_contra accepted
      obtain ⟨e, member, inside⟩ := tiled.inside fits (by simpa using accepted)
      exact tiled.not_crosses member inside crosses
    · exact rejected

theorem Tiled.sound (tiled : Tiled cfg calls d) (block : cfg.blockSize ≠ 0) {asked : Set (GlobalAddr × UInt64)}
    (uncrossed : ∀ r ∈ asked, Crosses cfg d r.1 r.2 → d.validateRangeUnlocked cfg r.1 r.2 = false) :
    AllocationsSound cfg calls asked d where
  disjoint := tiled.bumped.apart
  aligned := tiled.aligned
  sized := tiled.sized
  requested := tiled.requested
  returned := tiled.returned
  gapless := tiled.gapless
  below := tiled.bumped.below
  inRegion e member := (tiled.bumped.below e member).trans (UInt64.le_iff_toNat_le.mp tiled.bumped.inRegion)
  ownBlocks a inA b inB different addr size addr' size' range range' inside inside' resolved resolved' id member := by
    rcases UInt64.lt_or_lt_of_ne (tiled.keys inA inB different) with lt | lt
    · exact tiled.ownBlocks inA inB lt inside inside' resolved resolved' member
    · exact fun member' => tiled.ownBlocks inB inA lt inside' inside resolved' resolved member' member
  accepted e member addr size valid home filled inside := by
    have bound := (tiled.bumped.below e member).trans_lt d.nextOffset.toNat_lt
    exact (tiled.bumped.validate_iff valid home block filled (inside.2.trans_lt bound)).mpr ⟨e, member, inside⟩
  inside _ _ := tiled.inside
  uncrossed := uncrossed

/-- On a tiled region the promises hold exactly where each range across two allocations that
is asked for does not wrap, or is caught wrapped. -/
theorem Tiled.sound_iff (tiled : Tiled cfg calls d) (block : cfg.blockSize ≠ 0) (asked : Set (GlobalAddr × UInt64)) :
    AllocationsSound cfg calls asked d ↔ ∀ r ∈ asked, Crosses cfg d r.1 r.2 →
      r.1.offset.toNat + r.2.toNat < 2 ^ 64 ∨ WrapCaught cfg d r.1 r.2 := by
  constructor
  · intro sound r member crosses
    exact (tiled.rejected_iff crosses).mp (sound.uncrossed r member crosses)
  · intro turned
    exact tiled.sound block fun r member crosses => (tiled.rejected_iff crosses).mpr (turned r member crosses)

/-! ## Whole runs -/

/-- `Allocate` as a step: the answer and the allocator after it. -/
def allocateStep (cfg : Config) (d : DsmAllocator) (size : UInt64) : GlobalAddr × DsmAllocator := d.allocate cfg size

/-- The answers to the requests `sizes` from a fresh allocator, and the allocator after them. -/
def allocateAll (cfg : Config) (sizes : List UInt64) : List GlobalAddr × DsmAllocator :=
  run (allocateStep cfg) (init cfg) sizes

/-- A request whose sum wraps and is accepted is recorded past the end of the region. -/
theorem Tiled.wrapped (tiled : Tiled cfg calls d) (block : cfg.blockSize ≠ 0)
    (room : cfg.localRegionSize.toNat + cfg.blockSize.toNat < 2 ^ 64) (within : size ≤ cfg.localRegionSize)
    (wraps : ¬ d.NoWrap cfg size) : ∃ e ∈ (d.allocate cfg size).2.allocations, 2 ^ 64 ≤ stop e := by
  obtain ⟨past, accepted⟩ := not_or.mp wraps
  have filled : size ≠ 0 := by
    rintro rfl
    have bounds := (alignUp_bounds block (request_fits room within)).2.1
    have small := (alignUp_bounds block (request_fits room within)).2.2
    have zero : (alignUp 0 cfg.blockSize).toNat = 0 :=
      Nat.eq_zero_of_dvd_of_lt bounds (by simpa using small)
    exact past (by rw [zero]; exact d.nextOffset.toNat_lt)
  have granted : d.grants cfg size := ⟨filled, block, UInt64.not_lt.mp accepted⟩
  rw [allocate_granted granted, tiled.emplace_next]
  exact ⟨_, List.mem_append_right _ (List.mem_singleton.mpr rfl), Nat.not_lt.mp past⟩

/-- In a region of at most a quarter of the 64-bit words the sum never wraps. -/
theorem Tiled.noWrap (tiled : Tiled cfg calls d) (block : cfg.blockSize ≠ 0)
    (room : cfg.localRegionSize.toNat + cfg.blockSize.toNat < 2 ^ 64) (region : cfg.localRegionSize.toNat ≤ 2 ^ 62)
    (within : size ≤ cfg.localRegionSize) : d.NoWrap cfg size := by
  left
  have small := (alignUp_bounds block (request_fits room within)).2.2
  have pointer : d.nextOffset.toNat ≤ cfg.localRegionSize.toNat :=
    UInt64.le_iff_toNat_le.mp (tiled.region ▸ tiled.bumped.inRegion)
  rw [UInt64.le_iff_toNat_le] at within
  by_cases fits : cfg.blockSize.toNat ≤ cfg.localRegionSize.toNat
  · omega
  · -- no block fits into the region, and the pointer is still at its start
    have start := Nat.eq_zero_of_dvd_of_lt tiled.pointer (by omega)
    have bound := (alignUp size cfg.blockSize).toNat_lt
    omega

theorem Tiled.along_noWrap (tiled : Tiled cfg calls d) (block : cfg.blockSize ≠ 0)
    (room : cfg.localRegionSize.toNat + cfg.blockSize.toNat < 2 ^ 64) (region : cfg.localRegionSize.toNat ≤ 2 ^ 62)
    {sizes : List UInt64} (within : ∀ size ∈ sizes, size ≤ cfg.localRegionSize) :
    Along (allocateStep cfg) (fun d size => d.NoWrap cfg size) d sizes := by
  induction sizes generalizing d calls with
  | nil => trivial
  | cons size sizes ih =>
    have withinHead := within size List.mem_cons_self
    have noWrap := tiled.noWrap block room region withinHead
    exact ⟨noWrap, ih (tiled.allocate room withinHead noWrap) fun later member => within later (List.mem_cons_of_mem _ member)⟩

theorem Tiled.run_iff (tiled : Tiled cfg calls d) (block : cfg.blockSize ≠ 0)
    (room : cfg.localRegionSize.toNat + cfg.blockSize.toNat < 2 ^ 64) {sizes : List UInt64}
    (within : ∀ size ∈ sizes, size ≤ cfg.localRegionSize) (asked : Set (GlobalAddr × UInt64)) :
    AllocationsSound cfg (calls ++ sizes.zip (run (allocateStep cfg) d sizes).1) asked (run (allocateStep cfg) d sizes).2 ↔
      Along (allocateStep cfg) (fun d size => d.NoWrap cfg size) d sizes ∧
        ∀ r ∈ asked, Crosses cfg (run (allocateStep cfg) d sizes).2 r.1 r.2 →
          r.1.offset.toNat + r.2.toNat < 2 ^ 64 ∨ WrapCaught cfg (run (allocateStep cfg) d sizes).2 r.1 r.2 := by
  induction sizes generalizing d calls with
  | nil => simpa using tiled.sound_iff block asked
  | cons size sizes ih =>
    have withinHead := within size List.mem_cons_self
    by_cases noWrap : d.NoWrap cfg size
    · have rest := ih (tiled.allocate room withinHead noWrap) fun later member =>
        within later (List.mem_cons_of_mem _ member)
      rw [List.append_assoc] at rest
      simp only [along_cons, noWrap, true_and]
      exact rest
    · simp only [along_cons, noWrap, false_and, iff_false]
      intro sound
      obtain ⟨e, member, past⟩ := tiled.wrapped block room withinHead noWrap
      have stays : e ∈ (run (allocateStep cfg) (d.allocate cfg size).2 sizes).2.allocations :=
        run_keeps (I := fun d : DsmAllocator => e ∈ d.allocations)
          (fun _ later held => mem_allocate_of_mem cfg later held) sizes member
      have inRegion := sound.inRegion e stays
      have bound := ((run (allocateStep cfg) d (size :: sizes)).2.regionSize).toNat_lt
      omega

/-- **Allocations tile the region and share no block**, for every block size, every region
and every sequence of requests, exactly when no accepted request wraps the sum of the bump
pointer and its rounded size, and no range asked for across two allocations wraps its own
sum unnoticed. -/
theorem allocations_tile_iff (block : cfg.blockSize ≠ 0)
    (room : cfg.localRegionSize.toNat + cfg.blockSize.toNat < 2 ^ 64) (sizes : List UInt64)
    (within : ∀ size ∈ sizes, size ≤ cfg.localRegionSize) (asked : Set (GlobalAddr × UInt64)) :
    AllocationsSound cfg (sizes.zip (allocateAll cfg sizes).1) asked (allocateAll cfg sizes).2 ↔
      Along (allocateStep cfg) (fun d size => d.NoWrap cfg size) (init cfg) sizes ∧
        ∀ r ∈ asked, Crosses cfg (allocateAll cfg sizes).2 r.1 r.2 →
          r.1.offset.toNat + r.2.toNat < 2 ^ 64 ∨ WrapCaught cfg (allocateAll cfg sizes).2 r.1 r.2 :=
  (tiled_init cfg).run_iff block room within asked

end

/-- A region of ten bytes in blocks of three: two requests fill three blocks, the third is
turned away. -/
def unevenRegion : Config := { blockSize := 3, localRegionSize := 10 }

/-- Every range of the region that does not wrap may be asked for. -/
theorem unevenRegion_tiled :
    AllocationsSound unevenRegion ([4, 1, 2].zip (allocateAll unevenRegion [4, 1, 2]).1)
      {r | r.1.offset.toNat + r.2.toNat < 2 ^ 64} (allocateAll unevenRegion [4, 1, 2]).2 := by
  have within : ∀ size ∈ [4, 1, 2], size ≤ unevenRegion.localRegionSize := by simp [unevenRegion]
  refine (allocations_tile_iff (by decide) (by decide) [4, 1, 2] within _).mpr ⟨?_, fun r fits _ => .inl fits⟩
  exact (tiled_init unevenRegion).along_noWrap (by decide) (by decide) (by decide) within

/-- A region of sixteen bytes in blocks of four. -/
def evenRegion : Config := { blockSize := 4, localRegionSize := 16 }

/-- A range that starts at the last byte of the first of two allocations and is so long that
its sum wraps has bytes of both, and is accepted. -/
theorem wrappedRange_accepted :
    (allocateAll evenRegion [4, 4]).2.allocations = [(0, ⟨0, 4⟩), (4, ⟨4, 4⟩)] ∧
      Crosses evenRegion (allocateAll evenRegion [4, 4]).2 ⟨0, 0, 3⟩ 0xffffffffffffffff ∧
      (allocateAll evenRegion [4, 4]).2.validateRangeUnlocked evenRegion ⟨0, 0, 3⟩ 0xffffffffffffffff = true ∧
      ¬ AllocationsSound evenRegion ([4, 4].zip (allocateAll evenRegion [4, 4]).1) Set.univ
        (allocateAll evenRegion [4, 4]).2 := by
  have recorded : (allocateAll evenRegion [4, 4]).2.allocations = [(0, ⟨0, 4⟩), (4, ⟨4, 4⟩)] := by decide +kernel
  have crosses : Crosses evenRegion (allocateAll evenRegion [4, 4]).2 ⟨0, 0, 3⟩ 0xffffffffffffffff := by
    refine ⟨rfl, (0, ⟨0, 4⟩), ?_, (4, ⟨4, 4⟩), ?_, by decide, by decide +kernel, by decide +kernel⟩
    · simp [recorded]
    · simp [recorded]
  have accepted : (allocateAll evenRegion [4, 4]).2.validateRangeUnlocked evenRegion ⟨0, 0, 3⟩ 0xffffffffffffffff = true := by
    decide +kernel
  refine ⟨recorded, crosses, accepted, fun sound => ?_⟩
  have rejected := sound.uncrossed (⟨0, 0, 3⟩, 0xffffffffffffffff) trivial crosses
  simp [accepted] at rejected

end LeoMem
