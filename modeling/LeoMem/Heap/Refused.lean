import LeoMem.Api.Records
import LeoMem.Heap.Layout

/-!
# Requests larger than the room that is left

`Allocate` refuses a request when the bump pointer plus the rounded size exceeds the
region, both 64-bit sums. A request near 2^64 can pass that test: it is recorded, and
`lm_malloc` turns the result down afterwards without taking the record back. The
module says exactly when an impossible request leaves no trace.
-/

namespace LeoMem
open Lib RuntimeContext

namespace DsmAllocator
variable {cfg : Config} {d : DsmAllocator} {size : UInt64}

/-! ## Recording -/

variable {es : List (UInt64 × AllocationMeta)}

theorem length_emplace_of_absent {key : UInt64} (a : AllocationMeta) (absent : ∀ e ∈ es, e.1 ≠ key) :
    (emplace key a es).length = es.length + 1 := by
  induction es with
  | nil => rfl
  | cons head es ih =>
    unfold emplace
    split
    · rfl
    · rw [if_neg (absent head List.mem_cons_self).symm, List.length_cons, List.length_cons,
        ih fun e member => absent e (List.mem_cons_of_mem _ member)]

theorem mem_emplace {key : UInt64} {a : AllocationMeta} {e : UInt64 × AllocationMeta} (member : e ∈ emplace key a es) :
    e = (key, a) ∨ e ∈ es := by
  induction es with
  | nil => exact Or.inl (List.mem_singleton.mp member)
  | cons head es ih =>
    unfold emplace at member
    split at member
    · exact List.mem_cons.mp member
    · split at member
      · exact Or.inr member
      · rcases List.mem_cons.mp member with rfl | later
        · exact Or.inr List.mem_cons_self
        · rcases ih later with new | old
          · exact Or.inl new
          · exact Or.inr (List.mem_cons_of_mem _ old)

/-- The keys keep increasing, wherever the bump pointer is. -/
theorem increasing_emplace (increasing : es.Pairwise fun a b => a.1 < b.1) (key : UInt64) (a : AllocationMeta) :
    (emplace key a es).Pairwise fun a b => a.1 < b.1 := by
  induction es with
  | nil => exact List.pairwise_singleton _ _
  | cons head es ih =>
    obtain ⟨later, rest⟩ := List.pairwise_cons.mp increasing
    unfold emplace
    split
    · rename_i before
      refine List.pairwise_cons.mpr ⟨fun e member => ?_, increasing⟩
      rcases List.mem_cons.mp member with rfl | tail
      · exact before
      · exact UInt64.lt_trans before (later e tail)
    · split
      · exact increasing
      · rename_i after other
        refine List.pairwise_cons.mpr ⟨fun e member => ?_, ih rest⟩
        rcases mem_emplace member with rfl | old
        · exact UInt64.lt_of_le_of_ne (UInt64.not_lt.mp after) fun same => other same.symm
        · exact later e old

theorem increasing_allocate (increasing : d.allocations.Pairwise fun a b => a.1 < b.1) (cfg : Config) (size : UInt64) :
    (d.allocate cfg size).2.allocations.Pairwise fun a b => a.1 < b.1 := by
  by_cases granted : d.grants cfg size
  · rw [allocate_granted granted]
    exact increasing_emplace increasing _ _
  · rw [allocate_refused granted]
    exact increasing

/-- The request is refused by the test of `Allocate`, or its record is one that is there already
and does not take the request in. -/
def RefusalSeen (cfg : Config) (d : DsmAllocator) (size : UInt64) : Prop :=
  cfg.blockSize = 0 ∨ d.regionSize < d.nextOffset + alignUp size cfg.blockSize ∨
    alignUp size cfg.blockSize = 0 ∧ (∃ e ∈ d.allocations, e.1 = d.nextOffset) ∧
      d.validateRangeUnlocked cfg ⟨cfg.nodeId, kDefaultRegionId, d.nextOffset⟩ size = false

instance (cfg : Config) (d : DsmAllocator) (size : UInt64) : Decidable (d.RefusalSeen cfg size) :=
  inferInstanceAs (Decidable (_ ∨ _ ∨ _))

theorem refusalSeen_of_refused (filled : size ≠ 0) (refused : ¬ d.grants cfg size) : d.RefusalSeen cfg size := by
  by_cases block : cfg.blockSize = 0
  · exact Or.inl block
  · exact Or.inr (Or.inl (UInt64.not_le.mp fun fits => refused ⟨filled, block, fits⟩))

/-- Where neither sum wraps an impossible request is refused. -/
theorem refusalSeen_of_noWrap (tooLarge : d.regionSize.toNat - d.nextOffset.toNat < size.toNat)
    (rounds : size.toNat + cfg.blockSize.toNat - 1 < 2 ^ 64)
    (bumps : d.nextOffset.toNat + (alignUp size cfg.blockSize).toNat < 2 ^ 64) : d.RefusalSeen cfg size := by
  by_cases block : cfg.blockSize = 0
  · exact Or.inl block
  · have up := UInt64.le_iff_toNat_le.mp (alignUp_bounds block rounds).1
    refine Or.inr (Or.inl (UInt64.lt_iff_toNat_lt.mpr ?_))
    rw [UInt64.toNat_add, Nat.mod_eq_of_lt bumps]
    omega

end DsmAllocator

section
variable {ω : Type}

/-- `lm_malloc` of `size` answers with an invalid address and leaves no trace: not in the
allocator, and not in what later calls answer. -/
structure RefusedCleanly (ctx : RuntimeContext ω) (size : UInt64) : Prop where
  invalid : (lmMalloc ctx size).1.isValid = false
  nextOffset : (lmMalloc ctx size).2.allocator.nextOffset = ctx.allocator.nextOffset
  allocations : (lmMalloc ctx size).2.allocator.allocations = ctx.allocator.allocations
  later : ∀ sizes, (run lmMalloc (lmMalloc ctx size).2 sizes).1 = (run lmMalloc ctx sizes).1

variable {ctx : RuntimeContext ω} {size : UInt64}

/-- An allocation whose record changes nothing and does not take the request in is turned down
by `lm_malloc`, and the node is as it was. -/
theorem lmMalloc_turned_down {addr : GlobalAddr}
    (allocated : ctx.allocator.allocate ctx.config size = (addr, ctx.allocator))
    (rejected : addr.isValid = true → ctx.allocator.validateRangeUnlocked ctx.config addr size = false) :
    (lmMalloc ctx size).1.isValid = false ∧ (lmMalloc ctx size).2 = ctx := by
  unfold lmMalloc
  split
  · exact ⟨rfl, rfl⟩
  · simp only [allocated]
    split
    · rename_i valid
      have unresolved : ctx.allocator.resolveBlockRange ctx.config addr size = none := by
        simp [DsmAllocator.resolveBlockRange, rejected valid]
      rw [unresolved]
      exact ⟨rfl, rfl⟩
    · rename_i invalid
      exact ⟨by simpa using invalid, rfl⟩

/-- **One `lm_malloc`** of a request leaves no trace exactly where its refusal is seen. -/
theorem refusedCleanly_iff (ready : ctx.initialized = true) (filled : size ≠ 0)
    (increasing : ctx.allocator.allocations.Pairwise fun a b => a.1 < b.1) :
    RefusedCleanly ctx size ↔ ctx.allocator.RefusalSeen ctx.config size := by
  have unchanged : ∀ {addr}, ctx.allocator.allocate ctx.config size = (addr, ctx.allocator) →
      (addr.isValid = true → ctx.allocator.validateRangeUnlocked ctx.config addr size = false) →
      RefusedCleanly ctx size := by
    intro addr allocated rejected
    obtain ⟨invalid, same⟩ := lmMalloc_turned_down allocated rejected
    exact ⟨invalid, by rw [same], by rw [same], fun sizes => by rw [same]⟩
  by_cases granted : ctx.allocator.grants ctx.config size
  · have allocated := DsmAllocator.allocate_granted granted
    constructor
    · intro clean
      obtain ⟨-, recorded, answer⟩ := lmMalloc_spec ready size allocated
      have still := clean.nextOffset
      have same := clean.allocations
      have invalid := clean.invalid
      rw [recorded] at still same
      simp only at still same
      have empty : alignUp size ctx.config.blockSize = 0 := by simpa using still
      have present : ∃ e ∈ ctx.allocator.allocations, e.1 = ctx.allocator.nextOffset := by
        by_contra absent
        have longer := DsmAllocator.length_emplace_of_absent ⟨ctx.allocator.nextOffset, alignUp size ctx.config.blockSize⟩
          fun e member at_next => absent ⟨e, member, at_next⟩
        rw [same] at longer
        omega
      refine Or.inr (Or.inr ⟨empty, present, ?_⟩)
      -- the allocator is the one `lm_malloc` checked its answer against
      simp only [still, same] at answer
      by_contra accepted
      rw [answer, if_neg fun both => accepted both.2] at invalid
      have rejected := accepted
      simp [DsmAllocator.validateRangeUnlocked, invalid] at rejected
    · intro seen
      rcases seen with block | exceeds | ⟨empty, ⟨e, member, at_next⟩, rejected⟩
      · exact absurd block granted.2.1
      · exact absurd granted.2.2 (UInt64.not_le.mpr exceeds)
      · refine unchanged ?_ fun _ => rejected
        have same := DsmAllocator.emplace_of_mem (a := ⟨ctx.allocator.nextOffset, 0⟩) increasing member
        rw [at_next] at same
        rw [allocated, empty, same]
        simp
  · have allocated := DsmAllocator.allocate_refused granted
    exact ⟨fun _ => DsmAllocator.refusalSeen_of_refused filled granted, fun _ => unchanged allocated fun valid => by cases valid⟩

/-! ## Reachable allocators -/

/-- What every node keeps of its allocator. -/
structure Mapped (cfg : Config) (ctx : RuntimeContext ω) : Prop where
  initialized : ctx.initialized = true
  config : ctx.config = cfg
  increasing : ctx.allocator.allocations.Pairwise fun a b => a.1 < b.1

theorem Mapped.exec [Transport ω] {cfg : Config} (mapped : Mapped cfg ctx) (i : Invocation) :
    Mapped cfg (exec ctx i).2 := by
  obtain ⟨config, initialized, allocator⟩ := exec_setup ctx i
  refine ⟨initialized.trans mapped.initialized, config.trans mapped.config, ?_⟩
  rcases allocator with same | ⟨size, -, grown⟩
  · rw [same]
    exact mapped.increasing
  · rw [grown]
    exact DsmAllocator.increasing_allocate mapped.increasing _ _

variable [Transport ω]

/-- **An impossible request leaves no trace**: in every state the API reaches, over any transport,
a request larger than the room that is left is refused cleanly exactly where its refusal is seen. -/
theorem impossible_malloc_iff (cfg : Config) (w : ω) (calls : List Invocation) (size : UInt64)
    (tooLarge : (run exec (RuntimeContext.init cfg w) calls).2.allocator.regionSize.toNat -
      (run exec (RuntimeContext.init cfg w) calls).2.allocator.nextOffset.toNat < size.toNat) :
    RefusedCleanly (run exec (RuntimeContext.init cfg w) calls).2 size ↔
      (run exec (RuntimeContext.init cfg w) calls).2.allocator.RefusalSeen cfg size := by
  have initial : Mapped cfg (RuntimeContext.init cfg w) := ⟨rfl, rfl, List.Pairwise.nil⟩
  have mapped := run_keeps (I := Mapped cfg) (fun _ i held => held.exec i) calls initial
  have filled : size ≠ 0 := by
    rintro rfl
    rw [UInt64.toNat_zero] at tooLarge
    omega
  rw [refusedCleanly_iff mapped.initialized filled mapped.increasing, mapped.config]

end

/-- A region of two blocks, one of them handed out. -/
def twoBlocks : Config := { blockSize := 4, localRegionSize := 8 }

def halfTaken : RuntimeContext StubTransport :=
  (run exec (RuntimeContext.init twoBlocks (StubTransport.init twoBlocks)) [⟨.stored, .malloc 4⟩]).2

theorem halfTaken_refuses_five : halfTaken.allocator.RefusalSeen twoBlocks 5 ∧ RefusedCleanly halfTaken 5 := by
  have seen : halfTaken.allocator.RefusalSeen twoBlocks 5 := by decide +kernel
  have tooLarge : halfTaken.allocator.regionSize.toNat - halfTaken.allocator.nextOffset.toNat < (5 : UInt64).toNat := by
    decide +kernel
  exact ⟨seen, (impossible_malloc_iff twoBlocks (StubTransport.init twoBlocks) [⟨.stored, .malloc 4⟩] 5 tooLarge).mpr seen⟩

/-- The largest size rounds to no blocks at all: it is recorded at the bump pointer, and the block
that is left can never be handed out. -/
theorem largest_malloc_blocks_region :
    halfTaken.allocator.regionSize.toNat - halfTaken.allocator.nextOffset.toNat < (0xffffffffffffffff : UInt64).toNat ∧
      (run lmMalloc halfTaken [4]).1 = [⟨0, 0, 4⟩] ∧
      (run lmMalloc (lmMalloc halfTaken 0xffffffffffffffff).2 [4]).1 = [invalidGlobalAddr] ∧
      ¬ RefusedCleanly halfTaken 0xffffffffffffffff := by
  have free : (run lmMalloc halfTaken [4]).1 = [⟨0, 0, 4⟩] := by decide +kernel
  have blocked : (run lmMalloc (lmMalloc halfTaken 0xffffffffffffffff).2 [4]).1 = [invalidGlobalAddr] := by decide +kernel
  refine ⟨by decide +kernel, free, blocked, fun clean => ?_⟩
  have same := clean.later [4]
  rw [free, blocked] at same
  exact absurd same (by decide)

end LeoMem
