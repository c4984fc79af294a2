import LeoMem.Cache.WriteQueue

/-!
# What a merge writes

A pending write is a patch of its home's bytes. Two writes that `CanMergeWrites`
accepts cover one interval between them, so the merged buffer's zero filler is
overwritten everywhere and the merged entry is the incoming write laid over the
queued one (`patch_absorbWrite`).
-/

namespace LeoMem
open Lib

namespace PendingRemoteWrite

/-- The bytes of the home's memory a write replaces. The transports address that memory
by offset alone. -/
def patch (w : PendingRemoteWrite) : Patch Nat UInt8 := w.payload.patch w.addr.offset.toNat

/-- `offset + size` does not wrap. -/
def NoWrap (w : PendingRemoteWrite) : Prop := w.addr.offset.toNat + w.payload.data.length < 2 ^ 64

instance (w : PendingRemoteWrite) : Decidable w.NoWrap := inferInstanceAs (Decidable (_ < _))

theorem NoWrap.toNat_end {w : PendingRemoteWrite} (fits : w.NoWrap) :
    (w.addr.offset + w.payload.size).toNat = w.addr.offset.toNat + w.payload.data.length := by
  rw [UInt64.toNat_add, Bytes.toNat_size, Nat.mod_eq_of_lt fits]

end PendingRemoteWrite

theorem canMergeWrites_iff {c w : PendingRemoteWrite} (fitsC : c.NoWrap) (fitsW : w.NoWrap) :
    canMergeWrites c w = true ↔
      c.addr.homeNode = w.addr.homeNode ∧ c.addr.regionId = w.addr.regionId ∧
        c.addr.offset.toNat ≤ w.addr.offset.toNat + w.payload.data.length ∧
        w.addr.offset.toNat ≤ c.addr.offset.toNat + c.payload.data.length := by
  unfold canMergeWrites
  split
  · rename_i home
    simp [home]
  split
  · rename_i region
    simp [region]
  rename_i home region
  simp only [ne_eq, not_not] at home region
  simp only [home, region, true_and, Bool.or_eq_true, Bool.not_eq_true', Bool.or_eq_false_iff,
    decide_eq_false_iff_not, decide_eq_true_eq, UInt64.lt_iff_toNat_lt, ← UInt64.toNat_inj,
    fitsC.toNat_end, fitsW.toNat_end]
  omega

section
variable {c w : PendingRemoteWrite}

theorem offset_mergeWrites :
    (mergeWrites c w).addr.offset.toNat = min c.addr.offset.toNat w.addr.offset.toNat := toNat_min _ _

theorem length_mergeWrites (fitsC : c.NoWrap) (fitsW : w.NoWrap) :
    (mergeWrites c w).payload.data.length =
      max (c.addr.offset.toNat + c.payload.data.length) (w.addr.offset.toNat + w.payload.data.length) -
        min c.addr.offset.toNat w.addr.offset.toNat := by
  have order : min c.addr.offset w.addr.offset ≤
      max (c.addr.offset + c.payload.size) (w.addr.offset + w.payload.size) := by
    rw [UInt64.le_iff_toNat_le, toNat_min, toNat_max, fitsC.toNat_end, fitsW.toNat_end]
    omega
  simp only [mergeWrites, Bytes.data_length_blit, Bytes.zeros, Bytes.data_length_tabulate]
  rw [UInt64.toNat_sub_of_le _ _ order, toNat_min, toNat_max, fitsC.toNat_end, fitsW.toNat_end]

theorem noWrap_mergeWrites (fitsC : c.NoWrap) (fitsW : w.NoWrap) : (mergeWrites c w).NoWrap := by
  unfold PendingRemoteWrite.NoWrap at *
  rw [length_mergeWrites fitsC fitsW, offset_mergeWrites]
  omega

/-- A patch moved to a window that starts at `base`. -/
theorem patch_shift (b : Bytes) {off base x : Nat} (le : base ≤ off) (inside : base ≤ x) :
    b.patch (off - base) (x - base) = b.patch off x := by
  unfold Bytes.patch
  have shifted : x - base - (off - base) = x - off := by omega
  rw [shifted]
  exact if_congr (by omega) rfl rfl

theorem byte_mergeWrites (fitsC : c.NoWrap) (fitsW : w.NoWrap) {x : Nat}
    (lower : (mergeWrites c w).addr.offset.toNat ≤ x)
    (upper : x < (mergeWrites c w).addr.offset.toNat + (mergeWrites c w).payload.data.length) :
    (mergeWrites c w).payload.byte (x - (mergeWrites c w).addr.offset.toNat) =
      (w.patch x).getD ((c.patch x).getD 0) := by
  rw [length_mergeWrites fitsC fitsW, offset_mergeWrites] at upper
  rw [offset_mergeWrites] at lower ⊢
  have startC : (c.addr.offset - min c.addr.offset w.addr.offset).toNat =
      c.addr.offset.toNat - min c.addr.offset.toNat w.addr.offset.toNat := by
    rw [UInt64.toNat_sub_of_le _ _ (by rw [UInt64.le_iff_toNat_le, toNat_min]; omega), toNat_min]
  have startW : (w.addr.offset - min c.addr.offset w.addr.offset).toNat =
      w.addr.offset.toNat - min c.addr.offset.toNat w.addr.offset.toNat := by
    rw [UInt64.toNat_sub_of_le _ _ (by rw [UInt64.le_iff_toNat_le, toNat_min]; omega), toNat_min]
  have size : (max (c.addr.offset + c.payload.size) (w.addr.offset + w.payload.size) -
      min c.addr.offset w.addr.offset).toNat =
        max (c.addr.offset.toNat + c.payload.data.length) (w.addr.offset.toNat + w.payload.data.length) -
          min c.addr.offset.toNat w.addr.offset.toNat := by
    have := length_mergeWrites fitsC fitsW
    simpa only [mergeWrites, Bytes.data_length_blit, Bytes.zeros, Bytes.data_length_tabulate] using this
  simp only [mergeWrites]
  rw [Bytes.byte_blit _ _ _ (by simp only [Bytes.data_length_blit, Bytes.zeros, Bytes.data_length_tabulate, size]; omega),
    Bytes.byte_blit _ _ _ (by simp only [Bytes.zeros, Bytes.data_length_tabulate, size]; omega),
    Bytes.byte_zeros, startC, startW, patch_shift _ (by omega) lower, patch_shift _ (by omega) lower]
  rfl

/-- **A merge is an overlay**: the merged entry writes what the queued write and then the
incoming one would, and nothing else. -/
theorem patch_mergeWrites (fitsC : c.NoWrap) (fitsW : w.NoWrap) (merges : canMergeWrites c w = true) :
    (mergeWrites c w).patch = Patch.overlay w.patch c.patch := by
  obtain ⟨-, -, left, right⟩ := (canMergeWrites_iff fitsC fitsW).mp merges
  funext x
  by_cases inside : (mergeWrites c w).addr.offset.toNat ≤ x ∧
      x < (mergeWrites c w).addr.offset.toNat + (mergeWrites c w).payload.data.length
  · have value := byte_mergeWrites fitsC fitsW inside.1 inside.2
    rw [PendingRemoteWrite.patch, Bytes.patch, if_pos inside, value, Patch.overlay]
    cases atW : w.patch x with
    | some b => rfl
    | none =>
      cases atC : c.patch x with
      | some b => rfl
      | none =>
        -- the two ranges meet, so a point of the hull lies in one of them
        have outW := Bytes.patch_eq_none.mp atW
        have outC := Bytes.patch_eq_none.mp atC
        rw [length_mergeWrites fitsC fitsW, offset_mergeWrites] at inside
        omega
  · rw [PendingRemoteWrite.patch, Bytes.patch, if_neg inside, Patch.overlay]
    rw [length_mergeWrites fitsC fitsW, offset_mergeWrites] at inside
    have outW : w.patch x = none := Bytes.patch_eq_none.mpr (by omega)
    have outC : c.patch x = none := Bytes.patch_eq_none.mpr (by omega)
    rw [outW, outC]
    rfl

theorem patch_absorbWrite (fitsC : c.NoWrap) (fitsW : w.NoWrap) (merges : canMergeWrites c w = true) :
    (absorbWrite c w).patch = Patch.overlay w.patch c.patch := patch_mergeWrites fitsC fitsW merges

theorem noWrap_absorbWrite (fitsC : c.NoWrap) (fitsW : w.NoWrap) : (absorbWrite c w).NoWrap :=
  noWrap_mergeWrites fitsC fitsW

end

/-! ## A merge is exact -/

/-- Position `x` of the home's memory lies in the write's range. -/
def PendingRemoteWrite.Covers (w : PendingRemoteWrite) (x : Nat) : Prop :=
  w.addr.offset.toNat ≤ x ∧ x < w.addr.offset.toNat + w.payload.data.length

/-- The ranges of two writes overlap, or one begins where the other ends. -/
def PendingRemoteWrite.Meets (c w : PendingRemoteWrite) : Prop :=
  (∃ x, c.Covers x ∧ w.Covers x) ∨ c.addr.offset.toNat + c.payload.data.length = w.addr.offset.toNat ∨
    w.addr.offset.toNat + w.payload.data.length = c.addr.offset.toNat

/-- What the entry `m` made of the queued write `c` and the incoming write `w` must be. -/
structure MergeExact (c w m : PendingRemoteWrite) : Prop where
  home : m.addr.homeNode = c.addr.homeNode ∧ m.addr.homeNode = w.addr.homeNode
  region : m.addr.regionId = c.addr.regionId ∧ m.addr.regionId = w.addr.regionId
  covers : ∀ x, m.Covers x ↔ c.Covers x ∨ w.Covers x
  incoming : ∀ x, w.Covers x →
    m.payload.byte (x - m.addr.offset.toNat) = w.payload.byte (x - w.addr.offset.toNat)
  current : ∀ x, c.Covers x → ¬ w.Covers x →
    m.payload.byte (x - m.addr.offset.toNat) = c.payload.byte (x - c.addr.offset.toNat)
  memory : ∀ mem : Nat → UInt8, m.patch.apply mem = w.patch.apply (c.patch.apply mem)
  copied : ∀ region : Bytes, region.blit m.addr.offset.toNat m.payload =
    (region.blit c.addr.offset.toNat c.payload).blit w.addr.offset.toNat w.payload

section
variable {c w : PendingRemoteWrite}

theorem PendingRemoteWrite.patch_of_covers {x : Nat} (inside : w.Covers x) :
    w.patch x = some (w.payload.byte (x - w.addr.offset.toNat)) := if_pos inside

theorem PendingRemoteWrite.patch_of_not_covers {x : Nat} (outside : ¬ w.Covers x) : w.patch x = none :=
  if_neg outside

theorem PendingRemoteWrite.patch_ne_none_iff {x : Nat} : w.patch x ≠ none ↔ w.Covers x := by
  rw [ne_eq, PendingRemoteWrite.patch, Bytes.patch_eq_none, not_not]
  rfl

/-- Filled ranges meet exactly when neither ends before the other begins. -/
theorem PendingRemoteWrite.meets_iff (filledC : c.payload.size ≠ 0) (filledW : w.payload.size ≠ 0) :
    c.Meets w ↔ c.addr.offset.toNat ≤ w.addr.offset.toNat + w.payload.data.length ∧
      w.addr.offset.toNat ≤ c.addr.offset.toNat + c.payload.data.length := by
  rw [ne_eq, ← UInt64.toNat_inj, Bytes.toNat_size] at filledC filledW
  simp only [UInt64.toNat_zero] at filledC filledW
  unfold PendingRemoteWrite.Meets PendingRemoteWrite.Covers
  constructor
  · rintro (⟨x, inC, inW⟩ | touching | touching)
    · omega
    · omega
    · omega
  · rintro ⟨left, right⟩
    by_cases endC : c.addr.offset.toNat + c.payload.data.length = w.addr.offset.toNat
    · exact Or.inr (Or.inl endC)
    by_cases endW : w.addr.offset.toNat + w.payload.data.length = c.addr.offset.toNat
    · exact Or.inr (Or.inr endW)
    -- the later of the two first positions is in both
    refine Or.inl ⟨max c.addr.offset.toNat w.addr.offset.toNat, ?_, ?_⟩
    · omega
    · omega

theorem canMergeWrites_iff_meets (filledC : c.payload.size ≠ 0) (filledW : w.payload.size ≠ 0) (fitsC : c.NoWrap)
    (fitsW : w.NoWrap) : canMergeWrites c w = true ↔
      c.addr.homeNode = w.addr.homeNode ∧ c.addr.regionId = w.addr.regionId ∧ c.Meets w := by
  rw [canMergeWrites_iff fitsC fitsW, PendingRemoteWrite.meets_iff filledC filledW]

theorem mergeExact_mergeWrites (fitsC : c.NoWrap) (fitsW : w.NoWrap) (merges : canMergeWrites c w = true) :
    MergeExact c w (mergeWrites c w) := by
  obtain ⟨home, region, -, -⟩ := (canMergeWrites_iff fitsC fitsW).mp merges
  have laid := patch_mergeWrites fitsC fitsW merges
  have covers (x : Nat) : (mergeWrites c w).Covers x ↔ c.Covers x ∨ w.Covers x := by
    simp only [← PendingRemoteWrite.patch_ne_none_iff, laid, Patch.overlay, ne_eq, Option.or_eq_none_iff]
    tauto
  have inside {x : Nat} (covered : (mergeWrites c w).Covers x) :
      some ((mergeWrites c w).payload.byte (x - (mergeWrites c w).addr.offset.toNat)) = (w.patch x).or (c.patch x) := by
    rw [← PendingRemoteWrite.patch_of_covers covered, laid, Patch.overlay]
  constructor
  · exact ⟨rfl, home⟩
  · exact ⟨rfl, region⟩
  · exact covers
  · intro x inW
    have value := inside ((covers x).mpr (Or.inr inW))
    rw [PendingRemoteWrite.patch_of_covers inW, Option.some_or] at value
    exact Option.some.inj value
  · intro x inC outW
    have value := inside ((covers x).mpr (Or.inl inC))
    rw [PendingRemoteWrite.patch_of_not_covers outW, Option.none_or, PendingRemoteWrite.patch_of_covers inC] at value
    exact Option.some.inj value
  · intro mem
    rw [laid, Patch.apply_overlay]
  · intro region
    exact (Bytes.blit_blit laid region).symm

/-- **Merging is exact.** Filled writes whose ranges do not wrap merge exactly when they
are of one home and region and their ranges overlap or touch; the merged entry then covers
the two ranges and nothing else, and writes what the queued write and then the incoming one
write. -/
theorem merge_exact (filledC : c.payload.size ≠ 0) (filledW : w.payload.size ≠ 0) (fitsC : c.NoWrap)
    (fitsW : w.NoWrap) :
    (canMergeWrites c w = true ↔
      c.addr.homeNode = w.addr.homeNode ∧ c.addr.regionId = w.addr.regionId ∧ c.Meets w) ∧
    (canMergeWrites c w = true → MergeExact c w (mergeWrites c w)) := by
  constructor
  · exact canMergeWrites_iff_meets filledC filledW fitsC fitsW
  · intro merges
    exact mergeExact_mergeWrites fitsC fitsW merges

end

/-- A write laid over the middle of a queued one, and the entry the two become. -/
theorem merge_exact_inside :
    let c : PendingRemoteWrite := { addr := ⟨1, 0, 8⟩, payload := Bytes.ofList [1, 2, 3, 4] }
    let w : PendingRemoteWrite := { addr := ⟨1, 0, 9⟩, payload := Bytes.ofList [7, 8] }
    c.payload.size ≠ 0 ∧ w.payload.size ≠ 0 ∧ c.NoWrap ∧ w.NoWrap ∧ canMergeWrites c w = true ∧
      (mergeWrites c w).payload = Bytes.ofList [1, 7, 8, 4] ∧ MergeExact c w (mergeWrites c w) := by
  refine ⟨by decide, by decide, by decide, by decide, by decide, by decide, ?_⟩
  exact (merge_exact (by decide) (by decide) (by decide) (by decide)).2 (by decide)

variable {queue : List PendingRemoteWrite} {w : PendingRemoteWrite}

/-- Where a write goes when it merges: an entry takes it in, with nothing moved around it,
and no entry before that one could. -/
theorem mergeFirst_some {queue merged : List PendingRemoteWrite} (h : mergeFirst queue w = some merged) :
    ∃ front e back, queue = front ++ e :: back ∧ merged = front ++ absorbWrite e w :: back ∧
      canMergeWrites e w = true ∧ ∀ f ∈ front, canMergeWrites f w = false := by
  induction queue generalizing merged with
  | nil => cases h
  | cons e queue ih =>
    unfold mergeFirst at h
    split at h
    · rename_i merges
      cases h
      exact ⟨[], e, queue, rfl, rfl, merges, by simp⟩
    · rename_i apart
      obtain ⟨rest, found, rfl⟩ := Option.map_eq_some_iff.mp h
      obtain ⟨front, f, back, rfl, rfl, merges, before⟩ := ih found
      refine ⟨e :: front, f, back, rfl, rfl, merges, ?_⟩
      intro g member
      rcases List.mem_cons.mp member with rfl | member
      · simpa using apart
      · exact before g member

theorem mergeFirst_none (h : mergeFirst queue w = none) : ∀ e ∈ queue, canMergeWrites e w = false := by
  induction queue with
  | nil => simp
  | cons e queue ih =>
    unfold mergeFirst at h
    split at h
    · cases h
    · rename_i apart
      intro f member
      rcases List.mem_cons.mp member with rfl | member
      · simpa using apart
      · exact ih (Option.map_eq_none_iff.mp h) f member

theorem enqueue_cases (queue : List PendingRemoteWrite) (w : PendingRemoteWrite) :
    (∃ front e back, queue = front ++ e :: back ∧ enqueue queue w = (true, front ++ absorbWrite e w :: back) ∧
      canMergeWrites e w = true ∧ ∀ f ∈ front, canMergeWrites f w = false) ∨
    (enqueue queue w = (false, queue ++ [w]) ∧ ∀ e ∈ queue, canMergeWrites e w = false) := by
  unfold enqueue
  cases h : mergeFirst queue w with
  | some merged =>
    obtain ⟨front, e, back, split, rfl, merges, before⟩ := mergeFirst_some h
    exact Or.inl ⟨front, e, back, split, rfl, merges, before⟩
  | none => exact Or.inr ⟨rfl, mergeFirst_none h⟩

theorem enqueue_ne_nil (queue : List PendingRemoteWrite) (w : PendingRemoteWrite) : (enqueue queue w).2 ≠ [] := by
  rcases enqueue_cases queue w with ⟨front, e, back, -, result, -, -⟩ | ⟨result, -⟩ <;> simp [result]

/-- A property of single writes that merging keeps holds of the whole queue. -/
theorem enqueue_forall {P : PendingRemoteWrite → Prop}
    (absorb : ∀ e, P e → P w → canMergeWrites e w = true → P (absorbWrite e w)) (all : ∀ e ∈ queue, P e) (new : P w) :
    ∀ e ∈ (enqueue queue w).2, P e := by
  rcases enqueue_cases queue w with ⟨front, e, back, rfl, result, merges, -⟩ | ⟨result, -⟩
  · rw [result]
    simp only [List.mem_append, List.mem_cons] at all ⊢
    rintro f (member | rfl | member)
    · exact all f (Or.inl member)
    · exact absorb e (all e (Or.inr (Or.inl rfl))) new merges
    · exact all f (Or.inr (Or.inr member))
  · rw [result]
    simp only [List.mem_append, List.mem_singleton]
    rintro f (member | rfl)
    · exact all f member
    · exact new

/-- A queue covers after a write what it covered before it and what the write covers. -/
theorem enqueue_covers (fits : ∀ e ∈ queue, e.NoWrap) (fitsW : w.NoWrap) {x : Nat}
    (covered : (∃ e ∈ queue, e.patch x ≠ none) ∨ w.patch x ≠ none) : ∃ e ∈ (enqueue queue w).2, e.patch x ≠ none := by
  rcases enqueue_cases queue w with ⟨front, e, back, rfl, result, merges, -⟩ | ⟨result, -⟩
  · rw [result]
    have merged : e.patch x ≠ none ∨ w.patch x ≠ none → (absorbWrite e w).patch x ≠ none := by
      rw [patch_absorbWrite (fits e (by simp)) fitsW merges, Patch.overlay]
      simp only [ne_eq, Option.or_eq_none_iff]
      tauto
    rcases covered with ⟨f, member, at_x⟩ | at_x
    · rcases List.mem_append.mp member with before | after
      · exact ⟨f, by simp [before], at_x⟩
      · rcases List.mem_cons.mp after with rfl | behind
        · exact ⟨absorbWrite f w, by simp, merged (Or.inl at_x)⟩
        · exact ⟨f, by simp [behind], at_x⟩
    · exact ⟨absorbWrite e w, by simp, merged (Or.inr at_x)⟩
  · rw [result]
    rcases covered with ⟨f, member, at_x⟩ | at_x
    · exact ⟨f, by simp [member], at_x⟩
    · exact ⟨w, by simp, at_x⟩

/-! ## Writes of one range -/

/-- Absorbing a write of the same range leaves that write. -/
theorem absorbWrite_same {e w : PendingRemoteWrite} (addr : e.addr = w.addr) (size : e.payload.size = w.payload.size) :
    (absorbWrite e w).addr = w.addr ∧ (absorbWrite e w).payload = w.payload := by
  have low : min e.addr.offset w.addr.offset = w.addr.offset := by
    rw [addr, ← UInt64.toNat_inj, toNat_min, Nat.min_self]
  have high : max (e.addr.offset + e.payload.size) (w.addr.offset + w.payload.size) = w.addr.offset + w.payload.size := by
    rw [addr, size, ← UInt64.toNat_inj, toNat_max, Nat.max_self]
  constructor
  · change { e.addr with offset := min e.addr.offset w.addr.offset } = w.addr
    rw [low, addr]
  · change ((Bytes.zeros (max (e.addr.offset + e.payload.size) (w.addr.offset + w.payload.size) -
      min e.addr.offset w.addr.offset)).blit _ e.payload).blit (w.addr.offset - min e.addr.offset w.addr.offset).toNat
        w.payload = w.payload
    rw [low, high, UInt64.sub_self]
    apply Bytes.blit_whole
    rw [Bytes.size_blit, Bytes.size_zeros, UInt64.add_comm, UInt64.add_sub_cancel]

theorem canMergeWrites_same {e w : PendingRemoteWrite} (addr : e.addr = w.addr) (size : e.payload.size = w.payload.size)
    (fits : w.NoWrap) : canMergeWrites e w = true := by
  have length : e.payload.data.length = w.payload.data.length := by
    rw [← Bytes.toNat_size, ← Bytes.toNat_size, size]
  have fitsE : e.NoWrap := by
    unfold PendingRemoteWrite.NoWrap at fits ⊢
    rw [addr, length]
    exact fits
  rw [canMergeWrites_iff fitsE fits, addr]
  exact ⟨rfl, rfl, by omega, by omega⟩

/-- A queue of one write keeps to one when another of its range comes in, the newer one. -/
theorem enqueue_same (fits : w.NoWrap)
    (short : queue = [] ∨ ∃ e, queue = [e] ∧ e.addr = w.addr ∧ e.payload.size = w.payload.size) :
    ∃ e, (enqueue queue w).2 = [e] ∧ e.addr = w.addr ∧ e.payload = w.payload := by
  rcases short with rfl | ⟨e, rfl, addr, size⟩
  · exact ⟨w, rfl, rfl, rfl⟩
  · refine ⟨absorbWrite e w, ?_, absorbWrite_same addr size⟩
    simp [enqueue, mergeFirst, canMergeWrites_same addr size fits]

end LeoMem
