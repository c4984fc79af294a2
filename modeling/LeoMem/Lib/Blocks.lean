import Mathlib.Data.Set.Card
import Mathlib.Order.Interval.Finset.Nat

/-!
# Intervals and the blocks they meet

The numbers are cut into blocks of `b`, block `k` holding `[k * b, (k + 1) * b)`.
A filled interval `[lo, hi)` meets the blocks from that of `lo` to that of `hi - 1`
(`meets_iff`), and these together are the least interval with ends on block
boundaries that contains it (`leastSpan_blocks`).
-/

namespace LeoMem.Lib.Blocks

/-- Block `k` shares a number with `[lo, hi)`. -/
def Meets (b lo hi k : Nat) : Prop := ∃ x, lo ≤ x ∧ x < hi ∧ k * b ≤ x ∧ x < (k + 1) * b

/-- `[start, stop)` ends on block boundaries, contains `[lo, hi)`, and is contained in
every other such interval. -/
structure LeastSpan (b lo hi start stop : Nat) : Prop where
  aligned : b ∣ start ∧ b ∣ stop
  contains : start ≤ lo ∧ hi ≤ stop
  least : ∀ start' stop', b ∣ start' → b ∣ stop' → start' ≤ lo → hi ≤ stop' → start' ≤ start ∧ stop ≤ stop'

section
variable {b lo hi k : Nat} (pos : 0 < b) (filled : lo < hi)

include pos filled in
theorem meets_iff_lt : Meets b lo hi k ↔ k * b < hi ∧ lo < (k + 1) * b := by
  have wide : k * b < (k + 1) * b := Nat.mul_lt_mul_of_pos_right (Nat.lt_succ_self k) pos
  constructor
  · rintro ⟨x, lower, upper, start, stop⟩
    omega
  · rintro ⟨start, stop⟩
    -- the later of the two starts lies in both
    refine ⟨max lo (k * b), ?_, ?_, ?_, ?_⟩ <;> omega

include pos filled in
theorem meets_iff : Meets b lo hi k ↔ lo / b ≤ k ∧ k ≤ (hi - 1) / b := by
  rw [meets_iff_lt pos filled, Nat.le_div_iff_mul_le pos, ← Nat.lt_succ_iff, Nat.div_lt_iff_lt_mul pos]
  constructor
  · rintro ⟨start, stop⟩
    exact ⟨stop, by omega⟩
  · rintro ⟨stop, start⟩
    exact ⟨by omega, stop⟩

include filled in
theorem first_le_last : lo / b ≤ (hi - 1) / b := Nat.div_le_div_right (by omega)

include pos filled in
theorem ncard_meets : {k | Meets b lo hi k}.ncard = (hi - 1) / b - lo / b + 1 := by
  have blocks : {k | Meets b lo hi k} = (Finset.Icc (lo / b) ((hi - 1) / b) : Set Nat) := by
    ext k
    rw [Finset.coe_Icc]
    exact meets_iff pos filled
  have order : lo / b ≤ (hi - 1) / b := first_le_last filled
  rw [blocks, Set.ncard_coe_finset, Nat.card_Icc]
  omega

include pos filled in
/-- An interval meets no more blocks than it has numbers. -/
theorem last_sub_first_lt : (hi - 1) / b - lo / b < hi - lo := by
  have bound : (hi - 1) / b ≤ lo / b + (hi - 1 - lo) :=
    calc (hi - 1) / b = (lo + (hi - 1 - lo)) / b := by congr 1; omega
      _ ≤ (lo + b * (hi - 1 - lo)) / b :=
        Nat.div_le_div_right (Nat.add_le_add_left (Nat.le_mul_of_pos_left _ pos) lo)
      _ = lo / b + (hi - 1 - lo) := Nat.add_mul_div_left _ _ pos
  omega

include pos filled in
theorem leastSpan_blocks : LeastSpan b lo hi (lo / b * b) (((hi - 1) / b + 1) * b) where
  aligned := ⟨Nat.dvd_mul_left _ _, Nat.dvd_mul_left _ _⟩
  contains := by
    have stop : hi - 1 < ((hi - 1) / b + 1) * b := (Nat.div_lt_iff_lt_mul pos).mp (Nat.lt_succ_self _)
    exact ⟨Nat.div_mul_le_self _ _, by omega⟩
  least := by
    rintro _ _ ⟨m, rfl⟩ ⟨n, rfl⟩ lower upper
    have start : m ≤ lo / b := (Nat.le_div_iff_mul_le pos).mpr (by rwa [Nat.mul_comm])
    have stop : (hi - 1) / b < n := (Nat.div_lt_iff_lt_mul pos).mpr (by rw [Nat.mul_comm]; omega)
    rw [Nat.mul_comm b m, Nat.mul_comm b n]
    exact ⟨Nat.mul_le_mul_right b start, Nat.mul_le_mul_right b stop⟩

end
end LeoMem.Lib.Blocks
