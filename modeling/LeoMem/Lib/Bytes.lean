import LeoMem.Lib.Patch
import Mathlib.Algebra.Group.Nat.Defs
import Mathlib.Tactic.Common

/-!
# Byte vectors

A vector whose length is a 64-bit size, with the two copies `memcpy` makes of
it: a slice out (`slice`) and an overlay in (`blit`). Positions past the end read
as zero and are not written; where a program copies in bounds nothing depends on
that. `patch` is the vector laid at an offset, as a partial map on positions.
-/

namespace LeoMem.Lib

/-- A byte vector; its length fits the 64-bit size it is measured by. -/
structure Bytes where
  data : List UInt8
  length_lt : data.length < 2 ^ 64
  deriving DecidableEq, Repr

namespace Bytes

def size (b : Bytes) : UInt64 := UInt64.ofNat b.data.length

@[simp] theorem toNat_size (b : Bytes) : b.size.toNat = b.data.length := by
  simp only [size, UInt64.toNat_ofNat', Nat.mod_eq_of_lt b.length_lt]

def byte (b : Bytes) (i : Nat) : UInt8 := b.data.getD i 0

/-- The vector of `n` bytes whose `i`-th is `f i`. -/
def tabulate (n : UInt64) (f : Nat → UInt8) : Bytes :=
  ⟨(List.range n.toNat).map f, by simpa using n.toNat_lt⟩

def empty : Bytes := tabulate 0 fun _ => 0

/-- The bytes of a list; one too long for a 64-bit size has none. -/
def ofList (l : List UInt8) : Bytes := if fits : l.length < 2 ^ 64 then ⟨l, fits⟩ else empty

def zeros (n : UInt64) : Bytes := tabulate n fun _ => 0

/-- `memcpy(buf, b.data() + off, n)` into a fresh buffer. -/
def slice (b : Bytes) (off : Nat) (n : UInt64) : Bytes := tabulate n fun i => b.byte (off + i)

/-- `memcpy(dst.data() + off, src.data(), src.size())`. -/
def blit (dst : Bytes) (off : Nat) (src : Bytes) : Bytes :=
  tabulate dst.size fun i => if off ≤ i ∧ i < off + src.data.length then src.byte (i - off) else dst.byte i

/-- The bytes laid at `off`, as a partial map on positions. -/
def patch (b : Bytes) (off : Nat) : Patch Nat UInt8 :=
  fun x => if off ≤ x ∧ x < off + b.data.length then some (b.byte (x - off)) else none

variable {b : Bytes} (dst : Bytes) (n : UInt64) (f : Nat → UInt8)

@[simp] theorem data_length_tabulate : (tabulate n f).data.length = n.toNat := by
  simp [tabulate]

@[simp] theorem size_tabulate : (tabulate n f).size = n :=
  UInt64.toNat_inj.mp (by rw [toNat_size, data_length_tabulate])

theorem byte_tabulate (i : Nat) : (tabulate n f).byte i = if i < n.toNat then f i else 0 := by
  by_cases h : i < n.toNat <;> simp [byte, tabulate, h]

theorem byte_of_length_le {i : Nat} (h : b.data.length ≤ i) : b.byte i = 0 := by
  simp [byte, h]

theorem tabulate_byte (b : Bytes) : tabulate b.size b.byte = b := by
  cases b with
  | mk data lt =>
    simp only [tabulate, Bytes.mk.injEq]
    apply List.ext_getElem
    · simp
    · intro i h h'
      simp [byte, h']

theorem tabulate_congr {n : UInt64} {f g : Nat → UInt8} (h : ∀ i < n.toNat, f i = g i) :
    tabulate n f = tabulate n g := by
  simp only [tabulate, Bytes.mk.injEq]
  apply List.map_congr_left
  intro i member
  exact h i (List.mem_range.mp member)

@[simp] theorem byte_zeros (i : Nat) : (zeros n).byte i = 0 := by
  simp [zeros, byte_tabulate]

@[simp] theorem size_zeros : (zeros n).size = n := size_tabulate n _

@[simp] theorem size_slice (b : Bytes) (off : Nat) (n : UInt64) : (b.slice off n).size = n := size_tabulate n _

@[simp] theorem size_blit (off : Nat) (src : Bytes) : (dst.blit off src).size = dst.size :=
  size_tabulate _ _

@[simp] theorem data_length_blit (off : Nat) (src : Bytes) : (dst.blit off src).data.length = dst.data.length := by
  simp [blit]

theorem byte_blit (off : Nat) (src : Bytes) {i : Nat} (h : i < dst.data.length) :
    (dst.blit off src).byte i = (src.patch off i).getD (dst.byte i) := by
  rw [blit, byte_tabulate, toNat_size, if_pos h, patch]
  split <;> rfl

theorem blit_eq (off : Nat) (src : Bytes) : dst.blit off src = tabulate dst.size ((src.patch off).apply dst.byte) := by
  unfold blit
  refine tabulate_congr fun i _ => ?_
  unfold Patch.apply patch
  split <;> rfl

/-- Copying in two vectors one after the other is copying in the one that lays the second
over the first. -/
theorem blit_blit {first second both : Bytes} {off₁ off₂ off : Nat}
    (laid : both.patch off = Patch.overlay (second.patch off₂) (first.patch off₁)) (dst : Bytes) :
    (dst.blit off₁ first).blit off₂ second = dst.blit off both := by
  rw [blit_eq, blit_eq dst off both, size_blit, laid, Patch.apply_overlay]
  refine tabulate_congr fun i lt => ?_
  unfold Patch.apply
  rw [byte_blit dst off₁ first (by simpa using lt)]

/-- An overlay in bounds is the patch, at every position. -/
theorem byte_blit_of_le {dst src : Bytes} {off : Nat} (h : off + src.data.length ≤ dst.data.length) :
    (dst.blit off src).byte = (src.patch off).apply dst.byte := by
  funext i
  by_cases lt : i < dst.data.length
  · exact byte_blit dst off src lt
  · have out : src.patch off i = none := by
      rw [patch, if_neg (by omega)]
    rw [Patch.apply, out, byte_of_length_le (by simpa using lt), Option.getD_none, byte_of_length_le (by omega)]

/-- What is laid in bounds is read back. -/
theorem slice_blit {dst src : Bytes} {off : Nat} (h : off + src.data.length ≤ dst.data.length) :
    (dst.blit off src).slice off src.size = src := by
  conv => rhs; rw [← tabulate_byte src]
  refine tabulate_congr fun i lt => ?_
  rw [toNat_size] at lt
  rw [byte_blit dst off src (by omega), patch, if_pos ⟨by omega, by omega⟩, Option.getD_some, Nat.add_sub_cancel_left]

theorem blit_whole {dst src : Bytes} (same : dst.size = src.size) : dst.blit 0 src = src := by
  conv => rhs; rw [← tabulate_byte src]
  unfold blit
  rw [same]
  refine tabulate_congr fun i lt => ?_
  rw [toNat_size] at lt
  rw [if_pos ⟨by omega, by omega⟩, Nat.sub_zero]

theorem patch_eq_some {off x : Nat} {v : UInt8} :
    b.patch off x = some v ↔ off ≤ x ∧ x < off + b.data.length ∧ b.byte (x - off) = v := by
  unfold patch
  split <;> simp_all

theorem patch_eq_none {off x : Nat} : b.patch off x = none ↔ ¬ (off ≤ x ∧ x < off + b.data.length) := by
  unfold patch
  split <;> simp_all

theorem patch_of_lt {off i : Nat} (h : i < b.data.length) : b.patch off (off + i) = some (b.byte i) := by
  rw [patch_eq_some]
  exact ⟨by omega, by omega, by congr 1; omega⟩

end Bytes
end LeoMem.Lib
