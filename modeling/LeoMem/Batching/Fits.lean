import LeoMem.Api.Access
import LeoMem.Batching.Merge

/-!
# Writes in bounds

What it takes for a pending write to pass its home's bounds check without a wrap,
and that merging keeps it.
-/

namespace LeoMem
open Lib

/-- `[offset, offset + size)` lies in a node's region, as natural numbers. -/
def InBounds (cfg : Config) (addr : GlobalAddr) (size : UInt64) : Prop :=
  addr.offset.toNat + size.toNat ≤ cfg.localRegionSize.toNat

instance (cfg : Config) (addr : GlobalAddr) (size : UInt64) : Decidable (InBounds cfg addr size) :=
  inferInstanceAs (Decidable (_ ≤ _))

variable {cfg : Config} {node : NodeId}

theorem InBounds.toNat_end {addr : GlobalAddr} {size : UInt64} (inside : InBounds cfg addr size) :
    (addr.offset + size).toNat = addr.offset.toNat + size.toNat := by
  have := cfg.localRegionSize.toNat_lt
  unfold InBounds at inside
  rw [UInt64.toNat_add, Nat.mod_eq_of_lt (by omega)]

theorem InBounds.accepted {addr : GlobalAddr} {size : UInt64} (inside : InBounds cfg addr size) :
    ¬ addr.offset + size > cfg.localRegionSize := by
  rw [gt_iff_lt, UInt64.lt_iff_toNat_lt, inside.toNat_end]
  exact Nat.not_lt.mpr inside

/-- A queued write that its flush will apply. -/
structure WriteFits (cfg : Config) (node : NodeId) (w : PendingRemoteWrite) : Prop where
  home : w.addr.homeNode = node
  filled : w.payload.size ≠ 0
  inside : InBounds cfg w.addr w.payload.size

theorem WriteFits.noWrap {w : PendingRemoteWrite} (fits : WriteFits cfg node w) : w.NoWrap := by
  have bound := cfg.localRegionSize.toNat_lt
  have inside := fits.inside
  unfold InBounds at inside
  rw [Bytes.toNat_size] at inside
  unfold PendingRemoteWrite.NoWrap
  omega

theorem WriteFits.absorb {e w : PendingRemoteWrite} (fitsE : WriteFits cfg node e) (fitsW : WriteFits cfg node w) :
    WriteFits cfg node (absorbWrite e w) := by
  have offset : (absorbWrite e w).addr.offset.toNat = min e.addr.offset.toNat w.addr.offset.toNat := offset_mergeWrites
  have length : (absorbWrite e w).payload.data.length = _ := length_mergeWrites fitsE.noWrap fitsW.noWrap
  have insideE := fitsE.inside
  have insideW := fitsW.inside
  have positive : e.payload.data.length ≠ 0 := by
    rw [← Bytes.toNat_size]
    exact fun zero => fitsE.filled (UInt64.toNat_inj.mp zero)
  unfold InBounds at insideE insideW
  rw [Bytes.toNat_size] at insideE insideW
  refine ⟨fitsE.home, fun zero => ?_, ?_⟩
  · have := congrArg UInt64.toNat zero
    rw [Bytes.toNat_size, length] at this
    change _ = 0 at this
    omega
  · unfold InBounds
    rw [Bytes.toNat_size, offset, length]
    omega

/-- What the requests of a batch lay over a region, in order. -/
def requestPatches (reqs : List RemoteWriteRequest) : List (Patch Nat UInt8) :=
  reqs.map fun req => req.buf.patch req.addr.offset.toNat

theorem requestPatches_map_request (queue : List PendingRemoteWrite) :
    requestPatches (queue.map PendingRemoteWrite.request) = queue.map PendingRemoteWrite.patch := by
  simp [requestPatches, PendingRemoteWrite.request, PendingRemoteWrite.patch]

/-- A request a batch to `node` may carry. -/
structure RequestFits (cfg : Config) (node : NodeId) (req : RemoteWriteRequest) : Prop where
  home : req.addr.homeNode = node
  filled : req.buf.size ≠ 0
  inside : InBounds cfg req.addr req.buf.size

theorem WriteFits.request {w : PendingRemoteWrite} (fits : WriteFits cfg node w) :
    RequestFits cfg node w.request := ⟨fits.home, fits.filled, fits.inside⟩

end LeoMem
