import LeoMem.Api.ReadEffect
import LeoMem.Batching.Fits

/-!
# The stub's memory

What the regions of the stub hold, whether or not they have been used yet, and
what an access in bounds does to them. A batch in bounds applies its requests in
order.
-/

namespace LeoMem
open Lib RuntimeContext

/-- Every remote region has the configured size. -/
def Shaped (cfg : Config) (regions : NodeId → Bytes) : Prop :=
  ∀ n, n ≠ cfg.nodeId → (regions n).size = cfg.localRegionSize

/-- An overlay in bounds is the patch, at every position. -/
theorem InBounds.byte_blit {cfg : Config} {addr : GlobalAddr} {buf : Bytes} (inside : InBounds cfg addr buf.size)
    {region : Bytes} (full : region.size = cfg.localRegionSize) :
    (region.blit addr.offset.toNat buf).byte = (buf.patch addr.offset.toNat).apply region.byte := by
  apply Bytes.byte_blit_of_le
  have length := congrArg UInt64.toNat full
  unfold InBounds at inside
  rw [Bytes.toNat_size] at length inside
  omega

/-- Overlays keep the shape. -/
theorem Shaped.blit {cfg : Config} {regions regions' : NodeId → Bytes} (shaped : Shaped cfg regions) {node : NodeId}
    {off : Nat} {buf : Bytes} (next : ∀ n, regions' n = if n = node then (regions n).blit off buf else regions n) :
    Shaped cfg regions' := by
  intro n away
  rw [next]
  split
  · rw [Bytes.size_blit, shaped n away]
  · exact shaped n away

namespace StubTransport

/-- What each node's region holds, this node's own included. -/
def regions (cfg : Config) (t : StubTransport) (node : NodeId) : Bytes :=
  if node = cfg.nodeId then t.localRegion else t.region cfg node

variable (cfg : Config) (t : StubTransport)

theorem regions_remote {cfg : Config} {node : NodeId} (remote : node ≠ cfg.nodeId) :
    t.regions cfg node = t.region cfg node := if_neg remote

theorem shaped_init : Shaped cfg ((init cfg).regions cfg) := by
  intro n remote
  rw [regions_remote _ remote]
  exact Bytes.size_zeros _

theorem region_setRegion (node : NodeId) (r : Bytes) (n : NodeId) :
    (t.setRegion node r).region cfg n =
      if n = node then (if r.data.isEmpty then Bytes.zeros cfg.localRegionSize else r) else t.region cfg n := by
  unfold region setRegion
  by_cases same : n = node <;> simp [same]

/-- Sizing a region on first use does not change what it holds. -/
theorem region_prepared (node n : NodeId) : (t.setRegion node (t.region cfg node)).region cfg n = t.region cfg n := by
  rw [region_setRegion]
  split
  · rename_i same
    rw [same]
    split
    · rename_i blank
      unfold region at blank ⊢
      split
      · rfl
      · rename_i used
        rw [if_neg used] at blank
        exact absurd blank used
    · rfl
  · rfl

/-- A region that was sized and blank stays blank. -/
theorem region_blit (node : NodeId) (off : Nat) (buf : Bytes) :
    (t.setRegion node ((t.region cfg node).blit off buf)).region cfg node = (t.region cfg node).blit off buf := by
  rw [region_setRegion, if_pos rfl]
  split
  · rename_i blank
    rw [List.isEmpty_iff, ← List.length_eq_zero_iff, Bytes.data_length_blit] at blank
    have sized : t.region cfg node = Bytes.zeros cfg.localRegionSize := by
      unfold StubTransport.region at blank ⊢
      split
      · rfl
      · rename_i used
        rw [if_neg used] at blank
        exact absurd (List.isEmpty_iff.mpr (List.length_eq_zero_iff.mp blank)) used
    rw [← sized]
    have data : ((t.region cfg node).blit off buf).data = (t.region cfg node).data := by
      rw [List.length_eq_zero_iff.mp blank, ← List.length_eq_zero_iff, Bytes.data_length_blit, blank]
    have ext : ∀ b c : Bytes, b.data = c.data → b = c := by
      rintro ⟨_, _⟩ ⟨_, _⟩ rfl
      rfl
    exact ext _ _ data.symm
  · rfl

theorem controlKeeps_regions : ControlKeeps (regions cfg) where
  post cfg' msg t := by
    change regions cfg (postControlMessage cfg' msg t).2 = _
    unfold postControlMessage
    split <;> rfl
  drain _ _ _ := rfl
  fence _ _ := rfl

theorem readKeeps_regions : ReadKeeps cfg (regions cfg) := by
  intro d addr size t
  change regions cfg (read cfg d addr size t).2 = _
  unfold read
  split
  · split <;> rfl
  · have prepared : regions cfg (t.setRegion addr.homeNode (t.region cfg addr.homeNode)) = regions cfg t := by
      funext n
      unfold regions
      rw [region_prepared]
      rfl
    simp only
    split <;> exact prepared

theorem read_inboxes (d : DsmAllocator) (addr : GlobalAddr) (size : UInt64) (t : StubTransport) :
    (read cfg d addr size t).2.controlInboxes = t.controlInboxes := by
  unfold read
  split
  · split <;> rfl
  · simp only
    split <;> rfl

section
variable {cfg : Config} {t : StubTransport} {addr : GlobalAddr}

/-- A remote read in bounds returns what the region holds. -/
theorem read_inBounds (shaped : Shaped cfg (t.regions cfg)) (d : DsmAllocator) (addr : GlobalAddr)
    (remote : addr.homeNode ≠ cfg.nodeId) {size : UInt64} (inside : InBounds cfg addr size) :
    (read cfg d addr size t).1 = .ok ((t.regions cfg addr.homeNode).slice addr.offset.toNat size) := by
  have region := regions_remote t remote
  have full := shaped addr.homeNode remote
  rw [region] at full
  unfold read
  rw [if_neg remote]
  simp only [full, region, if_neg inside.accepted]

/-- A remote write in bounds overlays the region, and touches nothing else. -/
theorem write_inBounds (shaped : Shaped cfg (t.regions cfg)) (d : DsmAllocator) (remote : addr.homeNode ≠ cfg.nodeId)
    {buf : Bytes} (inside : InBounds cfg addr buf.size) :
    (write cfg d addr buf t).1 = .kOk ∧ (write cfg d addr buf t).2.controlInboxes = t.controlInboxes ∧
      ∀ n, (write cfg d addr buf t).2.regions cfg n =
        if n = addr.homeNode then (t.regions cfg n).blit addr.offset.toNat buf else t.regions cfg n := by
  have region := regions_remote t remote
  have full := shaped addr.homeNode remote
  rw [region] at full
  have overlaid := region_blit cfg (t.setRegion addr.homeNode (t.region cfg addr.homeNode)) addr.homeNode
    addr.offset.toNat buf
  rw [region_prepared] at overlaid
  unfold write
  rw [if_neg remote]
  simp only [full, if_neg inside.accepted]
  refine ⟨trivial, rfl, fun n => ?_⟩
  by_cases same : n = addr.homeNode
  · rw [same, regions_remote _ remote, overlaid, if_pos rfl, region]
  · rw [if_neg same]
    unfold regions
    rw [region_setRegion, if_neg same, region_setRegion, if_neg same]
    rfl

end

/-- A write that succeeds is read back. -/
theorem read_write {cfg : Config} {addr : GlobalAddr} {buf : Bytes} {t : StubTransport} (d : DsmAllocator)
    (remote : addr.homeNode ≠ cfg.nodeId) (fits : addr.offset.toNat + buf.size.toNat < 2 ^ 64)
    (ok : (write cfg d addr buf t).1 = .kOk) : (read cfg d addr buf.size (write cfg d addr buf t).2).1 = .ok buf := by
  unfold write at ok ⊢
  rw [if_neg remote] at ok ⊢
  simp only at ok ⊢
  split at ok
  · cases ok
  rename_i inside
  rw [if_neg inside]
  have bound : addr.offset.toNat + buf.data.length ≤ (t.region cfg addr.homeNode).data.length := by
    rw [← Bytes.toNat_size, ← Bytes.toNat_size, ← Nat.mod_eq_of_lt fits, ← UInt64.toNat_add,
      ← UInt64.le_iff_toNat_le]
    exact UInt64.not_lt.mp inside
  have region := region_blit cfg (t.setRegion addr.homeNode (t.region cfg addr.homeNode)) addr.homeNode
    addr.offset.toNat buf
  rw [region_prepared] at region
  unfold read
  rw [if_neg remote]
  simp only [region, Bytes.size_blit, if_neg inside, Bytes.slice_blit bound]

end StubTransport

/-- The requests of a batch laid over a region, in order. -/
def overlayAll (reqs : List RemoteWriteRequest) (region : Bytes) : Bytes :=
  reqs.foldl (fun region req => region.blit req.addr.offset.toNat req.buf) region

variable {cfg : Config} {reqs : List RemoteWriteRequest}

/-- **A batch in bounds** succeeds and applies its requests in order. -/
theorem batchWrite_regions {t : StubTransport} (shaped : Shaped cfg (t.regions cfg)) (d : DsmAllocator) {node : NodeId}
    (remote : node ≠ cfg.nodeId) (fits : ∀ req ∈ reqs, req.addr.homeNode = node ∧ InBounds cfg req.addr req.buf.size) :
    let r := batchWriteWith (StubTransport.write cfg d) reqs t
    r.1 = .kOk ∧ r.2.controlInboxes = t.controlInboxes ∧ Shaped cfg (r.2.regions cfg) ∧
      ∀ n, r.2.regions cfg n = if n = node then overlayAll reqs (t.regions cfg n) else t.regions cfg n := by
  induction reqs generalizing t with
  | nil => exact ⟨rfl, rfl, shaped, fun _ => (ite_self _).symm⟩
  | cons req reqs ih =>
    obtain ⟨home, inside⟩ := fits req List.mem_cons_self
    obtain ⟨ok, inboxes, regions⟩ := StubTransport.write_inBounds shaped d (home ▸ remote) inside
    obtain ⟨ok', inboxes', shaped', rest⟩ :=
      ih (shaped.blit regions) fun later member => fits later (List.mem_cons_of_mem _ member)
    simp only [batchWriteWith, ok, ne_eq, not_true_eq_false, if_false]
    refine ⟨ok', inboxes'.trans inboxes, shaped', fun n => ?_⟩
    rw [rest, regions, home]
    split <;> rfl

/-- Overlays in bounds are the patches, at every position. -/
theorem byte_overlayAll (fits : ∀ req ∈ reqs, InBounds cfg req.addr req.buf.size) {region : Bytes}
    (full : region.size = cfg.localRegionSize) :
    (overlayAll reqs region).byte = Patch.applyAll (requestPatches reqs) region.byte := by
  induction reqs generalizing region with
  | nil => rfl
  | cons req reqs ih =>
    have inside := fits req List.mem_cons_self
    refine (ih (fun later member => fits later (List.mem_cons_of_mem _ member)) ?_).trans ?_
    · rw [Bytes.size_blit, full]
    · rw [inside.byte_blit full]
      rfl

/-- The batch of a destination, byte by byte. -/
theorem batchWrite_inBounds {t : StubTransport} (shaped : Shaped cfg (t.regions cfg)) (d : DsmAllocator) {node : NodeId}
    (remote : node ≠ cfg.nodeId) (fits : ∀ req ∈ reqs, RequestFits cfg node req) :
    let r := batchWriteWith (StubTransport.write cfg d) reqs t
    r.1 = .kOk ∧ r.2.controlInboxes = t.controlInboxes ∧ Shaped cfg (r.2.regions cfg) ∧
      (∀ n, n ≠ node → r.2.regions cfg n = t.regions cfg n) ∧
      (r.2.regions cfg node).byte = Patch.applyAll (requestPatches reqs) (t.regions cfg node).byte := by
  obtain ⟨ok, inboxes, shaped', regions⟩ :=
    batchWrite_regions shaped d remote fun req member => ⟨(fits req member).home, (fits req member).inside⟩
  refine ⟨ok, inboxes, shaped', fun n away => (regions n).trans (if_neg away), ?_⟩
  rw [regions, if_pos rfl]
  exact byte_overlayAll (fun req member => (fits req member).inside) (shaped node remote)

end LeoMem
