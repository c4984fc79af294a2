import LeoMem.Api.Records
import LeoMem.Lib.Run

/-!
# What a remote read leaves validated

A read past the cache marks every block of its range with the block's own version. A
read from the recorded owner then raises the versions of the whole range to their
maximum, and leaves the marks where they were: the blocks are validated afterwards
exactly where they stood at one version already.
-/

namespace LeoMem
open Lib RuntimeContext

/-- The two versions a validation compares. -/
def BlockMeta.versions (m : BlockMeta) : Version × Version := (m.version, m.lastValidatedVersion)

/-- Every block of the range was last validated at the version it has. -/
def Validated (t : BlockTable) (metas : List BlockId) : Prop :=
  ∀ b ∈ metas, (t.get b).lastValidatedVersion = (t.get b).version

def EqualVersions (t : BlockTable) (metas : List BlockId) : Prop :=
  ∀ b ∈ metas, ∀ b' ∈ metas, (t.get b).version = (t.get b').version

theorem Validated.allMetasValidated {t : BlockTable} {metas : List BlockId} (validated : Validated t metas) :
    allMetasValidated t metas = true := by
  apply (allMetasValidated_iff t metas).mpr
  intro b member
  rw [validated b member]
  exact UInt64.le_refl _

theorem foldl_max_le {f : BlockId → Version} {bids : List BlockId} {v bound : Version} (start : v ≤ bound)
    (each : ∀ bid ∈ bids, f bid ≤ bound) : bids.foldl (fun version bid => max version (f bid)) v ≤ bound := by
  induction bids generalizing v with
  | nil => exact start
  | cons bid bids ih =>
    refine ih ?_ fun b member => each b (List.mem_cons_of_mem _ member)
    have here := each bid List.mem_cons_self
    rw [UInt64.le_iff_toNat_le] at start here ⊢
    rw [toNat_max]
    exact Nat.max_le.mpr ⟨start, here⟩

/-- The newest version of a range is every block's version exactly where the blocks agree. -/
theorem version_eq_max_iff (t : BlockTable) (metas : List BlockId) :
    (∀ b ∈ metas, (t.get b).version = maxObservedVersion t metas) ↔ EqualVersions t metas := by
  constructor
  · intro newest b member b' member'
    exact (newest b member).trans (newest b' member').symm
  · intro equal b member
    have above := le_maxObservedVersion t member
    have below : maxObservedVersion t metas ≤ (t.get b).version :=
      foldl_max_le (by simp [UInt64.le_iff_toNat_le]) fun b' member' => equal b' member' b member ▸ UInt64.le_refl _
    exact UInt64.le_antisymm above below

theorem maxObservedVersion_congr {t t' : BlockTable} {metas : List BlockId}
    (same : ∀ b ∈ metas, (t'.get b).version = (t.get b).version) :
    maxObservedVersion t' metas = maxObservedVersion t metas :=
  List.foldl_ext _ _ _ fun version b member => by rw [same b member]

/-- Blocks raised to the newest version among them, with the marks left at their own. -/
theorem raised_validated_iff {t raised : BlockTable} {metas : List BlockId}
    (versions : ∀ b ∈ metas, (raised.get b).versions = (maxObservedVersion t metas, (t.get b).version)) :
    (Validated raised metas ↔ EqualVersions t metas) ∧
      (allMetasValidated raised metas = true ↔ EqualVersions t metas) := by
  have version (b : BlockId) (member : b ∈ metas) : (raised.get b).version = maxObservedVersion t metas :=
    congrArg Prod.fst (versions b member)
  have mark (b : BlockId) (member : b ∈ metas) : (raised.get b).lastValidatedVersion = (t.get b).version :=
    congrArg Prod.snd (versions b member)
  rw [← version_eq_max_iff, allMetasValidated_iff]
  constructor
  · refine forall₂_congr fun b member => ?_
    rw [version b member, mark b member]
  · refine forall₂_congr fun b member => ?_
    rw [version b member, mark b member]
    constructor
    · exact fun below => UInt64.le_antisymm (le_maxObservedVersion t member) below
    · exact fun newest => newest ▸ UInt64.le_refl _

section
variable {ω : Type} {ctx : RuntimeContext ω} {addr : GlobalAddr} {size : UInt64} {metas : List BlockId}

theorem shouldAdmitCached_versions (cfg : Config) (t : BlockTable) (distinct : metas.Nodup) (b : BlockId) :
    ((shouldAdmitCached cfg t metas).2.get b).versions = (t.get b).versions := by
  unfold shouldAdmitCached
  split
  · rfl
  · split
    · rw [BlockTable.get_modifyAll t distinct]
      split <;> rfl
    · rfl

/-- Admission to the cache moves no version. -/
theorem admitRead_versions (ctx : RuntimeContext ω) (addr : GlobalAddr) (buf : Bytes) (distinct : metas.Nodup)
    (modes : List CoherenceMode) (redirected : Bool) (b : BlockId) :
    ((admitRead ctx addr buf metas modes redirected).blockTable.get b).versions =
      ((recordOwnerRead ctx.blockTable metas redirected).get b).versions := by
  change ((if hasMode modes .kWI then (false, recordOwnerRead ctx.blockTable metas redirected)
    else shouldAdmitCached ctx.config (recordOwnerRead ctx.blockTable metas redirected) metas).2.get b).versions = _
  split
  · rfl
  · exact shouldAdmitCached_versions _ _ distinct b

theorem markReadValidated_versions (t : BlockTable) (distinct : metas.Nodup) {b : BlockId} (member : b ∈ metas) :
    ((markReadValidated t metas).get b).versions = ((t.get b).version, (t.get b).version) := by
  rw [markReadValidated, BlockTable.get_modifyAll t distinct, if_pos member]
  rfl

/-- `PrepareMetadata` and `ObserveMetas` of a remote read move no version. -/
theorem touchMetadata_version (range : BlockRange) (remote : addr.homeNode ≠ ctx.config.nodeId) (b : BlockId) :
    ((touchMetadata ctx addr range .kRead).2.blockTable.get b).version = (ctx.blockTable.get b).version := by
  have touched := (touchMetadata_ownership ctx addr range .kRead b).version
  split at touched
  · simpa [prepareMeta, remote] using touched
  · exact touched

variable [Transport ω]

/-- The read goes to a recorded owner, and the transport answers there. -/
def ServedByOwner (ctx : RuntimeContext ω) (addr : GlobalAddr) (size : UInt64) (metas : List BlockId) : Prop :=
  ∃ owner buf, Redirects ctx.config ctx.blockTable addr metas owner ∧
    (Transport.read ctx.config ctx.allocator { addr with homeNode := owner } size ctx.transport).1 = .ok buf

/-- The blocks of a read the home answered are marked at their own versions. -/
theorem readHomeValidating_versions {buf : Bytes} (distinct : metas.Nodup)
    (ok : (readHomeValidating ctx addr size metas).1.1 = .ok buf) {b : BlockId} (member : b ∈ metas) :
    ((readHomeValidating ctx addr size metas).2.blockTable.get b).versions =
      ((ctx.blockTable.get b).version, (ctx.blockTable.get b).version) := by
  have table : (readHome ctx addr size).2.blockTable = ctx.blockTable := rfl
  unfold readHomeValidating at ok ⊢
  generalize readHome ctx addr size = r at ok table
  obtain ⟨answer, ctx'⟩ := r
  cases answer with
  | error s => cases ok
  | ok buf =>
    rw [← markReadValidated_versions ctx.blockTable distinct member, ← table]
    change (((markReadValidated ctx'.blockTable metas).modifyAll metas _).get b).versions = _
    rw [BlockTable.get_modifyAll _ distinct, if_pos member]
    split <;> rfl

/-- **An owner-aware read that answers** marks the whole range, each block at its own version;
it came from the owner exactly where one is recorded and the transport answers there. -/
theorem tryOwnerAwareRead_versions (ctx : RuntimeContext ω) {ord : IterOrder} (distinct : metas.Nodup)
    (miss : (ctx.cache.tryReadCached ord addr size).1 = none) {buf : Bytes}
    (ok : (tryOwnerAwareRead ord ctx addr size metas).1.1 = .ok buf) :
    ((tryOwnerAwareRead ord ctx addr size metas).1.2 = true ↔ ServedByOwner ctx addr size metas) ∧
      ∀ b ∈ metas, ((tryOwnerAwareRead ord ctx addr size metas).2.blockTable.get b).versions =
        ((ctx.blockTable.get b).version, (ctx.blockTable.get b).version) := by
  revert ok
  refine tryOwnerAwareRead_rule
    (J := fun r => r.1.1 = .ok buf → (r.1.2 = true ↔ ServedByOwner ctx addr size metas) ∧
      ∀ b ∈ metas, (r.2.blockTable.get b).versions = ((ctx.blockTable.get b).version, (ctx.blockTable.get b).version))
    (fun buf hit => ?_) (fun c _ noOwner buf ctx' read ok => ?_) (fun c _ _ s ctx' read ok => ?_)
    (fun owner redirects buf ctx' read ok => ?_) (fun owner redirects s ctx' read ok => ?_) (fun noOwner ok => ?_)
  · rw [miss] at hit
    cases hit
  · have table : ctx'.blockTable = ctx.blockTable := congrArg (fun r => r.2.blockTable) read.symm
    refine ⟨⟨by simp, fun ⟨owner, _, redirects, _⟩ => absurd redirects (noOwner owner)⟩, fun b member => ?_⟩
    rw [← table]
    exact markReadValidated_versions ctx'.blockTable distinct member
  · cases ok
  · have table : ctx'.blockTable = ctx.blockTable := congrArg (fun r => r.2.blockTable) read.symm
    refine ⟨⟨fun _ => ⟨owner, buf, redirects, congrArg Prod.fst read⟩, fun _ => rfl⟩, fun b member => ?_⟩
    rw [← table]
    exact markReadValidated_versions ctx'.blockTable distinct member
  · -- The owner's answer failed, and no other owner is recorded: the home answered.
    have table : ctx'.blockTable = ctx.blockTable := congrArg (fun r => r.2.blockTable) read.symm
    have refused : ¬ServedByOwner ctx addr size metas := by
      rintro ⟨owner', served, redirects', answered⟩
      obtain rfl := redirects.unique redirects'
      have failed : (Transport.read ctx.config ctx.allocator { addr with homeNode := owner } size ctx.transport).1 =
        .error s := congrArg Prod.fst read
      rw [failed] at answered
      cases answered
    refine ⟨by simp [readHomeValidating_direct, refused], fun b member => ?_⟩
    rw [← table]
    exact readHomeValidating_versions distinct ok member
  · refine ⟨?_, fun b member => readHomeValidating_versions distinct ok member⟩
    rw [readHomeValidating_direct]
    exact ⟨by simp, fun ⟨owner, _, redirects, _⟩ => absurd redirects (noOwner owner)⟩

theorem countMiss_servedByOwner (ctx : RuntimeContext ω) (addr : GlobalAddr) (size : UInt64) (metas : List BlockId) :
    ServedByOwner (countMiss ctx metas) addr size metas ↔ ServedByOwner ctx addr size metas := by
  unfold ServedByOwner
  simp only [show (countMiss ctx metas).config = ctx.config from rfl,
    redirects_congr (countMiss_ownership ctx metas) addr metas]
  exact Iff.rfl

/-- The versions of the range after a remote read past the cache. -/
theorem readRemote_versions (ctx : RuntimeContext ω) {ord : IterOrder} {buf : Bytes} {modes : List CoherenceMode}
    (distinct : metas.Nodup)
    (miss : (ctx.cache.tryReadCached ord addr size).1 = none)
    (ok : (readRemote ord ctx addr size metas modes).1 = .ok buf) :
    (ServedByOwner ctx addr size metas → ∀ b ∈ metas,
      ((readRemote ord ctx addr size metas modes).2.blockTable.get b).versions =
        (maxObservedVersion ctx.blockTable metas, (ctx.blockTable.get b).version)) ∧
    (¬ServedByOwner ctx addr size metas → ∀ b ∈ metas,
      ((readRemote ord ctx addr size metas modes).2.blockTable.get b).versions =
        ((ctx.blockTable.get b).version, (ctx.blockTable.get b).version)) := by
  have counted (b : BlockId) : ((countMiss ctx metas).blockTable.get b).version = (ctx.blockTable.get b).version :=
    (countMiss_ownership ctx metas b).version
  have read := @tryOwnerAwareRead_versions ω addr size metas _ (countMiss ctx metas) ord distinct miss
  simp only [countMiss_servedByOwner, counted] at read
  rw [readRemote_miss miss] at ok ⊢
  generalize tryOwnerAwareRead ord (countMiss ctx metas) addr size metas = r at ok read
  obtain ⟨⟨answer, redirected⟩, ctx'⟩ := r
  cases answer with
  | error s => cases ok
  | ok buf' =>
    obtain ⟨byOwner, marked⟩ := read ok
    have version (b : BlockId) (member : b ∈ metas) : (ctx'.blockTable.get b).version = (ctx.blockTable.get b).version :=
      congrArg Prod.fst (marked b member)
    constructor
    · intro served b member
      obtain rfl : redirected = true := byOwner.mpr served
      have mark : (ctx'.blockTable.get b).lastValidatedVersion = (ctx.blockTable.get b).version :=
        congrArg Prod.snd (marked b member)
      rw [admitRead_versions ctx' addr buf' distinct, recordOwnerRead, if_pos rfl, BlockTable.get_modifyAll _ distinct, if_pos member]
      exact Prod.ext (maxObservedVersion_congr version) mark
    · intro home b member
      obtain rfl : redirected = false := by simpa using mt byOwner.mp home
      rw [admitRead_versions ctx' addr buf' distinct]
      exact marked b member

theorem touchMetadata_servedByOwner {range : BlockRange} (remote : addr.homeNode ≠ ctx.config.nodeId) (size : UInt64) :
    ServedByOwner (touchMetadata ctx addr range .kRead).2 addr size (range.ids addr.regionId) ↔
      ServedByOwner ctx addr size (range.ids addr.regionId) := by
  unfold ServedByOwner
  simp only [show (touchMetadata ctx addr range .kRead).2.config = ctx.config from rfl,
    redirects_touchMetadata ctx remote]
  exact Iff.rfl

/-- **What a remote read leaves validated**. A read past the cache that answers leaves its range
validated, unless a recorded owner answered it and the blocks stood at different versions. -/
theorem read_validated_iff {ord : IterOrder} {range : BlockRange} {mid : RuntimeContext ω} {buf : Bytes}
    (opened : openAccess ord ctx addr size = (.ok range, mid)) (remote : addr.homeNode ≠ mid.config.nodeId)
    (miss : (mid.cache.tryReadCached ord addr size).1 = none) (ok : (lmRead ord ctx addr size).1 = .ok buf) :
    (Validated (lmRead ord ctx addr size).2.blockTable (range.ids addr.regionId) ↔
      (ServedByOwner mid addr size (range.ids addr.regionId) →
        EqualVersions mid.blockTable (range.ids addr.regionId))) ∧
    (allMetasValidated (lmRead ord ctx addr size).2.blockTable (range.ids addr.regionId) = true ↔
      (ServedByOwner mid addr size (range.ids addr.regionId) →
        EqualVersions mid.blockTable (range.ids addr.regionId))) := by
  have distinct := range.nodup_ids addr.regionId
  rw [lmRead_remote opened remote] at ok ⊢
  obtain ⟨byOwner, byHome⟩ :=
    readRemote_versions (touchMetadata mid addr range .kRead).2 distinct miss ok
  have version := touchMetadata_version range remote
  rw [touchMetadata_servedByOwner remote] at byOwner byHome
  rw [maxObservedVersion_congr (t := mid.blockTable) fun b _ => version b] at byOwner
  simp only [version] at byOwner byHome
  generalize (readRemote ord (touchMetadata mid addr range .kRead).2 addr size (range.ids addr.regionId)
    (touchMetadata mid addr range .kRead).1).2.blockTable = table at byOwner byHome ⊢
  -- only an owner's answer raises versions after the marks are set
  by_cases served : ServedByOwner mid addr size (range.ids addr.regionId)
  · obtain ⟨validated, all⟩ := raised_validated_iff (byOwner served)
    exact ⟨validated.trans (imp_iff_right served).symm, all.trans (imp_iff_right served).symm⟩
  · have validated : Validated table (range.ids addr.regionId) := by
      intro b member
      have both := byHome served b member
      exact (congrArg Prod.snd both).trans (congrArg Prod.fst both).symm
    exact ⟨iff_of_true validated fun h => absurd h served,
      iff_of_true validated.allMetasValidated fun h => absurd h served⟩

end
/-- Node 0 of three, with blocks of four bytes and every write in WI mode. -/
def threeInvalidating : Config := { nrNodes := 3, blockSize := 4, localRegionSize := 8, coherenceModeOverride := 0 }

/-- Writes to node 1, then a read of node 2's blocks of the same ids, which validates them. -/
def validatingRead (writes : List (GlobalAddr × Bytes)) : List Invocation :=
  writes.map (fun write => ⟨.stored, .write write.1 write.2⟩) ++ [⟨.stored, .read ⟨2, 0, 0⟩ 8⟩]

/-- Blocks 0 and 1 at one version, with node 1 recorded as their owner. -/
def atOneVersion : RuntimeContext StubTransport :=
  (run exec (stubNode threeInvalidating) (validatingRead [(⟨1, 0, 0⟩, .zeros 8)])).2

/-- Block 0 written twice and block 1 once. -/
def atTwoVersions : RuntimeContext StubTransport :=
  (run exec (stubNode threeInvalidating)
    (validatingRead [(⟨1, 0, 0⟩, .zeros 4), (⟨1, 0, 0⟩, .zeros 4), (⟨1, 0, 4⟩, .zeros 4)])).2

theorem atOneVersion_validated :
    ServedByOwner (openAccess .stored atOneVersion ⟨2, 0, 0⟩ 8).2 ⟨2, 0, 0⟩ 8 [⟨0, 0⟩, ⟨0, 1⟩] ∧
      Validated (lmRead .stored atOneVersion ⟨2, 0, 0⟩ 8).2.blockTable [⟨0, 0⟩, ⟨0, 1⟩] := by
  have opened : openAccess .stored atOneVersion ⟨2, 0, 0⟩ 8 =
      (.ok ⟨⟨0, 0⟩, ⟨0, 1⟩, 2⟩, (openAccess .stored atOneVersion ⟨2, 0, 0⟩ 8).2) := Prod.ext (by decide +kernel) rfl
  have served : ServedByOwner (openAccess .stored atOneVersion ⟨2, 0, 0⟩ 8).2 ⟨2, 0, 0⟩ 8 [⟨0, 0⟩, ⟨0, 1⟩] :=
    ⟨1, .zeros 8, ⟨by decide, by decide +kernel, by decide +kernel, by decide, by decide, by decide⟩, by decide +kernel⟩
  have equal : EqualVersions (openAccess .stored atOneVersion ⟨2, 0, 0⟩ 8).2.blockTable [⟨0, 0⟩, ⟨0, 1⟩] := by
    unfold EqualVersions
    decide +kernel
  refine ⟨served, ?_⟩
  have answered : (lmRead .stored atOneVersion ⟨2, 0, 0⟩ 8).1 = .ok (.zeros 8) := by decide +kernel
  exact (read_validated_iff opened (by decide) (by decide +kernel) answered).1.mpr fun _ => equal

/-- Block 1 takes version 2 from block 0 and stays validated at 1. -/
theorem atTwoVersions_unvalidated :
    (openAccess .stored atTwoVersions ⟨2, 0, 0⟩ 8).1 = .ok ⟨⟨0, 0⟩, ⟨0, 1⟩, 2⟩ ∧
    ((openAccess .stored atTwoVersions ⟨2, 0, 0⟩ 8).2.cache.tryReadCached .stored ⟨2, 0, 0⟩ 8).1 = none ∧
    (lmRead .stored atTwoVersions ⟨2, 0, 0⟩ 8).1 = .ok (.zeros 8) ∧
    ((lmRead .stored atTwoVersions ⟨2, 0, 0⟩ 8).2.blockTable.get ⟨0, 1⟩).versions = (2, 1) ∧
    allMetasValidated (lmRead .stored atTwoVersions ⟨2, 0, 0⟩ 8).2.blockTable [⟨0, 0⟩, ⟨0, 1⟩] = false := by
  decide +kernel

end LeoMem
