import LeoMem.Stub.Flat

/-!
# Accesses to one home

Where all accesses go to one home, no read is redirected, and a node follows the
flat memory as long as three things hold: reads do not miss bytes that are still
pending, queued writes are not overtaken, and no cache entry outlives a write it
overlaps with older bytes. Without a cache only the first two remain
(`reads_own_writes`).
-/

namespace LeoMem
open Lib RuntimeContext

/-- A read or write of `home` in bounds, or a fence. -/
def ApiCall.OfHome (cfg : Config) (home : NodeId) : ApiCall → Prop
  | .read addr size => addr.homeNode = home ∧ LeoMem.RemoteAccess cfg addr size
  | .write addr buf => addr.homeNode = home ∧ LeoMem.RemoteAccess cfg addr buf.size
  | .fence => True
  | _ => False

instance (cfg : Config) (home : NodeId) : (c : ApiCall) → Decidable (c.OfHome cfg home)
  | .read _ _ => inferInstanceAs (Decidable (_ ∧ _))
  | .write _ _ => inferInstanceAs (Decidable (_ ∧ _))
  | .fence => inferInstanceAs (Decidable True)
  | .malloc _ => inferInstanceAs (Decidable False)
  | .free _ => inferInstanceAs (Decidable False)

theorem ApiCall.OfHome.access_or_fence {cfg : Config} {home : NodeId} {c : ApiCall} (ofHome : c.OfHome cfg home) :
    c.RemoteAccess cfg ∨ c = .fence := by
  cases c with
  | read addr size => exact Or.inl ofHome.2
  | write addr buf => exact Or.inl ofHome.2
  | fence => exact Or.inr rfl
  | malloc size => exact absurd ofHome id
  | free addr => exact absurd ofHome id

/-! ## Recorded owners -/

/-- The owners a record can name when one home is accessed. -/
def OwnerNear (node home : NodeId) (m : BlockMeta) : Prop :=
  m.ownerNode = kInvalidNodeId ∨ m.ownerNode = home ∨ m.ownerNode = node

theorem standingRel_ownerNear (node home : NodeId) :
    StandingRel fun m m' => OwnerNear node home m → OwnerNear node home m' where
  standing same near := by
    unfold OwnerNear at near ⊢
    rwa [same.ownerNode]
  trans first second near := second (first near)

section
variable {cfg : Config} {ctx : RuntimeContext StubTransport} {m : FlatMemory} {addr : GlobalAddr} {size : UInt64}

/-- Such records redirect no read. -/
theorem not_redirects_of_near (near : ∀ b, OwnerNear cfg.nodeId addr.homeNode (ctx.blockTable.get b))
    (metas : List BlockId) (owner : NodeId) : ¬ Redirects cfg ctx.blockTable addr metas owner := by
  intro redirects
  obtain ⟨b, member⟩ := List.exists_mem_of_ne_nil _ redirects.blocks
  have recorded := redirects.recorded b member
  rcases near b with invalid | home | own
  · exact redirects.valid (recorded.symm.trans invalid)
  · exact redirects.away (recorded.symm.trans home)
  · exact redirects.other (recorded.symm.trans own)

theorem prepareMeta_near (remote : addr.homeNode ≠ cfg.nodeId) (type : AccessType) {r : BlockMeta}
    (near : OwnerNear cfg.nodeId addr.homeNode r) : OwnerNear cfg.nodeId addr.homeNode (prepareMeta cfg addr type r) := by
  unfold prepareMeta
  rw [if_neg remote]
  unfold OwnerNear at near ⊢
  simp only
  split
  · exact Or.inr (Or.inl rfl)
  · exact near

theorem applyWriteMeta_near (mode : CoherenceMode) {r : BlockMeta} (near : OwnerNear cfg.nodeId addr.homeNode r) :
    OwnerNear cfg.nodeId addr.homeNode (applyWriteMeta cfg addr mode r) := by
  cases mode with
  | kWI => exact Or.inr (Or.inl rfl)
  | kSI => exact near
  | kAdaptive => exact Or.inr (Or.inr rfl)

theorem Represents.read_near (rep : Represents cfg ctx m) (blocks : cfg.blockSize ≠ 0)
    (access : RemoteAccess cfg addr size) (near : ∀ b, OwnerNear cfg.nodeId addr.homeNode (ctx.blockTable.get b))
    (ord : IterOrder) (b : BlockId) :
    OwnerNear cfg.nodeId addr.homeNode ((lmRead ord ctx addr size).2.blockTable.get b) := by
  refine rep.read_rel (standingRel_ownerNear cfg.nodeId addr.homeNode) blocks access ord
    (fun r => prepareMeta_near access.remote .kRead) ⟨fun _ r _ => Or.inr (Or.inl rfl), fun t _ _ _ _ near => ?_⟩ (near b)
  exact near

theorem Represents.write_near {buf : Bytes} (rep : Represents cfg ctx m) (blocks : cfg.blockSize ≠ 0)
    (access : RemoteAccess cfg addr buf.size) (near : ∀ b, OwnerNear cfg.nodeId addr.homeNode (ctx.blockTable.get b))
    (ord : IterOrder) (b : BlockId) :
    OwnerNear cfg.nodeId addr.homeNode ((lmWrite ord ctx addr buf).2.blockTable.get b) :=
  rep.write_rel (standingRel_ownerNear cfg.nodeId addr.homeNode) blocks access ord
    (fun _ => prepareMeta_near access.remote .kWrite) (fun mode _ => applyWriteMeta_near mode) (near b)

end

/-! ## Cached entries -/

/-- A cached entry that holds the flat memory's bytes. -/
structure EntryAgrees (m : FlatMemory) (k : CacheKey) (p : Bytes) : Prop where
  fits : k.addr.offset.toNat + k.size.toNat < 2 ^ 64
  size : p.size = k.size
  bytes : ∀ i, i < k.size.toNat → p.byte i = m k.addr.homeNode (k.addr.offset.toNat + i)

def CacheAgrees (c : ReadCache) (m : FlatMemory) : Prop := ∀ k p, c.payload? k = some p → EntryAgrees m k p

section
variable {cfg : Config} {c : ReadCache} {m : FlatMemory} {addr : GlobalAddr}

/-- A hit on entries that agree answers with the flat memory's bytes. -/
theorem CacheAgrees.hit (agrees : CacheAgrees c m) {size : UInt64} (inside : InBounds cfg addr size) {ord : IterOrder}
    {buf : Bytes} (hit : (c.tryReadCached ord addr size).1 = some buf) : buf = m.load addr size := by
  obtain ⟨k, p, held, home, -, start, stop, rfl⟩ := ReadCache.tryReadCached_hit hit
  have entry := agrees k p held
  rw [UInt64.le_iff_toNat_le] at start stop
  rw [inside.toNat_end, UInt64.toNat_add, Nat.mod_eq_of_lt entry.fits] at stop
  have shift : (addr.offset - k.addr.offset).toNat = addr.offset.toNat - k.addr.offset.toNat :=
    UInt64.toNat_sub_of_le _ _ (UInt64.le_iff_toNat_le.mpr start)
  refine Bytes.tabulate_congr fun i bound => ?_
  rw [shift, entry.bytes _ (by omega), home]
  congr 1
  omega

theorem entryAgrees_load {size : UInt64} (inside : InBounds cfg addr size) (m : FlatMemory) :
    EntryAgrees m ⟨addr, size⟩ (m.load addr size) := by
  have bound := cfg.localRegionSize.toNat_lt
  refine ⟨?_, Bytes.size_tabulate _ _, fun i lt => ?_⟩
  · unfold InBounds at inside
    change addr.offset.toNat + size.toNat < _
    omega
  · exact (Bytes.byte_tabulate _ _ _).trans (if_pos lt)

/-- The copy a write keeps agrees with the memory after it. -/
theorem entryAgrees_store {buf : Bytes} (inside : InBounds cfg addr buf.size) (m : FlatMemory) :
    EntryAgrees (m.store addr buf) ⟨addr, buf.size⟩ buf := by
  have bound := cfg.localRegionSize.toNat_lt
  refine ⟨?_, rfl, fun i lt => ?_⟩
  · unfold InBounds at inside
    change addr.offset.toNat + buf.size.toNat < _
    omega
  · change i < buf.size.toNat at lt
    rw [Bytes.toNat_size] at lt
    simp only [FlatMemory.store, Function.update_self, Patch.apply, Bytes.patch_of_lt lt, Option.getD_some]

/-- An entry that already holds the bytes a write puts into its range survives the write. -/
theorem EntryAgrees.store {k : CacheKey} {p buf : Bytes} (agrees : EntryAgrees m k p)
    (same : k.addr.homeNode = addr.homeNode → ∀ x b, buf.patch addr.offset.toNat x = some b →
      k.addr.offset.toNat ≤ x → x < k.addr.offset.toNat + k.size.toNat → p.byte (x - k.addr.offset.toNat) = b) :
    EntryAgrees (m.store addr buf) k p := by
  refine ⟨agrees.fits, agrees.size, fun i lt => ?_⟩
  by_cases home : k.addr.homeNode = addr.homeNode
  · rw [FlatMemory.store, home, Function.update_self, Patch.apply]
    cases written : buf.patch addr.offset.toNat (k.addr.offset.toNat + i) with
    | none => rw [Option.getD_none, agrees.bytes i lt, home]
    | some b =>
      have := same home _ b written (by omega) (by omega)
      rwa [Nat.add_sub_cancel_left] at this
  · rw [FlatMemory.store, Function.update_of_ne home]
    exact agrees.bytes i lt

end
/-! ## A node that follows the flat memory -/

structure Follows (cfg : Config) (home : NodeId) (ctx : RuntimeContext StubTransport) (m : FlatMemory) : Prop where
  represents : Represents cfg ctx m
  cached : CacheAgrees ctx.cache m
  near : ∀ b, OwnerNear cfg.nodeId home (ctx.blockTable.get b)

/-- The cache entries of the home that the write's own invalidation leaves, wherever the
write reaches into them, already hold the bytes it writes. -/
def CopiesAgree (ctx : RuntimeContext StubTransport) (addr : GlobalAddr) (buf : Bytes) : Prop :=
  ∀ k p, ctx.cache.payload? k = some p → k.addr.homeNode = addr.homeNode →
    (if hasMode (accessModes ctx addr buf.size .kWrite) .kWI then rangesOverlap k.addr k.size addr buf.size = false
      else k ≠ ⟨addr, buf.size⟩) →
    ∀ x b, buf.patch addr.offset.toNat x = some b → k.addr.offset.toNat ≤ x →
      x < k.addr.offset.toNat + k.size.toNat → p.byte (x - k.addr.offset.toNat) = b

/-- What a call needs of the state it starts from to follow the flat memory. -/
def FollowsGuard (ctx : RuntimeContext StubTransport) (i : Invocation) : Prop :=
  match i.call with
  | .read addr size => PendingSeen ctx addr size
  | .write addr buf =>
    NotOvertaken (ctx.queues.of addr.homeNode) { addr := addr, payload := buf } ∧ CopiesAgree ctx addr buf
  | _ => True

theorem follows_stubNode (cfg : Config) (home : NodeId) : Follows cfg home (stubNode cfg) .zero :=
  ⟨represents_stubNode cfg, fun _ _ held => (by cases held), fun _ => Or.inl rfl⟩

section
variable {cfg : Config} {ctx : RuntimeContext StubTransport} {m : FlatMemory} {addr : GlobalAddr}

theorem Follows.read {size : UInt64} (follows : Follows cfg addr.homeNode ctx m) (blocks : cfg.blockSize ≠ 0)
    (access : RemoteAccess cfg addr size) (seen : PendingSeen ctx addr size) (ord : IterOrder) :
    (lmRead ord ctx addr size).1 = .ok (m.load addr size) ∧
      Follows cfg addr.homeNode (lmRead ord ctx addr size).2 m := by
  obtain ⟨rep, -, buf, answer, source⟩ := follows.represents.read_answers blocks access ord
  have loaded : buf = m.load addr size := by
    cases source with
    | cached hit => exact follows.cached.hit access.inside hit
    | owner _ redirects =>
      rw [follows.represents.config] at redirects
      exact absurd redirects (not_redirects_of_near follows.near _ _)
    | home _ _ => exact follows.represents.served_home access.remote seen
  subst loaded
  refine ⟨answer, rep, fun k p held => ?_, follows.represents.read_near blocks access follows.near ord⟩
  rcases follows.represents.read_cache blocks access held with old | ⟨rfl, fresh, -, -⟩
  · exact follows.cached k p old
  · obtain rfl := Except.ok.inj (answer.symm.trans fresh)
    rw [FlatMemory.load, Bytes.size_tabulate]
    exact entryAgrees_load access.inside m

theorem Follows.write {buf : Bytes} (follows : Follows cfg addr.homeNode ctx m) (blocks : cfg.blockSize ≠ 0)
    (access : RemoteAccess cfg addr buf.size)
    (kept : NotOvertaken (ctx.queues.of addr.homeNode) { addr := addr, payload := buf })
    (copies : CopiesAgree ctx addr buf) (ord : IterOrder) :
    (lmWrite ord ctx addr buf).1 = .kOk ∧
      Follows cfg addr.homeNode (lmWrite ord ctx addr buf).2 (m.store addr buf) := by
  obtain ⟨posted, ownerBiased, rep, queues, within, -, wrote⟩ := follows.represents.write_wrote blocks access ord
  obtain ⟨ok, next⟩ := rep.of_wrote access (queues ▸ kept) wrote
  refine ⟨ok, next, fun k p held => ?_, follows.represents.write_near blocks access follows.near ord⟩
  rcases wrote.cache k p held with ⟨rfl, rfl, -, -⟩ | ⟨survivor, outlived⟩
  · exact entryAgrees_store access.inside m
  · exact (follows.cached k p (within k p survivor)).store fun home =>
      copies k p (within k p survivor) home outlived

theorem Follows.fence {home : NodeId} (follows : Follows cfg home ctx m) (ord : IterOrder) :
    (lmFence ord ctx).1 = .kOk ∧ Follows cfg home (lmFence ord ctx).2 m := by
  obtain ⟨ok, next⟩ := follows.represents.fence ord
  obtain ⟨cache, table⟩ := follows.represents.fence_keeps ord
  exact ⟨ok, next, cache ▸ follows.cached, table ▸ follows.near⟩

/-- One call on one home, against the same call on the flat memory. -/
theorem Follows.exec {home : NodeId} (follows : Follows cfg home ctx m) (blocks : cfg.blockSize ≠ 0) (i : Invocation)
    (ofHome : i.call.OfHome cfg home) (guard : FollowsGuard ctx i) :
    (LeoMem.exec ctx i).1 = (m.exec i).1 ∧ Follows cfg home (LeoMem.exec ctx i).2 (m.exec i).2 := by
  obtain ⟨ord, call⟩ := i
  cases call with
  | read addr size =>
    obtain ⟨rfl, access⟩ := ofHome
    obtain ⟨answer, next⟩ := follows.read blocks access guard ord
    exact ⟨congrArg Response.ofRead answer, next⟩
  | write addr buf =>
    obtain ⟨rfl, access⟩ := ofHome
    obtain ⟨ok, next⟩ := follows.write blocks access guard.1 guard.2 ord
    exact ⟨congrArg Response.status ok, next⟩
  | fence =>
    obtain ⟨ok, next⟩ := follows.fence ord
    exact ⟨congrArg Response.status ok, next⟩
  | malloc size => exact absurd ofHome id
  | free addr => exact absurd ofHome id

/-- A node that does not cache keeps its cache empty. -/
theorem Represents.exec_uncached {home : NodeId} (rep : Represents cfg ctx m) (off : cfg.enableCache = false)
    (blocks : cfg.blockSize ≠ 0) (empty : ∀ k, ctx.cache.payload? k = none) (i : Invocation)
    (ofHome : i.call.OfHome cfg home) (k : CacheKey) : (LeoMem.exec ctx i).2.cache.payload? k = none := by
  obtain ⟨ord, call⟩ := i
  cases held : (LeoMem.exec ctx ⟨ord, call⟩).2.cache.payload? k with
  | none => rfl
  | some p =>
    have old : ctx.cache.payload? k = some p := by
      cases call with
      | read addr size =>
        rcases rep.read_cache blocks ofHome.2 held with old | ⟨-, -, -, on⟩
        · exact old
        · exact absurd on (by simp [off])
      | write addr buf =>
        obtain ⟨posted, ownerBiased, postedRep, -, within, -, wrote⟩ := rep.write_wrote blocks ofHome.2 ord
        rcases wrote.cache k p held with ⟨-, -, -, on⟩ | ⟨survivor, -⟩
        · exact absurd on (by simp [postedRep.config, off])
        · exact within k p survivor
      | fence => rwa [(rep.fence_keeps ord).1.symm]
      | malloc size => exact absurd ofHome id
      | free addr => exact absurd ofHome id
    rw [empty] at old
    cases old

/-- A block size of zero lets no read return bytes. -/
theorem not_bytes_of_blockless {home : NodeId} (blockless : cfg.blockSize = 0) {calls : List Invocation}
    (ofHome : ∀ i ∈ calls, i.call.OfHome cfg home) :
    ∀ r ∈ (run exec (stubNode cfg) calls).1, ∀ buf, r ≠ .bytes buf := by
  refine run_answers (I := fun ctx => ∃ m, Represents cfg ctx m) ?_ ofHome ⟨_, represents_stubNode cfg⟩
  rintro ctx i ofHome ⟨m, rep⟩
  rcases ofHome.access_or_fence with access | fence
  · rw [rep.exec_blockless blockless access]
    exact ⟨fun buf same => (by cases same), m, rep.takesIn⟩
  · obtain ⟨ord, call⟩ := i
    obtain rfl : call = .fence := fence
    exact ⟨fun buf same => (by cases same), m, (rep.fence ord).2⟩

end

/-! ## Reads of pending writes -/

/-- What a call needs of the queue of its home: a read reaches into no pending bytes that
its home does not hold yet, and a write is queued behind none it overlaps. -/
def SeesOwnWrites (ctx : RuntimeContext StubTransport) (i : Invocation) : Prop :=
  match i.call with
  | .read addr size => PendingSeen ctx addr size
  | .write addr buf => NotOvertaken (ctx.queues.of addr.homeNode) { addr := addr, payload := buf }
  | _ => True

theorem followsGuard_of_uncached {ctx : RuntimeContext StubTransport} (empty : ∀ k, ctx.cache.payload? k = none)
    {i : Invocation} (sees : SeesOwnWrites ctx i) : FollowsGuard ctx i := by
  obtain ⟨ord, call⟩ := i
  cases call with
  | read addr size => exact sees
  | write addr buf => exact ⟨sees, fun k p held => absurd held (by simp [empty])⟩
  | _ => trivial

/-- **A node reads its own writes.** Without a cache, in every run on one home whose calls
all succeed, each read returns the bytes of the latest writes before it, for every
threshold and coherence configuration, as long as no read reaches into pending bytes and
no queued write is overtaken. -/
theorem reads_own_writes {cfg : Config} {home : NodeId} (uncached : cfg.enableCache = false) (calls : List Invocation)
    (ofHome : ∀ i ∈ calls, i.call.OfHome cfg home) (successful : ∀ r ∈ (run exec (stubNode cfg) calls).1, r.Successful)
    (along : Along exec SeesOwnWrites (stubNode cfg) calls) :
    (run exec (stubNode cfg) calls).1 = (run FlatMemory.exec .zero calls).1 := by
  have guarded := (along.and (along_of_inputs ofHome (stubNode cfg))).and (along_of_answers successful)
  refine (run_simulation (R := fun ctx m => Follows cfg home ctx m ∧ ∀ k, ctx.cache.payload? k = none) ?_ guarded
    ⟨follows_stubNode cfg home, fun _ => rfl⟩).1
  rintro ctx m i ⟨⟨sees, ofHome⟩, successful⟩ ⟨follows, empty⟩
  rcases ofHome.access_or_fence with access | fence
  · have blocks := follows.represents.blocks_of_successful access successful
    obtain ⟨same, next⟩ := follows.exec blocks i ofHome (followsGuard_of_uncached empty sees)
    exact ⟨same, next, follows.represents.exec_uncached uncached blocks empty i ofHome⟩
  · obtain ⟨ord, call⟩ := i
    obtain rfl : call = .fence := fence
    obtain ⟨ok, next⟩ := follows.fence ord
    exact ⟨congrArg Response.status ok, next, (follows.represents.fence_keeps ord).1 ▸ empty⟩

/-- Two nodes that queue two writes before they flush, without a cache. -/
def queuingConfig : Config :=
  { nrNodes := 2, blockSize := 4, localRegionSize := 16, coherenceModeOverride := 1, enableCache := false,
    remoteWriteBatchThreshold := 2 }

/-- A range written, fenced and read, with a write left pending elsewhere. -/
def readsFenced : List Invocation :=
  [⟨.stored, .write ⟨1, 0, 0⟩ (.ofList [7, 8])⟩, ⟨.stored, .fence⟩, ⟨.stored, .read ⟨1, 0, 0⟩ 4⟩,
    ⟨.stored, .write ⟨1, 0, 8⟩ (.ofList [9])⟩]

theorem readsFenced_own_writes :
    (∀ i ∈ readsFenced, i.call.OfHome queuingConfig 1) ∧
      (run exec (stubNode queuingConfig) readsFenced).1 = (run FlatMemory.exec .zero readsFenced).1 := by
  have ofHome : ∀ i ∈ readsFenced, i.call.OfHome queuingConfig 1 := by decide +kernel
  exact ⟨ofHome, reads_own_writes rfl readsFenced ofHome (by decide +kernel)
    ⟨notOvertaken_of_apart (by decide +kernel), trivial, pendingSeen_of_idle (by decide +kernel) 4,
      notOvertaken_of_apart (by decide +kernel), trivial⟩⟩

/-- A range written and read back. -/
def readsPending : List Invocation :=
  [⟨.stored, .write ⟨1, 0, 0⟩ (.ofList [7, 8])⟩, ⟨.stored, .read ⟨1, 0, 0⟩ 2⟩]

/-- The write waits in the queue and the read goes to the home, which still has zeros. -/
theorem readsPending_old_bytes :
    (∀ i ∈ readsPending, i.call.OfHome queuingConfig 1) ∧
      (run exec (stubNode queuingConfig) readsPending).1 = [.status .kOk, .bytes (.ofList [0, 0])] ∧
      (run FlatMemory.exec .zero readsPending).1 = [.status .kOk, .bytes (.ofList [7, 8])] := by
  refine ⟨by decide +kernel, by decide +kernel, by decide +kernel⟩

end LeoMem
