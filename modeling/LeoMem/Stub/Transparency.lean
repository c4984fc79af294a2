import LeoMem.Stub.SingleHome

/-!
# The cache and the node that uses it

A read is served from any entry that covers it, but a write outside WI mode drops
only the entry of its own address and size. The cache is invisible as long as the
entries a write leaves behind do not hold older bytes of its range
(`cache_transparent`).
-/

namespace LeoMem
open Lib RuntimeContext

/-- No write waits for others: batching is off, or a queue of one write is flushed. -/
def NoneWaits (cfg : Config) : Prop :=
  cfg.enableWriteBatching = false ∨ cfg.remoteWriteBatchThreshold ≤ 1

/-- Every read that succeeds returns what it returns with the cache turned off. -/
def CacheTransparent (cfg : Config) (calls : List Invocation) : Prop :=
  ∀ (n : Nat) (buf : Bytes), (run exec (stubNode cfg) calls).1[n]? = some (.bytes buf) →
    (run exec (stubNode { cfg with enableCache := false }) calls).1[n]? = some (.bytes buf)

/-- A write leaves no cache entry behind that holds older bytes of its range. -/
def LeavesNoStaleCopy (ctx : RuntimeContext StubTransport) (i : Invocation) : Prop :=
  match i.call with
  | .write addr buf => CopiesAgree ctx addr buf
  | _ => True

theorem ApiCall.OfHome.uncached {cfg : Config} {home : NodeId} {c : ApiCall} (ofHome : c.OfHome cfg home) :
    c.OfHome { cfg with enableCache := false } home := by
  cases c with
  | read addr size => exact ⟨ofHome.1, ofHome.2.remote, ofHome.2.valid, ofHome.2.filled, ofHome.2.inside⟩
  | write addr buf => exact ⟨ofHome.1, ofHome.2.remote, ofHome.2.valid, ofHome.2.filled, ofHome.2.inside⟩
  | fence => trivial
  | malloc size => exact absurd ofHome id
  | free addr => exact absurd ofHome id

section
variable {cfg : Config} {home : NodeId} {ctx : RuntimeContext StubTransport} {m : FlatMemory}

/-- Where no write waits, nothing is pending between calls. -/
theorem Represents.exec_idle (rep : Represents cfg ctx m) (noneWaits : NoneWaits cfg) (blocks : cfg.blockSize ≠ 0)
    (idle : ∀ n, ctx.queues.of n = []) (i : Invocation) (ofHome : i.call.OfHome cfg home) (n : NodeId) :
    (LeoMem.exec ctx i).2.queues.of n = [] := by
  obtain ⟨ord, call⟩ := i
  cases call with
  | read addr size =>
    obtain ⟨-, queues, -⟩ := rep.read_answers blocks ofHome.2 ord
    exact queues ▸ idle n
  | write addr buf =>
    obtain ⟨posted, ownerBiased, postedRep, queues, -, -, wrote⟩ := rep.write_wrote blocks ofHome.2 ord
    cases wrote.moved with
    | through _ _ same => exact (congrArg (WriteQueues.of · n) (same.trans queues)).trans (idle n)
    | queued w on _ _ _ _ _ _ short =>
      rw [postedRep.config] at on short
      rcases noneWaits with off | small
      · exact absurd on (by simp [off])
      · have positive := List.length_pos_iff.mpr (enqueue_ne_nil (posted.queues.of addr.homeNode) w)
        rw [UInt64.le_iff_toNat_le] at small
        rw [toNat_max] at short
        have one : (1 : UInt64).toNat = 1 := rfl
        omega
    | flushed _ _ _ _ _ drained =>
      change (lmWrite ord ctx addr buf).2.queues.of n = []
      rw [drained, queues, idle]
      split <;> rfl
  | fence => exact lmFence_ok (StubTransport.controlKeeps_regions cfg) (rep.fence ord).1 n
  | malloc size => exact absurd ofHome id
  | free addr => exact absurd ofHome id

theorem followsGuard_of_idle (idle : ∀ n, ctx.queues.of n = []) {i : Invocation} (leaves : LeavesNoStaleCopy ctx i) :
    FollowsGuard ctx i := by
  obtain ⟨ord, call⟩ := i
  cases call with
  | read addr size => exact pendingSeen_of_idle (idle _) size
  | write addr buf =>
    refine ⟨?_, leaves⟩
    rw [idle]
    trivial
  | _ => trivial

/-- A node on which no write waits follows the flat memory where no stale copy is left. -/
theorem follows_run_idle (noneWaits : NoneWaits cfg) (blocks : cfg.blockSize ≠ 0) {calls : List Invocation}
    (ofHome : ∀ i ∈ calls, i.call.OfHome cfg home) (along : Along exec LeavesNoStaleCopy (stubNode cfg) calls) :
    (run exec (stubNode cfg) calls).1 = (run FlatMemory.exec .zero calls).1 := by
  have guarded := along.and (along_of_inputs ofHome (stubNode cfg))
  refine (run_simulation (R := fun ctx m => Follows cfg home ctx m ∧ ∀ n, ctx.queues.of n = []) ?_ guarded
    ⟨follows_stubNode cfg home, fun _ => rfl⟩).1
  rintro ctx m i ⟨leaves, ofHome⟩ ⟨follows, idle⟩
  obtain ⟨same, next⟩ := follows.exec blocks i ofHome (followsGuard_of_idle idle leaves)
  exact ⟨same, next, follows.represents.exec_idle noneWaits blocks idle i ofHome⟩

/-- With the cache off there is no copy to leave behind. -/
theorem leavesNoStaleCopy_uncached (off : cfg.enableCache = false) (noneWaits : NoneWaits cfg)
    (blocks : cfg.blockSize ≠ 0) {calls : List Invocation} (ofHome : ∀ i ∈ calls, i.call.OfHome cfg home) :
    Along exec LeavesNoStaleCopy (stubNode cfg) calls := by
  have vacuous : ∀ ctx : RuntimeContext StubTransport, (∀ k, ctx.cache.payload? k = none) →
      ∀ i, LeavesNoStaleCopy ctx i := by
    rintro ctx empty ⟨ord, call⟩
    cases call with
    | write addr buf => exact fun k p held => absurd held (by simp [empty])
    | _ => trivial
  have inputs : Along exec (fun _ i => i.call.OfHome cfg home) (stubNode cfg) calls := along_of_inputs ofHome _
  refine (Along.with_invariant (I := fun ctx => (∃ m, Follows cfg home ctx m) ∧ (∀ n, ctx.queues.of n = []) ∧
    ∀ k, ctx.cache.payload? k = none) ?_ inputs ⟨⟨_, follows_stubNode cfg home⟩, fun _ => rfl, fun _ => rfl⟩).mono
      fun ctx i held => vacuous ctx held.2.2.2 i
  rintro ctx i ofHome ⟨⟨m, follows⟩, idle, empty⟩
  obtain ⟨-, next⟩ := follows.exec blocks i ofHome (followsGuard_of_idle idle (vacuous ctx empty i))
  exact ⟨⟨_, next⟩, follows.represents.exec_idle noneWaits blocks idle i ofHome,
    follows.represents.exec_uncached off blocks empty i ofHome⟩

end

/-- **The cache is transparent** to the node that uses it, for every admission policy,
coherence mode and capacity, in every run on one home whose writes leave no stale copy
behind. -/
theorem cache_transparent {cfg : Config} {home : NodeId} (noneWaits : NoneWaits cfg) (calls : List Invocation)
    (ofHome : ∀ i ∈ calls, i.call.OfHome cfg home) (along : Along exec LeavesNoStaleCopy (stubNode cfg) calls) :
    CacheTransparent cfg calls := by
  intro n buf answered
  by_cases blocks : cfg.blockSize = 0
  · exact absurd rfl (not_bytes_of_blockless blocks ofHome _ (List.mem_of_getElem? answered) buf)
  · have elsewhere := fun i member => (ofHome i member).uncached
    have waits : NoneWaits { cfg with enableCache := false } := noneWaits
    rw [follows_run_idle waits blocks elsewhere (leavesNoStaleCopy_uncached rfl waits blocks elsewhere),
      ← follows_run_idle noneWaits blocks ofHome along]
    exact answered

/-- A write that reaches into no cache entry apart from the one it drops leaves no stale copy. -/
theorem copiesAgree_of_apart {ctx : RuntimeContext StubTransport} {addr : GlobalAddr} {buf : Bytes}
    (notWi : hasMode (accessModes ctx addr buf.size .kWrite) .kWI = false)
    (apart : ∀ k ∈ ctx.cache.cachedReads.keys, k = ⟨addr, buf.size⟩ ∨
      k.addr.offset.toNat + k.size.toNat ≤ addr.offset.toNat ∨
      addr.offset.toNat + buf.data.length ≤ k.addr.offset.toNat) : CopiesAgree ctx addr buf := by
  intro k p held _ outlived x b written start stop
  obtain ⟨v, resident, -⟩ := Option.map_eq_some_iff.mp held
  have member : k ∈ ctx.cache.cachedReads := AList.lookup_isSome.mp (by simp [resident])
  obtain ⟨lower, upper, -⟩ := Bytes.patch_eq_some.mp written
  rw [notWi] at outlived
  rcases apart k (AList.mem_keys.mp member) with same | before | after
  · exact absurd same outlived
  · omega
  · omega

/-- Two nodes with blocks of four bytes, in SI mode, that cache everything. -/
def cachingConfig : Config :=
  { nrNodes := 2, blockSize := 4, localRegionSize := 16, coherenceModeOverride := 1, cacheAdmissionPolicy := 1 }

/-- A range read, hit again inside, written as a whole and read back. -/
def wholeOverwrite : List Invocation :=
  [⟨.stored, .read ⟨1, 0, 0⟩ 4⟩, ⟨.stored, .read ⟨1, 0, 1⟩ 2⟩, ⟨.stored, .write ⟨1, 0, 0⟩ (.ofList [7, 8, 9, 9])⟩,
    ⟨.stored, .read ⟨1, 0, 1⟩ 2⟩]

theorem wholeOverwrite_transparent :
    NoneWaits cachingConfig ∧ (∀ i ∈ wholeOverwrite, i.call.OfHome cachingConfig 1) ∧
      CacheTransparent cachingConfig wholeOverwrite := by
  have ofHome : ∀ i ∈ wholeOverwrite, i.call.OfHome cachingConfig 1 := by decide +kernel
  exact ⟨Or.inr (by decide), ofHome, cache_transparent (Or.inr (by decide)) wholeOverwrite ofHome
    ⟨trivial, trivial, copiesAgree_of_apart (by decide +kernel) (by decide +kernel), trivial, trivial⟩⟩

/-- A range read, written in part and read again. -/
def partialOverwrite : List Invocation :=
  [⟨.stored, .read ⟨1, 0, 0⟩ 4⟩, ⟨.stored, .write ⟨1, 0, 0⟩ (.ofList [7, 8])⟩, ⟨.stored, .read ⟨1, 0, 0⟩ 4⟩]

/-- The write of two bytes drops only the entry of those two bytes, and the read is served
from the entry of four that still holds zeros. -/
theorem partialOverwrite_stale :
    NoneWaits cachingConfig ∧ (∀ i ∈ partialOverwrite, i.call.OfHome cachingConfig 1) ∧
      ¬ CacheTransparent cachingConfig partialOverwrite := by
  refine ⟨Or.inr (by decide), by decide +kernel, fun transparent => ?_⟩
  have uncached := transparent 2 (.ofList [0, 0, 0, 0]) (by decide +kernel)
  exact absurd uncached (by decide +kernel)

end LeoMem
