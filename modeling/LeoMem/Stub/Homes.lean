import LeoMem.Stub.Flat

/-!
# Homes that share block records

With WI as the configured mode nothing is cached and every write is flushed
before it returns, so a read could only go wrong by its redirection. It does: block records are
keyed by region and block alone, and an owner recorded for one home's block
redirects the reads of another's. `homes_isolated_iff` says when it does not.
-/

namespace LeoMem
open Lib RuntimeContext

/-- A read that is redirected finds at the recorded owner the bytes its home has. -/
def OwnerHolds (ctx : RuntimeContext StubTransport) (i : Invocation) : Prop :=
  match i.call with
  | .read addr size =>
    ∀ owner, Redirects ctx.config ctx.blockTable addr (accessIds ctx.config addr size) owner →
      served ctx addr size owner = served ctx addr size addr.homeNode
  | _ => True

/-- Between the calls of a WI node nothing is cached and nothing is pending. -/
structure RepresentsDirectly (cfg : Config) (ctx : RuntimeContext StubTransport) (m : FlatMemory) : Prop where
  represents : Represents cfg ctx m
  uncached : ∀ k, ctx.cache.payload? k = none
  idle : ∀ n, ctx.queues.of n = []

section
variable {cfg : Config} {ctx : RuntimeContext StubTransport} {m : FlatMemory} {addr : GlobalAddr} {size : UInt64}

theorem hasMode_wi (wi : cfg.coherenceModeOverride = 0) (rep : Represents cfg ctx m)
    (access : RemoteAccess cfg addr size) (type : AccessType) : hasMode (accessModes ctx addr size type) .kWI = true := by
  rw [accessModes_override rep (by omega) (by omega), wi]
  obtain ⟨b, member⟩ := List.exists_mem_of_ne_nil _ (accessIds_ne_nil access)
  simp only [hasMode, List.any_map, List.any_eq_true]
  exact ⟨b, member, rfl⟩

theorem not_adaptive_of_wi (wi : cfg.coherenceModeOverride = 0) (rep : Represents cfg ctx m) (addr : GlobalAddr)
    (size : UInt64) (type : AccessType) : CoherenceMode.kAdaptive ∉ accessModes ctx addr size type := by
  rw [accessModes_override rep (by omega) (by omega), wi]
  intro member
  obtain ⟨b, -, same⟩ := List.mem_map.mp member
  cases same

theorem RepresentsDirectly.read (direct : RepresentsDirectly cfg ctx m) (wi : cfg.coherenceModeOverride = 0)
    (blocks : cfg.blockSize ≠ 0) (access : RemoteAccess cfg addr size) (ord : IterOrder) :
    (Response.ofRead (lmRead ord ctx addr size).1 = .bytes (m.load addr size) ↔
        OwnerHolds ctx ⟨ord, .read addr size⟩) ∧
      RepresentsDirectly cfg (lmRead ord ctx addr size).2 m := by
  obtain ⟨rep, queues, buf, answer, source⟩ := direct.represents.read_answers blocks access ord
  have miss : ∀ hit, (ctx.cache.tryReadCached ord addr size).1 ≠ some hit := by
    intro hit found
    obtain ⟨k, p, held, -⟩ := ReadCache.tryReadCached_hit found
    rw [direct.uncached] at held
    cases held
  have home := direct.represents.served_home access.remote (pendingSeen_of_idle (direct.idle _) size)
  refine ⟨?_, rep, fun k => ?_, fun n => ?_⟩
  · rw [answer, ← home]
    simp only [Response.ofRead, Response.bytes.injEq, OwnerHolds]
    cases source with
    | cached hit => exact absurd hit (miss _)
    | owner _ redirects =>
      constructor
      · intro same owner' redirects'
        rw [← redirects.unique redirects']
        exact same
      · intro holds
        exact holds _ redirects
    | home _ noOwner => exact ⟨fun _ owner redirects => absurd redirects (noOwner owner), fun _ => rfl⟩
  · cases held : (lmRead ord ctx addr size).2.cache.payload? k with
    | none => rfl
    | some p =>
      rcases direct.represents.read_cache blocks access held with old | ⟨-, -, noWI, -⟩
      · rw [direct.uncached] at old
        cases old
      · rw [hasMode_wi wi direct.represents access] at noWI
        cases noWI
  · rw [queues]
    exact direct.idle n

theorem RepresentsDirectly.write {buf : Bytes} (direct : RepresentsDirectly cfg ctx m)
    (wi : cfg.coherenceModeOverride = 0) (blocks : cfg.blockSize ≠ 0) (access : RemoteAccess cfg addr buf.size)
    (ord : IterOrder) :
    (lmWrite ord ctx addr buf).1 = .kOk ∧ RepresentsDirectly cfg (lmWrite ord ctx addr buf).2 (m.store addr buf) := by
  obtain ⟨posted, ownerBiased, rep, queues, cache, biased, wrote⟩ := direct.represents.write_wrote blocks access ord
  have idle : ∀ n, posted.queues.of n = [] := fun n => queues ▸ direct.idle n
  have kept : NotOvertaken (posted.queues.of addr.homeNode) { addr := addr, payload := buf } := by
    rw [idle]
    trivial
  obtain ⟨ok, next⟩ := rep.of_wrote access kept wrote
  refine ⟨ok, next, fun k => ?_, fun n => ?_⟩
  · cases held : (lmWrite ord ctx addr buf).2.cache.payload? k with
    | none => rfl
    | some p =>
      rcases wrote.cache k p held with ⟨-, -, copied, -⟩ | ⟨survivor, -⟩
      · exact absurd (biased copied) (not_adaptive_of_wi wi direct.represents addr buf.size .kWrite)
      · exact absurd (cache k p survivor) (by simp [direct.uncached])
  · cases wrote.moved with
    | through _ _ same => rw [same, idle]
    | queued _ _ _ _ _ _ _ noWI _ =>
      rw [hasMode_wi wi direct.represents access] at noWI
      cases noWI
    | flushed _ _ _ _ _ drained =>
      rw [drained, idle]
      split <;> rfl

/-- One call of a WI node, against the same call on the flat memory. -/
theorem RepresentsDirectly.exec (direct : RepresentsDirectly cfg ctx m) (wi : cfg.coherenceModeOverride = 0)
    (blocks : cfg.blockSize ≠ 0) (i : Invocation) (access : i.call.RemoteAccess cfg) :
    ((LeoMem.exec ctx i).1 = (m.exec i).1 ↔ OwnerHolds ctx i) ∧
      RepresentsDirectly cfg (LeoMem.exec ctx i).2 (m.exec i).2 := by
  obtain ⟨ord, call⟩ := i
  cases call with
  | read addr size => exact direct.read wi blocks access ord
  | write addr buf =>
    obtain ⟨ok, next⟩ := direct.write wi blocks access ord
    exact ⟨⟨fun _ => trivial, fun _ => congrArg Response.status ok⟩, next⟩
  | malloc size => exact absurd access id
  | free addr => exact absurd access id
  | fence => exact absurd access id

theorem representsDirectly_stubNode (cfg : Config) : RepresentsDirectly cfg (stubNode cfg) .zero :=
  ⟨represents_stubNode cfg, fun _ => rfl, fun _ => rfl⟩

end

/-- **Reads of distinct homes under WI.** However reads and writes of any remote homes
follow each other, each read returns the bytes last written at its own home exactly when
every redirected read finds those bytes at the recorded owner too. -/
theorem homes_isolated_iff {cfg : Config} (wi : cfg.coherenceModeOverride = 0) (calls : List Invocation)
    (remote : ∀ i ∈ calls, i.call.RemoteAccess cfg)
    (successful : ∀ r ∈ (run exec (stubNode cfg) calls).1, r.Successful) :
    (run exec (stubNode cfg) calls).1 = (run FlatMemory.exec .zero calls).1 ↔
      Along exec OwnerHolds (stubNode cfg) calls := by
  cases calls with
  | nil => simp
  | cons i calls =>
    have blocks := (represents_stubNode cfg).blocks_of_successful (remote i List.mem_cons_self)
      (successful _ List.mem_cons_self)
    exact run_agree_iff (fun ctx m i access direct => direct.exec wi blocks i access) remote
      (representsDirectly_stubNode cfg)

/-- Three nodes with blocks of four bytes, all in WI mode. -/
def wiConfig : Config := { nrNodes := 3, blockSize := 4, localRegionSize := 16, coherenceModeOverride := 0 }

/-- Two homes, written and read at different blocks. -/
def separateBlocks : List Invocation :=
  [⟨.stored, .write ⟨1, 0, 0⟩ (.ofList [7, 8])⟩, ⟨.stored, .write ⟨2, 0, 4⟩ (.ofList [9, 9])⟩,
    ⟨.stored, .read ⟨1, 0, 0⟩ 2⟩, ⟨.stored, .read ⟨2, 0, 4⟩ 2⟩, ⟨.stored, .read ⟨1, 0, 0⟩ 4⟩]

theorem separateBlocks_isolated :
    (∀ i ∈ separateBlocks, i.call.RemoteAccess wiConfig) ∧
      Along exec OwnerHolds (stubNode wiConfig) separateBlocks := by
  refine ⟨by decide +kernel, ?_⟩
  exact (homes_isolated_iff rfl separateBlocks (by decide +kernel) (by decide +kernel)).mp (by decide +kernel)

/-- A home written and read back, then another home read at the same block. -/
def sharedBlock : List Invocation :=
  [⟨.stored, .write ⟨1, 0, 0⟩ (.ofList [7, 8])⟩, ⟨.stored, .read ⟨1, 0, 0⟩ 2⟩, ⟨.stored, .read ⟨2, 0, 0⟩ 2⟩]

/-- The record of the block names node 1 as its validated owner, so the read of node 2, where
nothing was written, returns node 1's bytes. -/
theorem sharedBlock_redirected :
    (∀ i ∈ sharedBlock, i.call.RemoteAccess wiConfig) ∧
      (∀ r ∈ (run exec (stubNode wiConfig) sharedBlock).1, r.Successful) ∧
      (run exec (stubNode wiConfig) sharedBlock).1 =
        [.status .kOk, .bytes (.ofList [7, 8]), .bytes (.ofList [7, 8])] ∧
      (run exec (stubNode wiConfig) sharedBlock).1 ≠ (run FlatMemory.exec .zero sharedBlock).1 := by
  refine ⟨by decide +kernel, by decide +kernel, by decide +kernel, by decide +kernel⟩

end LeoMem
