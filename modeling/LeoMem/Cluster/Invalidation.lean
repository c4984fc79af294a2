import LeoMem.Cluster.Model

/-!
# Write-invalidate across nodes

A WI write asks only the home to invalidate, and the home looks for copies of the
writer's memory. A node never caches its own memory (`notOwn_after`), so the
home has no copy of the range, and every copy a third node had before the write
outlives the acknowledgement unless that node drops it by itself: the
invalidation is complete when no third node has one
(`wi_invalidation_complete_iff`).
-/

namespace LeoMem
open Lib RuntimeContext

/-! ## A node's own memory is not cached -/

/-- No cached entry is a copy of this node's own memory. -/
def NotOwn (node : NodeId) (c : ReadCache) : Prop := ∀ k p, c.payload? k = some p → k.addr.homeNode ≠ node

theorem NotOwn.within {node : NodeId} {c c' : ReadCache} (notOwn : NotOwn node c) (within : c'.Within c) :
    NotOwn node c' := fun k p held => notOwn k p (within k p held)

section
variable {ω : Type} [Transport ω]

theorem lmRead_notOwn {ctx : RuntimeContext ω} (notOwn : NotOwn ctx.config.nodeId ctx.cache) (ord : IterOrder)
    (addr : GlobalAddr) (size : UInt64) : NotOwn ctx.config.nodeId (lmRead ord ctx addr size).2.cache := by
  have reads : ∀ cfg, ReadKeeps cfg (noObs (ω := ω)) := fun _ _ _ _ _ => rfl
  refine lmRead_rule (J := fun r => NotOwn ctx.config.nodeId r.2.cache)
    (controlStep_openAccess controlKeeps_noObs ctx ord addr size) (fun s c _ step => notOwn.within step.cache)
    (fun c range _ _ step => ?_) (fun c range _ remote step k p held => ?_)
  · obtain ⟨-, cache, -, -⟩ := readLocal_spec (touchMetadata c addr range .kRead).2 (reads _) addr size
    exact cache ▸ notOwn.within step.cache
  · rcases readRemote_cache _ (reads _) ord addr size _ _ held with old | ⟨rfl, -, -, -⟩
    · exact notOwn k p (step.cache k p old)
    · exact step.config ▸ remote

theorem exec_notOwn {ctx : RuntimeContext ω} (notOwn : NotOwn ctx.config.nodeId ctx.cache) (i : Invocation) :
    NotOwn ctx.config.nodeId (exec ctx i).2.cache := by
  refine exec_entries controlKeeps_noObs i (fun addr size _ => ?_) (fun addr buf _ away => away) notOwn
  exact lmRead_notOwn notOwn i.ord addr size

end

theorem notOwn_after (cfg : ClusterConfig) (is : List ClusterInput) (n : NodeId) :
    NotOwn n ((Cluster.after cfg is).nodes n).cache := by
  refine (run_keeps (I := fun c : Cluster => (c.nodes n).config = cfg.node n ∧ NotOwn n (c.nodes n).cache)
    (fun c input held => ⟨(c.step_config input n).trans held.1, ?_⟩) is ⟨rfl, fun k p held => (by cases held)⟩).2
  cases input with
  | deliver k => exact held.2
  | call m i =>
    by_cases same : n = m
    · subst same
      have node : (c.view n).config.nodeId = n := (congrArg Config.nodeId held.1).trans (cfg.own n)
      have start : NotOwn (c.view n).config.nodeId (c.view n).cache := by
        rw [node]
        exact held.2
      have kept := exec_notOwn start i
      rw [node, ← Cluster.view_call] at kept
      exact kept
    · rw [Cluster.nodes_call_of_ne c same]
      exact held.2

/-! ## A WI write and its acknowledgement -/

/-- The modes a write finds its blocks in. -/
def writeModes (ord : IterOrder) (ctx : RuntimeContext PeerTransport) (addr : GlobalAddr) (size : UInt64) :
    List CoherenceMode :=
  let opened := (openAccess ord ctx addr size).2
  (touchMetadata opened addr (resolveBlockRange opened.config addr size) .kWrite).1

/-- A node holds an entry under this key in every state of a run. -/
def ResidentThrough (n : NodeId) (k : CacheKey) (c : Cluster) (is : List ClusterInput) : Prop :=
  ∀ js, js <+: is → ((run Cluster.step c js).2.nodes n).cache.payload? k ≠ none

/-- A run of a cluster in which `writer` writes `buf` at `addr`, with any inputs before and
after. -/
structure WriteRun where
  writer : NodeId
  addr : GlobalAddr
  buf : Bytes
  before : List ClusterInput
  writing : IterOrder
  rest : List ClusterInput

namespace WriteRun

def write (r : WriteRun) : ClusterInput := .call r.writer ⟨r.writing, .write r.addr r.buf⟩

def start (r : WriteRun) (cfg : ClusterConfig) : Cluster := .after cfg r.before
def written (r : WriteRun) (cfg : ClusterConfig) : Cluster := ((r.start cfg).step r.write).2
def finish (r : WriteRun) (cfg : ClusterConfig) : Cluster := (run Cluster.step (r.written cfg) r.rest).2

/-- The id the first request of the write draws. -/
def requestId (r : WriteRun) (cfg : ClusterConfig) : UInt64 := ((r.start cfg).nodes r.writer).nextControlRequestId

/-- The write was remote and in WI mode, it succeeded, and its request was posted and then
acknowledged. -/
structure Acknowledged (r : WriteRun) (cfg : ClusterConfig) : Prop where
  remote : r.addr.homeNode ≠ r.writer
  wi : hasMode (writeModes r.writing ((r.start cfg).view r.writer) r.addr r.buf.size) .kWI = true
  ok : ((r.start cfg).step r.write).1 = .status .kOk
  posted : ((r.written cfg).nodes r.writer).pendingControlAcks.lookup (r.requestId cfg) ≠ none
  completed : ((r.finish cfg).nodes r.writer).pendingControlAcks.lookup (r.requestId cfg) = none

/-- No node but the writer still holds an entry from before the write that overlaps it. -/
def Complete (r : WriteRun) (cfg : ClusterConfig) : Prop :=
  ∀ n, n ≠ r.writer → ∀ k, rangesOverlap k.addr k.size r.addr r.buf.size = true →
    ¬ ResidentThrough n k (r.start cfg) (r.write :: r.rest)

/-- Before the write no node but the writer and the home holds an entry that overlaps it. -/
def NoThirdCopy (r : WriteRun) (cfg : ClusterConfig) : Prop :=
  ∀ n, n ≠ r.writer → n ≠ r.addr.homeNode → ∀ k, rangesOverlap k.addr k.size r.addr r.buf.size = true →
    ((r.start cfg).nodes n).cache.payload? k = none

/-- After the write only the writer and the home make calls. -/
def OthersIdle (r : WriteRun) : Prop :=
  ∀ n i, ClusterInput.call n i ∈ r.rest → n = r.writer ∨ n = r.addr.homeNode

end WriteRun

theorem rangesOverlap_homeNode {a b : GlobalAddr} {m n : UInt64} (overlap : rangesOverlap a m b n = true) :
    a.homeNode = b.homeNode := by
  unfold rangesOverlap at overlap
  split at overlap
  · cases overlap
  · rename_i same
    exact not_not.mp same

/-- **Write-invalidate is complete**, whatever happens after the write, where no third node
had a copy of the range before it; and only there, once the request is acknowledged, if the
third nodes do nothing about their copies themselves. -/
theorem wi_invalidation_complete_iff (cfg : ClusterConfig) (r : WriteRun) :
    (r.NoThirdCopy cfg → r.Complete cfg) ∧
      (r.Acknowledged cfg → r.OthersIdle → r.Complete cfg → r.NoThirdCopy cfg) := by
  constructor
  · intro none n other k overlap resident
    have held := resident [] (List.nil_prefix)
    by_cases home : n = r.addr.homeNode
    · obtain ⟨p, found⟩ := Option.ne_none_iff_exists'.mp held
      exact notOwn_after cfg r.before n k p found ((rangesOverlap_homeNode overlap).trans home.symm)
    · exact held (none n other home k overlap)
  · intro _ idle complete n other away k overlap
    by_contra held
    refine complete n other k overlap fun js before => ?_
    rw [Cluster.nodes_run_of_idle js fun m i member => ?_]
    · exact held
    · rcases List.mem_cons.mp (before.subset member) with here | later
      · cases here
        exact Ne.symm other
      · rcases idle m i later with rfl | rfl
        · exact Ne.symm other
        · exact Ne.symm away

/-- Node 1 is in WI mode; the others are in SI mode and cache everything they read. -/
def mixedCluster : ClusterConfig where
  node n :=
    { nodeId := n, nrNodes := 3, blockSize := 4, localRegionSize := 16,
      coherenceModeOverride := if n = 1 then 0 else 1, cacheAdmissionPolicy := 1 }
  own _ := rfl

/-- Node 1 writes at node 0, node 0 takes the request and node 1 the acknowledgement. -/
def unsharedWrite : WriteRun where
  writer := 1
  addr := ⟨0, 0, 0⟩
  buf := .ofList [7, 8]
  before := []
  writing := .stored
  rest := [.deliver 0, .call 0 ⟨.stored, .fence⟩, .deliver 0, .call 1 ⟨.stored, .fence⟩]

theorem unsharedWrite_acknowledged : unsharedWrite.Acknowledged mixedCluster :=
  ⟨by decide, by decide +kernel, by decide +kernel, by decide +kernel, by decide +kernel⟩

theorem unsharedWrite_complete : unsharedWrite.Acknowledged mixedCluster ∧ unsharedWrite.Complete mixedCluster :=
  ⟨unsharedWrite_acknowledged, (wi_invalidation_complete_iff mixedCluster unsharedWrite).1 fun _ _ _ _ _ => rfl⟩

/-- The same, after node 2 has read the range. -/
def sharedWrite : WriteRun := { unsharedWrite with before := [.call 2 ⟨.stored, .read ⟨0, 0, 0⟩ 2⟩] }

/-- Node 2 is not told, and its copy is there after the acknowledgement as it was before. -/
theorem sharedWrite_incomplete : sharedWrite.Acknowledged mixedCluster ∧ ¬ sharedWrite.Complete mixedCluster := by
  refine ⟨⟨by decide, by decide +kernel, by decide +kernel, by decide +kernel, by decide +kernel⟩, fun complete => ?_⟩
  refine complete 2 (by decide) ⟨⟨0, 0, 0⟩, 2⟩ (by decide) fun js before => ?_
  rw [Cluster.nodes_run_of_idle js fun m i member => ?_]
  · decide +kernel
  · have listed := before.subset member
    simp only [sharedWrite, unsharedWrite, WriteRun.write, List.mem_cons, ClusterInput.call.injEq, reduceCtorEq,
      List.not_mem_nil, or_false, false_or] at listed
    rcases listed with ⟨rfl, -⟩ | ⟨rfl, -⟩ | ⟨rfl, -⟩ <;> decide

end LeoMem
