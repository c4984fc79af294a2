import LeoMem.Api.Queued
import LeoMem.Cluster.Acks
import LeoMem.Cluster.Release

/-!
# Where bytes come from

A byte that a node writes passes through its queue, where it may be merged with others,
through batches, through the memory of its home and through the caches of other nodes.
Reads may be redirected to another node's region. Still no byte turns up that was not
written: in every run, a byte that a read returns at an offset is zero or was written
there by an earlier call.
-/

namespace LeoMem
open Lib RuntimeContext

/-- The bytes that may be found at an offset of a home. -/
abbrev Sources := NodeId → Nat → UInt8 → Prop

/-- A pending write to node `n` of bytes that may be there. -/
structure EntryFrom (K : Sources) (n : NodeId) (e : PendingRemoteWrite) : Prop where
  home : e.addr.homeNode = n
  noWrap : e.NoWrap
  bytes : ∀ x v, e.patch x = some v → K n x v

/-- The memory a node sees and its queues hold only bytes from `K`. -/
structure QueuesFrom (K : Sources) (ctx : RuntimeContext PeerTransport) : Prop where
  memory : ∀ n x, K n x ((ctx.transport.memory n).byte x)
  queues : ∀ n, ∀ e ∈ ctx.queues.of n, EntryFrom K n e

/-- Bytes at an address that may be found at these offsets of some node, as reads can be
redirected from the node they address. -/
def CopyFrom (K : Sources) (addr : GlobalAddr) (size : UInt64) (p : Bytes) : Prop :=
  ∀ x, addr.offset.toNat ≤ x → x < addr.offset.toNat + size.toNat → ∃ m, K m x (p.byte (x - addr.offset.toNat))

def CacheFrom (K : Sources) (c : ReadCache) : Prop := ∀ k p, c.payload? k = some p → CopyFrom K k.addr k.size p

/-- A call whose range does not wrap and which writes only bytes from `K`. -/
def ApiCall.From (K : Sources) : ApiCall → Prop
  | .read addr size => addr.offset.toNat + size.toNat < 2 ^ 64
  | .write addr buf => EntryFrom K addr.homeNode { addr := addr, payload := buf }
  | _ => True

section
variable {K : Sources} {ctx : RuntimeContext PeerTransport}

/-! ## Memory and queues -/

theorem EntryFrom.congr {n : NodeId} {e f : PendingRemoteWrite} (held : EntryFrom K n e) (addr : f.addr = e.addr)
    (payload : f.payload = e.payload) : EntryFrom K n f := by
  obtain ⟨home, noWrap, bytes⟩ := held
  unfold PendingRemoteWrite.NoWrap at noWrap
  unfold PendingRemoteWrite.patch at bytes
  refine ⟨addr ▸ home, ?_, ?_⟩
  · unfold PendingRemoteWrite.NoWrap
    rwa [addr, payload]
  · unfold PendingRemoteWrite.patch
    rwa [addr, payload]

/-- Merged writes have the bytes of both. -/
theorem EntryFrom.absorb {n : NodeId} {e f : PendingRemoteWrite} (old : EntryFrom K n e) (new : EntryFrom K n f)
    (merges : canMergeWrites e f = true) : EntryFrom K n (absorbWrite e f) where
  home := old.home
  noWrap := noWrap_absorbWrite old.noWrap new.noWrap
  bytes x v found := by
    rw [patch_absorbWrite old.noWrap new.noWrap merges, Patch.overlay] at found
    cases laid : f.patch x with
    | some u =>
      rw [laid] at found
      exact new.bytes x v (laid.trans found)
    | none =>
      rw [laid] at found
      exact old.bytes x v found

theorem blit_from {m : NodeId → Bytes} (held : ∀ n x, K n x ((m n).byte x)) {addr : GlobalAddr} {buf : Bytes}
    (bytes : ∀ x v, buf.patch addr.offset.toNat x = some v → K addr.homeNode x v) :
    ∀ n x, K n x ((Function.update m addr.homeNode ((m addr.homeNode).blit addr.offset.toNat buf) n).byte x) := by
  intro n x
  by_cases same : n = addr.homeNode
  · subst same
    rw [Function.update_self]
    by_cases inside : x < (m addr.homeNode).data.length
    · rw [Bytes.byte_blit _ _ _ inside]
      cases found : buf.patch addr.offset.toNat x with
      | none => exact held _ x
      | some v => exact bytes x v found
    · have out := held addr.homeNode x
      rw [Bytes.byte_of_length_le (by simpa using inside)] at out
      rwa [Bytes.byte_of_length_le (by simpa using inside)]
  · rw [Function.update_of_ne same]
    exact held n x

theorem write_from (cfg : Config) {addr : GlobalAddr} {buf : Bytes}
    (bytes : ∀ x v, buf.patch addr.offset.toNat x = some v → K addr.homeNode x v) (t : PeerTransport)
    (held : ∀ n x, K n x ((t.memory n).byte x)) : ∀ n x, K n x (((t.write cfg addr buf).2.memory n).byte x) := by
  rcases PeerTransport.write_memory cfg addr buf t with ⟨same, -⟩ | ⟨-, next⟩
  · rwa [same]
  · rw [next]
    exact blit_from held bytes

theorem batchWrite_from (cfg : Config) {entries : List PendingRemoteWrite} {node : NodeId}
    (queued : ∀ e ∈ entries, EntryFrom K node e) (t : PeerTransport) (held : ∀ n x, K n x ((t.memory n).byte x)) :
    ∀ n x, K n x (((batchWriteWith (PeerTransport.write cfg) (entries.map PendingRemoteWrite.request) t).2.memory n).byte x) := by
  refine batchWriteWith_keeps (I := fun t' : PeerTransport => ∀ n x, K n x ((t'.memory n).byte x))
    (fun req member t' kept => ?_) held
  obtain ⟨e, among, rfl⟩ := List.mem_map.mp member
  have entry := queued e among
  refine write_from cfg (fun x v found => ?_) t' kept
  rw [show (PendingRemoteWrite.request e).addr.homeNode = node from entry.home]
  exact entry.bytes x v found

/-! ## What a call leaves in memory and in the queues -/

theorem queueRule_from (K : Sources) (cfg : Config) :
    QueueRule PeerTransport.memory cfg (EntryFrom K) fun t => ∀ n x, K n x ((t.memory n).byte x) where
  absorb _ _ _ old new merges := old.absorb new merges
  batch _ _ _ t queued held := batchWrite_from cfg queued t held
  congr _ _ same held := same ▸ held

theorem exec_queuesFrom (held : QueuesFrom K ctx) {i : Invocation} (from_K : i.call.From K) :
    QueuesFrom K (exec ctx i).2 := by
  have queued : Queued ctx.config (EntryFrom K) (fun t => ∀ n x, K n x ((t.memory n).byte x)) ctx :=
    ⟨rfl, held.queues, held.memory⟩
  have new addr buf (called : i.call = .write addr buf) :
      EntryFrom K addr.homeNode { addr := addr, payload := buf } := by
    rw [called] at from_K
    exact from_K
  obtain ⟨-, queues, memory⟩ := queued.exec (queueRule_from K _) PeerTransport.controlKeeps_memory
    (PeerTransport.readKeeps_memory _) i
    (fun addr buf called _ _ at_addr payload => (new addr buf called).congr at_addr payload)
    fun addr buf called _ t held => write_from _ (new addr buf called).bytes t held
  exact ⟨memory, queues⟩

/-! ## Answers and copies -/

theorem CopyFrom.slice {memory : NodeId → Bytes} (held : ∀ n x, K n x ((memory n).byte x)) {addr : GlobalAddr}
    {size : UInt64} {node : NodeId} {buf : Bytes} (slice : buf = (memory node).slice addr.offset.toNat size) :
    CopyFrom K addr size buf := by
  intro x lower upper
  rw [byte_slice_of_has slice rfl lower upper]
  exact ⟨node, held node x⟩

/-- A copy within another one. -/
theorem CopyFrom.hit {c : ReadCache} (held : CacheFrom K c) {ord : IterOrder} {addr : GlobalAddr} {size : UInt64}
    {buf : Bytes} (hit : (c.tryReadCached ord addr size).1 = some buf)
    (noWrap : addr.offset.toNat + size.toNat < 2 ^ 64) : CopyFrom K addr size buf := by
  obtain ⟨k, p, cached, -, -, start, stop, rfl⟩ := ReadCache.tryReadCached_hit hit
  rw [UInt64.le_iff_toNat_le] at start stop
  rw [UInt64.toNat_add, UInt64.toNat_add, Nat.mod_eq_of_lt noWrap] at stop
  have reach := Nat.mod_le (k.addr.offset.toNat + k.size.toNat) (2 ^ 64)
  have shift : (addr.offset - k.addr.offset).toNat = addr.offset.toNat - k.addr.offset.toNat :=
    UInt64.toNat_sub_of_le _ _ (UInt64.le_iff_toNat_le.mpr start)
  intro x lower upper
  obtain ⟨m, known⟩ := held k p cached x (by omega) (by omega)
  have place : addr.offset.toNat - k.addr.offset.toNat + (x - addr.offset.toNat) = x - k.addr.offset.toNat := by omega
  refine ⟨m, ?_⟩
  rwa [Bytes.slice, Bytes.byte_tabulate, if_pos (by omega), shift, place]

/-- A read that goes to the transport, wherever it is redirected to. -/
theorem CopyFrom.miss {addr : GlobalAddr} {size : UInt64} {metas : List BlockId} {ord : IterOrder} {buf : Bytes}
    (held : ∀ n x, K n x ((ctx.transport.memory n).byte x))
    (outcome : ReadOutcome PeerTransport.memory ctx addr size metas ord (.ok buf))
    (miss : (ctx.cache.tryReadCached ord addr size).1 = none) : CopyFrom K addr size buf := by
  cases outcome with
  | cached hit => exact absurd (hit.symm.trans miss) (by simp)
  | home _ _ reads => exact .slice held (readsAt_memory reads)
  | owner _ _ reads => exact .slice held (readsAt_memory reads)

theorem CacheFrom.within {c c' : ReadCache} (held : CacheFrom K c) (within : c'.Within c) : CacheFrom K c' :=
  fun k p cached => held k p (within k p cached)

/-- **One read**: its answer and the copies it leaves. -/
theorem lmRead_from (memory : ∀ n x, K n x ((ctx.transport.memory n).byte x)) (cache : CacheFrom K ctx.cache)
    (ord : IterOrder) {addr : GlobalAddr} {size : UInt64} (noWrap : addr.offset.toNat + size.toNat < 2 ^ 64) :
    (∀ buf, (lmRead ord ctx addr size).1 = .ok buf → buf.size = size ∧ CopyFrom K addr size buf) ∧
      CacheFrom K (lmRead ord ctx addr size).2.cache := by
  refine lmRead_rule (J := fun r => (∀ buf, r.1 = .ok buf → buf.size = size ∧ CopyFrom K addr size buf) ∧
      CacheFrom K r.2.cache)
    (controlStep_openAccess PeerTransport.controlKeeps_memory ctx ord addr size) (fun s c _ step => ?_)
    (fun c range _ _ step => ?_) (fun c range opened away step => ?_)
  · exact ⟨by simp, cache.within step.cache⟩
  · have touched := step.trans (controlStep_touchMetadata PeerTransport.memory c addr range .kRead)
    obtain ⟨-, kept, -, reads⟩ := readLocal_spec (touchMetadata c addr range .kRead).2
      (PeerTransport.readKeeps_memory _) addr size
    refine ⟨fun buf answer => ?_, kept ▸ cache.within touched.cache⟩
    rw [answer] at reads
    have slice := readsAt_memory reads
    rw [touched.transport] at slice
    exact ⟨slice ▸ Bytes.size_slice _ _ _, .slice memory slice⟩
  · have touched := step.trans (controlStep_touchMetadata PeerTransport.memory c addr range .kRead)
    have outcome := readRemote_outcome (touchMetadata c addr range .kRead).2 (PeerTransport.readKeeps_memory _)
      ord addr size (range.ids addr.regionId) (touchMetadata c addr range .kRead).1
    have memory : ∀ n x, K n x (((touchMetadata c addr range .kRead).2.transport.memory n).byte x) := by
      rwa [touched.transport]
    have cache := cache.within touched.cache
    cases looked : ((touchMetadata c addr range .kRead).2.cache.tryReadCached ord addr size).1 with
    | some found =>
      rw [readRemote_hit looked] at outcome ⊢
      refine ⟨fun buf answer => ?_, fun k p cached => ?_⟩
      · obtain rfl := Except.ok.inj answer
        exact ⟨readOutcome_size outcome, .hit cache looked noWrap⟩
      · exact cache k p ((ReadCache.payload?_tryReadCached ord _ addr size k).symm.trans cached)
    | none =>
      refine ⟨fun buf answer => ?_, fun k p cached => ?_⟩
      · rw [answer] at outcome
        exact ⟨readOutcome_size outcome, .miss memory outcome looked⟩
      · rcases readRemote_cache _ (PeerTransport.readKeeps_memory _) ord addr size _ _ cached with
          old | ⟨rfl, answer, -, -⟩
        · exact cache k p old
        · rw [answer] at outcome
          have copy : CopyFrom K addr size p := .miss memory outcome looked
          rwa [← readOutcome_size outcome] at copy

/-- **The copies after a call.** -/
theorem exec_cacheFrom (memory : ∀ n x, K n x ((ctx.transport.memory n).byte x)) (cache : CacheFrom K ctx.cache)
    {i : Invocation} (from_K : i.call.From K) : CacheFrom K (exec ctx i).2.cache := by
  refine exec_entries PeerTransport.controlKeeps_memory i (fun addr size called => ?_) (fun addr p called _ => ?_) cache
  · rw [called] at from_K
    exact (lmRead_from memory cache i.ord from_K).2
  · rw [called] at from_K
    intro x lower upper
    rw [Bytes.toNat_size] at upper
    exact ⟨addr.homeNode, from_K.bytes x _ (Bytes.patch_eq_some.mpr ⟨lower, upper, rfl⟩)⟩

end

/-! ## The cluster -/

/-- A cluster that holds only bytes from `K`. -/
structure Cluster.From (K : Sources) (c : Cluster) : Prop where
  memory : ∀ n x, K n x ((c.network.memory n).byte x)
  queues : ∀ n m, ∀ e ∈ (c.nodes n).queues.of m, EntryFrom K m e
  caches : ∀ n, CacheFrom K (c.nodes n).cache

namespace Cluster
variable {K : Sources} {c : Cluster}

theorem from_init (cfg : ClusterConfig) (zero : ∀ n x, K n x 0) : (Cluster.init cfg).From K where
  memory n x := by
    change K n x ((Bytes.zeros (cfg.node n).localRegionSize).byte x)
    rw [Bytes.byte_zeros]
    exact zero n x
  queues _ _ _ member := by cases member
  caches _ _ _ cached := by cases cached

theorem From.call (held : c.From K) (n : NodeId) {i : Invocation} (from_K : i.call.From K) :
    (c.step (.call n i)).2.From K := by
  have queues := @exec_queuesFrom K (c.view n) ⟨held.memory, held.queues n⟩ i from_K
  have cache := @exec_cacheFrom K (c.view n) held.memory (held.caches n) i from_K
  rw [← Cluster.view_call] at queues cache
  refine ⟨queues.memory, fun m => ?_, fun m => ?_⟩
  · by_cases same : m = n
    · subst same
      exact queues.queues
    · rw [Cluster.nodes_call_of_ne c same]
      exact held.queues m
  · by_cases same : m = n
    · subst same
      exact cache
    · rw [Cluster.nodes_call_of_ne c same]
      exact held.caches m

end Cluster

/-- The input writes the byte `v` at offset `x` of `home`. -/
def ClusterInput.Writes (home : NodeId) (x : Nat) (v : UInt8) : ClusterInput → Prop
  | .call _ ⟨_, .write addr buf⟩ => addr.homeNode = home ∧ buf.patch addr.offset.toNat x = some v
  | _ => False

def ClusterInput.InRange : ClusterInput → Prop
  | .call _ i => i.call.InRange
  | .deliver _ => True

instance : DecidablePred ClusterInput.InRange
  | .call _ i => inferInstanceAs (Decidable i.call.InRange)
  | .deliver _ => inferInstanceAs (Decidable True)

/-- Zero and what some of the inputs write. -/
def written (inputs : List ClusterInput) : Sources := fun home x v => v = 0 ∨ ∃ input ∈ inputs, input.Writes home x v

theorem Response.ok_of_bytes {r : Except Status Bytes} {buf : Bytes} (answer : Response.ofRead r = .bytes buf) :
    r = .ok buf := by
  cases r with
  | ok found => exact congrArg Except.ok (Response.bytes.inj answer)
  | error s => cases answer

theorem from_written {inputs : List ClusterInput} {n : NodeId} {i : Invocation} (member : ClusterInput.call n i ∈ inputs)
    (inRange : i.call.InRange) : i.call.From (written inputs) := by
  obtain ⟨ord, call⟩ := i
  cases call with
  | write addr buf => exact ⟨rfl, inRange, fun x v found => Or.inr ⟨_, member, rfl, found⟩⟩
  | read addr size => exact inRange
  | malloc | free | fence => trivial

theorem Cluster.from_after (cfg : ClusterConfig) {inputs : List ClusterInput} (inRange : ∀ input ∈ inputs, input.InRange) :
    (Cluster.after cfg inputs).From (written inputs) := by
  have along : Along Cluster.step (fun _ input => input ∈ inputs) (Cluster.init cfg) inputs :=
    along_of_inputs (fun _ member => member) _
  refine run_invariant (fun c input member held => ?_) along (Cluster.from_init cfg fun _ _ => Or.inl rfl)
  cases input with
  | deliver k =>
    refine ⟨?_, held.queues, held.caches⟩
    change ∀ n x, written inputs n x (((c.network.deliver k).memory n).byte x)
    rw [deliver_memory]
    exact held.memory
  | call n i => exact held.call n (from_written member (inRange _ member))

/-- **No byte from nowhere.** In every run of a cluster, whatever the order of calls and deliveries,
a byte in a node's memory is zero or some call wrote it there, and a byte that a read returns is
zero or some earlier call wrote it at this offset of some node. -/
theorem no_byte_from_nowhere (cfg : ClusterConfig) {inputs : List ClusterInput}
    (inRange : ∀ input ∈ inputs, input.InRange) :
    (∀ home x, (((Cluster.after cfg inputs).network.memory home).byte x = 0 ∨ ∃ input ∈ inputs,
        input.Writes home x (((Cluster.after cfg inputs).network.memory home).byte x))) ∧
      ∀ n ord addr size buf, addr.offset.toNat + size.toNat < 2 ^ 64 →
        ((Cluster.after cfg inputs).step (.call n ⟨ord, .read addr size⟩)).1 = .bytes buf →
        buf.size = size ∧ ∀ k < size.toNat, buf.byte k = 0 ∨ ∃ input ∈ inputs, ∃ home,
          input.Writes home (addr.offset.toNat + k) (buf.byte k) := by
  have held := Cluster.from_after cfg inRange
  refine ⟨held.memory, fun n ord addr size buf noWrap answer => ?_⟩
  have answered : (lmRead ord ((Cluster.after cfg inputs).view n) addr size).1 = .ok buf :=
    Response.ok_of_bytes answer
  obtain ⟨length, copy⟩ :=
    (@lmRead_from _ ((Cluster.after cfg inputs).view n) held.memory (held.caches n) ord addr size noWrap).1 buf answered
  refine ⟨length, fun k inside => ?_⟩
  obtain ⟨home, known⟩ := copy (addr.offset.toNat + k) (by omega) (by omega)
  rw [Nat.add_sub_cancel_left] at known
  exact known.imp_right fun ⟨input, member, writes⟩ => ⟨input, member, home, writes⟩

/-- What node 0 reads back of its own write. -/
theorem sentTwice_from_write :
    ((Cluster.after hastyCluster sentTwice).step (.call 0 ⟨.stored, .read ⟨1, 0, 0⟩ 1⟩)).1 = .bytes (.ofList [7]) ∧
      ((Bytes.ofList [7]).byte 0 = 0 ∨ ∃ input ∈ sentTwice, ∃ home, input.Writes home 0 ((Bytes.ofList [7]).byte 0)) := by
  have answer : ((Cluster.after hastyCluster sentTwice).step (.call 0 ⟨.stored, .read ⟨1, 0, 0⟩ 1⟩)).1 =
      .bytes (.ofList [7]) := by decide +kernel
  have inRange : ∀ input ∈ sentTwice, input.InRange := by decide +kernel
  exact ⟨answer, ((no_byte_from_nowhere hastyCluster inRange).2 0 .stored ⟨1, 0, 0⟩ 1 _ (by decide) answer).2 0 (by decide)⟩

end LeoMem
