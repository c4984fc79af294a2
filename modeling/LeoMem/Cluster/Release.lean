import LeoMem.Cluster.Memory

/-!
# Release visibility

A writer's fence brings its bytes into the home's memory. Whether a reader then
sees them depends on two things its own fence does nothing about: copies it cached
before, and owners its records redirect reads to. Where neither holds older
bytes, every later read of the range returns the bytes written
(`release_visible`).
-/

namespace LeoMem
open Lib RuntimeContext

/-! ## Reading -/

/-- The home's memory has the bytes of `w`. -/
def MemoryHas (home : NodeId) (w : Patch Nat UInt8) (memory : NodeId → Bytes) : Prop :=
  ∀ x b, w x = some b → (memory home).byte x = b

/-- Copies of `home`'s bytes hold those of `w`, wherever they reach into it. -/
def CacheFresh (home : NodeId) (w : Patch Nat UInt8) (c : ReadCache) : Prop :=
  ∀ k p, c.payload? k = some p → k.addr.homeNode = home →
    ∀ x b, w x = some b → k.addr.offset.toNat ≤ x → x < k.addr.offset.toNat + k.size.toNat →
      p.byte (x - k.addr.offset.toNat) = b

/-- A node that the record of a block names as its owner, or will once the messages of one
drain are handled. -/
def MayOwn (ctx : RuntimeContext PeerTransport) (b : BlockId) (owner : NodeId) : Prop :=
  (ctx.blockTable.get b).ownerNode = owner ∨
    ∃ msg ∈ (ctx.transport.mailbox ctx.config.nodeId).take 64,
      msg.opcode = .kOwnerTransfer ∧ b ∈ msg.blocks ∧ msg.sourceNode = owner

/-- Any node a read could be redirected to holds the bytes of `w` in the range of the read. -/
def OwnersFresh (w : Patch Nat UInt8) (ctx : RuntimeContext PeerTransport) (addr : GlobalAddr) (size : UInt64) : Prop :=
  ∀ owner, accessIds ctx.config addr size ≠ [] → (∀ b ∈ accessIds ctx.config addr size, MayOwn ctx b owner) →
    owner = kInvalidNodeId ∨ owner = ctx.config.nodeId ∨ owner = addr.homeNode ∨
      ∀ x v, w x = some v → addr.offset.toNat ≤ x → x < addr.offset.toNat + size.toNat →
        (ctx.transport.memory owner).byte x = v

section
variable {home : NodeId} {w : Patch Nat UInt8} {ctx : RuntimeContext PeerTransport} {addr : GlobalAddr} {size : UInt64}

theorem CacheFresh.within {c c' : ReadCache} (fresh : CacheFresh home w c) (within : c'.Within c) :
    CacheFresh home w c' :=
  fun k p held => fresh k p (within k p held)

/-- The owner of a block after the messages of one drain is one it may have had before. -/
theorem mayOwn_of_opened (ord : IterOrder) (ctx : RuntimeContext PeerTransport) (addr : GlobalAddr) (size : UInt64)
    (b : BlockId) : MayOwn ctx b ((openAccess ord ctx addr size).2.blockTable.get b).ownerNode := by
  let rel : BlockMeta → BlockMeta → Prop := fun m m' => m.ownerNode = m'.ownerNode ∨
    ∃ msg ∈ (ctx.transport.mailbox ctx.config.nodeId).take 64,
      msg.opcode = .kOwnerTransfer ∧ b ∈ msg.blocks ∧ msg.sourceNode = m'.ownerNode
  have rule : StandingRel rel := by
    refine ⟨fun same => Or.inl same.ownerNode.symm, fun {a c d} first second => ?_⟩
    rcases second with same | moved
    · rcases first with same' | ⟨msg, member, opcode, covers, source⟩
      · exact Or.inl (same'.trans same)
      · exact Or.inr ⟨msg, member, opcode, covers, source.trans same⟩
    · exact Or.inr moved
  refine openAccess_rel (b := b) rule ord ctx addr size fun msg drained => ⟨fun _ _ _ => Or.inl rfl, ?_, ?_⟩
  · exact fun opcode covers _ => Or.inr ⟨msg, PeerTransport.mem_drained drained, opcode, covers, rfl⟩
  · exact fun opcode covers _ => Or.inr ⟨msg, PeerTransport.mem_drained drained, opcode, covers, rfl⟩

variable {buf : Bytes} {ord : IterOrder}

/-- A read that goes to the transport returns the bytes of the node it goes to. -/
theorem readsAt_memory {node : NodeId} (reads : ReadsAt PeerTransport.memory ctx addr size node (.ok buf)) :
    buf = (ctx.transport.memory node).slice addr.offset.toNat size := by
  obtain ⟨t, same, answer⟩ := reads
  have slice := PeerTransport.read_ok answer
  rwa [same] at slice

theorem readOutcome_size {metas : List BlockId}
    (outcome : ReadOutcome PeerTransport.memory ctx addr size metas ord (.ok buf)) : buf.size = size := by
  cases outcome with
  | cached hit =>
    obtain ⟨k, p, -, -, -, -, -, rfl⟩ := ReadCache.tryReadCached_hit hit
    exact Bytes.size_slice _ _ _
  | home _ _ reads => exact readsAt_memory reads ▸ Bytes.size_slice _ _ _
  | owner _ _ reads => exact readsAt_memory reads ▸ Bytes.size_slice _ _ _

theorem byte_slice_of_has {m buf : Bytes} (slice : buf = m.slice addr.offset.toNat size) {x : Nat} {v : UInt8}
    (holds : m.byte x = v) (lower : addr.offset.toNat ≤ x) (upper : x < addr.offset.toNat + size.toNat) :
    buf.byte (x - addr.offset.toNat) = v := by
  rw [slice, Bytes.slice, Bytes.byte_tabulate, if_pos (by omega), Nat.add_sub_cancel' lower]
  exact holds

/-- **A read that misses the cache** answers with the bytes of `w`. -/
theorem miss_answers (has : MemoryHas addr.homeNode w ctx.transport.memory) (owners : OwnersFresh w ctx addr size)
    {range : BlockRange} {opened : RuntimeContext PeerTransport}
    (result : openAccess ord ctx addr size = (.ok range, opened)) (remote : addr.homeNode ≠ ctx.config.nodeId)
    (outcome : ReadOutcome PeerTransport.memory (touchMetadata opened addr range .kRead).2 addr size
      (range.ids addr.regionId) ord (.ok buf))
    (miss : ((touchMetadata opened addr range .kRead).2.cache.tryReadCached ord addr size).1 = none) {x : Nat} {v : UInt8}
    (at_w : w x = some v) (lower : addr.offset.toNat ≤ x) (upper : x < addr.offset.toNat + size.toNat) :
    buf.byte (x - addr.offset.toNat) = v := by
  have step := controlStep_openAccess PeerTransport.controlKeeps_memory ctx ord addr size
  rw [result] at step
  have memory : (touchMetadata opened addr range .kRead).2.transport.memory = ctx.transport.memory := step.transport
  have away : addr.homeNode ≠ opened.config.nodeId := by rwa [step.config]
  cases outcome with
  | cached hit => exact absurd (hit.symm.trans miss) (by simp)
  | home _ _ reads =>
    have slice := readsAt_memory reads
    rw [memory] at slice
    exact byte_slice_of_has slice (has x v at_w) lower upper
  | @owner owner _ _ redirects reads =>
    have slice := readsAt_memory reads
    rw [memory] at slice
    have recorded := (redirects_touchMetadata opened away owner).mp redirects
    have ids : range.ids addr.regionId = accessIds ctx.config addr size := by
      rw [openAccess_range result, step.config]
      rfl
    have candidate : ∀ b ∈ accessIds ctx.config addr size, MayOwn ctx b owner := by
      intro b member
      have may := mayOwn_of_opened ord ctx addr size b
      rw [result] at may
      rwa [recorded.recorded b (ids ▸ member)] at may
    rcases owners owner (ids ▸ recorded.blocks) candidate with invalid | own | back | holds
    · exact absurd invalid recorded.valid
    · exact absurd (own.trans (congrArg Config.nodeId step.config).symm) recorded.other
    · exact absurd back recorded.away
    · exact byte_slice_of_has slice (holds x v at_w lower upper) lower upper

/-- **A read served from fresh copies** answers with the bytes of `w`. -/
theorem hit_answers {c : ReadCache} (fresh : CacheFresh addr.homeNode w c)
    (hit : (c.tryReadCached ord addr size).1 = some buf) (noWrap : addr.offset.toNat + size.toNat < 2 ^ 64) {x : Nat}
    {v : UInt8} (at_w : w x = some v) (lower : addr.offset.toNat ≤ x) (upper : x < addr.offset.toNat + size.toNat) :
    buf.byte (x - addr.offset.toNat) = v := by
  obtain ⟨k, p, held, at_home, -, start, stop, rfl⟩ := ReadCache.tryReadCached_hit hit
  rw [UInt64.le_iff_toNat_le] at start stop
  rw [UInt64.toNat_add, UInt64.toNat_add, Nat.mod_eq_of_lt noWrap] at stop
  have reach := Nat.mod_le (k.addr.offset.toNat + k.size.toNat) (2 ^ 64)
  have shift : (addr.offset - k.addr.offset).toNat = addr.offset.toNat - k.addr.offset.toNat :=
    UInt64.toNat_sub_of_le _ _ (UInt64.le_iff_toNat_le.mpr start)
  have value := fresh k p held at_home x v at_w (by omega) (by omega)
  rw [Bytes.slice, Bytes.byte_tabulate, if_pos (by omega), shift, ← value]
  congr 1
  omega

/-- **A read of the range** that succeeds returns the bytes of `w`. -/
theorem lmRead_answers (has : MemoryHas addr.homeNode w ctx.transport.memory) (fresh : CacheFresh addr.homeNode w ctx.cache)
    (owners : addr.homeNode ≠ ctx.config.nodeId → OwnersFresh w ctx addr size)
    (noWrap : addr.offset.toNat + size.toNat < 2 ^ 64) (answer : (lmRead ord ctx addr size).1 = .ok buf) :
    buf.size = size ∧ ∀ x v, w x = some v → addr.offset.toNat ≤ x → x < addr.offset.toNat + size.toNat →
      buf.byte (x - addr.offset.toNat) = v := by
  revert answer
  refine lmRead_rule (J := fun r => r.1 = .ok buf → buf.size = size ∧ ∀ x v, w x = some v → addr.offset.toNat ≤ x →
      x < addr.offset.toNat + size.toNat → buf.byte (x - addr.offset.toNat) = v)
    (controlStep_openAccess PeerTransport.controlKeeps_memory ctx ord addr size) (fun s c _ _ answer => ?_)
    (fun c range _ _ step answer => ?_) (fun c range opened away step answer => ?_)
  · cases answer
  · have touched := step.trans (controlStep_touchMetadata PeerTransport.memory c addr range .kRead)
    obtain ⟨-, -, -, reads⟩ := readLocal_spec (touchMetadata c addr range .kRead).2
      (PeerTransport.readKeeps_memory _) addr size
    rw [answer] at reads
    have slice := readsAt_memory reads
    rw [touched.transport] at slice
    exact ⟨slice ▸ Bytes.size_slice _ _ _, fun x v at_w => byte_slice_of_has slice (has x v at_w)⟩
  · have touched := step.trans (controlStep_touchMetadata PeerTransport.memory c addr range .kRead)
    have remote : addr.homeNode ≠ ctx.config.nodeId := step.config ▸ away
    have outcome := readRemote_outcome (touchMetadata c addr range .kRead).2 (PeerTransport.readKeeps_memory _)
      ord addr size (range.ids addr.regionId) (touchMetadata c addr range .kRead).1
    rw [answer] at outcome
    cases looked : ((touchMetadata c addr range .kRead).2.cache.tryReadCached ord addr size).1 with
    | none =>
      exact ⟨readOutcome_size outcome, fun x v => miss_answers has (owners remote) opened remote outcome looked⟩
    | some found =>
      rw [readRemote_hit looked] at answer
      obtain rfl := Except.ok.inj answer
      exact ⟨readOutcome_size outcome, fun x v => hit_answers (fresh.within touched.cache) looked noWrap⟩

/-- Reads leave only fresh copies behind. -/
theorem lmRead_fresh (has : MemoryHas home w ctx.transport.memory) (fresh : CacheFresh home w ctx.cache)
    (owners : addr.homeNode = home → addr.homeNode ≠ ctx.config.nodeId → OwnersFresh w ctx addr size) (ord : IterOrder) :
    CacheFresh home w (lmRead ord ctx addr size).2.cache := by
  refine lmRead_rule (J := fun r => CacheFresh home w r.2.cache)
    (controlStep_openAccess PeerTransport.controlKeeps_memory ctx ord addr size) (fun s c _ step => fresh.within step.cache)
    (fun c range _ _ step => ?_) (fun c range opened away step k p held at_home => ?_)
  · obtain ⟨-, cache, -, -⟩ := readLocal_spec (touchMetadata c addr range .kRead).2
      (PeerTransport.readKeeps_memory _) addr size
    exact cache ▸ fresh.within step.cache
  · have remote : addr.homeNode ≠ ctx.config.nodeId := step.config ▸ away
    have outcome := readRemote_outcome (touchMetadata c addr range .kRead).2 (PeerTransport.readKeeps_memory _)
      ord addr size (range.ids addr.regionId) (touchMetadata c addr range .kRead).1
    cases looked : ((touchMetadata c addr range .kRead).2.cache.tryReadCached ord addr size).1 with
    | some found =>
      rw [readRemote_hit looked] at held
      have old := (ReadCache.payload?_tryReadCached ord _ addr size k).symm.trans held
      exact fresh.within step.cache k p old at_home
    | none =>
      rcases readRemote_cache _ (PeerTransport.readKeeps_memory _) ord addr size _ _ held with
        old | ⟨rfl, answer, -, -⟩
      · exact fresh.within step.cache k p old at_home
      · subst at_home
        rw [answer] at outcome
        intro x v at_w lower upper
        change x < addr.offset.toNat + p.size.toNat at upper
        rw [readOutcome_size outcome] at upper
        exact miss_answers has (owners rfl remote) opened remote outcome looked at_w lower upper

/-- A call of the reader that can only be redirected to nodes with the bytes of `w`. -/
def ReadsFresh (home : NodeId) (w : Patch Nat UInt8) (ctx : RuntimeContext PeerTransport) (i : Invocation) : Prop :=
  match i.call with
  | .read addr size => addr.homeNode = home → addr.homeNode ≠ ctx.config.nodeId → OwnersFresh w ctx addr size
  | _ => True

/-- **No call of the reader makes a stale copy.** -/
theorem exec_fresh (has : MemoryHas home w ctx.transport.memory) (fresh : CacheFresh home w ctx.cache) {i : Invocation}
    (agrees : i.call.Agrees home w) (owners : ReadsFresh home w ctx i) : CacheFresh home w (exec ctx i).2.cache := by
  refine exec_entries PeerTransport.controlKeeps_memory i (fun addr size called => ?_) (fun addr p called _ => ?_) fresh
  · rw [ReadsFresh, called] at owners
    exact lmRead_fresh has fresh owners i.ord
  · rw [called] at agrees
    intro at_home x v at_w lower upper
    have length : x < addr.offset.toNat + p.data.length := by
      rw [← Bytes.toNat_size]
      exact upper
    have at_p : p.patch addr.offset.toNat x = some (p.byte (x - addr.offset.toNat)) :=
      Bytes.patch_eq_some.mpr ⟨lower, length, rfl⟩
    exact (agrees at_home).agrees x v _ at_w at_p

end

/-! ## The cluster while `w` is written -/

/-- An input that writes nothing to `home` that wraps or disagrees with `w`, and nothing from
the writer out of the bounds of `home`, whose options are `target`. -/
def ClusterInput.Agrees (target : Config) (home writer : NodeId) (w : Patch Nat UInt8) : ClusterInput → Prop
  | .call n i => i.call.Agrees home w ∧ (n = writer → i.call.Inside target home)
  | .deliver _ => True

/-- A cluster whose pending writes agree with `w`, and whose writer can flush its own. -/
structure Agreeing (cfg : ClusterConfig) (home writer : NodeId) (w : Patch Nat UInt8) (c : Cluster) : Prop where
  queues : ∀ n, NodeSound home w (c.nodes n).queues
  ready : Ready (cfg.node home) home (c.view writer)

/-- What a step of such a cluster leaves. -/
structure AgreeingStep (cfg : ClusterConfig) (home writer : NodeId) (w : Patch Nat UInt8) (c c' : Cluster) : Prop where
  agreeing : Agreeing cfg home writer w c'
  memory : MemoryKeeps home w c.network.memory c'.network.memory
  covered : ∀ x v, w x = some v → Covered home (c.view writer) x v → Covered home (c'.view writer) x v

theorem deliver_memory (t : PeerTransport) (k : Nat) : (t.deliver k).memory = t.memory := by
  unfold PeerTransport.deliver
  split <;> rfl

section
variable {cfg : ClusterConfig} {home writer : NodeId} {w : Patch Nat UInt8} {c : Cluster}

theorem agreeing_init (reaches : PeerTransport.Reaches (cfg.node writer) home) :
    Agreeing cfg home writer w (.init cfg) :=
  ⟨fun _ _ _ member => (by cases member), Bytes.size_zeros _, reaches, fun _ member => (by cases member)⟩

theorem Agreeing.step (agreeing : Agreeing cfg home writer w c) (input : ClusterInput)
    (agrees : input.Agrees (cfg.node home) home writer w) : AgreeingStep cfg home writer w c (c.step input).2 := by
  cases input with
  | deliver k =>
    have memory : ((c.step (.deliver k)).2.network).memory = c.network.memory := deliver_memory c.network k
    refine ⟨⟨agreeing.queues, ⟨?_, agreeing.ready.reaches, agreeing.ready.fits⟩⟩, ?_, fun x v at_w held => ?_⟩
    · exact (congrArg (fun m : NodeId → Bytes => (m home).size) memory).trans agreeing.ready.region
    · rw [memory]
      exact .refl _
    · exact held.imp_left fun byte => (congrArg (fun m : NodeId → Bytes => (m home).byte x) memory).trans byte
  | call n i =>
    obtain ⟨agrees, inside⟩ := agrees
    have sound : Undisturbed home w (c.view n) (exec (c.view n) i).2 := exec_sound (agreeing.queues n) agrees
    have queues : ∀ m, NodeSound home w ((c.step (.call n i)).2.nodes m).queues := by
      intro m
      by_cases same : m = n
      · subst same
        have here := sound.queues
        rw [← Cluster.view_call] at here
        exact here
      · rw [Cluster.nodes_call_of_ne c same]
        exact agreeing.queues m
    by_cases own : n = writer
    · subst own
      have carries := exec_carries (agreeing.queues n) agreeing.ready agrees (inside rfl)
      rw [← Cluster.view_call] at carries
      exact ⟨⟨queues, carries.ready⟩, carries.undisturbed.memory, carries.covered⟩
    · have node := Cluster.nodes_call_of_ne c (Ne.symm own) i
      have memory : MemoryKeeps home w c.network.memory (c.step (.call n i)).2.network.memory := sound.memory
      have queue : ((c.step (.call n i)).2.view writer).queues = (c.view writer).queues :=
        congrArg (fun ctx : RuntimeContext Unit => ctx.queues) node
      have config : ((c.step (.call n i)).2.view writer).config = (c.view writer).config :=
        congrArg (fun ctx : RuntimeContext Unit => ctx.config) node
      refine ⟨⟨queues, ⟨(memory.sizes home).trans agreeing.ready.region, config ▸ agreeing.ready.reaches,
        queue ▸ agreeing.ready.fits⟩⟩, memory, fun x v at_w held => ?_⟩
      unfold Covered at held ⊢
      rw [queue]
      exact held.imp_left (memory.bytes x v at_w)

/-- Inputs that agree with `w` keep what is pending or in memory of it. -/
theorem Agreeing.run (agreeing : Agreeing cfg home writer w c) {inputs : List ClusterInput}
    (agrees : ∀ input ∈ inputs, input.Agrees (cfg.node home) home writer w) :
    AgreeingStep cfg home writer w c (run Cluster.step c inputs).2 := by
  refine run_invariant (I := AgreeingStep cfg home writer w c) (fun d input fits held => ?_)
    (along_of_inputs agrees c) ⟨agreeing, .refl _, fun _ _ _ held => held⟩
  have next := held.agreeing.step input fits
  exact ⟨next.agreeing, held.memory.trans next.memory, fun x v at_w covered =>
    next.covered x v at_w (held.covered x v at_w covered)⟩

end

/-! ## A write, its release, an acquire and a read -/

/-- A run of a cluster in which `writer` writes `buf` at `addr` and fences, then `reader`
fences and reads the range, with any other inputs in between. -/
structure ReleaseRun where
  writer : NodeId
  reader : NodeId
  addr : GlobalAddr
  buf : Bytes
  before : List ClusterInput
  writing : IterOrder
  toRelease : List ClusterInput
  releasing : IterOrder
  toAcquire : List ClusterInput
  acquiring : IterOrder
  toRead : List ClusterInput
  reading : IterOrder

namespace ReleaseRun

def write (r : ReleaseRun) : ClusterInput := .call r.writer ⟨r.writing, .write r.addr r.buf⟩
def release (r : ReleaseRun) : ClusterInput := .call r.writer ⟨r.releasing, .fence⟩
def acquire (r : ReleaseRun) : ClusterInput := .call r.reader ⟨r.acquiring, .fence⟩
def read (r : ReleaseRun) : ClusterInput := .call r.reader ⟨r.reading, .read r.addr r.buf.size⟩

def beforeWrite (r : ReleaseRun) (cfg : ClusterConfig) : Cluster := .after cfg r.before

def beforeRelease (r : ReleaseRun) (cfg : ClusterConfig) : Cluster :=
  (run Cluster.step ((r.beforeWrite cfg).step r.write).2 r.toRelease).2

def beforeAcquire (r : ReleaseRun) (cfg : ClusterConfig) : Cluster :=
  (run Cluster.step ((r.beforeRelease cfg).step r.release).2 r.toAcquire).2

def acquired (r : ReleaseRun) (cfg : ClusterConfig) : Cluster := ((r.beforeAcquire cfg).step r.acquire).2

def beforeRead (r : ReleaseRun) (cfg : ClusterConfig) : Cluster := (run Cluster.step (r.acquired cfg) r.toRead).2

/-- The inputs besides the four. -/
def others (r : ReleaseRun) : List ClusterInput := r.before ++ r.toRelease ++ r.toAcquire ++ r.toRead

/-- The bytes written, at their place in the home's memory. -/
def bytes (r : ReleaseRun) : Patch Nat UInt8 := r.buf.patch r.addr.offset.toNat

end ReleaseRun

/-- A write that reaches into `[addr.offset, addr.offset + size)` of the same home. -/
def ClusterInput.Touches (addr : GlobalAddr) (buf : Bytes) : ClusterInput → Prop
  | .call _ ⟨_, .write addr' buf'⟩ => addr'.homeNode = addr.homeNode ∧
      addr'.offset.toNat < addr.offset.toNat + buf.data.length ∧ addr.offset.toNat < addr'.offset.toNat + buf'.data.length
  | _ => False

/-- What the visibility of a release is claimed for: the write, the two fences succeed, and no
other write touches the range. -/
structure ReleaseRun.Happens (r : ReleaseRun) (cfg : ClusterConfig) : Prop where
  written : ((r.beforeWrite cfg).step r.write).1 = .status .kOk
  released : ((r.beforeRelease cfg).step r.release).1 = .status .kOk
  acquired : ((r.beforeAcquire cfg).step r.acquire).1 = .status .kOk
  alone : ∀ input ∈ r.others, ¬ input.Touches r.addr r.buf

/-- A write to `home` that does not wrap and, from the writer, is in bounds. -/
def ClusterInput.Fits (target : Config) (home writer : NodeId) : ClusterInput → Prop
  | .call n ⟨_, .write addr buf⟩ => addr.homeNode = home →
      addr.offset.toNat + buf.data.length < 2 ^ 64 ∧ (n = writer → InBounds target addr buf.size)
  | _ => True

/-- The reader's read is redirected to nodes with the bytes of `w` only. -/
def ReaderFresh (home reader : NodeId) (w : Patch Nat UInt8) (c : Cluster) : ClusterInput → Prop
  | .call n i => n = reader → ReadsFresh home w (c.view reader) i
  | .deliver _ => True

/-- **When a release is visible**: the writer reaches the home and writes to it in bounds, no
write to it wraps, the reader comes to its fence without a stale copy of the range, and no
read of it after that can be redirected to a node with other bytes. -/
structure ReleaseRun.Visible (r : ReleaseRun) (cfg : ClusterConfig) : Prop where
  reaches : PeerTransport.Reaches (cfg.node r.writer) r.addr.homeNode
  inside : InBounds (cfg.node r.addr.homeNode) r.addr r.buf.size
  fits : ∀ input ∈ r.others, input.Fits (cfg.node r.addr.homeNode) r.addr.homeNode r.writer
  copies : CacheFresh r.addr.homeNode r.bytes ((r.beforeAcquire cfg).nodes r.reader).cache
  owners : Along Cluster.step (ReaderFresh r.addr.homeNode r.reader r.bytes) (r.acquired cfg) (r.toRead ++ [r.read])

theorem MemoryHas.keeps {home : NodeId} {w : Patch Nat UInt8} {m m' : NodeId → Bytes} (has : MemoryHas home w m)
    (keeps : MemoryKeeps home w m m') : MemoryHas home w m' := fun x b at_w => keeps.bytes x b at_w (has x b at_w)

section
variable {cfg : ClusterConfig} {home writer reader : NodeId} {w : Patch Nat UInt8} {c : Cluster}

/-- The bytes of `w` are in the home's memory, and the reader has no stale copy of them. -/
structure Fresh (cfg : ClusterConfig) (home writer reader : NodeId) (w : Patch Nat UInt8) (c : Cluster) : Prop where
  agreeing : Agreeing cfg home writer w c
  memory : MemoryHas home w c.network.memory
  copies : CacheFresh home w (c.nodes reader).cache

theorem Fresh.step (fresh : Fresh cfg home writer reader w c) (input : ClusterInput)
    (agrees : input.Agrees (cfg.node home) home writer w) (owners : ReaderFresh home reader w c input) :
    Fresh cfg home writer reader w (c.step input).2 := by
  have next := fresh.agreeing.step input agrees
  refine ⟨next.agreeing, fresh.memory.keeps next.memory, ?_⟩
  cases input with
  | deliver k => exact fresh.copies
  | call n i =>
    by_cases own : n = reader
    · subst own
      have copies := exec_fresh fresh.memory fresh.copies agrees.1 (owners rfl)
      rw [← Cluster.view_call] at copies
      exact copies
    · rw [Cluster.nodes_call_of_ne c (Ne.symm own)]
      exact fresh.copies

theorem Fresh.run (fresh : Fresh cfg home writer reader w c) {inputs : List ClusterInput}
    (agrees : ∀ input ∈ inputs, input.Agrees (cfg.node home) home writer w)
    (owners : Along Cluster.step (ReaderFresh home reader w) c inputs) :
    Fresh cfg home writer reader w (run Cluster.step c inputs).2 :=
  run_invariant (fun _ input guard held => held.step input guard.2 guard.1) (owners.and (along_of_inputs agrees c)) fresh

end

namespace ReleaseRun
variable {r : ReleaseRun} {cfg : ClusterConfig}

theorem noWrap (visible : r.Visible cfg) : r.addr.offset.toNat + r.buf.data.length < 2 ^ 64 := by
  have bound := (cfg.node r.addr.homeNode).localRegionSize.toNat_lt
  have inside := visible.inside
  unfold InBounds at inside
  rw [Bytes.toNat_size] at inside
  omega

/-- Writes that do not touch the range agree with its bytes. -/
theorem agrees_others (happens : r.Happens cfg) (visible : r.Visible cfg) :
    ∀ input ∈ r.others, input.Agrees (cfg.node r.addr.homeNode) r.addr.homeNode r.writer r.bytes := by
  intro input member
  have alone := happens.alone input member
  have fits := visible.fits input member
  cases input with
  | deliver k => trivial
  | call n i =>
    obtain ⟨ord, call⟩ := i
    cases call with
    | write addr buf =>
      refine ⟨fun here => ⟨(fits here).1, Patch.agrees_of_none fun x b at_w => ?_⟩, fun own here => (fits here).2 own⟩
      obtain ⟨lower, upper, -⟩ := Bytes.patch_eq_some.mp at_w
      refine Bytes.patch_eq_none.mpr fun reached => alone ⟨here, ?_, ?_⟩
      · exact Nat.lt_of_le_of_lt reached.1 upper
      · exact Nat.lt_of_le_of_lt lower reached.2
    | _ => exact ⟨trivial, fun _ => trivial⟩

theorem agrees_write (visible : r.Visible cfg) :
    r.write.Agrees (cfg.node r.addr.homeNode) r.addr.homeNode r.writer r.bytes :=
  ⟨fun _ => ⟨noWrap visible, Patch.agrees_self _⟩, fun _ _ => visible.inside⟩

theorem agreeing_beforeWrite (happens : r.Happens cfg) (visible : r.Visible cfg) :
    Agreeing cfg r.addr.homeNode r.writer r.bytes (r.beforeWrite cfg) := by
  refine ((agreeing_init visible.reaches).run fun input member => agrees_others happens visible input ?_).agreeing
  simp [others, member]

/-- Once written, the bytes are pending at the writer or in the home's memory. -/
theorem covered_beforeRelease (happens : r.Happens cfg) (visible : r.Visible cfg) :
    Agreeing cfg r.addr.homeNode r.writer r.bytes (r.beforeRelease cfg) ∧
      ∀ x v, r.bytes x = some v → Covered r.addr.homeNode ((r.beforeRelease cfg).view r.writer) x v := by
  have start := agreeing_beforeWrite happens visible
  have stepped := start.step r.write (agrees_write visible)
  have written := (lmWrite_writes (start.queues r.writer) start.ready r.writing (agrees_write visible).1
    ((agrees_write visible).2 rfl)).written (by simpa [write, Cluster.step, exec] using happens.written) rfl
  have next : AgreeingStep cfg _ _ _ _ (r.beforeRelease cfg) := stepped.agreeing.run fun input member =>
    agrees_others happens visible input (by simp [others, member])
  refine ⟨next.agreeing, fun x v at_w => next.covered x v at_w ?_⟩
  have here := written x v at_w at_w
  rw [write, Cluster.view_call]
  exact here

/-- Once released, they are in the home's memory. -/
theorem memory_beforeAcquire (happens : r.Happens cfg) (visible : r.Visible cfg) :
    Agreeing cfg r.addr.homeNode r.writer r.bytes (r.beforeAcquire cfg) ∧
      MemoryHas r.addr.homeNode r.bytes (r.beforeAcquire cfg).network.memory := by
  obtain ⟨agreeing, covered⟩ := covered_beforeRelease happens visible
  have stepped := agreeing.step r.release ⟨trivial, fun _ => trivial⟩
  have empty := lmFence_ok PeerTransport.controlKeeps_memory
    (by simpa [release, Cluster.step, exec] using happens.released) r.addr.homeNode
  have next : AgreeingStep cfg _ _ _ _ (r.beforeAcquire cfg) := stepped.agreeing.run fun input member =>
    agrees_others happens visible input (by simp [others, member])
  refine ⟨next.agreeing, MemoryHas.keeps (fun x v at_w => ?_) next.memory⟩
  rcases stepped.covered x v at_w (covered x v at_w) with memory | ⟨e, member, -⟩
  · exact memory
  · rw [release, Cluster.view_call] at member
    have member' : e ∈ (lmFence r.releasing ((r.beforeRelease cfg).view r.writer)).2.queues.of r.addr.homeNode := member
    rw [empty] at member'
    cases member'

/-- Once acquired without stale copies, they are all the reader can see of the range. -/
theorem fresh_beforeRead (happens : r.Happens cfg) (visible : r.Visible cfg) :
    Fresh cfg r.addr.homeNode r.writer r.reader r.bytes (r.beforeRead cfg) := by
  obtain ⟨agreeing, memory⟩ := memory_beforeAcquire happens visible
  have start : Fresh cfg r.addr.homeNode r.writer r.reader r.bytes (r.beforeAcquire cfg) :=
    ⟨agreeing, memory, visible.copies⟩
  have acquired := start.step r.acquire ⟨trivial, fun _ => trivial⟩ fun _ => trivial
  have owners := (along_append _ _ _).mp visible.owners
  exact acquired.run (fun input member => agrees_others happens visible input (by simp [others, member])) owners.1

end ReleaseRun

/-- **Release visibility.** For any number of nodes and any interleaving: after the writer's
fence and the reader's, every read of the range that succeeds returns the bytes written. -/
theorem release_visible (cfg : ClusterConfig) (r : ReleaseRun) (happens : r.Happens cfg) (visible : r.Visible cfg)
    (p : Bytes) (answer : ((r.beforeRead cfg).step r.read).1 = .bytes p) : p = r.buf := by
  have fresh := ReleaseRun.fresh_beforeRead happens visible
  have owners := ((along_append _ _ _).mp visible.owners).2.1
  have succeeded : (lmRead r.reading ((r.beforeRead cfg).view r.reader) r.addr r.buf.size).1 = .ok p := by
    change Response.ofRead (lmRead r.reading ((r.beforeRead cfg).view r.reader) r.addr r.buf.size).1 = .bytes p at answer
    generalize (lmRead r.reading ((r.beforeRead cfg).view r.reader) r.addr r.buf.size).1 = outcome at answer
    cases outcome with
    | ok found => exact congrArg Except.ok (Response.bytes.inj answer)
    | error s => cases answer
  have noWrap := ReleaseRun.noWrap visible
  rw [← Bytes.toNat_size] at noWrap
  obtain ⟨size, bytes⟩ := lmRead_answers fresh.memory fresh.copies (owners rfl rfl) noWrap succeeded
  rw [← Bytes.tabulate_byte p, ← Bytes.tabulate_byte r.buf, size]
  refine Bytes.tabulate_congr fun i bound => ?_
  have value := bytes (r.addr.offset.toNat + i) (r.buf.byte i) (Bytes.patch_of_lt (by rwa [← Bytes.toNat_size]))
    (by omega) (by omega)
  rwa [Nat.add_sub_cancel_left] at value

/-- Three nodes in SI mode that cache everything they read. -/
def siCluster : ClusterConfig where
  node n :=
    { nodeId := n, nrNodes := 3, blockSize := 4, localRegionSize := 16, coherenceModeOverride := 1,
      cacheAdmissionPolicy := 1 }
  own _ := rfl

/-- Where the record names one owner and no transfer waits, only that one can be read from. -/
theorem ownersFresh_of_recorded {w : Patch Nat UInt8} {ctx : RuntimeContext PeerTransport} {addr : GlobalAddr}
    {size : UInt64} {b : BlockId} {owner : NodeId} (member : b ∈ accessIds ctx.config addr size)
    (recorded : (ctx.blockTable.get b).ownerNode = owner) (idle : ctx.transport.mailbox ctx.config.nodeId = [])
    (harmless : owner = kInvalidNodeId ∨ owner = ctx.config.nodeId ∨ owner = addr.homeNode) :
    OwnersFresh w ctx addr size := by
  intro other _ may
  rcases may b member with same | ⟨msg, waiting, -⟩
  · rw [← same, recorded]
    tauto
  · rw [idle] at waiting
    cases waiting

/-- Node 1 writes at node 0 and releases; node 2 acquires and reads the range twice. -/
def freshReader : ReleaseRun where
  writer := 1
  reader := 2
  addr := ⟨0, 0, 0⟩
  buf := .ofList [7, 8]
  before := []
  writing := .stored
  toRelease := []
  releasing := .stored
  toAcquire := []
  acquiring := .stored
  toRead := [.call 2 ⟨.stored, .read ⟨0, 0, 0⟩ 2⟩]
  reading := .stored

theorem freshReader_sees :
    ((freshReader.beforeRead siCluster).step freshReader.read).1 = .bytes (.ofList [7, 8]) ∧
      ∀ p, ((freshReader.beforeRead siCluster).step freshReader.read).1 = .bytes p → p = freshReader.buf := by
  refine ⟨by decide +kernel, release_visible siCluster freshReader ⟨by decide +kernel, by decide +kernel,
    by decide +kernel, fun input member => ?_⟩ ⟨Or.inr (by decide), by decide, fun input member => ?_, ?_, ?_⟩⟩
  · obtain rfl := List.mem_singleton.mp member
    exact id
  · obtain rfl := List.mem_singleton.mp member
    trivial
  · intro k p held
    cases held
  · refine ⟨fun _ _ _ => ?_, fun _ _ _ => ?_, trivial⟩
    · exact ownersFresh_of_recorded (b := ⟨0, 0⟩) (by decide +kernel) (by decide +kernel : _ = kInvalidNodeId)
        (by decide +kernel) (Or.inl rfl)
    · exact ownersFresh_of_recorded (b := ⟨0, 0⟩) (by decide +kernel) (by decide +kernel : _ = (0 : NodeId))
        (by decide +kernel) (Or.inr (Or.inr rfl))

/-- The same, but node 2 has read the range before the write. -/
def staleReader : ReleaseRun := { freshReader with before := [.call 2 ⟨.stored, .read ⟨0, 0, 0⟩ 2⟩], toRead := [] }

/-- Node 2's fence leaves its copy of the range alone, and its read returns the zeros in it. -/
theorem staleReader_misses_release :
    staleReader.Happens siCluster ∧
      ((staleReader.beforeRead siCluster).step staleReader.read).1 = .bytes (.ofList [0, 0]) ∧
      staleReader.buf = .ofList [7, 8] := by
  refine ⟨⟨by decide +kernel, by decide +kernel, by decide +kernel, fun input member => ?_⟩, by decide +kernel, rfl⟩
  obtain rfl := List.mem_singleton.mp member
  exact id

end LeoMem
