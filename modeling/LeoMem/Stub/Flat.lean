import LeoMem.Batching.ProgramOrder
import LeoMem.Api.Records
import LeoMem.Api.Resolve
import LeoMem.Stub.Control
import LeoMem.Stub.Memory

/-!
# A node on the stub against a flat memory

What the runtime is for: reads and writes of remote homes act on one flat memory.
`Represents` relates a node to that memory through the writes it still has
pending, and the lemmas below say of each call what it answers and how it moves
the relation. They hold of every configuration; what a particular result needs
beyond them are the conditions under which a read sees the flat memory.
-/

namespace LeoMem
open Lib RuntimeContext

/-- The bytes of every node, as the sequence of calls alone determines them. -/
abbrev FlatMemory := NodeId → Nat → UInt8

namespace FlatMemory

def zero : FlatMemory := fun _ _ => 0

def load (m : FlatMemory) (addr : GlobalAddr) (size : UInt64) : Bytes :=
  Bytes.tabulate size fun i => m addr.homeNode (addr.offset.toNat + i)

def store (m : FlatMemory) (addr : GlobalAddr) (buf : Bytes) : FlatMemory :=
  Function.update m addr.homeNode ((buf.patch addr.offset.toNat).apply (m addr.homeNode))

/-- One call on the flat memory, which serves no allocation. -/
def exec (m : FlatMemory) (i : Invocation) : Response × FlatMemory :=
  match i.call with
  | .read addr size => (.bytes (m.load addr size), m)
  | .write addr buf => (.status .kOk, m.store addr buf)
  | .fence => (.status .kOk, m)
  | .malloc _ => (.status .kUnimplemented, m)
  | .free _ => (.status .kUnimplemented, m)

end FlatMemory

/-- An access to another node, in bounds. -/
structure RemoteAccess (cfg : Config) (addr : GlobalAddr) (size : UInt64) : Prop where
  remote : addr.homeNode ≠ cfg.nodeId
  valid : addr.isValid = true
  filled : size ≠ 0
  inside : InBounds cfg addr size

instance (cfg : Config) (addr : GlobalAddr) (size : UInt64) : Decidable (RemoteAccess cfg addr size) :=
  decidable_of_iff (addr.homeNode ≠ cfg.nodeId ∧ addr.isValid = true ∧ size ≠ 0 ∧ InBounds cfg addr size)
    ⟨fun h => ⟨h.1, h.2.1, h.2.2.1, h.2.2.2⟩, fun h => ⟨h.remote, h.valid, h.filled, h.inside⟩⟩

/-- A read or write of another node, in bounds. -/
def ApiCall.RemoteAccess (cfg : Config) : ApiCall → Prop
  | .read addr size => LeoMem.RemoteAccess cfg addr size
  | .write addr buf => LeoMem.RemoteAccess cfg addr buf.size
  | _ => False

instance (cfg : Config) (c : ApiCall) : Decidable (c.RemoteAccess cfg) := by
  cases c <;> unfold ApiCall.RemoteAccess <;> infer_instance

/-- A call that did what it was asked for. -/
def Response.Successful : Response → Prop
  | .status s => s = .kOk
  | _ => True

instance (r : Response) : Decidable r.Successful := by
  cases r <;> unfold Response.Successful <;> infer_instance

/-- The modes an access finds its blocks in. -/
def accessModes (ctx : RuntimeContext StubTransport) (addr : GlobalAddr) (size : UInt64) (type : AccessType) :
    List CoherenceMode :=
  (touchMetadata ctx addr (resolveBlockRange ctx.config addr size) type).1

/-- What the home's region holds once the writes pending for it are flushed. -/
def pendingView (ctx : RuntimeContext StubTransport) (node : NodeId) : Nat → UInt8 :=
  Patch.applyAll ((ctx.queues.of node).map PendingRemoteWrite.patch) (ctx.transport.regions ctx.config node).byte

/-- **A node on the stub represents a flat memory**: every other node's region, with the
writes pending for it laid over, holds the memory's bytes. -/
structure Represents (cfg : Config) (ctx : RuntimeContext StubTransport) (m : FlatMemory) : Prop where
  config : ctx.config = cfg
  initialized : ctx.initialized = true
  settled : Settled 2 ctx
  shaped : Shaped cfg (ctx.transport.regions cfg)
  queued : ∀ n, ∀ w ∈ ctx.queues.of n, n ≠ cfg.nodeId ∧ WriteFits cfg n w
  direct : cfg.enableWriteBatching = false → ∀ n, ctx.queues.of n = []
  memory : ∀ n, n ≠ cfg.nodeId → pendingView ctx n = m n

theorem represents_stubNode (cfg : Config) : Represents cfg (stubNode cfg) .zero where
  config := rfl
  initialized := rfl
  settled := (settled_stubNode cfg).mono (by omega)
  shaped := StubTransport.shaped_init cfg
  queued n w member := by cases member
  direct _ _ := rfl
  memory n remote := by
    have blank : (StubTransport.init cfg).regions cfg n = Bytes.zeros cfg.localRegionSize := by
      rw [StubTransport.regions_remote _ remote]
      rfl
    change ((StubTransport.init cfg).regions cfg n).byte = _
    rw [blank]
    funext x
    exact Bytes.byte_zeros _ _

/-- The part of the stub's state that reads keep. -/
def stubData (cfg : Config) (t : StubTransport) : (NodeId → Bytes) × (NodeId → List ControlMessage) :=
  (t.regions cfg, t.controlInboxes)

theorem readKeeps_stubData (cfg : Config) : ReadKeeps cfg (stubData cfg) := by
  intro d addr size t
  exact Prod.ext (StubTransport.readKeeps_regions cfg d addr size t) (StubTransport.read_inboxes cfg d addr size t)

section
variable {cfg : Config} {ctx : RuntimeContext StubTransport} {m : FlatMemory}

/-- The relation speaks of the queues, the inbox and the regions only. -/
theorem Represents.congr {ctx' : RuntimeContext StubTransport} (rep : Represents cfg ctx m)
    (config : ctx'.config = ctx.config) (initialized : ctx'.initialized = ctx.initialized)
    (queues : ctx'.queues = ctx.queues) (regions : ctx'.transport.regions cfg = ctx.transport.regions cfg)
    (settled : Settled 2 ctx') : Represents cfg ctx' m where
  config := config.trans rep.config
  initialized := initialized.trans rep.initialized
  settled := settled
  shaped := regions ▸ rep.shaped
  queued := queues ▸ rep.queued
  direct := queues ▸ rep.direct
  memory n remote := by
    rw [← rep.memory n remote, pendingView, pendingView, queues, config, rep.config, regions]

theorem Represents.takesIn (rep : Represents cfg ctx m) : Represents cfg (settle ctx) m :=
  rep.congr rfl rfl rfl rfl ((settled_settle ctx).mono (by omega))

theorem Represents.of_frame {ctx' : RuntimeContext StubTransport} (rep : Represents cfg ctx m)
    (frame : ReadFrame (stubData cfg) ctx ctx') : Represents cfg ctx' m :=
  rep.congr frame.config frame.initialized frame.queues (congrArg Prod.fst frame.transport)
    (rep.settled.congr frame.config frame.acks (congrArg Prod.snd frame.transport))

variable {addr : GlobalAddr} {size : UInt64}

/-- A remote access always gets past the control messages and the range check. -/
theorem Represents.opens (rep : Represents cfg ctx m) (blocks : cfg.blockSize ≠ 0) (access : RemoteAccess cfg addr size)
    (ord : IterOrder) : openAccess ord ctx addr size = (.ok (resolveBlockRange cfg addr size), settle ctx) := by
  rw [rep.settled.opens (by omega) rep.initialized access.valid access.filled, rep.config]
  unfold validateAndResolveRange
  rw [if_neg (by simp [access.filled, blocks]), if_neg access.remote]

/-- A block size of zero lets no access through. -/
theorem Represents.opens_blockless (rep : Represents cfg ctx m) (blocks : cfg.blockSize = 0)
    (access : RemoteAccess cfg addr size) (ord : IterOrder) :
    openAccess ord ctx addr size = (.error .kInvalidArg, settle ctx) := by
  rw [rep.settled.opens (by omega) rep.initialized access.valid access.filled, rep.config]
  unfold validateAndResolveRange
  rw [if_pos (Or.inr blocks)]

/-- Such an access is turned away before it does anything. -/
theorem Represents.exec_blockless (rep : Represents cfg ctx m) (blocks : cfg.blockSize = 0) {i : Invocation}
    (access : i.call.RemoteAccess cfg) : LeoMem.exec ctx i = (.status .kInvalidArg, settle ctx) := by
  obtain ⟨ord, call⟩ := i
  cases call with
  | read addr size => simp only [LeoMem.exec, lmRead_rejected (rep.opens_blockless blocks access ord), Response.ofRead]
  | write addr buf => simp only [LeoMem.exec, lmWrite_rejected (rep.opens_blockless blocks access ord)]
  | malloc size => exact absurd access id
  | free addr => exact absurd access id
  | fence => exact absurd access id

theorem Represents.blocks_of_successful (rep : Represents cfg ctx m) {i : Invocation}
    (access : i.call.RemoteAccess cfg) (successful : (LeoMem.exec ctx i).1.Successful) : cfg.blockSize ≠ 0 := by
  intro blockless
  rw [rep.exec_blockless blockless access] at successful
  cases successful

/-! ## The modes of an access -/

theorem accessIds_ne_nil (access : RemoteAccess cfg addr size) : accessIds cfg addr size ≠ [] := by
  have fits : addr.offset.toNat + size.toNat ≤ 2 ^ 64 := access.inside.toNat_end ▸ (addr.offset + size).toNat_lt.le
  have order : (resolveBlockRange cfg addr size).first.blockIndex ≤ (resolveBlockRange cfg addr size).last.blockIndex :=
    resolve_first_le_last access.filled fits
  exact List.ne_nil_of_mem (BlockRange.mem_ids.mpr ⟨rfl, UInt64.le_refl _, order⟩)

/-- Under an override every access finds the configured mode. -/
theorem accessModes_override (rep : Represents cfg ctx m) (lower : 0 ≤ cfg.coherenceModeOverride)
    (upper : cfg.coherenceModeOverride ≤ 2) (addr : GlobalAddr) (size : UInt64) (type : AccessType) :
    accessModes ctx addr size type =
      (accessIds cfg addr size).map fun _ => CoherenceMode.ofInt cfg.coherenceModeOverride := by
  obtain rfl : ctx.config = cfg := rep.config
  exact observeMetas_override ctx.config lower upper type _ _ _

/-! ## Reads -/

/-- What the region of `node` holds at the range of an access. -/
def served (ctx : RuntimeContext StubTransport) (addr : GlobalAddr) (size : UInt64) (node : NodeId) : Bytes :=
  (ctx.transport.regions ctx.config node).slice addr.offset.toNat size

/-- The bytes the range of a read has pending are the ones the home already holds. -/
def PendingSeen (ctx : RuntimeContext StubTransport) (addr : GlobalAddr) (size : UInt64) : Prop :=
  ∀ x b, addr.offset.toNat ≤ x → x < addr.offset.toNat + size.toNat →
    Patch.last ((ctx.queues.of addr.homeNode).map PendingRemoteWrite.patch) x = some b →
    (ctx.transport.regions ctx.config addr.homeNode).byte x = b

theorem pendingSeen_of_idle (idle : ctx.queues.of addr.homeNode = []) (size : UInt64) : PendingSeen ctx addr size := by
  intro x b _ _ pending
  rw [idle] at pending
  cases pending

/-- Where nothing pending is missed, the home serves the flat memory. -/
theorem Represents.served_home (rep : Represents cfg ctx m) (remote : addr.homeNode ≠ cfg.nodeId)
    (seen : PendingSeen ctx addr size) : served ctx addr size addr.homeNode = m.load addr size := by
  refine Bytes.tabulate_congr fun i bound => ?_
  rw [← rep.memory addr.homeNode remote, pendingView, Patch.applyAll_eq]
  cases pending : Patch.last ((ctx.queues.of addr.homeNode).map PendingRemoteWrite.patch) (addr.offset.toNat + i) with
  | none => rfl
  | some b => exact seen _ b (by omega) (by omega) pending

/-- An in-bounds read of another node's region has one answer. -/
theorem Represents.readsAt (rep : Represents cfg ctx m) (inside : InBounds cfg addr size) {node : NodeId}
    (remote : node ≠ cfg.nodeId) {answer : Except Status Bytes} (reads : ReadsAt (stubData cfg) ctx addr size node answer) :
    answer = .ok (served ctx addr size node) := by
  obtain ⟨t, same, result⟩ := reads
  have regions : t.regions cfg = ctx.transport.regions cfg := congrArg Prod.fst same
  rw [rep.config] at result
  have read := StubTransport.read_inBounds (t := t) (regions ▸ rep.shaped) ctx.allocator
    { addr with homeNode := node } remote inside
  rw [← result, served, rep.config, ← regions]
  exact read

/-- Where the answer of a remote read comes from. -/
inductive StubAnswer (ord : IterOrder) (ctx : RuntimeContext StubTransport) (addr : GlobalAddr) (size : UInt64) :
    Bytes → Prop where
  | cached {buf : Bytes} : (ctx.cache.tryReadCached ord addr size).1 = some buf → StubAnswer ord ctx addr size buf
  | owner {owner : NodeId} : (ctx.cache.tryReadCached ord addr size).1 = none →
      Redirects ctx.config ctx.blockTable addr (accessIds ctx.config addr size) owner →
      StubAnswer ord ctx addr size (served ctx addr size owner)
  | home : (ctx.cache.tryReadCached ord addr size).1 = none →
      (∀ owner, ¬ Redirects ctx.config ctx.blockTable addr (accessIds ctx.config addr size) owner) →
      StubAnswer ord ctx addr size (served ctx addr size addr.homeNode)

section
variable {addr : GlobalAddr} {size : UInt64}

theorem Represents.read_eq (rep : Represents cfg ctx m) (blocks : cfg.blockSize ≠ 0)
    (access : RemoteAccess cfg addr size) (ord : IterOrder) :
    lmRead ord ctx addr size =
      readRemote ord (touchMetadata (settle ctx) addr (resolveBlockRange cfg addr size) .kRead).2 addr size
        (accessIds cfg addr size) (accessModes ctx addr size .kRead) := by
  have config : ctx.config = cfg := rep.config
  have modes : accessModes ctx addr size .kRead =
      (touchMetadata (settle ctx) addr (resolveBlockRange cfg addr size) .kRead).1 := by
    subst config
    rfl
  rw [lmRead_remote (rep.opens blocks access ord) (config ▸ access.remote), modes]
  rfl

/-- **A remote read on the stub** answers from the cache, from the recorded owner or from
the home, and leaves the relation as it was. -/
theorem Represents.read_answers (rep : Represents cfg ctx m) (blocks : cfg.blockSize ≠ 0)
    (access : RemoteAccess cfg addr size) (ord : IterOrder) :
    Represents cfg (lmRead ord ctx addr size).2 m ∧ (lmRead ord ctx addr size).2.queues = ctx.queues ∧
      ∃ buf, (lmRead ord ctx addr size).1 = .ok buf ∧ StubAnswer ord ctx addr size buf := by
  obtain rfl : ctx.config = cfg := rep.config
  let touched := (touchMetadata (settle ctx) addr (resolveBlockRange ctx.config addr size) .kRead).2
  have keeps := readKeeps_stubData ctx.config
  have touchedRep : Represents ctx.config touched m :=
    rep.takesIn.congr rfl rfl rfl rfl (rep.takesIn.settled.congr rfl rfl rfl)
  have redirects : ∀ owner, Redirects ctx.config touched.blockTable addr (accessIds ctx.config addr size) owner ↔
      Redirects ctx.config ctx.blockTable addr (accessIds ctx.config addr size) owner :=
    redirects_touchMetadata (settle ctx) access.remote
  have frame := readRemote_frame touched keeps ord addr size (accessIds ctx.config addr size)
    (accessModes ctx addr size .kRead)
  have outcome := readRemote_outcome touched keeps ord addr size (accessIds ctx.config addr size)
    (accessModes ctx addr size .kRead)
  rw [rep.read_eq blocks access ord]
  refine ⟨touchedRep.of_frame frame, frame.queues, ?_⟩
  generalize (readRemote ord touched addr size (accessIds ctx.config addr size) (accessModes ctx addr size .kRead)).1 =
    answer at outcome
  cases outcome with
  | cached hit => exact ⟨_, rfl, .cached hit⟩
  | owner miss redirect reads =>
    have answer := touchedRep.readsAt access.inside redirect.other reads
    exact ⟨_, answer, .owner miss ((redirects _).mp redirect)⟩
  | home miss noOwner reads =>
    refine ⟨_, touchedRep.readsAt access.inside access.remote reads, .home miss fun owner redirect => ?_⟩
    -- an owner to redirect to would have answered: its region is as large as the home's
    obtain ⟨s, failed⟩ := noOwner owner ((redirects owner).mpr redirect)
    cases touchedRep.readsAt access.inside redirect.other failed

theorem Represents.read_cache (rep : Represents cfg ctx m) (blocks : cfg.blockSize ≠ 0)
    (access : RemoteAccess cfg addr size) {ord : IterOrder} {k : CacheKey} {p : Bytes}
    (held : (lmRead ord ctx addr size).2.cache.payload? k = some p) :
    ctx.cache.payload? k = some p ∨
      (k = ⟨addr, p.size⟩ ∧ (lmRead ord ctx addr size).1 = .ok p ∧
        hasMode (accessModes ctx addr size .kRead) .kWI = false ∧ cfg.enableCache = true) := by
  obtain rfl : ctx.config = cfg := rep.config
  rw [rep.read_eq blocks access ord] at held ⊢
  exact readRemote_cache (touchMetadata (settle ctx) addr (resolveBlockRange ctx.config addr size) .kRead).2
    (readKeeps_stubData ctx.config) ord addr size _ _ held

theorem Represents.read_rel {rel : BlockMeta → BlockMeta → Prop} {b : BlockId} (rule : StandingRel rel)
    (rep : Represents cfg ctx m) (blocks : cfg.blockSize ≠ 0) (access : RemoteAccess cfg addr size) (ord : IterOrder)
    (prepare : ∀ r, rel r (prepareMeta cfg addr .kRead r))
    (stores : ReadStores rel cfg addr (accessIds cfg addr size) b) :
    rel (ctx.blockTable.get b) ((lmRead ord ctx addr size).2.blockTable.get b) := by
  obtain rfl : ctx.config = cfg := rep.config
  rw [rep.read_eq blocks access ord]
  have touched := touchMetadata_rel (b := b) rule (settle ctx) addr (resolveBlockRange ctx.config addr size) .kRead
    fun _ => prepare _
  exact rule.trans touched (readRemote_rel rule ord _ addr size (BlockRange.nodup_ids _ _) _ stores)

/-! ## Writes -/

variable {buf : Bytes}

/-- On the stub the control messages of a remote write never keep it from its data. -/
theorem Settled.writeRemote_wrote (settled : Settled 0 ctx) (remote : addr.homeNode ≠ ctx.config.nodeId)
    (filled : buf.size ≠ 0) (ord : IterOrder) (range : BlockRange) (modes : List CoherenceMode) :
    ∃ posted ownerBiased, Settled 2 posted ∧ ControlStep (StubTransport.regions ctx.config) ctx posted ∧
      (ownerBiased = true → CoherenceMode.kAdaptive ∈ modes) ∧
      Wrote posted addr buf modes ownerBiased (writeRemote ord ctx addr buf range modes) := by
  obtain ⟨table, handoff, version, ownerBiased, biased, branch⟩ := writeRemote_branches ord ctx addr filled range modes
  have recorded := controlStep_bookkeeping (StubTransport.regions ctx.config) ctx table ctx.stats
    ctx.nextControlRequestId ctx.pendingControlAcks
  have posted := recorded.trans (controlStep_postWriteMessages (StubTransport.controlKeeps_regions ctx.config).post _
    addr range modes handoff version)
  have settled' : Settled 0 { ctx with blockTable := table } := settled.congr rfl rfl rfl
  obtain ⟨ok, answered⟩ := settled'.postWriteMessages remote range modes handoff version
  rcases branch with ⟨failed, -⟩ | ⟨-, wrote⟩
  · simp [postFailed, ok] at failed
  · exact ⟨_, ownerBiased, answered, posted, biased, wrote⟩

theorem Represents.write_eq (rep : Represents cfg ctx m) (blocks : cfg.blockSize ≠ 0)
    (access : RemoteAccess cfg addr buf.size) (ord : IterOrder) :
    lmWrite ord ctx addr buf =
      writeRemote ord (touchMetadata (settle ctx) addr (resolveBlockRange cfg addr buf.size) .kWrite).2 addr buf
        (resolveBlockRange cfg addr buf.size) (accessModes ctx addr buf.size .kWrite) := by
  obtain rfl : ctx.config = cfg := rep.config
  exact lmWrite_remote (rep.opens blocks access ord) access.remote

/-- A remote write on the stub gets to its data, from a state that still represents the
memory. -/
theorem Represents.write_wrote (rep : Represents cfg ctx m) (blocks : cfg.blockSize ≠ 0)
    (access : RemoteAccess cfg addr buf.size) (ord : IterOrder) :
    ∃ posted ownerBiased, Represents cfg posted m ∧ posted.queues = ctx.queues ∧ posted.cache.Within ctx.cache ∧
      (ownerBiased = true → CoherenceMode.kAdaptive ∈ accessModes ctx addr buf.size .kWrite) ∧
      Wrote posted addr buf (accessModes ctx addr buf.size .kWrite) ownerBiased (lmWrite ord ctx addr buf) := by
  rw [rep.write_eq blocks access ord]
  obtain rfl : ctx.config = cfg := rep.config
  have settled : Settled 0 (touchMetadata (settle ctx) addr (resolveBlockRange ctx.config addr buf.size) .kWrite).2 :=
    (settled_settle ctx).congr rfl rfl rfl
  obtain ⟨posted, ownerBiased, answered, step, biased, wrote⟩ := settled.writeRemote_wrote access.remote access.filled
    ord (resolveBlockRange ctx.config addr buf.size) (accessModes ctx addr buf.size .kWrite)
  refine ⟨posted, ownerBiased, ?_, step.queues, step.cache, biased, wrote⟩
  exact rep.takesIn.congr step.config step.initialized step.queues step.transport answered

/-- A step that moves data and keeps the rest of the node. -/
theorem Represents.of_moved {ctx' : RuntimeContext StubTransport} {m' : FlatMemory} (rep : Represents cfg ctx m)
    (same : SameNode ctx ctx') (inboxes : ctx'.transport.controlInboxes = ctx.transport.controlInboxes)
    (shaped : Shaped cfg (ctx'.transport.regions cfg))
    (queued : ∀ n, ∀ w ∈ ctx'.queues.of n, n ≠ cfg.nodeId ∧ WriteFits cfg n w)
    (direct : cfg.enableWriteBatching = false → ∀ n, ctx'.queues.of n = [])
    (memory : ∀ n, n ≠ cfg.nodeId →
      Patch.applyAll ((ctx'.queues.of n).map PendingRemoteWrite.patch) (ctx'.transport.regions cfg n).byte = m' n) :
    Represents cfg ctx' m' where
  config := same.config.trans rep.config
  initialized := same.initialized.trans rep.initialized
  settled := rep.settled.congr same.config same.acks inboxes
  shaped := shaped
  queued := queued
  direct := direct
  memory n remote := by rw [pendingView, same.config, rep.config, memory n remote]

/-- The destination's queue after a write in bounds. -/
theorem Represents.enqueue_fits (rep : Represents cfg ctx m) (access : RemoteAccess cfg addr buf.size)
    {w : PendingRemoteWrite} (at_addr : w.addr = addr) (payload : w.payload = buf) :
    ∀ e ∈ (enqueue (ctx.queues.of addr.homeNode) w).2, WriteFits cfg addr.homeNode e := by
  refine enqueue_forall (fun e fitsE fitsW _ => fitsE.absorb fitsW) (fun e member => (rep.queued _ e member).2) ?_
  subst at_addr payload
  exact ⟨rfl, access.filled, access.inside⟩

/-- The destination's bytes with a write that is not overtaken queued on top of them. -/
theorem Represents.enqueue_view (rep : Represents cfg ctx m) (access : RemoteAccess cfg addr buf.size)
    (kept : NotOvertaken (ctx.queues.of addr.homeNode) { addr := addr, payload := buf }) {w : PendingRemoteWrite}
    (at_addr : w.addr = addr) (payload : w.payload = buf) :
    Patch.applyAll ((enqueue (ctx.queues.of addr.homeNode) w).2.map PendingRemoteWrite.patch)
        (ctx.transport.regions cfg addr.homeNode).byte = m.store addr buf addr.homeNode := by
  subst at_addr payload
  have fitsW : WriteFits cfg w.addr.homeNode w := ⟨rfl, access.filled, access.inside⟩
  rw [applyAll_enqueue (fun e member => (rep.queued _ e member).2.noWrap) fitsW.noWrap
    ((@notOvertaken_congr { addr := w.addr, payload := w.payload } w rfl rfl _).mpr kept), FlatMemory.store,
    Function.update_self, ← rep.memory _ access.remote, pendingView, rep.config]
  rfl

/-- **A remote write on the stub** succeeds, and moves the relation to the memory with the
write in it, as long as older pending bytes do not overtake it. -/
theorem Represents.of_wrote {modes : List CoherenceMode} {ownerBiased : Bool}
    {r : Status × RuntimeContext StubTransport} (rep : Represents cfg ctx m)
    (access : RemoteAccess cfg addr buf.size)
    (kept : NotOvertaken (ctx.queues.of addr.homeNode) { addr := addr, payload := buf })
    (wrote : Wrote ctx addr buf modes ownerBiased r) :
    r.1 = .kOk ∧ Represents cfg r.2 (m.store addr buf) := by
  have away : ∀ n, n ≠ addr.homeNode → m.store addr buf n = m n := fun n other => Function.update_of_ne other _ _
  have config := rep.config
  cases wrote.moved with
  | through off written queues =>
    rw [config] at off written
    obtain ⟨ok, inboxes, regions⟩ := StubTransport.write_inBounds rep.shaped ctx.allocator access.remote access.inside
    have transport : r.2.transport = (StubTransport.write cfg ctx.allocator addr buf ctx.transport).2 :=
      congrArg Prod.snd written
    refine ⟨(congrArg Prod.fst written).trans ok, rep.of_moved wrote.same (transport ▸ inboxes)
      (transport ▸ rep.shaped.blit regions) (queues ▸ rep.queued) (queues ▸ rep.direct) fun n remote => ?_⟩
    have before := rep.memory n remote
    rw [pendingView, rep.direct off, config] at before
    rw [queues, rep.direct off, transport, regions]
    by_cases here : n = addr.homeNode
    · rw [here] at before ⊢
      rw [if_pos rfl, access.inside.byte_blit (rep.shaped _ access.remote), FlatMemory.store, Function.update_self, ← before]
      rfl
    · rw [if_neg here, away n here, ← before]
  | queued w on at_addr payload ok transport queues noWI short =>
    rw [config] at on
    refine ⟨ok, rep.of_moved wrote.same (by rw [transport]) (transport ▸ rep.shaped) (fun n e member => ?_)
      (fun off => absurd on (by simp [off])) fun n remote => ?_⟩
    · rw [queues] at member
      split at member
      · rename_i here
        exact ⟨here ▸ access.remote, here ▸ rep.enqueue_fits access at_addr payload e member⟩
      · exact rep.queued n e member
    · rw [queues, transport]
      by_cases here : n = addr.homeNode
      · rw [if_pos here, here]
        exact rep.enqueue_view access kept at_addr payload
      · rw [if_neg here, away n here, ← rep.memory n remote, pendingView, config]
  | flushed w on at_addr payload written queues =>
    rw [config] at on written
    have fits : ∀ req ∈ (enqueue (ctx.queues.of addr.homeNode) w).2.map PendingRemoteWrite.request,
        RequestFits cfg addr.homeNode req := by
      intro req member
      obtain ⟨e, inQueue, rfl⟩ := List.mem_map.mp member
      exact (rep.enqueue_fits access at_addr payload e inQueue).request
    obtain ⟨ok, inboxes, shaped, others, bytes⟩ :=
      batchWrite_inBounds rep.shaped ctx.allocator access.remote fits
    rw [requestPatches_map_request] at bytes
    have transport : r.2.transport = _ := congrArg Prod.snd written
    refine ⟨(congrArg Prod.fst written).trans ok, rep.of_moved wrote.same (transport ▸ inboxes) (transport ▸ shaped)
      (fun n e member => ?_) (fun off => absurd on (by simp [off])) fun n remote => ?_⟩
    · rw [queues] at member
      split at member
      · cases member
      · exact rep.queued n e member
    · rw [queues, transport]
      by_cases here : n = addr.homeNode
      · rw [if_pos here, here]
        exact bytes.trans (rep.enqueue_view access kept at_addr payload)
      · rw [if_neg here, away n here, ← rep.memory n remote, pendingView, config]
        exact congrArg (fun r : Bytes => Patch.applyAll _ r.byte) (others n here)

theorem Represents.write_rel {rel : BlockMeta → BlockMeta → Prop} {b : BlockId} (rule : StandingRel rel)
    (rep : Represents cfg ctx m) (blocks : cfg.blockSize ≠ 0) (access : RemoteAccess cfg addr buf.size) (ord : IterOrder)
    (prepare : ∀ r, rel r (prepareMeta cfg addr .kWrite r))
    (apply : ∀ mode r, rel r (applyWriteMeta cfg addr mode r)) :
    rel (ctx.blockTable.get b) ((lmWrite ord ctx addr buf).2.blockTable.get b) := by
  obtain rfl : ctx.config = cfg := rep.config
  rw [rep.write_eq blocks access ord]
  have touched := touchMetadata_rel (b := b) rule (settle ctx) addr (resolveBlockRange ctx.config addr buf.size) .kWrite
    fun _ => prepare _
  refine rule.trans touched ?_
  rcases writeRemote_record ord (touchMetadata (settle ctx) addr (resolveBlockRange ctx.config addr buf.size) .kWrite).2
    addr access.filled (resolveBlockRange ctx.config addr buf.size) (accessModes ctx addr buf.size .kWrite) b with
    same | ⟨mode, -, stored⟩
  · rw [same]
    exact rule.refl _
  · rw [stored]
    exact apply mode _

end

/-! ## Fences -/

/-- Flushing a destination succeeds, and moves bytes the relation already counts. -/
theorem Represents.flush (rep : Represents cfg ctx m) (node : NodeId) :
    (flushDestination ctx node).1 = .kOk ∧ Represents cfg (flushDestination ctx node).2 m := by
  have flushed := flushDestination_flushed ctx node
  have written := flushed.written
  by_cases idle : ctx.queues.of node = []
  · rw [if_pos idle] at written
    have transport : (flushDestination ctx node).2.transport = ctx.transport := congrArg Prod.snd written
    have queues : ∀ n, (flushDestination ctx node).2.queues.of n = ctx.queues.of n := by
      intro n
      rw [flushed.queues]
      split
      · rename_i here
        rw [here, idle]
      · rfl
    refine ⟨congrArg Prod.fst written, rep.of_moved flushed.same (by rw [transport]) (transport ▸ rep.shaped) ?_ ?_ ?_⟩
    · exact fun n w member => rep.queued n w (queues n ▸ member)
    · exact fun off n => (queues n).trans (rep.direct off n)
    · intro n remote
      rw [queues, transport, ← rep.memory n remote, pendingView, rep.config]
  · obtain ⟨w, member⟩ := List.exists_mem_of_ne_nil _ idle
    have remote : node ≠ cfg.nodeId := (rep.queued node w member).1
    rw [if_neg idle, rep.config] at written
    have fits : ∀ req ∈ (ctx.queues.of node).map PendingRemoteWrite.request, RequestFits cfg node req := by
      intro req member
      obtain ⟨e, inQueue, rfl⟩ := List.mem_map.mp member
      exact (rep.queued node e inQueue).2.request
    obtain ⟨ok, inboxes, shaped, others, bytes⟩ := batchWrite_inBounds rep.shaped ctx.allocator remote fits
    rw [requestPatches_map_request] at bytes
    have transport : (flushDestination ctx node).2.transport = _ := congrArg Prod.snd written
    refine ⟨(congrArg Prod.fst written).trans ok, rep.of_moved flushed.same (transport ▸ inboxes) (transport ▸ shaped)
      (fun n e member => ?_) (fun off n => ?_) fun n away => ?_⟩
    · rw [flushed.queues] at member
      split at member
      · cases member
      · exact rep.queued n e member
    · rw [flushed.queues]
      split
      · rfl
      · exact rep.direct off n
    · rw [flushed.queues, transport, ← rep.memory n away, pendingView, rep.config]
      by_cases here : n = node
      · rw [if_pos here, here]
        exact bytes
      · rw [if_neg here]
        exact congrArg (fun r : Bytes => Patch.applyAll _ r.byte) (others n here)

theorem Represents.flushAll (rep : Represents cfg ctx m) (nodes : List NodeId) :
    (flushDestinations ctx nodes).1 = .kOk ∧ Represents cfg (flushDestinations ctx nodes).2 m := by
  induction nodes generalizing ctx with
  | nil => exact ⟨rfl, rep⟩
  | cons node nodes ih =>
    obtain ⟨ok, next⟩ := rep.flush node
    unfold flushDestinations
    simp only [ok, ne_eq, not_true_eq_false, if_false]
    exact ih next

theorem Represents.fence_eq (rep : Represents cfg ctx m) (ord : IterOrder) :
    lmFence ord ctx =
      (.kOk, settle (flushDestinations (settle ctx) ((settle ctx).queues.pendingDestinations ord)).2) :=
  rep.settled.fence_eq rep.initialized (rep.takesIn.flushAll ((settle ctx).queues.pendingDestinations ord)).1

/-- **A fence on the stub** succeeds and leaves the memory as it was. -/
theorem Represents.fence (rep : Represents cfg ctx m) (ord : IterOrder) :
    (lmFence ord ctx).1 = .kOk ∧ Represents cfg (lmFence ord ctx).2 m := by
  rw [rep.fence_eq ord]
  exact ⟨rfl, (rep.takesIn.flushAll _).2.takesIn⟩

/-- A fence touches neither the cache nor the block records. -/
theorem Represents.fence_keeps (rep : Represents cfg ctx m) (ord : IterOrder) :
    (lmFence ord ctx).2.cache = ctx.cache ∧ (lmFence ord ctx).2.blockTable = ctx.blockTable := by
  rw [rep.fence_eq ord]
  refine flushDestinations_induct (P := fun c => c.cache = ctx.cache ∧ c.blockTable = ctx.blockTable) ?_ _ ⟨rfl, rfl⟩
  rintro c node ⟨cache, table⟩
  have flushed := flushDestination_flushed c node
  exact ⟨flushed.cache.trans cache, flushed.same.table.trans table⟩

end
end LeoMem
