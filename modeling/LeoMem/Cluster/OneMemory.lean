import LeoMem.Cluster.Provenance
import LeoMem.Cluster.Recorded
import LeoMem.Stub.Flat

/-!
# One memory for the cluster

What the runtime is for: the regions of all nodes are one memory. With WI as the
configured mode, or without a cache and with every write sent before it returns, a node
holds back nothing and keeps no copies, so its calls are steps on that memory. What can
still go wrong is a read that the node's records redirect. Where the accesses of the run
give it no other node to go to, every order of calls and deliveries answers as the memory
does (`one_memory`).
-/

namespace LeoMem
open Lib RuntimeContext

/-! ## The memory -/

namespace FlatMemory

/-- The memory after a call that was answered `r`. -/
def after (m : FlatMemory) : ApiCall → Response → FlatMemory
  | .write addr buf, .status s => if s = .kOk then m.store addr buf else m
  | _, _ => m

/-- A read that gives bytes gives those of the memory. -/
def Answers (m : FlatMemory) : ApiCall → Response → Prop
  | .read addr size, .bytes buf => buf = m.load addr size
  | _, _ => True

/-- The memory after the calls of a history. -/
def replay (m : FlatMemory) (history : List (ApiCall × Response)) : FlatMemory :=
  history.foldl (fun m event => m.after event.1 event.2) m

/-- Every answer of the history is the memory's, after the calls before it. -/
def Explains : FlatMemory → List (ApiCall × Response) → Prop
  | _, [] => True
  | m, (call, r) :: rest => m.Answers call r ∧ (m.after call r).Explains rest

theorem explains_append (m : FlatMemory) (first second : List (ApiCall × Response)) :
    m.Explains (first ++ second) ↔ m.Explains first ∧ (m.replay first).Explains second := by
  induction first generalizing m with
  | nil => simp [Explains, replay]
  | cons event first ih =>
    obtain ⟨call, r⟩ := event
    simp only [List.cons_append, Explains, ih, and_assoc]
    rfl

theorem replay_append (m : FlatMemory) (first second : List (ApiCall × Response)) :
    m.replay (first ++ second) = (m.replay first).replay second := List.foldl_append

/-- The regions hold the memory's bytes. -/
def Held (m : FlatMemory) (memory : NodeId → Bytes) : Prop := ∀ n, (memory n).byte = m n

variable {m : FlatMemory}

theorem Held.slice {memory : NodeId → Bytes} (held : m.Held memory) (addr : GlobalAddr) (size : UInt64) :
    (memory addr.homeNode).slice addr.offset.toNat size = m.load addr size := by
  rw [Bytes.slice, load, held]

theorem Held.write {t : PeerTransport} (held : m.Held t.memory) (cfg : Config) {addr : GlobalAddr} {buf : Bytes}
    (noWrap : addr.offset.toNat + buf.data.length < 2 ^ 64) :
    (m.after (.write addr buf) (.status (t.write cfg addr buf).1)).Held (t.write cfg addr buf).2.memory := by
  unfold PeerTransport.write
  split
  · exact held
  · split
    · exact held
    · split
      · exact held
      · rename_i inside
        have fits : addr.offset.toNat + buf.data.length ≤ (t.memory addr.homeNode).data.length := by
          rw [gt_iff_lt, UInt64.not_lt, UInt64.le_iff_toNat_le, UInt64.toNat_add, Bytes.toNat_size,
            Bytes.toNat_size, Nat.mod_eq_of_lt noWrap] at inside
          exact inside
        intro n
        simp only [after, if_true, store]
        by_cases here : n = addr.homeNode
        · subst here
          rw [Function.update_self, Function.update_self, Bytes.byte_blit_of_le fits, held]
        · rw [Function.update_of_ne here, Function.update_of_ne here, held]

end FlatMemory

/-! ## Nodes that hold back nothing -/

/-- Options under which a node keeps no copies, and sends each write before it returns. -/
def Config.Direct (cfg : Config) : Prop :=
  cfg.coherenceModeOverride = CoherenceMode.kWI.toInt ∨
    cfg.enableCache = false ∧ (cfg.enableWriteBatching = false ∨ cfg.remoteWriteBatchThreshold ≤ 1)

instance : DecidablePred Config.Direct := fun _ => inferInstanceAs (Decidable (_ ∨ _ ∧ _))

/-- No copies, and nothing pending. -/
structure Bare {ω : Type} (ctx : RuntimeContext ω) : Prop where
  uncached : ∀ k, ctx.cache.payload? k = none
  idle : ∀ n, ctx.queues.of n = []

/-- No peer but the home can be recorded as the owner of all the blocks that the call reads. -/
def ApiCall.Clear (K : Candidates) (cfg : Config) : ApiCall → Prop
  | .read addr size => addr.homeNode ≠ cfg.nodeId → accessIds cfg addr size ≠ [] →
      ∀ x, PeerTransport.connected cfg x = true → (∀ b ∈ accessIds cfg addr size, K cfg.nodeId b x) → x = addr.homeNode
  | _ => True

section
variable {ctx : RuntimeContext PeerTransport}

theorem bare_of_control {α : Type} {obs : PeerTransport → α} {c : RuntimeContext PeerTransport} (bare : Bare ctx)
    (step : ControlStep obs ctx c) : Bare c := by
  refine ⟨fun k => ?_, step.queues ▸ bare.idle⟩
  rw [Option.eq_none_iff_forall_ne_some]
  intro p held
  have before := step.cache k p held
  rw [bare.uncached] at before
  cases before

variable {addr : GlobalAddr} {buf : Bytes} {size : UInt64}

/-- Every access of a WI node that is let through finds WI. -/
theorem hasMode_of_wi {c : RuntimeContext PeerTransport} {ord : IterOrder} {range : BlockRange}
    (opened : openAccess ord ctx addr size = (.ok range, c)) (wi : c.config.coherenceModeOverride = CoherenceMode.kWI.toInt)
    (noWrap : addr.offset.toNat + size.toNat < 2 ^ 64) (type : AccessType) :
    hasMode (touchMetadata c addr range type).1 .kWI = true := by
  have modes : (touchMetadata c addr range type).1 =
      (range.ids addr.regionId).map fun _ => CoherenceMode.ofInt c.config.coherenceModeOverride := by
    refine observeMetas_override c.config ?_ ?_ type _ _ _ <;> rw [wi] <;> decide
  have order : range.first.blockIndex ≤ range.last.blockIndex := by
    rw [openAccess_range opened]
    exact resolve_first_le_last (openAccess_filled opened) noWrap.le
  have first : (⟨addr.regionId, range.first.blockIndex⟩ : BlockId) ∈ range.ids addr.regionId :=
    BlockRange.mem_ids.mpr ⟨rfl, UInt64.le_refl _, order⟩
  rw [modes, hasMode, List.any_map, List.any_eq_true, wi]
  exact ⟨_, first, rfl⟩

/-- A direct node admits nothing to its cache. -/
theorem lmRead_bare (bare : Bare ctx) (direct : ctx.config.Direct) (ord : IterOrder)
    (noWrap : addr.offset.toNat + size.toNat < 2 ^ 64) : Bare (lmRead ord ctx addr size).2 := by
  refine lmRead_rule (J := fun r => Bare r.2)
    (controlStep_openAccess PeerTransport.controlKeeps_memory ctx ord addr size) (fun s c _ step => ?_)
    (fun c range _ _ step => ?_) (fun c range opened _ step => ?_)
  · exact bare_of_control bare step
  · have touched := bare_of_control bare (step.trans (controlStep_touchMetadata PeerTransport.memory c addr range .kRead))
    obtain ⟨frame, cache, -, -⟩ := readLocal_spec (touchMetadata c addr range .kRead).2
      (PeerTransport.readKeeps_memory _) addr size
    exact ⟨cache ▸ touched.uncached, frame.queues ▸ touched.idle⟩
  · have touched := bare_of_control bare (step.trans (controlStep_touchMetadata PeerTransport.memory c addr range .kRead))
    have frame := readRemote_frame (touchMetadata c addr range .kRead).2 (PeerTransport.readKeeps_memory _) ord addr
      size (range.ids addr.regionId) (touchMetadata c addr range .kRead).1
    refine ⟨fun k => Option.eq_none_iff_forall_ne_some.mpr fun p cached => ?_, frame.queues ▸ touched.idle⟩
    rcases readRemote_cache _ (PeerTransport.readKeeps_memory _) ord addr size _ _ cached with
      old | ⟨-, -, noWI, enabled⟩
    · rw [touched.uncached] at old
      cases old
    · rcases direct with wi | ⟨off, -⟩
      · rw [hasMode_of_wi opened (step.config ▸ wi) noWrap] at noWI
        cases noWI
      · have on : ctx.config.enableCache = true := step.config ▸ enabled
        rw [off] at on
        cases on

/-- What moving the data of a direct write does: it is one write of the transport. -/
theorem WriteMoved.direct {modes : List CoherenceMode} {r : Status × RuntimeContext PeerTransport}
    (moved : WriteMoved ctx addr buf modes r) (idle : ∀ n, ctx.queues.of n = [])
    (sends : hasMode modes .kWI = true ∨ ctx.config.enableWriteBatching = false ∨ ctx.config.remoteWriteBatchThreshold ≤ 1) :
    (r.1, r.2.transport) = PeerTransport.write ctx.config addr buf ctx.transport ∧ ∀ n, r.2.queues.of n = [] := by
  cases moved with
  | through _ written queues => exact ⟨written, queues ▸ idle⟩
  | queued w on _ _ _ _ _ noWI short =>
    exfalso
    rcases sends with wi | off | least
    · rw [noWI] at wi
      cases wi
    · rw [on] at off
      cases off
    · have some := List.length_pos_of_ne_nil (enqueue_ne_nil (ctx.queues.of addr.homeNode) w)
      rw [UInt64.le_iff_toNat_le] at least
      rw [toNat_max] at short
      have one : (1 : UInt64).toNat = 1 := rfl
      omega
  | flushed w _ at_addr payload written drained =>
    subst at_addr payload
    refine ⟨?_, fun n => ?_⟩
    · rw [idle] at written
      rw [written]
      change batchWriteWith (PeerTransport.write ctx.config) [w.request] ctx.transport = _
      simp only [batchWriteWith]
      split
      · rfl
      · rename_i ok
        exact Prod.ext (not_not.mp ok).symm rfl
    · rw [drained, idle]
      split <;> rfl

/-- **A direct write** writes the transport once, or stops with an error before. -/
theorem lmWrite_direct (bare : Bare ctx) (direct : ctx.config.Direct) (ord : IterOrder)
    (noWrap : addr.offset.toNat + buf.data.length < 2 ^ 64) :
    Bare (lmWrite ord ctx addr buf).2 ∧
      ((lmWrite ord ctx addr buf).1 ≠ .kOk ∧
          (lmWrite ord ctx addr buf).2.transport.memory = ctx.transport.memory ∨
        ∃ t : PeerTransport, t.memory = ctx.transport.memory ∧
          ((lmWrite ord ctx addr buf).1, (lmWrite ord ctx addr buf).2.transport) = t.write ctx.config addr buf) := by
  refine lmWrite_rule (J := fun r => Bare r.2 ∧ (r.1 ≠ .kOk ∧ r.2.transport.memory = ctx.transport.memory ∨
      ∃ t : PeerTransport, t.memory = ctx.transport.memory ∧ (r.1, r.2.transport) = t.write ctx.config addr buf))
    (controlStep_openAccess PeerTransport.controlKeeps_memory ctx ord addr buf.size) (fun s c opened step => ?_)
    (fun c range _ _ step => ?_) (fun c range opened _ step => ?_)
  · exact ⟨bare_of_control bare step, Or.inl ⟨openAccess_failed opened, step.transport⟩⟩
  · have touched := step.trans (controlStep_touchMetadata PeerTransport.memory c addr range .kWrite)
    obtain ⟨same, manager⟩ := writeThrough_same (touchMetadata c addr range .kWrite).2 addr buf true
    have written := writeThrough_written (touchMetadata c addr range .kWrite).2 addr buf true
    have mid := bare_of_control bare touched
    refine ⟨⟨?_, ?_⟩, Or.inr ⟨_, touched.transport, ?_⟩⟩
    · have cache := congrArg CacheManager.cache manager
      exact fun k => (congrArg (ReadCache.payload? · k) cache).trans (mid.uncached k)
    · have queues := congrArg CacheManager.writeQueues manager
      exact fun n => (congrArg (WriteQueues.of · n) queues).trans (mid.idle n)
    · rw [written, touched.config]
      rfl
  · have touched := step.trans (controlStep_touchMetadata PeerTransport.memory c addr range .kWrite)
    have noWrap' : addr.offset.toNat + buf.size.toNat < 2 ^ 64 := by rwa [Bytes.toNat_size]
    rcases writeRemote_cases PeerTransport.controlKeeps_memory.post ord (touchMetadata c addr range .kWrite).2 addr
      (openAccess_filled opened) range (touchMetadata c addr range .kWrite).1 with
      ⟨failed, stopped⟩ | ⟨posted, ownerBiased, sent, adaptive, wrote⟩
    · have all := touched.trans stopped
      exact ⟨bare_of_control bare all, Or.inl ⟨failed, all.transport⟩⟩
    · have all := touched.trans sent
      have mid := bare_of_control bare all
      have sends : hasMode (touchMetadata c addr range .kWrite).1 .kWI = true ∨
          posted.config.enableWriteBatching = false ∨ posted.config.remoteWriteBatchThreshold ≤ 1 := by
        rw [all.config]
        exact direct.imp (fun wi => hasMode_of_wi opened (step.config ▸ wi) noWrap' .kWrite) And.right
      obtain ⟨written, idle⟩ := wrote.moved.direct mid.idle sends
      refine ⟨⟨fun k => Option.eq_none_iff_forall_ne_some.mpr fun p cached => ?_, idle⟩,
        Or.inr ⟨_, all.transport, by rw [written, all.config]⟩⟩
      rcases wrote.cache k p cached with ⟨-, -, biased, enabled⟩ | ⟨old, -⟩
      · rcases direct with wi | ⟨off, -⟩
        · obtain ⟨m, decided⟩ := observeMetas_decided (adaptive biased)
          have adapts : c.config.Adapts := adapts_of_decided decided
          exact adapts.1 (step.config ▸ wi)
        · rw [all.config, off] at enabled
          cases enabled
      · rw [mid.uncached] at old
        cases old

/-- A fence of a node with nothing pending moves no data. -/
theorem lmFence_bare (bare : Bare ctx) (ord : IterOrder) :
    Bare (lmFence ord ctx).2 ∧ (lmFence ord ctx).2.transport.memory = ctx.transport.memory := by
  refine lmFence_induct (P := fun c => Bare c ∧ c.transport.memory = ctx.transport.memory)
    PeerTransport.controlKeeps_memory (fun _ _ step held => ?_) (fun c node held => ?_) ord ⟨bare, rfl⟩
  · exact ⟨bare_of_control held.1 step, step.transport.trans held.2⟩
  · have flushed := flushDestination_flushed c node
    have sent := congrArg Prod.snd flushed.written
    rw [if_pos (held.1.idle node)] at sent
    refine ⟨⟨flushed.cache ▸ held.1.uncached, fun n => ?_⟩, (congrArg PeerTransport.memory sent).trans held.2⟩
    rw [flushed.queues, held.1.idle]
    split <;> rfl

/-! ## Reads -/

theorem PeerTransport.connected_of_read {cfg : Config} {t : PeerTransport} (ok : (t.read cfg addr size).1 = .ok buf)
    (other : addr.homeNode ≠ cfg.nodeId) : PeerTransport.connected cfg addr.homeNode = true := by
  unfold PeerTransport.read at ok
  split at ok
  · cases ok
  · split at ok
    · cases ok
    · rename_i reachable
      simpa [other] using reachable

/-- **A read that is clear of other owners** returns the bytes of its home. -/
theorem lmRead_home {K : Candidates} {n : NodeId} (bare : Bare ctx) (known : OwnersKnown K n ctx) {ord : IterOrder}
    (clear : (ApiCall.read addr size).Clear K ctx.config) (answer : (lmRead ord ctx addr size).1 = .ok buf) :
    buf = (ctx.transport.memory addr.homeNode).slice addr.offset.toNat size := by
  revert answer
  have control := controlStep_openAccess PeerTransport.controlKeeps_memory ctx ord addr size
  refine lmRead_rule (I := fun c => ControlStep PeerTransport.memory ctx c ∧ OwnersKnown K n c)
    (J := fun r => r.1 = .ok buf → buf = (ctx.transport.memory addr.homeNode).slice addr.offset.toNat size)
    ⟨control, known.openAccess ord addr size⟩ (fun s c _ _ answer => ?_) (fun c range _ _ held answer => ?_)
    (fun c range opened away held answer => ?_)
  · cases answer
  · have touched := held.1.trans (controlStep_touchMetadata PeerTransport.memory c addr range .kRead)
    obtain ⟨-, -, -, reads⟩ := readLocal_spec (touchMetadata c addr range .kRead).2
      (PeerTransport.readKeeps_memory _) addr size
    rw [answer] at reads
    rw [readsAt_memory reads, touched.transport]
  · have touched := held.1.trans (controlStep_touchMetadata PeerTransport.memory c addr range .kRead)
    have mid := bare_of_control bare touched
    have outcome := readRemote_outcome (touchMetadata c addr range .kRead).2 (PeerTransport.readKeeps_memory _)
      ord addr size (range.ids addr.regionId) (touchMetadata c addr range .kRead).1
    rw [answer] at outcome
    cases outcome with
    | cached hit =>
      obtain ⟨k, p, found, -⟩ := ReadCache.tryReadCached_hit hit
      rw [mid.uncached] at found
      cases found
    | home _ _ reads => rw [readsAt_memory reads, touched.transport]
    | @owner owner _ _ redirects reads =>
      exfalso
      have recorded := (redirects_touchMetadata c away owner).mp redirects
      have ids := OwnersKnown.within_opened opened held.1.config
      obtain ⟨t, -, served⟩ := reads
      have peer : PeerTransport.connected ctx.config owner = true := by
        rw [← touched.config]
        exact PeerTransport.connected_of_read served recorded.other
      have candidate : ∀ b ∈ accessIds ctx.config addr size, K ctx.config.nodeId b owner := by
        intro b member
        have here := recorded.recorded b (ids ▸ member)
        have node : ctx.config.nodeId = n := known.node
        rcases held.2.owners b with invalid | own | may
        · exact absurd (here ▸ invalid) recorded.valid
        · exact absurd ((here.symm.trans own).trans held.2.node.symm) recorded.other
        · rwa [here, ← node] at may
      have remote : addr.homeNode ≠ ctx.config.nodeId := held.1.config ▸ away
      exact recorded.away (clear remote (ids ▸ recorded.blocks) owner peer candidate)

/-! ## Every call -/

/-- **Every call of a direct node is a step on the memory.** -/
theorem exec_oneMemory {K : Candidates} {n : NodeId} {m : FlatMemory} (bare : Bare ctx) (known : OwnersKnown K n ctx)
    (held : m.Held ctx.transport.memory) (direct : ctx.config.Direct) {i : Invocation} (inRange : i.call.InRange)
    (clear : i.call.Clear K ctx.config) :
    m.Answers i.call (exec ctx i).1 ∧ (m.after i.call (exec ctx i).1).Held (exec ctx i).2.transport.memory ∧
      Bare (exec ctx i).2 := by
  obtain ⟨ord, call⟩ := i
  cases call with
  | malloc size =>
    obtain ⟨-, manager, -, transport⟩ := lmMalloc_keeps ctx size
    refine ⟨trivial, ?_, ?_⟩
    · exact (congrArg PeerTransport.memory transport) ▸ held
    · exact ⟨fun k => (congrArg (CacheManager.cache · |>.payload? k) manager).trans (bare.uncached k),
        fun n => (congrArg (CacheManager.writeQueues · |>.of n) manager).trans (bare.idle n)⟩
  | free addr => exact ⟨trivial, held, bare⟩
  | read addr size =>
    obtain ⟨mid, step, frame⟩ := lmRead_frame PeerTransport.controlKeeps_memory ctx
      (PeerTransport.readKeeps_memory _) ord addr size
    have memory := frame.transport.trans step.transport
    refine ⟨?_, ?_, lmRead_bare bare direct ord inRange⟩
    · change m.Answers (.read addr size) (.ofRead (lmRead ord ctx addr size).1)
      cases answer : (lmRead ord ctx addr size).1 with
      | error s => trivial
      | ok buf => exact (lmRead_home bare known clear answer).trans (held.slice addr size)
    · exact memory ▸ held
  | write addr buf =>
    obtain ⟨bare', wrote⟩ := lmWrite_direct bare direct ord inRange
    refine ⟨trivial, ?_, bare'⟩
    change (m.after (.write addr buf) (.status (lmWrite ord ctx addr buf).1)).Held
      (lmWrite ord ctx addr buf).2.transport.memory
    rcases wrote with ⟨failed, memory⟩ | ⟨t, memory, written⟩
    · rw [memory, FlatMemory.after, if_neg failed]
      exact held
    · have status : (lmWrite ord ctx addr buf).1 = (t.write ctx.config addr buf).1 := congrArg Prod.fst written
      have transport : (lmWrite ord ctx addr buf).2.transport = (t.write ctx.config addr buf).2 := congrArg Prod.snd written
      rw [status, transport]
      exact FlatMemory.Held.write (memory ▸ held) ctx.config inRange
  | fence =>
    obtain ⟨bare', memory⟩ := lmFence_bare bare ord
    exact ⟨trivial, memory ▸ held, bare'⟩

end

/-! ## The cluster -/

/-- The calls of a run with their answers. -/
def answeredCalls (events : List (ClusterInput × Response)) : List (ApiCall × Response) :=
  events.filterMap fun
    | (.call _ i, r) => some (i.call, r)
    | (.deliver _, _) => none

/-- The input may leave `x` recorded as the owner of block `b` at node `n`: an access of `n` to
`x` itself, or a write of `x` to `n` that may hand the block over. -/
def ClusterInput.MayRecord (cfg : ClusterConfig) (n : NodeId) (b : BlockId) (x : NodeId) : ClusterInput → Prop
  | .call m ⟨_, .read addr size⟩ => m = n ∧ addr.homeNode = x ∧ b ∈ accessIds (cfg.node m) addr size
  | .call m ⟨_, .write addr buf⟩ => b ∈ accessIds (cfg.node m) addr buf.size ∧
      (m = n ∧ addr.homeNode = x ∨ m = x ∧ addr.homeNode = n ∧ (cfg.node m).Adapts)
  | _ => False

/-- The owners that the inputs may leave recorded. -/
def recordable (cfg : ClusterConfig) (inputs : List ClusterInput) : Candidates :=
  fun n b x => ∃ input ∈ inputs, input.MayRecord cfg n b x

/-- No peer but its home may come to own all the blocks that the input reads. -/
def ClusterInput.Clear (cfg : ClusterConfig) (inputs : List ClusterInput) : ClusterInput → Prop
  | .call n i => i.call.Clear (recordable cfg inputs) (cfg.node n)
  | .deliver _ => True

theorem within_recordable {cfg : ClusterConfig} {inputs : List ClusterInput} {n : NodeId} {i : Invocation}
    (member : ClusterInput.call n i ∈ inputs) : i.call.Within (recordable cfg inputs) (cfg.node n) := by
  obtain ⟨ord, call⟩ := i
  have own := cfg.own n
  cases call with
  | read addr size => exact fun b inside => ⟨_, member, own.symm, rfl, inside⟩
  | write addr buf =>
    intro b inside
    exact ⟨⟨_, member, inside, Or.inl ⟨own.symm, rfl⟩⟩,
      fun adapts => ⟨_, member, inside, Or.inr ⟨own.symm, rfl, adapts⟩⟩⟩
  | malloc | free | fence => trivial

/-- A cluster of nodes that hold back nothing, over the memory `m`. -/
structure Cluster.OneMemory (cfg : ClusterConfig) (K : Candidates) (m : FlatMemory) (c : Cluster) : Prop where
  config : ∀ n, (c.nodes n).config = cfg.node n
  bare : ∀ n, Bare (c.nodes n)
  known : c.OwnersKnown K
  held : m.Held c.network.memory

namespace Cluster.OneMemory
variable {cfg : ClusterConfig} {K : Candidates} {m : FlatMemory} {c : Cluster}

theorem init (cfg : ClusterConfig) (K : Candidates) : (Cluster.init cfg).OneMemory cfg K .zero where
  config _ := rfl
  bare _ := ⟨fun _ => rfl, fun _ => rfl⟩
  known := Cluster.ownersKnown_init cfg K
  held n := funext fun x => Bytes.byte_zeros (cfg.node n).localRegionSize x

theorem call (one : c.OneMemory cfg K m) (direct : ∀ n, (cfg.node n).Direct) {n : NodeId} {i : Invocation}
    (inRange : i.call.InRange) (within : i.call.Within K (cfg.node n)) (clear : i.call.Clear K (cfg.node n)) :
    m.Answers i.call (c.step (.call n i)).1 ∧
      (c.step (.call n i)).2.OneMemory cfg K (m.after i.call (c.step (.call n i)).1) := by
  have config : (c.view n).config = cfg.node n := one.config n
  have bare : Bare (c.view n) := ⟨(one.bare n).uncached, (one.bare n).idle⟩
  rw [← config] at within clear
  obtain ⟨answers, held, bare'⟩ := exec_oneMemory bare (one.known n) one.held (config ▸ direct n) inRange clear
  refine ⟨answers, fun k => (Cluster.step_config c _ k).trans (one.config k), fun k => ?_, one.known.call n within, held⟩
  by_cases same : k = n
  · subst same
    rw [← Cluster.view_call] at bare'
    exact ⟨bare'.uncached, bare'.idle⟩
  · rw [Cluster.nodes_call_of_ne c same]
    exact one.bare k

theorem deliver (one : c.OneMemory cfg K m) (k : Nat) : (c.step (.deliver k)).2.OneMemory cfg K m where
  config := one.config
  bare := one.bare
  known := one.known.deliver k
  held := by
    change m.Held (c.network.deliver k).memory
    rw [deliver_memory]
    exact one.held

/-- **Every run**, and the memory that its acknowledged writes leave. -/
theorem run {inputs : List ClusterInput} (direct : ∀ n, (cfg.node n).Direct)
    (inRange : ∀ input ∈ inputs, input.InRange) (clear : ∀ input ∈ inputs, input.Clear cfg inputs) :
    FlatMemory.zero.Explains (answeredCalls (trace Cluster.step (Cluster.init cfg) inputs)) ∧
      (Cluster.after cfg inputs).OneMemory cfg (recordable cfg inputs)
        (FlatMemory.zero.replay (answeredCalls (trace Cluster.step (Cluster.init cfg) inputs))) := by
  have along : Along Cluster.step (fun _ input => input ∈ inputs) (Cluster.init cfg) inputs :=
    along_of_inputs (fun _ member => member) _
  refine trace_invariant (J := fun es c => FlatMemory.zero.Explains (answeredCalls es) ∧
    c.OneMemory cfg (recordable cfg inputs) (FlatMemory.zero.replay (answeredCalls es)))
    (fun es c input member held => ?_) along ⟨trivial, init cfg _⟩
  obtain ⟨explained, one⟩ := held
  cases input with
  | deliver k =>
    have same : answeredCalls (es ++ [(ClusterInput.deliver k, (c.step (.deliver k)).1)]) = answeredCalls es := by
      simp [answeredCalls]
    rw [same]
    exact ⟨explained, one.deliver k⟩
  | call n i =>
    have more : answeredCalls (es ++ [(ClusterInput.call n i, (c.step (.call n i)).1)]) =
        answeredCalls es ++ [(i.call, (c.step (.call n i)).1)] := by simp [answeredCalls]
    obtain ⟨answers, next⟩ := one.call direct (inRange _ member) (within_recordable member) (clear _ member)
    rw [more, FlatMemory.explains_append, FlatMemory.replay_append]
    exact ⟨⟨explained, answers, trivial⟩, next⟩

end Cluster.OneMemory

/-- **One memory.** In a cluster of direct nodes, whatever the order of calls and deliveries, every read
that succeeds returns the bytes last written by an acknowledged write, and those are what the
regions hold, as long as no access wraps and no read can be redirected to another peer. -/
theorem one_memory {cfg : ClusterConfig} {inputs : List ClusterInput} (direct : ∀ n, (cfg.node n).Direct)
    (inRange : ∀ input ∈ inputs, input.InRange) (clear : ∀ input ∈ inputs, input.Clear cfg inputs) :
    FlatMemory.zero.Explains (answeredCalls (trace Cluster.step (Cluster.init cfg) inputs)) ∧
      (FlatMemory.zero.replay (answeredCalls (trace Cluster.step (Cluster.init cfg) inputs))).Held
        (Cluster.after cfg inputs).network.memory := by
  obtain ⟨explained, one⟩ := Cluster.OneMemory.run direct inRange clear
  exact ⟨explained, one.held⟩

/-! ## Two nodes -/

/-- A call of one of two nodes, which reads from one of the two. -/
def ClusterInput.OfPair : ClusterInput → Prop
  | .call n ⟨_, .read addr _⟩ => n < 2 ∧ addr.homeNode < 2
  | .call n _ => n < 2
  | .deliver _ => True

instance : DecidablePred ClusterInput.OfPair
  | .call n ⟨_, .read addr _⟩ => inferInstanceAs (Decidable (n < 2 ∧ addr.homeNode < 2))
  | .call n ⟨_, .write _ _⟩ | .call n ⟨_, .malloc _⟩ | .call n ⟨_, .free _⟩ | .call n ⟨_, .fence⟩ =>
    inferInstanceAs (Decidable (n < 2))
  | .deliver _ => inferInstanceAs (Decidable True)

/-- Between two nodes there is no third one to be redirected to. -/
theorem ClusterInput.OfPair.clear {cfg : ClusterConfig} (pair : ∀ n < 2, (cfg.node n).nrNodes = 2)
    (inputs : List ClusterInput) {input : ClusterInput} (ofPair : input.OfPair) : input.Clear cfg inputs := by
  match input, ofPair with
  | .call n ⟨_, .read addr _⟩, ⟨caller, home⟩ =>
    intro remote _ x peer _
    simp only [PeerTransport.connected, pair n caller, Bool.and_eq_true, decide_eq_true_eq, bne_iff_ne] at peer
    obtain ⟨below, other⟩ := peer
    rw [cfg.own] at remote other
    simp only [UInt16.lt_iff_toNat_lt, ne_eq, ← UInt16.toNat_inj] at caller home remote below other ⊢
    have two : (2 : NodeId).toNat = 2 := rfl
    omega
  | .call _ ⟨_, .write _ _⟩, _ => trivial
  | .call _ ⟨_, .malloc _⟩, _ => trivial
  | .call _ ⟨_, .free _⟩, _ => trivial
  | .call _ ⟨_, .fence⟩, _ => trivial
  | .deliver _, _ => trivial

/-- Two nodes that write each other's first block, and read it back. -/
def crossWrites : List ClusterInput :=
  [.call 0 ⟨.stored, .write ⟨1, 0, 0⟩ (.ofList [7, 8])⟩, .call 1 ⟨.stored, .write ⟨0, 0, 0⟩ (.ofList [9])⟩, .deliver 0,
    .call 1 ⟨.stored, .read ⟨0, 0, 0⟩ 2⟩, .call 0 ⟨.stored, .read ⟨1, 0, 1⟩ 1⟩]

theorem crossWrites_one_memory :
    answeredCalls (trace Cluster.step (Cluster.init hastyCluster) crossWrites) =
        [(.write ⟨1, 0, 0⟩ (.ofList [7, 8]), .status .kOk), (.write ⟨0, 0, 0⟩ (.ofList [9]), .status .kOk),
          (.read ⟨0, 0, 0⟩ 2, .bytes (.ofList [9, 0])), (.read ⟨1, 0, 1⟩ 1, .bytes (.ofList [8]))] ∧
      FlatMemory.zero.Explains (answeredCalls (trace Cluster.step (Cluster.init hastyCluster) crossWrites)) := by
  have pair : ∀ n < 2, (hastyCluster.node n).nrNodes = 2 := fun _ _ => rfl
  have ofPair : ∀ input ∈ crossWrites, input.OfPair := by decide +kernel
  exact ⟨by decide +kernel, (one_memory (fun _ => Or.inl rfl) (by decide +kernel)
    fun input member => (ofPair input member).clear pair crossWrites).1⟩

end LeoMem
