import LeoMem.Cluster.Origin

/-!
# Block versions over time

A write counts its blocks' versions up and a redirected read takes the newest one it
sees, but the handlers store the version a request names, older or not: an access for
both kinds of requests, a fence for owner transfers only. The versions of a node never
go back in a run in which the requests its calls take in name their versions in order
and no written version is the last of its type (`versions_nondecreasing`).
-/

namespace LeoMem
open Lib RuntimeContext

/-! ## A node on a network that does what it likes -/

inductive NodeInput where
  | call (i : Invocation)
  /-- Messages arrive, in any order and number, and other nodes write their memory. -/
  | network (t : PeerTransport)

def nodeStep (ctx : RuntimeContext PeerTransport) : NodeInput → Response × RuntimeContext PeerTransport
  | .call i => exec ctx i
  | .network t => (.status .kOk, { ctx with transport := t })

def versionOf {ω : Type} (ctx : RuntimeContext ω) (b : BlockId) : Version := (ctx.blockTable.get b).version

/-- The messages that wait for the node. -/
def waiting (ctx : RuntimeContext PeerTransport) : List ControlMessage := ctx.transport.mailbox ctx.config.nodeId

/-- The waiting messages a call takes in: an access drains once, a fence at its start and at
its end. -/
def takenBy (ctx : RuntimeContext PeerTransport) : ApiCall → List ControlMessage
  | .read _ _ => (waiting ctx).take 64
  | .write _ _ => (waiting ctx).take 64
  | .fence => (waiting ctx).take 128
  | _ => []

/-- The call stores the version of `msg` into the record of `b`. `DrainControl` stores none for an
invalidation. -/
def ApiCall.Stores (call : ApiCall) (b : BlockId) (msg : ControlMessage) : Prop :=
  isAckOpcode msg.opcode = false ∧ b ∈ msg.blocks ∧ (call = .fence → msg.opcode ≠ .kInvalidateRange)

instance (call : ApiCall) (b : BlockId) (msg : ControlMessage) : Decidable (call.Stores b msg) :=
  inferInstanceAs (Decidable (_ ∧ _))

/-- The versions that a call stores for `b` of the messages `msgs`, in their order. -/
def storedVersions (call : ApiCall) (b : BlockId) (msgs : List ControlMessage) : List Version :=
  (msgs.filter fun msg => call.Stores b msg).map ControlMessage.version

/-- The version of `b` and those the call stores for it never go back. -/
def InOrder (ctx : RuntimeContext PeerTransport) (call : ApiCall) : Prop :=
  ∀ b, (versionOf ctx b :: storedVersions call b (takenBy ctx call)).Pairwise (· ≤ ·)

/-- **When versions do not go back**: the requests a call takes in name theirs in order, and no
block of a write is or gets at its last version before it. -/
def Orderly (ctx : RuntimeContext PeerTransport) : NodeInput → Prop
  | .call ⟨_, .write addr buf⟩ => InOrder ctx (.write addr buf) ∧ ∀ b ∈ accessIds ctx.config addr buf.size,
      ∀ v ∈ versionOf ctx b :: storedVersions (.write addr buf) b (takenBy ctx (.write addr buf)), v.toNat + 1 < 2 ^ 64
  | .call ⟨_, .read addr size⟩ => InOrder ctx (.read addr size)
  | .call ⟨_, .fence⟩ => InOrder ctx .fence
  | _ => True

theorem mem_storedVersions {call : ApiCall} {b : BlockId} {msgs : List ControlMessage} {msg : ControlMessage}
    (member : msg ∈ msgs) (stores : call.Stores b msg) : msg.version ∈ storedVersions call b msgs :=
  List.mem_map.mpr ⟨msg, List.mem_filter.mpr ⟨member, by simpa using stores⟩, rfl⟩

/-! ## One message after another -/

theorem ControlMessage.nodup_blocks (msg : ControlMessage) : msg.blocks.Nodup :=
  msg.range.nodup_ids msg.firstBlock.regionId

section
variable {ω : Type} [Transport ω] {call : ApiCall} {b : BlockId} {ctx : RuntimeContext ω}

/-- The handler of a call leaves the version of `b` alone, or stores the one the request names. -/
def StoresNamed (call : ApiCall) (b : BlockId) (handle : Handler ω) : Prop :=
  ∀ c msg, versionOf (handle c msg).2 b = versionOf c b ∨
    call.Stores b msg ∧ versionOf (handle c msg).2 b = msg.version

theorem storesNamed_modifyAll {f : BlockMeta → BlockMeta} {msg : ControlMessage}
    (request : isAckOpcode msg.opcode = false) (kind : call = .fence → msg.opcode ≠ .kInvalidateRange)
    (stores : ∀ m, (f m).version = msg.version) (t : BlockTable) :
    ((t.modifyAll msg.blocks f).get b).version = (t.get b).version ∨
      call.Stores b msg ∧ ((t.modifyAll msg.blocks f).get b).version = msg.version := by
  rw [BlockTable.get_modifyAll _ msg.nodup_blocks]
  split
  · rename_i member
    exact Or.inr ⟨⟨request, member, kind⟩, stores _⟩
  · exact Or.inl rfl

/-- At an access both kinds of requests store. -/
theorem storesNamed_processMessage (access : call ≠ .fence) (ord : IterOrder) (b : BlockId) :
    StoresNamed call b (processMessage (ω := ω) ord) := by
  intro c msg
  have kind : call = .fence → msg.opcode ≠ .kInvalidateRange := fun fence => absurd fence access
  have handled := handled_processMessage ord c msg
  generalize processMessage ord c msg = r at handled
  cases handled with
  | completed => exact Or.inl rfl
  | acknowledged request within recorded =>
    cases recorded with
    | nothing => exact Or.inl rfl
    | invalidation opcode => exact storesNamed_modifyAll request kind (fun _ => rfl) c.blockTable
    | transfer opcode => exact storesNamed_modifyAll request kind (fun _ => rfl) c.blockTable
    | drainTransfer opcode => exact storesNamed_modifyAll request kind (fun _ => rfl) c.blockTable
  | ignored => exact Or.inl rfl

/-- At a fence only owner transfers do. -/
theorem storesNamed_drainMessage (ord : IterOrder) (b : BlockId) :
    StoresNamed .fence b (drainMessage (ω := ω) ord) := by
  intro c msg
  unfold drainMessage
  split
  · exact Or.inl rfl
  · rename_i request
    split
    · exact Or.inl rfl
    · rename_i transfer
      exact storesNamed_modifyAll (by simpa using request) (fun _ => transfer) (fun _ => rfl) c.blockTable

omit [Transport ω] in
/-- One handled message keeps the versions in order. -/
theorem inOrder_handled {handle : Handler ω} (stores : StoresNamed call b handle) {msg : ControlMessage}
    {msgs : List ControlMessage} (inOrder : (versionOf ctx b :: storedVersions call b (msg :: msgs)).Pairwise (· ≤ ·)) :
    versionOf ctx b ≤ versionOf (handle ctx msg).2 b ∧
      (versionOf (handle ctx msg).2 b :: storedVersions call b msgs).Pairwise (· ≤ ·) := by
  rcases stores ctx msg with same | ⟨names, stored⟩
  · refine ⟨same ▸ UInt64.le_refl _, same ▸ inOrder.sublist (List.Sublist.cons_cons _ ?_)⟩
    exact ((List.sublist_cons_self msg msgs).filter _).map _
  · have split : storedVersions call b (msg :: msgs) = msg.version :: storedVersions call b msgs := by
      simp [storedVersions, names]
    rw [split] at inOrder
    exact ⟨stored ▸ (List.pairwise_cons.mp inOrder).1 _ List.mem_cons_self, stored ▸ (List.pairwise_cons.mp inOrder).2⟩

omit [Transport ω] in
/-- **Message by message** the version of a block does not go back: the more of the waiting
messages a handler's loop has taken, the newer it is. -/
theorem handled_rises {handle : Handler ω} (stores : StoresNamed call b handle) {msgs : List ControlMessage}
    (inOrder : (versionOf ctx b :: storedVersions call b msgs).Pairwise (· ≤ ·)) {j k : Nat} (le : j ≤ k) :
    versionOf (handleAll handle ctx (msgs.take j)).2 b ≤ versionOf (handleAll handle ctx (msgs.take k)).2 b := by
  induction msgs generalizing ctx j k with
  | nil => simp
  | cons msg msgs ih =>
    obtain ⟨rises, rest⟩ := inOrder_handled stores inOrder
    cases k with
    | zero =>
      rw [Nat.le_zero.mp le]
      exact UInt64.le_refl _
    | succ k =>
      cases j with
      | zero =>
        rw [List.take_zero, List.take_succ_cons, handleAll, handleAll]
        simp only
        split
        · exact rises
        · exact UInt64.le_trans rises (ih rest (Nat.zero_le k))
      | succ j =>
        rw [List.take_succ_cons, List.take_succ_cons, handleAll, handleAll]
        split
        · exact UInt64.le_refl _
        · exact ih rest (Nat.le_of_succ_le_succ le)

end

/-! ## Whole calls -/

/-- What a call does to a version, for versions in `S`. -/
theorem standingRel_version (S : Version → Prop) : StandingRel fun m m' => S m.version → S m'.version :=
  ⟨fun same held => same.version ▸ held, fun first second held => second (first held)⟩

theorem handlerStores_version {S : Version → Prop} {msg : ControlMessage} {b : BlockId}
    (named : isAckOpcode msg.opcode = false → b ∈ msg.blocks → S msg.version) :
    HandlerStores (fun m m' => S m.version → S m'.version) msg b :=
  ⟨fun opcode member _ _ => named (by simp [opcode, isAckOpcode]) member,
    fun opcode member _ _ => named (by simp [opcode, isAckOpcode]) member,
    fun opcode member _ _ => named (by simp [opcode, isAckOpcode]) member⟩

theorem readStores_version (v : Version) (cfg : Config) (addr : GlobalAddr) (metas : List BlockId) (b : BlockId) :
    ReadStores (fun m m' => v ≤ m.version → v ≤ m'.version) cfg addr metas b :=
  ⟨fun _ _ held => held, fun t _ _ _ member held => UInt64.le_trans held (le_maxObservedVersion t member)⟩

theorem prepareMeta_version (cfg : Config) (addr : GlobalAddr) (type : AccessType) (m : BlockMeta) :
    (prepareMeta cfg addr type m).version =
      if addr.homeNode = cfg.nodeId ∧ type = .kWrite then m.version + 1 else m.version := by
  unfold prepareMeta
  by_cases home : addr.homeNode = cfg.nodeId <;> by_cases write : type = .kWrite <;> simp [home, write]

section
variable {ctx mid : RuntimeContext PeerTransport} {call : ApiCall} {b : BlockId} {S : Version → Prop} {v : Version}

/-- The version of a block after the messages of an access. -/
theorem openAccess_version (access : call ≠ .fence)
    (named : ∀ msg ∈ (waiting ctx).take 64, call.Stores b msg → S msg.version) (start : S (versionOf ctx b))
    (ord : IterOrder) (addr : GlobalAddr) (size : UInt64) : S (versionOf (openAccess ord ctx addr size).2 b) :=
  openAccess_rel (standingRel_version S) ord ctx addr size
    (fun msg member => handlerStores_version fun request inside =>
      named msg (PeerTransport.mem_drained member) ⟨request, inside, fun fence => absurd fence access⟩) start

variable {addr : GlobalAddr} {drains : Nat}

theorem lmRead_version {size : UInt64}
    (named : ∀ msg ∈ takenBy ctx (.read addr size), (ApiCall.read addr size).Stores b msg → v ≤ msg.version)
    (start : v ≤ versionOf ctx b) (ord : IterOrder) : v ≤ versionOf (lmRead ord ctx addr size).2 b := by
  have touched : ∀ (c : RuntimeContext PeerTransport) range, v ≤ versionOf c b →
      v ≤ versionOf (touchMetadata c addr range .kRead).2 b := by
    intro c range
    refine touchMetadata_rel (standingRel_version fun x => v ≤ x) c addr range .kRead fun _ held => ?_
    rwa [prepareMeta_version, if_neg (by simp)]
  refine lmRead_rule (I := fun c => v ≤ versionOf c b) (J := fun r => v ≤ versionOf r.2 b)
    (openAccess_version (by simp) named start ord addr size) (fun _ _ _ held => held) (fun c range _ _ held => ?_)
    (fun c range _ _ held => ?_)
  · obtain ⟨-, -, table, -⟩ := readLocal_spec _ (PeerTransport.readKeeps_wires _) addr size
    unfold versionOf
    rw [table]
    exact touched c range held
  · exact readRemote_rel (standingRel_version fun x => v ≤ x) ord _ addr size (range.nodup_ids _) _
      (readStores_version v _ addr _ b) (touched c range held)

theorem le_succ_version {x : Version} (le : v ≤ x) (room : x.toNat + 1 < 2 ^ 64) : v ≤ x + 1 := by
  have one : (1 : UInt64).toNat = 1 := rfl
  rw [UInt64.le_iff_toNat_le] at le ⊢
  rw [UInt64.toNat_add, one, Nat.mod_eq_of_lt room]
  omega

/-- The version of a block when a write comes to its data: counted up once, if the block is
in the range of the write. -/
theorem lmWrite_counted {ord : IterOrder} {buf : Bytes} {range : BlockRange}
    (opened : openAccess ord ctx addr buf.size = (.ok range, mid)) :
    versionOf (lmWrite ord ctx addr buf).2 b = versionOf mid b ∨
      b ∈ range.ids addr.regionId ∧ versionOf (lmWrite ord ctx addr buf).2 b = versionOf mid b + 1 := by
  have touched := (touchMetadata_ownership mid addr range .kWrite b).version
  by_cases home : addr.homeNode = mid.config.nodeId
  · rw [lmWrite_local opened home]
    obtain ⟨same, -⟩ := writeThrough_same (touchMetadata mid addr range .kWrite).2 addr buf true
    unfold versionOf
    rw [same.table, touched]
    split
    · rename_i member
      exact Or.inr ⟨member, by rw [prepareMeta_version, if_pos ⟨home, rfl⟩]⟩
    · exact Or.inl rfl
  · have prepared : versionOf (touchMetadata mid addr range .kWrite).2 b = versionOf mid b := by
      unfold versionOf
      rw [touched]
      split
      · rw [prepareMeta_version, if_neg fun both => home both.1]
      · rfl
    rw [lmWrite_remote opened home]
    rcases writeRemote_record ord (touchMetadata mid addr range .kWrite).2 addr (openAccess_filled opened) range
      (touchMetadata mid addr range .kWrite).1 b with same | ⟨mode, decided, stored⟩
    · exact Or.inl ((congrArg BlockMeta.version same).trans prepared)
    · refine Or.inr ⟨(List.of_mem_zip decided).1, (congrArg BlockMeta.version stored).trans ?_⟩
      rw [← prepared]
      cases mode <;> rfl

theorem lmWrite_version {buf : Bytes}
    (named : ∀ msg ∈ takenBy ctx (.write addr buf), (ApiCall.write addr buf).Stores b msg → v ≤ msg.version)
    (start : v ≤ versionOf ctx b) (ord : IterOrder) (room : b ∈ accessIds ctx.config addr buf.size →
      ∀ x ∈ versionOf ctx b :: storedVersions (.write addr buf) b (takenBy ctx (.write addr buf)), x.toNat + 1 < 2 ^ 64) :
    v ≤ versionOf (lmWrite ord ctx addr buf).2 b := by
  have access : ApiCall.write addr buf ≠ .fence := by simp
  have messages := openAccess_version
    (S := fun x => v ≤ x ∧ (b ∈ accessIds ctx.config addr buf.size → x.toNat + 1 < 2 ^ 64)) access
    (fun msg member stores => ⟨named msg member stores, fun inside =>
      room inside _ (List.mem_cons_of_mem _ (mem_storedVersions member stores))⟩)
    ⟨start, fun inside => room inside _ List.mem_cons_self⟩ ord addr buf.size
  have config := (controlStep_openAccess controlKeeps_noObs ctx ord addr buf.size).config
  cases opened : openAccess ord ctx addr buf.size with
  | mk outcome mid =>
    rw [opened] at messages config
    cases outcome with
    | error s =>
      rw [lmWrite_rejected opened]
      exact messages.1
    | ok range =>
      rcases lmWrite_counted (b := b) opened with same | ⟨inside, counted⟩
      · exact same ▸ messages.1
      · rw [openAccess_range opened, show mid.config = ctx.config from config] at inside
        exact counted ▸ le_succ_version messages.1 (messages.2 inside)

/-- The version of `b` is at least `v`, and so is every version that the next `drains` calls of
`DrainControl` store for it. -/
structure AtLeast (v : Version) (b : BlockId) (n : NodeId) (drains : Nat) (ctx : RuntimeContext PeerTransport) :
    Prop where
  node : ctx.config.nodeId = n
  version : v ≤ versionOf ctx b
  named : ∀ msg ∈ (ctx.transport.mailbox n).take (64 * drains), ApiCall.fence.Stores b msg → v ≤ msg.version

theorem AtLeast.fewer {n : NodeId} (least : AtLeast v b n (drains + 1) ctx) : AtLeast v b n drains ctx :=
  ⟨least.node, least.version, fun msg member => least.named msg (List.take_subset_take_left _ (by omega) member)⟩

/-- What is left in the mailbox after a drain. -/
theorem AtLeast.taken {n : NodeId} (least : AtLeast v b n (drains + 1) ctx) : AtLeast v b n drains (takeMessages ctx) := by
  refine ⟨least.node, least.version, fun msg member => least.named msg ?_⟩
  have mailbox : (takeMessages ctx).transport.mailbox n =
      if ctx.config.rdmaEnableControlPath = false then ctx.transport.mailbox n else (ctx.transport.mailbox n).drop 64 := by
    change (PeerTransport.drainControlMessages ctx.config 64 ctx.transport).2.mailbox n = _
    unfold PeerTransport.drainControlMessages
    split
    · rfl
    · simp [least.node]
  rw [mailbox] at member
  split at member
  · exact List.take_subset_take_left _ (by omega) member
  · rw [List.take_drop] at member
    have larger := List.mem_of_mem_drop member
    rwa [Nat.add_comm, ← Nat.mul_succ] at larger

theorem AtLeast.drainControl {n : NodeId} (least : AtLeast v b n (drains + 1) ctx) (ord : IterOrder) :
    AtLeast v b n drains (drainControl ord ctx).2 := by
  refine drainControl_keeps least.taken (fun c msg member held => ?_) (fun c held => ?_)
  · have step := (handled_drainMessage ord c msg).controlStep PeerTransport.postKeeps_mailbox
    refine ⟨step.config ▸ held.node, ?_, step.transport ▸ held.named⟩
    rcases storesNamed_drainMessage ord b c msg with same | ⟨stores, stored⟩
    · exact same ▸ held.version
    · have waits := PeerTransport.mem_drained member
      rw [least.node] at waits
      exact stored ▸ least.named msg (List.take_subset_take_left _ (by omega) waits) stores
  · have step := controlStep_drivePendingControlAcks PeerTransport.postKeeps_mailbox c ord
    refine ⟨step.config ▸ held.node, ?_, step.transport ▸ held.named⟩
    unfold versionOf
    rw [drivePendingControlAcks_table]
    exact held.version

theorem lmFence_version (named : ∀ msg ∈ takenBy ctx .fence, ApiCall.fence.Stores b msg → v ≤ msg.version)
    (start : v ≤ versionOf ctx b) (ord : IterOrder) : v ≤ versionOf (lmFence ord ctx).2 b := by
  refine (lmFence_phases (P := AtLeast v b ctx.config.nodeId 2) (Q := AtLeast v b ctx.config.nodeId 1)
    (R := AtLeast v b ctx.config.nodeId 0) (fun _ => AtLeast.fewer) (fun _ => AtLeast.fewer)
    (fun c held => held.drainControl ord) (fun c held => ⟨held.node, held.version, held.named⟩) (fun c node held => ?_)
    (fun c held => held.drainControl ord) ⟨rfl, start, named⟩).version
  have flushed := flushDestination_flushed c node
  have wires := flushed.keeps PeerTransport.writeKeeps_wires
  have mailbox : (flushDestination c node).2.transport.mailbox = c.transport.mailbox := congrArg Prod.snd wires
  refine ⟨flushed.same.config ▸ held.node, ?_, mailbox ▸ held.named⟩
  unfold versionOf
  rw [flushed.same.table]
  exact held.version

end

/-! ## Runs -/

/-- The node when its call has handled the messages `msgs`. -/
def handling (ctx : RuntimeContext PeerTransport) (i : Invocation) (msgs : List ControlMessage) :
    RuntimeContext PeerTransport :=
  match i.call with
  | .read _ _ => (processMessages i.ord ctx msgs).2
  | .write _ _ => (processMessages i.ord ctx msgs).2
  | .fence => (drainMessages i.ord ctx msgs).2
  | _ => ctx

/-- No version goes back over a call, nor from one message to the next while it handles those
it takes in. -/
def Rises (ctx : RuntimeContext PeerTransport) : NodeInput → Prop
  | .call i => ∀ b, versionOf ctx b ≤ versionOf (exec ctx i).2 b ∧
      ∀ j k, j ≤ k →
        versionOf (handling ctx i ((takenBy ctx i.call).take j)) b ≤
          versionOf (handling ctx i ((takenBy ctx i.call).take k)) b
  | .network _ => True

section
variable {ctx : RuntimeContext PeerTransport} {call : ApiCall}

theorem InOrder.named (inOrder : InOrder ctx call) (b : BlockId) :
    ∀ msg ∈ takenBy ctx call, call.Stores b msg → versionOf ctx b ≤ msg.version :=
  fun _ member stores => (List.pairwise_cons.mp (inOrder b)).1 _ (mem_storedVersions member stores)

theorem InOrder.processed (inOrder : InOrder ctx call) (access : call ≠ .fence) (ord : IterOrder) (b : BlockId)
    {j k : Nat} (le : j ≤ k) :
    versionOf (processMessages ord ctx ((takenBy ctx call).take j)).2 b ≤
      versionOf (processMessages ord ctx ((takenBy ctx call).take k)).2 b := by
  rw [processMessages_eq, processMessages_eq]
  exact handled_rises (storesNamed_processMessage access ord b) (inOrder b) le

theorem InOrder.drained (inOrder : InOrder ctx .fence) (ord : IterOrder) (b : BlockId) {j k : Nat} (le : j ≤ k) :
    versionOf (drainMessages ord ctx ((takenBy ctx .fence).take j)).2 b ≤
      versionOf (drainMessages ord ctx ((takenBy ctx .fence).take k)).2 b := by
  rw [drainMessages_eq, drainMessages_eq]
  exact handled_rises (storesNamed_drainMessage ord b) (inOrder b) le

end

theorem rises_of_orderly (ctx : RuntimeContext PeerTransport) (input : NodeInput) (orderly : Orderly ctx input) :
    Rises ctx input := by
  cases input with
  | network t => trivial
  | call i =>
    intro b
    obtain ⟨ord, call⟩ := i
    cases call with
    | malloc size =>
      refine ⟨?_, fun _ _ _ => UInt64.le_refl _⟩
      exact lmMalloc_rel (standingRel_version fun x => versionOf ctx b ≤ x) ctx size (fun _ held => held)
        (UInt64.le_refl _)
    | free addr => exact ⟨UInt64.le_refl _, fun _ _ _ => UInt64.le_refl _⟩
    | read addr size =>
      have inOrder : InOrder ctx (.read addr size) := orderly
      exact ⟨lmRead_version (inOrder.named b) (UInt64.le_refl _) ord, fun _ _ le => inOrder.processed (by simp) ord b le⟩
    | write addr buf =>
      have inOrder : InOrder ctx (.write addr buf) := orderly.1
      exact ⟨lmWrite_version (inOrder.named b) (UInt64.le_refl _) ord (orderly.2 b),
        fun _ _ le => inOrder.processed (by simp) ord b le⟩
    | fence =>
      have inOrder : InOrder ctx .fence := orderly
      exact ⟨lmFence_version (inOrder.named b) (UInt64.le_refl _) ord, fun _ _ le => inOrder.drained ord b le⟩

/-- **Versions do not go back**: in every orderly run of a node, from any state it may be in,
no call and no message of a call takes a version back, so the version of a block in a state
of the run is at most the one it has at the end. -/
theorem versions_nondecreasing (ctx : RuntimeContext PeerTransport) (inputs : List NodeInput)
    (orderly : Along nodeStep Orderly ctx inputs) :
    Along nodeStep Rises ctx inputs ∧
      ∀ js ks, inputs = js ++ ks →
        ∀ b, versionOf (run nodeStep ctx js).2 b ≤ versionOf (run nodeStep ctx inputs).2 b := by
  have rises := orderly.mono rises_of_orderly
  refine ⟨rises, fun js ks split b => ?_⟩
  subst split
  rw [run_append]
  refine run_invariant (I := fun c => versionOf (run nodeStep ctx js).2 b ≤ versionOf c b) (fun c input step held => ?_)
    ((along_append ctx js ks).mp rises).2 (UInt64.le_refl _)
  cases input with
  | network t => exact held
  | call i => exact UInt64.le_trans held (step b).1

theorem inOrder_of_single {ctx : RuntimeContext PeerTransport} {call : ApiCall} {msg : ControlMessage}
    (only : takenBy ctx call = [msg]) (newer : ∀ b ∈ msg.blocks, versionOf ctx b ≤ msg.version) : InOrder ctx call := by
  intro b
  rw [only]
  by_cases stores : call.Stores b msg
  · simpa [storedVersions, stores] using newer b stores.2.1
  · simp [storedVersions, stores]

/-- Node 0 of two, with its first block allocated. -/
def homeNode : RuntimeContext PeerTransport :=
  (lmMalloc (.init { nodeId := 0, nrNodes := 2, blockSize := 4, localRegionSize := 16 }
    { memory := fun _ => Bytes.zeros 16 }) 4).2

/-- Node 1 has written to block 0 in WI mode for the `v`-th time. -/
def writtenAt (v : Version) : ControlMessage :=
  { opcode := .kInvalidateRange, sourceNode := 1, targetNode := 0, requestId := v, firstBlock := ⟨0, 0⟩
    lastBlock := ⟨0, 0⟩, version := v, mode := .kWI }

/-- The requests arrive one at a time, and node 0 reads its block after each. -/
def requestsArrive (versions : List Version) : List NodeInput :=
  versions.flatMap fun v =>
    [.network { memory := fun _ => Bytes.zeros 16, mailbox := fun _ => [writtenAt v] },
      .call ⟨.stored, .read ⟨0, 0, 0⟩ 4⟩]

theorem requestsInOrder_rise :
    Along nodeStep Orderly homeNode (requestsArrive [1, 2]) ∧ Along nodeStep Rises homeNode (requestsArrive [1, 2]) := by
  have orderly : Along nodeStep Orderly homeNode (requestsArrive [1, 2]) :=
    ⟨trivial, inOrder_of_single rfl (by decide +kernel), trivial, inOrder_of_single rfl (by decide +kernel), trivial⟩
  exact ⟨orderly, (versions_nondecreasing homeNode _ orderly).1⟩

/-- The first request is sent again and comes after the second. -/
theorem retriedRequest_falls :
    requestsArrive [1, 2, 1] = requestsArrive [1, 2] ++ requestsArrive [1] ∧
      versionOf (run nodeStep homeNode (requestsArrive [1, 2])).2 ⟨0, 0⟩ = 2 ∧
      versionOf (run nodeStep homeNode (requestsArrive [1, 2, 1])).2 ⟨0, 0⟩ = 1 :=
  ⟨rfl, by decide +kernel, by decide +kernel⟩

end LeoMem
