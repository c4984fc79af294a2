import LeoMem.Cluster.Origin

/-!
# Who owns a block

A node makes itself the owner of a block by a write to it in Adaptive mode and in
no other way (`exec_selfOwned`): what another node's request stores into its record
names that node. The write tells the home alone, so a node that owned the block
before goes on owning it. There is one owner in every run whose writes take no block
that another node still owns (`single_owner`).
-/

namespace LeoMem
open Lib RuntimeContext

/-! ## Ownership of one node -/

/-- A record by which `n` is itself the owner of the block. -/
def SelfOwned (n : NodeId) (m : BlockMeta) : Prop := m.ownerNode = n ∧ m.state = .kOwner

instance (n : NodeId) (m : BlockMeta) : Decidable (SelfOwned n m) := inferInstanceAs (Decidable (_ ∧ _))

/-- From a record by which `n` does not own the block to another such record. -/
theorem standingRel_selfOwned (n : NodeId) : StandingRel fun m m' => SelfOwned n m' → SelfOwned n m :=
  ⟨fun same owned => ⟨same.ownerNode ▸ owned.1, same.state ▸ owned.2⟩, fun first second owned => first (second owned)⟩

/-- A request of another node never makes this node the owner. -/
theorem handlerStores_selfOwned {n : NodeId} {msg : ControlMessage} (other : msg.sourceNode ≠ n) (b : BlockId) :
    HandlerStores (fun m m' => SelfOwned n m' → SelfOwned n m) msg b :=
  ⟨fun _ _ _ owned => absurd owned.2 (by simp [invalidateMeta]), fun _ _ _ owned => absurd owned.1 other,
    fun _ _ _ owned => absurd owned.1 other⟩

theorem prepareMeta_selfOwned (cfg : Config) (addr : GlobalAddr) (type : AccessType) (m : BlockMeta)
    (owned : SelfOwned cfg.nodeId (prepareMeta cfg addr type m)) : SelfOwned cfg.nodeId m := by
  unfold prepareMeta at owned
  split at owned
  · exact absurd owned.2 (by simp)
  · rename_i remote
    obtain ⟨owner, state⟩ := owned
    simp only at owner state
    split at owner
    · exact absurd owner remote
    · split at state
      · cases state
      · exact ⟨owner, state⟩

/-- A remote read takes its bytes from the home or from the recorded owner, another node. -/
theorem readStores_selfOwned (cfg : Config) (addr : GlobalAddr) (metas : List BlockId) (b : BlockId) :
    ReadStores (fun m m' => SelfOwned cfg.nodeId m' → SelfOwned cfg.nodeId m) cfg addr metas b :=
  ⟨fun _ _ owned => absurd owned.2 (by simp),
    fun _ _ other recorded member owned => absurd ((recorded b member).symm.trans owned.1) other⟩

/-- `n` stays wired and owns no block it did not own at `ctx`. -/
structure TakesNothing (n : NodeId) (ctx ctx' : RuntimeContext PeerTransport) : Prop where
  wired : Wired n ctx'
  owned : ∀ b, SelfOwned n (ctx'.blockTable.get b) → SelfOwned n (ctx.blockTable.get b)

namespace TakesNothing
variable {n : NodeId} {ctx mid : RuntimeContext PeerTransport}

theorem refl (wired : Wired n ctx) : TakesNothing n ctx ctx := ⟨wired, fun _ owned => owned⟩

theorem congr {ctx' : RuntimeContext PeerTransport} (held : TakesNothing n ctx mid) (config : ctx'.config = mid.config)
    (acks : ctx'.pendingControlAcks = mid.pendingControlAcks) (transport : ctx'.transport.wires = mid.transport.wires)
    (table : ctx'.blockTable = mid.blockTable) : TakesNothing n ctx ctx' :=
  ⟨held.wired.congr config acks transport, table ▸ held.owned⟩

theorem drive (held : TakesNothing n ctx mid) (ord : IterOrder) :
    TakesNothing n ctx (drivePendingControlAcks ord mid).2 :=
  ⟨held.wired.drive ord, (drivePendingControlAcks_table ord mid).symm ▸ held.owned⟩

theorem taken (held : TakesNothing n ctx mid) : TakesNothing n ctx (takeMessages mid) := ⟨held.wired.taken, held.owned⟩

theorem openAccess (wired : Wired n ctx) (ord : IterOrder) (addr : GlobalAddr) (size : UInt64) :
    TakesNothing n ctx (openAccess ord ctx addr size).2 :=
  openAccess_keeps (refl wired) (refl wired).taken
    (fun c msg member held => ⟨held.wired.handled (handled_processMessage ord c msg), fun b owned =>
      held.owned b ((handled_processMessage ord c msg).record_rel (standingRel_selfOwned n)
        (handlerStores_selfOwned (wired.takenMessages member) b) owned)⟩)
    (fun _ held => held.drive ord) addr size

theorem drainControl (held : TakesNothing n ctx mid) (ord : IterOrder) :
    TakesNothing n ctx (drainControl ord mid).2 :=
  drainControl_keeps held.taken
    (fun c msg member next => ⟨next.wired.handled (handled_drainMessage ord c msg), fun b owned =>
      next.owned b ((handled_drainMessage ord c msg).record_rel (standingRel_selfOwned n)
        (handlerStores_selfOwned (held.wired.takenMessages member) b) owned)⟩)
    (fun _ next => next.drive ord)

theorem touch (held : TakesNothing n ctx mid) (addr : GlobalAddr) (range : BlockRange) (type : AccessType) :
    TakesNothing n ctx (touchMetadata mid addr range type).2 := by
  refine ⟨held.wired.congr rfl rfl rfl, fun b owned => held.owned b ?_⟩
  refine touchMetadata_rel (standingRel_selfOwned n) mid addr range type (fun _ => ?_) owned
  exact held.wired.node ▸ prepareMeta_selfOwned mid.config addr type _

theorem lmRead (wired : Wired n ctx) (ord : IterOrder) (addr : GlobalAddr) (size : UInt64) :
    TakesNothing n ctx (lmRead ord ctx addr size).2 := by
  refine lmRead_rule (J := fun r => TakesNothing n ctx r.2) (openAccess wired ord addr size) (fun _ _ _ held => held)
    (fun c range _ _ held => ?_) (fun c range _ _ held => ?_)
  · have touched := held.touch addr range .kRead
    obtain ⟨frame, -, table, -⟩ := readLocal_spec _ (PeerTransport.readKeeps_wires _) addr size
    exact touched.congr frame.config frame.acks frame.transport table
  · have touched := held.touch addr range .kRead
    have frame := readRemote_frame (touchMetadata c addr range .kRead).2 (PeerTransport.readKeeps_wires _) ord addr
      size (range.ids addr.regionId) (touchMetadata c addr range .kRead).1
    refine ⟨touched.wired.congr frame.config frame.acks frame.transport, fun b owned => touched.owned b ?_⟩
    refine readRemote_rel (standingRel_selfOwned n) ord _ addr size (range.nodup_ids _) _ ?_ owned
    have node := touched.wired.node
    exact node ▸ readStores_selfOwned _ addr _ b

end TakesNothing

/-! ## Every call -/

/-- The options allow Adaptive mode: no override fixes another one. -/
def Config.Adapts (cfg : Config) : Prop :=
  cfg.coherenceModeOverride ≠ CoherenceMode.kWI.toInt ∧ cfg.coherenceModeOverride ≠ CoherenceMode.kSI.toInt

theorem adapts_of_decided {cfg : Config} {m : BlockMeta} (adaptive : decideCoherenceMode cfg m = .kAdaptive) :
    cfg.Adapts := by
  constructor <;> intro fixed <;> simp [decideCoherenceMode, fixed, CoherenceMode.toInt, CoherenceMode.ofInt] at adaptive

theorem observeMetas_decided {cfg : Config} {type : AccessType} {isLocal : Bool} {bids : List BlockId} {o : Observation}
    {mode : CoherenceMode} (member : mode ∈ (observeMetas cfg type isLocal bids o).1) :
    ∃ m, decideCoherenceMode cfg m = mode := by
  induction bids generalizing o with
  | nil => cases member
  | cons bid bids ih =>
    rcases List.mem_cons.mp member with rfl | later
    · exact ⟨_, rfl⟩
    · exact ih later

/-- The call makes its node the owner of `b`: a remote write that gets to its metadata and
finds the block in Adaptive mode. -/
def Invocation.Takes (ctx : RuntimeContext PeerTransport) (b : BlockId) (i : Invocation) : Prop :=
  match i.call with
  | .write addr buf => ∃ range opened, openAccess i.ord ctx addr buf.size = (.ok range, opened) ∧
      addr.homeNode ≠ opened.config.nodeId ∧
      (b, CoherenceMode.kAdaptive) ∈ (range.ids addr.regionId).zip (touchMetadata opened addr range .kWrite).1
  | _ => False

section
variable {n : NodeId} {ctx : RuntimeContext PeerTransport}

/-- What a write takes is a block of its range. -/
theorem Invocation.Takes.named {ord : IterOrder} {addr : GlobalAddr} {buf : Bytes} {b : BlockId}
    (takes : (⟨ord, .write addr buf⟩ : Invocation).Takes ctx b) : b ∈ accessIds ctx.config addr buf.size := by
  obtain ⟨range, mid, opened, -, decided⟩ := takes
  have config := (controlStep_openAccess controlKeeps_noObs ctx ord addr buf.size).config
  have inside := (List.of_mem_zip decided).1
  rw [opened] at config
  rw [openAccess_range opened, config] at inside
  exact inside

theorem lmWrite_selfOwned (wired : Wired n ctx) (ord : IterOrder) (addr : GlobalAddr) (buf : Bytes) :
    Wired n (lmWrite ord ctx addr buf).2 ∧
      ∀ b, SelfOwned n ((lmWrite ord ctx addr buf).2.blockTable.get b) →
        SelfOwned n (ctx.blockTable.get b) ∨ (⟨ord, .write addr buf⟩ : Invocation).Takes ctx b := by
  refine lmWrite_rule (I := TakesNothing n ctx)
    (J := fun r => Wired n r.2 ∧ ∀ b, SelfOwned n (r.2.blockTable.get b) →
      SelfOwned n (ctx.blockTable.get b) ∨ (⟨ord, .write addr buf⟩ : Invocation).Takes ctx b)
    (TakesNothing.openAccess wired ord addr buf.size) (fun _ c _ held => ?_) (fun c range _ _ held => ?_)
    (fun c range opened home held => ?_)
  · exact ⟨held.wired, fun b owned => Or.inl (held.owned b owned)⟩
  · have touched := held.touch addr range .kWrite
    obtain ⟨same, -⟩ := writeThrough_same (touchMetadata c addr range .kWrite).2 addr buf true
    have written := writeThrough_written (touchMetadata c addr range .kWrite).2 addr buf true
    have wires := (congrArg (fun w => PeerTransport.wires w.2) written).trans
      (PeerTransport.writeKeeps_wires.write _ _ _ _ _)
    have kept := touched.congr same.config same.acks wires same.table
    exact ⟨kept.wired, fun b owned => Or.inl (kept.owned b owned)⟩
  · have filled := openAccess_filled opened
    have touched := held.touch addr range .kWrite
    refine ⟨touched.wired.writeRemote ord addr filled range _, fun b owned => ?_⟩
    rcases writeRemote_record ord (touchMetadata c addr range .kWrite).2 addr filled range
      (touchMetadata c addr range .kWrite).1 b with same | ⟨mode, decided, stored⟩
    · rw [same] at owned
      exact Or.inl (touched.owned b owned)
    · rw [stored] at owned
      cases mode with
      | kWI => exact absurd owned.2 (by simp [applyWriteMeta])
      | kSI => exact absurd owned.2 (by simp [applyWriteMeta])
      | kAdaptive => exact Or.inr ⟨range, c, opened, home, decided⟩

theorem lmFence_takesNothing (wired : Wired n ctx) (ord : IterOrder) : TakesNothing n ctx (lmFence ord ctx).2 := by
  refine lmFence_keeps (fun c held => held.drainControl ord) (fun c held => held.congr rfl rfl rfl rfl)
    (fun c node held => ?_) (.refl wired)
  have flushed := flushDestination_flushed c node
  exact held.congr flushed.same.config flushed.same.acks (flushed.keeps PeerTransport.writeKeeps_wires)
    flushed.same.table

theorem lmMalloc_takesNothing (wired : Wired n ctx) (size : UInt64) : TakesNothing n ctx (lmMalloc ctx size).2 := by
  obtain ⟨config, -, acks, transport⟩ := lmMalloc_keeps ctx size
  refine ⟨wired.congr config acks (congrArg PeerTransport.wires transport), fun b => ?_⟩
  exact lmMalloc_rel (standingRel_selfOwned n) ctx size fun _ owned => absurd owned.2 (by simp)

/-- **Only an Adaptive write takes ownership**, whatever requests come in. -/
theorem exec_selfOwned (wired : Wired n ctx) (i : Invocation) :
    Wired n (exec ctx i).2 ∧
      ∀ b, SelfOwned n ((exec ctx i).2.blockTable.get b) →
        SelfOwned n (ctx.blockTable.get b) ∨ i.Takes ctx b := by
  have nothing : ∀ ctx', TakesNothing n ctx ctx' → Wired n ctx' ∧
      ∀ b, SelfOwned n (ctx'.blockTable.get b) → SelfOwned n (ctx.blockTable.get b) ∨ i.Takes ctx b :=
    fun _ kept => ⟨kept.wired, fun b owned => Or.inl (kept.owned b owned)⟩
  obtain ⟨ord, call⟩ := i
  cases call with
  | malloc size => exact nothing _ (lmMalloc_takesNothing wired size)
  | free addr => exact nothing _ (.refl wired)
  | read addr size => exact nothing _ (.lmRead wired ord addr size)
  | write addr buf => exact lmWrite_selfOwned wired ord addr buf
  | fence => exact nothing _ (lmFence_takesNothing wired ord)

end

/-! ## The cluster -/

namespace Cluster

/-- By its own record node `n` is the owner of `b`. -/
def Owns (c : Cluster) (n : NodeId) (b : BlockId) : Prop := SelfOwned n ((c.nodes n).blockTable.get b)

instance (c : Cluster) (n : NodeId) (b : BlockId) : Decidable (c.Owns n b) := inferInstanceAs (Decidable (SelfOwned _ _))

/-- At most one node owns each block. -/
def SingleOwner (c : Cluster) : Prop := ∀ b n m, c.Owns n b → c.Owns m b → n = m

/-- Node `n` has handled its messages, and its requests are acknowledged. -/
def QuietAt (c : Cluster) (n : NodeId) : Prop :=
  c.network.mailbox n = [] ∧ (c.nodes n).pendingControlAcks.entries = []

instance (c : Cluster) (n : NodeId) : Decidable (c.QuietAt n) := inferInstanceAs (Decidable (_ ∧ _))

/-- All posted messages are handled and acknowledged. -/
structure Quiescent (c : Cluster) : Prop where
  inFlight : c.network.inFlight = []
  nodes : ∀ n, n < (c.nodes n).config.nrNodes → c.QuietAt n

/-- No other node owns a block this call takes. -/
def TakesUnowned (c : Cluster) : ClusterInput → Prop
  | .call n i => ∀ b, i.Takes (c.view n) b → ∀ m, m ≠ n → ¬ c.Owns m b
  | .deliver _ => True

/-- Every node is wired. -/
def AllWired (c : Cluster) : Prop := ∀ n, Wired n (c.view n)

theorem allWired_init (cfg : ClusterConfig) : (init cfg).AllWired :=
  fun n => ⟨cfg.own n, fun _ _ held => (by cases held),
    ⟨fun _ member => (by cases member), fun _ _ member => (by cases member)⟩⟩

theorem AllWired.step {c : Cluster} (wired : c.AllWired) (input : ClusterInput) : (c.step input).2.AllWired := by
  intro n
  cases input with
  | deliver k => exact ⟨(wired n).node, (wired n).made, (wired n).others.deliver k⟩
  | call m i =>
    have next := (exec_selfOwned (wired m) i).1
    by_cases same : n = m
    · subst same
      rw [view_call]
      exact next
    · have nodes := nodes_call_of_ne c same i
      have node : ((c.step (.call m i)).2.nodes n).config.nodeId = n := nodes ▸ (wired n).node
      have made : MadeBy n ((c.step (.call m i)).2.nodes n).pendingControlAcks := nodes ▸ (wired n).made
      exact ⟨node, made, next.others⟩

/-- A node owns after a step what it owned before, or what its own call takes. -/
theorem owns_step {c : Cluster} (wired : c.AllWired) {input : ClusterInput} {n : NodeId} {b : BlockId}
    (owns : (c.step input).2.Owns n b) :
    c.Owns n b ∨ ∃ i, input = .call n i ∧ i.Takes (c.view n) b := by
  cases input with
  | deliver k => exact Or.inl owns
  | call m i =>
    by_cases same : n = m
    · subst same
      have owned : SelfOwned n ((exec (c.view n) i).2.blockTable.get b) := by
        rw [← view_call]
        exact owns
      rcases (exec_selfOwned (wired n) i).2 b owned with before | takes
      · exact Or.inl before
      · exact Or.inr ⟨i, rfl, takes⟩
    · unfold Owns at owns
      rw [nodes_call_of_ne c same] at owns
      exact Or.inl owns

theorem SingleOwner.step {c : Cluster} (wired : c.AllWired) (single : c.SingleOwner) {input : ClusterInput}
    (unowned : c.TakesUnowned input) : (c.step input).2.SingleOwner := by
  intro b n m first second
  rcases owns_step wired first with before | ⟨i, rfl, takes⟩
  · rcases owns_step wired second with before' | ⟨i, rfl, takes⟩
    · exact single b n m before before'
    · by_contra other
      exact unowned b takes n other before
  · rcases owns_step wired second with before' | ⟨j, same, -⟩
    · by_contra other
      exact unowned b takes m (Ne.symm other) before'
    · cases same
      rfl

end Cluster

/-- **Single owner**: in every run whose calls take no block that another node owns, each
block has at most one owner in the state reached, quiescent or not. -/
theorem single_owner (cfg : ClusterConfig) (is : List ClusterInput)
    (unowned : Along Cluster.step Cluster.TakesUnowned (Cluster.init cfg) is) :
    (Cluster.after cfg is).SingleOwner :=
  (run_invariant (I := fun c : Cluster => c.AllWired ∧ c.SingleOwner)
    (fun _ input guard held => ⟨held.1.step input, held.2.step held.1 guard⟩) unowned
    ⟨Cluster.allWired_init cfg, fun _ _ _ owns => absurd owns.2 (by simp [Cluster.init, RuntimeContext.init])⟩).2

/-- A node that has made no call owns nothing. -/
theorem not_owns_of_idle (cfg : ClusterConfig) (is : List ClusterInput) {n : NodeId}
    (idle : ∀ m i, ClusterInput.call m i ∈ is → m ≠ n) (b : BlockId) : ¬ (Cluster.after cfg is).Owns n b := by
  unfold Cluster.Owns Cluster.after
  rw [Cluster.nodes_run_of_idle is idle]
  exact fun owned => absurd owned.2 (by simp [Cluster.init, RuntimeContext.init])

/-- Three nodes in Adaptive mode. -/
def adaptiveCluster : ClusterConfig where
  node n := { nodeId := n, nrNodes := 3, blockSize := 4, localRegionSize := 16, coherenceModeOverride := 2 }
  own _ := rfl

/-- Node 1 writes at the start of node 0's region and node 2 at `addr`; node 0 takes both
requests, and each writer its acknowledgement. -/
def twoWriters (addr : GlobalAddr) : List ClusterInput :=
  [.call 1 ⟨.stored, .write ⟨0, 0, 0⟩ (.ofList [7, 8])⟩, .call 2 ⟨.stored, .write addr (.ofList [9])⟩,
    .deliver 0, .deliver 0, .call 0 ⟨.stored, .fence⟩, .deliver 0, .deliver 0, .call 1 ⟨.stored, .fence⟩,
    .call 2 ⟨.stored, .fence⟩]

theorem eq_of_lt_three {n : NodeId} (small : n < 3) : n = 0 ∨ n = 1 ∨ n = 2 := by
  simp only [UInt16.lt_iff_toNat_lt, ← UInt16.toNat_inj] at small ⊢
  change n.toNat < 3 at small
  change n.toNat = 0 ∨ n.toNat = 1 ∨ n.toNat = 2
  omega

/-- Quiescence is seen at the three nodes. -/
theorem quiescent_of_nodes {is : List ClusterInput}
    (inFlight : (Cluster.after adaptiveCluster is).network.inFlight = [])
    (zero : (Cluster.after adaptiveCluster is).QuietAt 0) (one : (Cluster.after adaptiveCluster is).QuietAt 1)
    (two : (Cluster.after adaptiveCluster is).QuietAt 2) : (Cluster.after adaptiveCluster is).Quiescent := by
  refine ⟨inFlight, fun n member => ?_⟩
  rw [Cluster.after_config] at member
  rcases eq_of_lt_three member with rfl | rfl | rfl
  · exact zero
  · exact one
  · exact two

/-- Node 2 writes the second block, which node 1 does not own. -/
theorem twoWriters_single_owner :
    (Cluster.after adaptiveCluster (twoWriters ⟨0, 0, 4⟩)).Quiescent ∧
      (Cluster.after adaptiveCluster (twoWriters ⟨0, 0, 4⟩)).SingleOwner := by
  refine ⟨quiescent_of_nodes (by decide +kernel) (by decide +kernel) (by decide +kernel) (by decide +kernel),
    single_owner adaptiveCluster _ ?_⟩
  simp only [twoWriters, along_cons, along_nil, and_true]
  refine ⟨fun b _ m _ => not_owns_of_idle adaptiveCluster [] (by simp) b, fun b takes m other => ?_, trivial,
    trivial, fun _ => False.elim, trivial, trivial, fun _ => False.elim, fun _ => False.elim⟩
  by_cases first : m = 1
  · have block : b ∈ accessIds (adaptiveCluster.node 2) ⟨0, 0, 4⟩ 1 := takes.named
    have only : accessIds (adaptiveCluster.node 2) ⟨0, 0, 4⟩ 1 = [⟨0, 1⟩] := by decide +kernel
    rw [only] at block
    rw [first, List.mem_singleton.mp block]
    decide +kernel
  · refine not_owns_of_idle adaptiveCluster ((twoWriters ⟨0, 0, 4⟩).take 1) (fun n i member => ?_) b
    cases List.mem_singleton.mp member
    exact Ne.symm first

/-- Node 2 writes the block node 1 owns. All is handled and acknowledged, and both own it. -/
theorem twoWriters_two_owners :
    (Cluster.after adaptiveCluster (twoWriters ⟨0, 0, 0⟩)).Quiescent ∧
      ¬ (Cluster.after adaptiveCluster (twoWriters ⟨0, 0, 0⟩)).SingleOwner := by
  refine ⟨quiescent_of_nodes (by decide +kernel) (by decide +kernel) (by decide +kernel) (by decide +kernel),
    fun single => ?_⟩
  have first : (Cluster.after adaptiveCluster (twoWriters ⟨0, 0, 0⟩)).Owns 1 ⟨0, 0⟩ := by decide +kernel
  have second : (Cluster.after adaptiveCluster (twoWriters ⟨0, 0, 0⟩)).Owns 2 ⟨0, 0⟩ := by decide +kernel
  exact absurd (single _ _ _ first second) (by decide)

end LeoMem
