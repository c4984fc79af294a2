import LeoMem.Cluster.Settling
import LeoMem.Rdma.Network

/-!
# A cluster on the RDMA transport

The nodes of a cluster over the regions and the `control` directory they share, one call
after the other: a call drains, creates and writes its control files in one step, so calls of
separate processes that overlap are not covered. Such a cluster refines `Cluster`: every run of it is a run of the cluster
in which each call comes right after the deliveries of what it drains, with the same
answers (`rdma_refines`). So what holds of every run of `Cluster` holds here: no request is
lost, and fences alone settle all of them.
-/

namespace LeoMem
open Lib RuntimeContext

structure RdmaCluster where
  nodes : NodeId → RuntimeContext Unit
  network : RdmaNet

namespace RdmaCluster

def init (cfg : ClusterConfig) : RdmaCluster where
  nodes n := .init (cfg.node n) ()
  network := { memory := fun n => Bytes.zeros (cfg.node n).localRegionSize }

/-- A node over the network as it is. -/
def view (c : RdmaCluster) (n : NodeId) : RuntimeContext RdmaNet := (c.nodes n).withTransport c.network

/-- One call of a node, with all that it does to the control directory. -/
def step (c : RdmaCluster) (call : NodeId × Invocation) : Response × RdmaCluster :=
  let r := exec (c.view call.1) call.2
  (r.1, { nodes := Function.update c.nodes call.1 (r.2.withTransport ()), network := r.2.transport })

/-- The cluster after the calls. -/
def after (cfg : ClusterConfig) (calls : List (NodeId × Invocation)) : RdmaCluster := (run step (init cfg) calls).2

/-- The caller is a node, and its counter has numbers left for what the call may post. -/
def Numbered (c : RdmaCluster) (call : NodeId × Invocation) : Prop :=
  call.1 ≠ kInvalidNodeId ∧ (c.network.control.sequence call.1).toNat + callPosts (c.nodes call.1) < 2 ^ 64

instance (c : RdmaCluster) (call : NodeId × Invocation) : Decidable (c.Numbered call) :=
  inferInstanceAs (Decidable (_ ∧ _))

/-- Between calls `a` is the same cluster, with every file a message on its way. -/
structure Refines (c : RdmaCluster) (a : Cluster) : Prop where
  nodes : a.nodes = c.nodes
  own : ∀ n, (c.nodes n).config.nodeId = n
  made : ∀ n, MadeBy n (c.nodes n).pendingControlAcks
  memory : a.network.memory = c.network.memory
  calm : c.network.thrown = none
  mirrors : ∃ queues, Mirrors c.network.control queues
  idle : ∀ n, a.network.mailbox n = []
  stored : a.network.inFlight.Perm c.network.control.stored

end RdmaCluster

theorem run_deliver (ks : List Nat) (a : Cluster) :
    (run Cluster.step a (ks.map .deliver)).2 = { a with network := ks.foldl PeerTransport.deliver a.network } := by
  induction ks generalizing a with
  | nil => rfl
  | cons k ks ih =>
    rw [List.map_cons, run_cons]
    exact ih _

namespace RdmaCluster.Refines
variable {c : RdmaCluster} {a : Cluster}

/-- The messages of the files addressed to a node are for that node. -/
theorem target (refines : c.Refines a) {n : NodeId} {name : Text} (waits : name ∈ c.network.control.waitingNames n) :
    (nameMessage c.network.control name).targetNode = n := by
  obtain ⟨queues, mirrors⟩ := refines.mirrors
  obtain ⟨source, e, queued, rfl⟩ := mirrors.mem_waitingNames.mp waits
  rw [mirrors.nameMessage_eq queued]
  exact (mirrors.ends source n e queued).2.1

/-- What the drains of a call take can be delivered right before it. -/
theorem exists_delivered (refines : c.Refines a) {call : NodeId × Invocation} (numbered : c.Numbered call) (d : Nat) :
    ∃ ks : List Nat, NetRefines (c.nodes call.1).config d (callPosts (c.nodes call.1)) c.network
      (ks.foldl PeerTransport.deliver a.network) := by
  obtain ⟨n, i⟩ := call
  have own : (c.nodes n).config.nodeId = n := refines.own n
  let limit := if (c.nodes n).config.rdmaEnableControlPath = false then 0 else 64 * d
  have due : dueNames (c.nodes n).config d c.network.control = takenNames c.network.control n limit := by
    unfold dueNames takenNames
    rw [own]
    split
    · rename_i off
      simp [limit, off]
    · rename_i on
      simp [limit, on]
  have split := refines.stored.trans (stored_without c.network.control n limit)
  have target : ∀ msg ∈ (takenNames c.network.control n limit).map (nameMessage c.network.control), msg.targetNode = n := by
    intro msg member
    obtain ⟨name, taken, rfl⟩ := List.mem_map.mp member
    exact refines.target (List.mem_of_mem_take taken)
  obtain ⟨ks, flight, memory, mailbox⟩ := PeerTransport.exists_deliveries split target
  have here : (ks.foldl PeerTransport.deliver a.network).mailbox n =
      (takenNames c.network.control n limit).map (nameMessage c.network.control) := by
    rw [mailbox, Function.update_self, refines.idle, List.nil_append]
  refine ⟨ks, memory.trans refines.memory, refines.calm, refines.mirrors, ?_, fun node other => ?_, ?_, ?_⟩
  · rw [own, here, due]
  · rw [own] at other
    rw [mailbox, Function.update_of_ne other, refines.idle]
  · rw [own, here]
    exact (flight.append_left _).trans (stored_without c.network.control n limit).symm
  · rw [own]
    exact numbered.2

/-- **One call** of the RDMA cluster is the call after the deliveries. -/
theorem call (refines : c.Refines a) {n : NodeId} {i : Invocation} (numbered : c.Numbered (n, i)) {ks : List Nat}
    (delivered : NetRefines (c.nodes n).config (drains (c.view n) i).length (callPosts (c.nodes n)) c.network
      (ks.foldl PeerTransport.deliver a.network)) :
    (c.step (n, i)).2.Refines ((run Cluster.step a (ks.map .deliver)).2.step (.call n i)).2 ∧
      ((run Cluster.step a (ks.map .deliver)).2.step (.call n i)).1 = (c.step (n, i)).1 := by
  have own : (c.nodes n).config.nodeId = n := refines.own n
  have named : (c.nodes n).config.nodeId ≠ kInvalidNodeId := fun invalid => numbered.1 (own ▸ invalid)
  have alike : Alike (c.nodes n).config (·.sourceNode = (c.nodes n).config.nodeId) (NetRefines (c.nodes n).config)
      (0 + (drains (c.view n) i).length) (0 + callPosts (c.view n)) (c.view n) (ks.foldl PeerTransport.deliver a.network) := by
    rw [Nat.zero_add, Nat.zero_add]
    exact ⟨rfl, own.symm ▸ refines.made n, delivered⟩
  obtain ⟨t, same, after⟩ := exec_alike (rdmaNet_sim named) i alike
  have view : (run Cluster.step a (ks.map .deliver)).2.view n =
      (c.view n).withTransport (ks.foldl PeerTransport.deliver a.network) := by
    rw [run_deliver]
    exact congrArg (fun nodes => (nodes n).withTransport (ks.foldl PeerTransport.deliver a.network)) refines.nodes
  have stepped : (run Cluster.step a (ks.map .deliver)).2.step (.call n i) = ((exec (c.view n) i).1,
      { nodes := Function.update c.nodes n ((exec (c.view n) i).2.withTransport ()), network := t }) := by
    have nodes : (run Cluster.step a (ks.map .deliver)).2.nodes = c.nodes := by
      rw [run_deliver]
      exact refines.nodes
    simp only [Cluster.step, view, same, nodes]
    rfl
  have idle := after.rel.due
  rw [dueNames, Nat.mul_zero, List.take_zero, ite_self, List.map_nil] at idle
  have stored := after.rel.stored
  rw [idle, List.nil_append] at stored
  refine ⟨?_, congrArg Prod.fst stepped⟩
  rw [stepped]
  refine ⟨rfl, fun m => ?_, fun m => ?_, after.rel.memory, after.rel.calm, after.rel.mirrors, fun m => ?_, stored⟩
  · simp only [RdmaCluster.step]
    by_cases here : m = n
    · rw [here, Function.update_self]
      exact (congrArg Config.nodeId after.config).trans own
    · rw [Function.update_of_ne here]
      exact refines.own m
  · simp only [RdmaCluster.step]
    by_cases here : m = n
    · have made := after.made
      rw [own] at made
      rw [here, Function.update_self]
      exact made
    · rw [Function.update_of_ne here]
      exact refines.made m
  · by_cases here : m = n
    · rw [here]
      exact own ▸ idle
    · exact after.rel.idle m (fun same => here (same.trans own))

end RdmaCluster.Refines

/-- The calls among the inputs. -/
def apiCalls (inputs : List ClusterInput) : List (NodeId × Invocation) :=
  inputs.filterMap fun
    | .call n i => some (n, i)
    | .deliver _ => none

/-- The answers to the calls of a run. -/
def callAnswers (events : List (ClusterInput × Response)) : List Response :=
  events.filterMap fun
    | (.call _ _, r) => some r
    | (.deliver _, _) => none

/-- Deliveries answer no call. -/
theorem callAnswers_deliver (a : Cluster) (ks : List Nat) (inputs : List ClusterInput) :
    callAnswers (trace Cluster.step a (ks.map .deliver ++ inputs)) =
      callAnswers (trace Cluster.step (run Cluster.step a (ks.map .deliver)).2 inputs) := by
  induction ks generalizing a with
  | nil => rfl
  | cons k ks ih => exact ih _

/-- **Every run** of the RDMA cluster, from related states. -/
theorem RdmaCluster.Refines.run {c : RdmaCluster} {a : Cluster} (refines : c.Refines a)
    {calls : List (NodeId × Invocation)} (numbered : Along RdmaCluster.step RdmaCluster.Numbered c calls) :
    ∃ inputs, apiCalls inputs = calls ∧
      callAnswers (trace Cluster.step a inputs) = (Lib.run RdmaCluster.step c calls).1 ∧
      (Lib.run RdmaCluster.step c calls).2.Refines (Lib.run Cluster.step a inputs).2 := by
  induction calls generalizing c a with
  | nil => exact ⟨[], rfl, rfl, refines⟩
  | cons call calls ih =>
    obtain ⟨n, i⟩ := call
    obtain ⟨here, later⟩ := numbered
    obtain ⟨ks, delivered⟩ := refines.exists_delivered here (drains (c.view n) i).length
    obtain ⟨next, answer⟩ := refines.call here delivered
    obtain ⟨inputs, same, answers, final⟩ := ih next later
    have skipped : apiCalls (ks.map .deliver) = [] := by simp [apiCalls]
    refine ⟨ks.map .deliver ++ .call n i :: inputs, ?_, ?_, ?_⟩
    · rw [apiCalls, List.filterMap_append, ← apiCalls, skipped, List.nil_append]
      exact congrArg ((n, i) :: ·) same
    · rw [callAnswers_deliver]
      exact congrArg₂ List.cons answer answers
    · rw [run_append]
      exact final

/-- A file addressed to the message's target holds it. -/
def ControlDir.Holds (dir : ControlDir) (msg : ControlMessage) : Prop :=
  ∃ name ∈ dir.waitingNames msg.targetNode, nameMessage dir name = msg

namespace RdmaCluster
variable {c : RdmaCluster} {a : Cluster} {nodes : NodeId}

theorem Refines.holds (refines : c.Refines a) {msg : ControlMessage} (member : msg ∈ c.network.control.stored) :
    c.network.control.Holds msg := by
  obtain ⟨queues, mirrors⟩ := refines.mirrors
  obtain ⟨name, key, rfl⟩ := List.mem_map.mp member
  obtain ⟨content, found⟩ := Option.isSome_iff_exists.mp (AList.lookup_isSome.mpr (AList.mem_keys.mpr key))
  obtain ⟨source, target, e, queued, rfl, -⟩ := (mirrors.file name content).mp found
  refine ⟨_, ?_, rfl⟩
  rw [mirrors.nameMessage_eq queued, (mirrors.ends source target e queued).2.1]
  exact mirrors.mem_waitingNames.mpr ⟨source, e, queued, rfl⟩

/-- A cluster of the model that the RDMA cluster refines, with no request lost. -/
def Sound (nodes : NodeId) (c : RdmaCluster) : Prop := ∃ a, c.Refines a ∧ a.AllAwaited nodes

end RdmaCluster

namespace PeerTransport

theorem inFlight_subset_post (cfg : Config) (msg : ControlMessage) (t : PeerTransport) :
    t.inFlight ⊆ (t.postControlMessage cfg msg).2.inFlight := by
  unfold postControlMessage
  split
  · exact List.Subset.refl _
  · split
    · exact List.Subset.refl _
    · exact List.subset_append_left _ _

end PeerTransport

/-- A fence takes nothing back that is on its way. -/
theorem lmFence_inFlight {msg : ControlMessage} {ctx : RuntimeContext PeerTransport} (ord : IterOrder)
    (flying : msg ∈ ctx.transport.inFlight) : msg ∈ (lmFence ord ctx).2.transport.inFlight := by
  have post : ∀ (c : RuntimeContext PeerTransport) m, msg ∈ c.transport.inFlight → msg ∈ (c.post m).2.transport.inFlight :=
    fun c m held => PeerTransport.inFlight_subset_post c.config m c.transport held
  refine lmFence_keeps (P := fun c : RuntimeContext PeerTransport => msg ∈ c.transport.inFlight)
    (fun c held => ?_) (fun _ held => held)
    (fun c node held => ?_) flying
  · refine drainControl_keeps (I := fun c : RuntimeContext PeerTransport => msg ∈ c.transport.inFlight) ?_
      (fun c m _ held => ?_) fun c held => ?_
    · exact (PeerTransport.drain_inFlight c.config 64 c.transport).symm ▸ held
    · have handled := handled_drainMessage ord c m
      generalize drainMessage ord c m = r at handled
      cases handled with
      | completed => exact held
      | acknowledged _ _ _ => exact post _ _ held
      | ignored => exact held
    · unfold drivePendingControlAcks
      simp only
      split
      · exact held
      · exact postAll_keeps (fun c m _ held => post c m held) held
  · have flight : (flushDestination c node).2.transport.inFlight = c.transport.inFlight :=
      congrArg Prod.fst ((flushDestination_flushed c node).keeps PeerTransport.writeKeeps_wires)
    exact flight ▸ held

namespace RdmaCluster
variable {c : RdmaCluster} {a : Cluster} {nodes : NodeId}

/-- What the files hold, and what may still be sent again. -/
def weight (nodes : NodeId) (c : RdmaCluster) : Nat :=
  weigh c.network.control.stored + ∑ n ∈ (members nodes).toFinset, 2 * retriesLeft (c.nodes n).pendingControlAcks

end RdmaCluster

theorem weigh_perm {l l' : List ControlMessage} (perm : l.Perm l') : weigh l = weigh l' :=
  (perm.map _).sum_eq

/-- The weight of a cluster where messages wait at one node only. -/
theorem Cluster.weight_of_single {nodes n : NodeId} (inside : n < nodes) {x : Cluster}
    (idle : ∀ m, m ≠ n → x.network.mailbox m = []) :
    x.weight nodes = weigh (x.network.mailbox n ++ x.network.inFlight) +
      ∑ m ∈ (members nodes).toFinset, 2 * retriesLeft (x.nodes m).pendingControlAcks := by
  have member : n ∈ (members nodes).toFinset := List.mem_toFinset.mpr (mem_members.mpr inside)
  have single : ∑ m ∈ (members nodes).toFinset, weigh (x.network.mailbox m) = weigh (x.network.mailbox n) := by
    refine Finset.sum_eq_single n (fun m _ other => ?_) fun absent => absurd member absent
    rw [idle m other]
    rfl
  unfold Cluster.weight
  rw [Finset.sum_add_distrib, single, weigh_append]
  omega

namespace RdmaCluster
variable {c : RdmaCluster} {a : Cluster} {nodes : NodeId}

theorem Refines.weight_eq (refines : c.Refines a) {n : NodeId} (inside : n < nodes) : a.weight nodes = c.weight nodes := by
  rw [Cluster.weight_of_single inside fun m _ => refines.idle m, refines.idle, List.nil_append, weigh_perm refines.stored,
    refines.nodes]
  rfl

/-- A file waits for the node. -/
def Ready (c : RdmaCluster) (n : NodeId) : Prop := ∃ msg ∈ c.network.control.stored, msg.targetNode = n

/-- A fence of one of the nodes, with numbers left for what it may post. -/
def Fences (nodes : NodeId) (c : RdmaCluster) (call : NodeId × Invocation) : Prop :=
  c.Numbered call ∧ call.1 < nodes ∧ call.2.call = .fence

theorem drains_fence_ne_nil {ω : Type} [Transport ω] {ctx : RuntimeContext ω} (ready : ctx.initialized = true)
    (ord : IterOrder) : 1 ≤ (drains ctx ⟨ord, .fence⟩).length := by
  change 1 ≤ (fenceDrains ord ctx).length
  unfold fenceDrains
  rw [if_neg (by simp [ready])]
  simp only
  split <;> simp

/-- **One fence**: it keeps the cluster sound, pays for what it takes in, and leaves the files of the
others alone. -/
theorem Sound.fence (sound : c.Sound nodes) {call : NodeId × Invocation} (fences : Fences nodes c call) :
    (c.step call).2.Sound nodes ∧ (c.step call).2.weight nodes ≤ c.weight nodes ∧
      (c.Ready call.1 → (c.step call).2.weight nodes < c.weight nodes) ∧
      ∀ m, call.1 ≠ m → c.Ready m → (c.step call).2.Ready m := by
  obtain ⟨a, refines, held⟩ := sound
  obtain ⟨n, ord, kind⟩ := call
  obtain ⟨numbered, inside, rfl⟩ := fences
  have inside : n < nodes := inside
  obtain ⟨ks, delivered⟩ := refines.exists_delivered numbered (drains (c.view n) ⟨ord, .fence⟩).length
  obtain ⟨next, -⟩ := refines.call numbered delivered
  have reached : (run Cluster.step a (ks.map .deliver)).2 =
      { a with network := ks.foldl PeerTransport.deliver a.network } := run_deliver ks a
  have heldThen : (run Cluster.step a (ks.map .deliver)).2.AllAwaited nodes := by
    refine run_invariant (fun _ input member held => held.step input member) (along_of_inputs (fun input member => ?_) a) held
    obtain ⟨k, -, rfl⟩ := List.mem_map.mp member
    exact trivial
  generalize (run Cluster.step a (ks.map .deliver)).2 = b at next reached heldThen
  subst reached
  have own : (c.nodes n).config.nodeId = n := refines.own n
  obtain ⟨kept, lighter⟩ := (heldThen.view inside).lmFence (heldThen.ready n) ord
  have after := heldThen.call ⟨ord, .fence⟩ kept
  have paid := Cluster.weight_call (i := ⟨ord, .fence⟩) inside lighter
  have before : Cluster.weight nodes { a with network := ks.foldl PeerTransport.deliver a.network } = c.weight nodes := by
    have stored := delivered.stored
    rw [own] at stored
    rw [Cluster.weight_of_single inside fun m other => delivered.idle m (fun same => other (same.trans own)),
      weigh_perm stored, refines.nodes]
    rfl
  rw [before, next.weight_eq inside] at paid
  refine ⟨⟨_, next, after⟩, by omega, ?_, ?_⟩
  · rintro ⟨msg, stored, rfl⟩
    obtain ⟨name, waits, -⟩ := refines.holds stored
    have member := heldThen.member _ inside
    have path : (c.nodes msg.targetNode).config.rdmaEnableControlPath = true := by
      rw [← refines.nodes]
      exact member.controlPath
    have initialized : (c.view msg.targetNode).initialized = true := by
      change (c.nodes msg.targetNode).initialized = true
      rw [← refines.nodes]
      exact held.ready _
    have due := delivered.due
    rw [own, dueNames, if_neg (by simp [path]), own] at due
    have some : 0 < ((c.network.control.waitingNames msg.targetNode).take
        (64 * (drains (c.view msg.targetNode) ⟨ord, .fence⟩).length)).length := by
      have := drains_fence_ne_nil initialized ord
      have := List.length_pos_of_mem waits
      rw [List.length_take]
      omega
    have waiting := congrArg List.length due
    rw [List.length_map] at waiting
    change _ + min 64 ((ks.foldl PeerTransport.deliver a.network).mailbox msg.targetNode).length ≤ _ at paid
    rw [waiting] at paid
    omega
  · rintro m other ⟨msg, stored, rfl⟩
    have here : msg ∈ (ks.foldl PeerTransport.deliver a.network).mailbox n ++
        (ks.foldl PeerTransport.deliver a.network).inFlight := by
      have perm := delivered.stored
      rw [own] at perm
      exact perm.mem_iff.mpr stored
    have flying : msg ∈ (ks.foldl PeerTransport.deliver a.network).inFlight := by
      refine (List.mem_append.mp here).resolve_left fun waiting => other ?_
      exact (heldThen.routed.mailbox n msg waiting).1.symm
    refine ⟨msg, next.stored.mem_iff.mp ?_, rfl⟩
    exact lmFence_inFlight ord flying

theorem fences_progress (nodes : NodeId) :
    Progresses step (Fences nodes) Prod.fst (Sound nodes) (weight nodes) Ready where
  keeps _ _ fences sound := (sound.fence fences).1
  weight _ _ fences sound := (sound.fence fences).2.1
  moves _ _ fences sound := (sound.fence fences).2.2.1
  stays _ _ m fences sound := (sound.fence fences).2.2.2 m

/-- Without files no request is pending, and the cluster has no weight. -/
theorem Sound.settled (sound : c.Sound nodes) (none : c.network.control.stored = []) (n : NodeId) :
    (c.nodes n).pendingControlAcks = ∅ := by
  obtain ⟨a, refines, held⟩ := sound
  have flight : a.network.inFlight = [] := List.perm_nil.mp (none ▸ refines.stored)
  rw [← refines.nodes]
  exact held.settled flight refines.idle n

end RdmaCluster

end LeoMem
