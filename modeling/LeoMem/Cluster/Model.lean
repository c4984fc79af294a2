import LeoMem.Lib.Run
import LeoMem.Api.Records

/-!
# A cluster

Nodes that run the runtime over one network: each call of a node is one step, and
so is each delivery of a control message, in any order.
-/

namespace LeoMem
open Lib RuntimeContext

/-- The ids of a cluster of `nodes` nodes. -/
def members (nodes : NodeId) : List NodeId := (List.range nodes.toNat).map UInt16.ofNat

theorem mem_members {nodes n : NodeId} : n ∈ members nodes ↔ n < nodes := by
  simp only [members, List.mem_map, List.mem_range, UInt16.lt_iff_toNat_lt]
  constructor
  · rintro ⟨i, below, rfl⟩
    rw [UInt16.toNat_ofNat']
    exact lt_of_le_of_lt (Nat.mod_le _ _) below
  · intro below
    exact ⟨n.toNat, below, UInt16.ofNat_toNat⟩

theorem nodup_members (nodes : NodeId) : (members nodes).Nodup := by
  refine List.Nodup.map_on (fun i low j high same => ?_) List.nodup_range
  have size := nodes.toNat_lt
  have small : ∀ i ∈ List.range nodes.toNat, i % 2 ^ 16 = i := by
    intro i member
    exact Nat.mod_eq_of_lt (lt_trans (List.mem_range.mp member) size)
  have values := congrArg UInt16.toNat same
  rw [UInt16.toNat_ofNat', UInt16.toNat_ofNat', small i low, small j high] at values
  exact values

/-- The options of every node, under its own id. -/
structure ClusterConfig where
  node : NodeId → Config
  own : ∀ n, (node n).nodeId = n

structure Cluster where
  nodes : NodeId → RuntimeContext Unit
  network : PeerTransport

inductive ClusterInput where
  | call (node : NodeId) (i : Invocation)
  /-- The network hands over the `k`-th message on its way. -/
  | deliver (k : Nat)

namespace Cluster

def init (cfg : ClusterConfig) : Cluster where
  nodes n := .init (cfg.node n) ()
  network := { memory := fun n => Bytes.zeros (cfg.node n).localRegionSize }

/-- A node over the network as it is. -/
def view (c : Cluster) (n : NodeId) : RuntimeContext PeerTransport := (c.nodes n).withTransport c.network

def step (c : Cluster) : ClusterInput → Response × Cluster
  | .call n i =>
    let r := exec (c.view n) i
    (r.1, { nodes := Function.update c.nodes n (r.2.withTransport ()), network := r.2.transport })
  | .deliver k => (.status .kOk, { c with network := c.network.deliver k })

/-- The cluster after the inputs `is`. -/
def after (cfg : ClusterConfig) (is : List ClusterInput) : Cluster := (run step (init cfg) is).2

theorem view_call (c : Cluster) (n : NodeId) (i : Invocation) :
    (c.step (.call n i)).2.view n = (exec (c.view n) i).2 := by
  simp only [step, view, Function.update_self]
  rfl

theorem nodes_call_of_ne (c : Cluster) {n m : NodeId} (other : m ≠ n) (i : Invocation) :
    (c.step (.call n i)).2.nodes m = c.nodes m := Function.update_of_ne other _ _

/-- A node changes by its own calls only. -/
theorem nodes_run_of_idle {n : NodeId} (is : List ClusterInput) (idle : ∀ m i, ClusterInput.call m i ∈ is → m ≠ n)
    (c : Cluster) : (run step c is).2.nodes n = c.nodes n := by
  induction is generalizing c with
  | nil => rfl
  | cons input is ih =>
    have rest := ih (fun m i member => idle m i (List.mem_cons_of_mem _ member)) (c.step input).2
    rw [run_cons]
    refine rest.trans ?_
    cases input with
    | deliver k => rfl
    | call m i => exact nodes_call_of_ne c (Ne.symm (idle m i List.mem_cons_self)) i

theorem step_config (c : Cluster) (input : ClusterInput) (n : NodeId) :
    ((c.step input).2.nodes n).config = (c.nodes n).config := by
  cases input with
  | deliver k => rfl
  | call m i =>
    by_cases same : n = m
    · subst same
      have kept := exec_config (c.view n) i
      rw [← view_call] at kept
      exact kept
    · rw [nodes_call_of_ne c same]

theorem after_config (cfg : ClusterConfig) (is : List ClusterInput) (n : NodeId) :
    ((after cfg is).nodes n).config = cfg.node n :=
  run_keeps (I := fun c => (c.nodes n).config = cfg.node n) (fun c input held => (step_config c input n).trans held)
    is rfl

end Cluster
end LeoMem
