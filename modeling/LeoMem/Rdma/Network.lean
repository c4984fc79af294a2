import Mathlib.Data.List.Perm.Basic
import LeoMem.Api.Simulate
import LeoMem.Cluster.Origin
import LeoMem.Rdma.Mailbox

/-!
# The network of the RDMA transport

`RdmaNet` is what the nodes of a cluster share: the registered regions, and the `control`
directory in place of messages on their way. It refines `PeerTransport`: the messages a
call drains are, on the other side, delivered right before the call in the order of their
file names, and all others stay on their way (`rdmaNet_sim`).
-/

namespace LeoMem
open Lib RuntimeContext

/-- The regions and the control files of all nodes. -/
structure RdmaNet where
  memory : NodeId → Bytes
  control : ControlDir := {}
  /-- An exception that left a drain; no caller catches it. -/
  thrown : Option ParseError := none

namespace RdmaNet

/-- One-sided accesses see the regions only. -/
def regions (net : RdmaNet) : PeerTransport := { memory := net.memory }

def read (cfg : Config) (addr : GlobalAddr) (size : UInt64) (net : RdmaNet) : Except Status Bytes × RdmaNet :=
  ((net.regions.read cfg addr size).1, net)

def write (cfg : Config) (addr : GlobalAddr) (buf : Bytes) (net : RdmaNet) : Status × RdmaNet :=
  let r := net.regions.write cfg addr buf
  (r.1, { net with memory := r.2.memory })

def postControlMessage (cfg : Config) (message : ControlMessage) (net : RdmaNet) : Status × RdmaNet :=
  let r := net.control.postControlMessage cfg message
  (r.1, { net with control := r.2 })

def drainControlMessages (cfg : Config) (maxMessages : Nat) (net : RdmaNet) :
    (Status × List ControlMessage) × RdmaNet :=
  match net.control.drainControlMessages cfg (UInt64.ofNat maxMessages) with
  | (.ok answer, control) => (answer, { net with control := control })
  | (.error e, control) => ((.kOk, []), { net with control := control, thrown := some e })

instance : Transport RdmaNet where
  read cfg _ := read cfg
  write cfg _ := write cfg
  batchWrite cfg _ := batchWriteWith (write cfg)
  fence _ net := (.kOk, net)
  postControlMessage := postControlMessage
  drainControlMessages := drainControlMessages

end RdmaNet

/-! ## One-sided accesses -/

namespace PeerTransport
variable {t t' : PeerTransport}

theorem read_congr (same : t'.memory = t.memory) (cfg : Config) (addr : GlobalAddr) (size : UInt64) :
    (t'.read cfg addr size).1 = (t.read cfg addr size).1 := by
  unfold read
  rw [same]
  split
  · rfl
  · split
    · rfl
    · split <;> rfl

theorem write_congr (same : t'.memory = t.memory) (cfg : Config) (addr : GlobalAddr) (buf : Bytes) :
    (t'.write cfg addr buf).1 = (t.write cfg addr buf).1 ∧
      (t'.write cfg addr buf).2.memory = (t.write cfg addr buf).2.memory := by
  unfold write
  rw [same]
  split
  · exact ⟨rfl, same⟩
  · split
    · exact ⟨rfl, same⟩
    · split
      · exact ⟨rfl, same⟩
      · exact ⟨rfl, rfl⟩

end PeerTransport

/-- Two batches whose writes answer alike answer alike. -/
theorem batchWriteWith_alike {ω ω' : Type} {R : ω → ω' → Prop} {write : GlobalAddr → Bytes → ω → Status × ω}
    {write' : GlobalAddr → Bytes → ω' → Status × ω'}
    (step : ∀ addr buf w w', R w w' → (write' addr buf w').1 = (write addr buf w).1 ∧
      R (write addr buf w).2 (write' addr buf w').2)
    (requests : List RemoteWriteRequest) {w : ω} {w' : ω'} (start : R w w') :
    (batchWriteWith write' requests w').1 = (batchWriteWith write requests w).1 ∧
      R (batchWriteWith write requests w).2 (batchWriteWith write' requests w').2 := by
  induction requests generalizing w w' with
  | nil => exact ⟨rfl, start⟩
  | cons request requests ih =>
    obtain ⟨answer, next⟩ := step request.addr request.buf w w' start
    unfold batchWriteWith
    simp only [answer]
    split
    · exact ⟨answer, next⟩
    · exact ih next

/-! ## The files -/

namespace ControlDir

/-- The messages of all files. -/
def stored (dir : ControlDir) : List ControlMessage := dir.files.keys.map (nameMessage dir)

end ControlDir

section
variable {dir : ControlDir} {queues : MailQueues} {cfg : Config} {message : ControlMessage}

theorem nameMessage_congr {dir' : ControlDir} {name : Text} (same : dir'.files.lookup name = dir.files.lookup name) :
    nameMessage dir' name = nameMessage dir name := by
  unfold nameMessage fileMessage
  rw [same]

/-- The name of the next file is a new one. -/
theorem Mirrors.fresh (mirrors : Mirrors dir queues) (own : message.sourceNode = cfg.nodeId)
    (unwrapped : dir.sequence cfg.nodeId + 1 ≠ 0) :
    controlFileName message.targetNode message.sourceNode (dir.sequence cfg.nodeId + 1) ∉ dir.files.keys := by
  intro member
  obtain ⟨content, found⟩ := Option.isSome_iff_exists.mp (AList.lookup_isSome.mpr (AList.mem_keys.mpr member))
  obtain ⟨source, target, e, queued, name, -⟩ := (mirrors.file _ _).mp found
  obtain ⟨-, sources, number⟩ := controlFileName_inj name
  have old := lt_succ_of_le (mirrors.counted source target e queued) (sources ▸ own ▸ unwrapped)
  rw [← sources, own] at old
  exact absurd number (UInt64.ne_of_lt old).symm

theorem keys_writeControlMessageFile (mirrors : Mirrors dir queues) (own : message.sourceNode = cfg.nodeId)
    (unwrapped : dir.sequence cfg.nodeId + 1 ≠ 0) :
    (dir.writeControlMessageFile cfg message).2.files.keys =
      controlFileName message.targetNode message.sourceNode (dir.sequence cfg.nodeId + 1) :: dir.files.keys := by
  have fresh := mt AList.mem_keys.mp (mirrors.fresh own unwrapped)
  exact congrArg List.keys (AList.entries_insert_of_notMem fresh)

/-- The other files are as they were. -/
theorem nameMessage_writeControlMessageFile (mirrors : Mirrors dir queues) (own : message.sourceNode = cfg.nodeId)
    (unwrapped : dir.sequence cfg.nodeId + 1 ≠ 0) {name : Text} (member : name ∈ dir.files.keys) :
    nameMessage (dir.writeControlMessageFile cfg message).2 name = nameMessage dir name := by
  refine nameMessage_congr ?_
  have other : name ≠ controlFileName message.targetNode message.sourceNode (dir.sequence cfg.nodeId + 1) :=
    fun same => mirrors.fresh own unwrapped (same ▸ member)
  simp only [ControlDir.writeControlMessageFile, HashMap.lookup_insert_if, if_neg other]

/-- A post stores its message. -/
theorem stored_writeControlMessageFile (mirrors : Mirrors dir queues) (own : message.sourceNode = cfg.nodeId)
    (addressed : message.Addressed) (unwrapped : dir.sequence cfg.nodeId + 1 ≠ 0) :
    (dir.writeControlMessageFile cfg message).2.stored = message :: dir.stored := by
  have queued : (dir.sequence cfg.nodeId + 1, message) ∈
      queues.push (dir.sequence cfg.nodeId + 1) message message.sourceNode message.targetNode :=
    MailQueues.mem_push.mpr (.inr ⟨⟨rfl, rfl⟩, rfl⟩)
  have new := (mirrors.post cfg own addressed unwrapped).nameMessage_eq queued
  unfold ControlDir.stored
  rw [keys_writeControlMessageFile mirrors own unwrapped, List.map_cons, new]
  refine congrArg (message :: ·) (List.map_congr_left fun name member => ?_)
  exact nameMessage_writeControlMessageFile mirrors own unwrapped member

/-- A post to another node leaves what waits for `node` alone. -/
theorem waitingNames_writeControlMessageFile (mirrors : Mirrors dir queues) (own : message.sourceNode = cfg.nodeId)
    (unwrapped : dir.sequence cfg.nodeId + 1 ≠ 0) {node : NodeId} (other : message.targetNode ≠ node) :
    (dir.writeControlMessageFile cfg message).2.waitingNames node = dir.waitingNames node := by
  have foreign : ("to_".toList ++ decimal node.toNat ++ "_".toList).isPrefixOf
      (controlFileName message.targetNode message.sourceNode (dir.sequence cfg.nodeId + 1)) = false := by
    rw [← Bool.not_eq_true, List.isPrefixOf_iff_prefix, prefix_controlFileName_iff]
    exact other.symm
  unfold ControlDir.waitingNames
  rw [keys_writeControlMessageFile mirrors own unwrapped, List.filter_cons_of_neg (Bool.not_eq_true _ ▸ foreign)]

theorem waitingNames_subset (dir : ControlDir) (node : NodeId) : dir.waitingNames node ⊆ dir.files.keys := by
  intro name member
  rw [ControlDir.waitingNames, (List.perm_insertionSort _ _).mem_iff] at member
  exact (List.mem_filter.mp member).1

theorem mem_keys_removeFiles {names : List Text} {files : HashMap Text Text} {name : Text} :
    name ∈ (removeFiles names files).keys ↔ name ∉ names ∧ name ∈ files.keys := by
  rw [← AList.mem_keys, ← AList.lookup_isSome, lookup_removeFiles, ← AList.mem_keys, ← AList.lookup_isSome]
  split <;> simp_all

/-- The directory without the first `limit` files of `node`. -/
def ControlDir.without (dir : ControlDir) (node : NodeId) (limit : Nat) : ControlDir :=
  { dir with files := removeFiles (takenNames dir node limit) dir.files }

theorem nameMessage_without {node : NodeId} {limit : Nat} {name : Text} (kept : name ∉ takenNames dir node limit) :
    nameMessage (dir.without node limit) name = nameMessage dir name := by
  refine nameMessage_congr ?_
  simp only [ControlDir.without, lookup_removeFiles, if_neg kept]

/-- What is drained and what stays stored. -/
theorem stored_without (dir : ControlDir) (node : NodeId) (limit : Nat) :
    dir.stored.Perm ((takenNames dir node limit).map (nameMessage dir) ++ (dir.without node limit).stored) := by
  have taken : (takenNames dir node limit).Nodup :=
    ((sorted_waitingNames dir node).sublist (List.take_sublist limit _)).imp ne_of_lt
  have keys : dir.files.keys.Perm (takenNames dir node limit ++ (dir.without node limit).files.keys) := by
    refine (List.perm_ext_iff_of_nodup dir.files.keys_nodup ?_).mpr fun name => ?_
    · refine taken.append (AList.keys_nodup _) fun name here there => ?_
      exact (mem_keys_removeFiles.mp there).1 here
    · rw [List.mem_append, ControlDir.without, mem_keys_removeFiles]
      by_cases here : name ∈ takenNames dir node limit
      · simp only [here, true_or, iff_true]
        exact waitingNames_subset dir node (List.mem_of_mem_take here)
      · simp [here]
  have split := keys.map (nameMessage dir)
  rw [List.map_append] at split
  have rest : (dir.without node limit).files.keys.map (nameMessage dir) = (dir.without node limit).stored :=
    List.map_congr_left fun name member => (nameMessage_without (mem_keys_removeFiles.mp member).1).symm
  rwa [rest] at split

theorem waitingNames_without (dir : ControlDir) (node : NodeId) (limit : Nat) :
    (dir.without node limit).waitingNames node = (dir.waitingNames node).drop limit := by
  have sorted := sorted_waitingNames dir node
  have split : takenNames dir node limit ++ (dir.waitingNames node).drop limit = dir.waitingNames node :=
    List.take_append_drop limit _
  have rest := sorted.sublist (List.drop_sublist limit _)
  have apart : ∀ name ∈ (dir.waitingNames node).drop limit, name ∉ takenNames dir node limit := by
    intro name later earlier
    rw [← split] at sorted
    exact lt_irrefl _ ((List.pairwise_append.mp sorted).2.2 name earlier name later)
  refine List.Perm.eq_of_pairwise' (r := (· ≤ ·)) ((sorted_waitingNames _ node).imp le_of_lt) (rest.imp le_of_lt) ?_
  refine (List.perm_ext_iff_of_nodup ((sorted_waitingNames _ node).imp ne_of_lt) (rest.imp ne_of_lt)).mpr fun name => ?_
  have waits : name ∈ dir.waitingNames node ↔ name ∈ dir.files.keys ∧
      ("to_".toList ++ decimal node.toNat ++ "_".toList).isPrefixOf name = true := by
    rw [ControlDir.waitingNames, (List.perm_insertionSort _ _).mem_iff, List.mem_filter]
  rw [ControlDir.waitingNames, (List.perm_insertionSort _ _).mem_iff, List.mem_filter, ControlDir.without,
    mem_keys_removeFiles, and_assoc, ← waits]
  constructor
  · rintro ⟨kept, member⟩
    rw [← split, List.mem_append] at member
    exact member.resolve_left kept
  · intro later
    exact ⟨apart name later, List.mem_of_mem_drop later⟩

end

/-! ## Deliveries -/

namespace PeerTransport

/-- Messages on their way can be delivered to `node` in any order. -/
theorem exists_deliveries {node : NodeId} {first rest : List ControlMessage} {t : PeerTransport}
    (flight : t.inFlight.Perm (first ++ rest)) (target : ∀ msg ∈ first, msg.targetNode = node) :
    ∃ ks : List Nat, (ks.foldl PeerTransport.deliver t).inFlight.Perm rest ∧
      (ks.foldl PeerTransport.deliver t).memory = t.memory ∧
      (ks.foldl PeerTransport.deliver t).mailbox = Function.update t.mailbox node (t.mailbox node ++ first) := by
  induction first generalizing t with
  | nil => exact ⟨[], flight, rfl, by simp⟩
  | cons msg first ih =>
    obtain ⟨k, inside, here⟩ := List.getElem_of_mem (flight.mem_iff.mpr (List.mem_append_left _ List.mem_cons_self))
    have delivered : t.deliver k =
        { t with
          inFlight := t.inFlight.eraseIdx k
          mailbox := Function.update t.mailbox node (t.mailbox node ++ [msg]) } := by
      simp only [PeerTransport.deliver, List.getElem?_eq_getElem inside, here, target msg List.mem_cons_self]
    have left : (t.deliver k).inFlight.Perm (first ++ rest) := by
      have split := (List.getElem_cons_eraseIdx_perm inside).trans flight
      rw [here] at split
      rw [delivered]
      exact split.cons_inv
    obtain ⟨ks, flight, memory, mailbox⟩ := ih left fun m member => target m (List.mem_cons_of_mem _ member)
    refine ⟨k :: ks, flight, ?_, ?_⟩
    · rw [List.foldl_cons, memory, delivered]
    · rw [List.foldl_cons, mailbox, delivered]
      simp

end PeerTransport

/-! ## The refinement -/

/-- The names of the files that the next `d` drains of the node take. -/
def dueNames (cfg : Config) (d : Nat) (dir : ControlDir) : List Text :=
  if cfg.rdmaEnableControlPath = false then [] else (dir.waitingNames cfg.nodeId).take (64 * d)

/-- The two networks as the node of `cfg` has `d` drains to come: what these take has been delivered, all
other files are messages on their way, and the node's counter allows `p` posts. -/
structure NetRefines (cfg : Config) (d p : Nat) (net : RdmaNet) (t : PeerTransport) : Prop where
  memory : t.memory = net.memory
  calm : net.thrown = none
  mirrors : ∃ queues, Mirrors net.control queues
  due : t.mailbox cfg.nodeId = (dueNames cfg d net.control).map (nameMessage net.control)
  idle : ∀ node, node ≠ cfg.nodeId → t.mailbox node = []
  stored : (t.mailbox cfg.nodeId ++ t.inFlight).Perm net.control.stored
  room : (net.control.sequence cfg.nodeId).toNat + p < 2 ^ 64

namespace NetRefines
variable {cfg : Config} {d p : Nat} {net : RdmaNet} {t : PeerTransport}

/-- Accesses to the regions leave the messages alone. -/
theorem ofMemory {t' : PeerTransport} (refines : NetRefines cfg d p net t) (wires : t'.wires = t.wires) :
    NetRefines cfg d p { net with memory := t'.memory } t' := by
  obtain ⟨inFlight, mailbox⟩ := Prod.mk.inj wires
  exact ⟨rfl, refines.calm, refines.mirrors, mailbox ▸ refines.due, mailbox ▸ refines.idle,
    mailbox ▸ inFlight ▸ refines.stored, refines.room⟩

theorem write (refines : NetRefines cfg d p net t) (addr : GlobalAddr) (buf : Bytes) :
    (t.write cfg addr buf).1 = (net.write cfg addr buf).1 ∧
      NetRefines cfg d p (net.write cfg addr buf).2 (t.write cfg addr buf).2 := by
  obtain ⟨answer, memory⟩ := PeerTransport.write_congr (t := net.regions) refines.memory cfg addr buf
  refine ⟨answer, ?_⟩
  have written := refines.ofMemory (PeerTransport.write_wires cfg addr buf t)
  rwa [memory] at written

theorem post (refines : NetRefines cfg d (p + 1) net t) (named : cfg.nodeId ≠ kInvalidNodeId) {msg : ControlMessage}
    (own : msg.sourceNode = cfg.nodeId) :
    (t.postControlMessage cfg msg).1 = (net.postControlMessage cfg msg).1 ∧
      NetRefines cfg d p (net.postControlMessage cfg msg).2 (t.postControlMessage cfg msg).2 := by
  have fewer : NetRefines cfg d p net t := { refines with room := by have := refines.room; omega }
  unfold RdmaNet.postControlMessage PeerTransport.postControlMessage ControlDir.postControlMessage
  split
  · exact ⟨rfl, fewer⟩
  · split
    · exact ⟨rfl, fewer⟩
    · rename_i on reachable
      have reachable : PeerTransport.connected cfg msg.targetNode = true := by simpa using reachable
      have other : msg.targetNode ≠ cfg.nodeId := by
        simp only [PeerTransport.connected, Bool.and_eq_true, bne_iff_ne] at reachable
        exact reachable.2
      have addressed : msg.Addressed := ⟨own ▸ named, connected_ne_invalid reachable⟩
      have room := refines.room
      have counted : (net.control.sequence cfg.nodeId + 1).toNat = (net.control.sequence cfg.nodeId).toNat + 1 := by
        rw [UInt64.toNat_add]
        exact Nat.mod_eq_of_lt (by simp only [UInt64.reduceToNat]; omega)
      have unwrapped : net.control.sequence cfg.nodeId + 1 ≠ 0 := by
        intro zero
        rw [zero] at counted
        simp at counted
      obtain ⟨queues, mirrors⟩ := refines.mirrors
      have waiting := waitingNames_writeControlMessageFile mirrors own unwrapped other
      have names : dueNames cfg d (net.control.writeControlMessageFile cfg msg).2 = dueNames cfg d net.control := by
        unfold dueNames
        rw [waiting]
      refine ⟨rfl, refines.memory, refines.calm, ⟨_, mirrors.post cfg own addressed unwrapped⟩, ?_, refines.idle, ?_, ?_⟩
      · rw [names]
        refine refines.due.trans (List.map_congr_left fun name member => ?_)
        refine (nameMessage_writeControlMessageFile mirrors own unwrapped ?_).symm
        unfold dueNames at member
        split at member
        · cases member
        · exact waitingNames_subset _ _ (List.mem_of_mem_take member)
      · rw [stored_writeControlMessageFile mirrors own addressed unwrapped, ← List.append_assoc]
        exact (List.perm_append_singleton msg _).trans (refines.stored.cons msg)
      · simp only [ControlDir.writeControlMessageFile, Function.update_self, counted]
        omega

/-- A drain takes the files that were delivered for it. -/
theorem drain (refines : NetRefines cfg (d + 1) p net t) :
    (t.drainControlMessages cfg 64).1 = (net.drainControlMessages cfg 64).1 ∧
      (net.drainControlMessages cfg 64).1.2.length ≤ 64 ∧
      NetRefines cfg d p (net.drainControlMessages cfg 64).2 (t.drainControlMessages cfg 64).2 := by
  obtain ⟨queues, mirrors⟩ := refines.mirrors
  by_cases off : cfg.rdmaEnableControlPath = false
  · have due : t.mailbox cfg.nodeId = (dueNames cfg d net.control).map (nameMessage net.control) := by
      rw [refines.due, dueNames, dueNames, if_pos off, if_pos off]
    simp only [PeerTransport.drainControlMessages, RdmaNet.drainControlMessages, ControlDir.drainControlMessages, if_pos off]
    exact ⟨trivial, Nat.zero_le _, refines.memory, refines.calm, ⟨queues, mirrors⟩, due, refines.idle, refines.stored, refines.room⟩
  · have enabled : cfg.rdmaEnableControlPath = true := by simpa using off
    have drained : net.drainControlMessages cfg 64 =
        ((.kOk, (takenNames net.control cfg.nodeId 64).map (nameMessage net.control)),
          { net with control := net.control.without cfg.nodeId 64 }) := by
      simp only [RdmaNet.drainControlMessages, mirrors.drainControlMessages_eq enabled]
      rfl
    have waiting := refines.due
    rw [dueNames, if_neg off] at waiting
    have taken : (t.mailbox cfg.nodeId).take 64 = (takenNames net.control cfg.nodeId 64).map (nameMessage net.control) := by
      rw [waiting, ← List.map_take, List.take_take, Nat.min_eq_left (by omega)]
      rfl
    have later : (t.mailbox cfg.nodeId).drop 64 = (dueNames cfg d (net.control.without cfg.nodeId 64)).map
        (nameMessage (net.control.without cfg.nodeId 64)) := by
      rw [dueNames, if_neg off, waitingNames_without, waiting, ← List.map_drop, List.drop_take,
        show 64 * (d + 1) - 64 = 64 * d by omega]
      refine List.map_congr_left fun name member => (nameMessage_without fun early => ?_).symm
      have sorted := sorted_waitingNames net.control cfg.nodeId
      rw [← List.take_append_drop 64 (net.control.waitingNames cfg.nodeId)] at sorted
      exact lt_irrefl _ ((List.pairwise_append.mp sorted).2.2 name early name (List.mem_of_mem_take member))
    have answer : t.drainControlMessages cfg 64 = ((.kOk, (t.mailbox cfg.nodeId).take 64),
        { t with mailbox := Function.update t.mailbox cfg.nodeId ((t.mailbox cfg.nodeId).drop 64) }) := by
      simp [PeerTransport.drainControlMessages, enabled]
    rw [drained, answer, taken]
    refine ⟨rfl, ?_, refines.memory, refines.calm, ⟨_, mirrors.drain cfg.nodeId 64⟩, ?_, fun node other => ?_, ?_, refines.room⟩
    · simp only [List.length_map, takenNames, List.length_take]
      exact Nat.min_le_left _ _
    · exact (Function.update_self _ _ _).trans later
    · exact (Function.update_of_ne other _ _).trans (refines.idle node other)
    · change (Function.update t.mailbox cfg.nodeId _ cfg.nodeId ++ t.inFlight).Perm _
      rw [Function.update_self]
      have split := refines.stored.trans (stored_without net.control cfg.nodeId 64)
      rw [← List.take_append_drop 64 (t.mailbox cfg.nodeId), taken, List.append_assoc] at split
      exact (List.perm_append_left_iff _).mp split

theorem fewer {q : Nat} (refines : NetRefines cfg d q net t) (le : p ≤ q) : NetRefines cfg d p net t :=
  { refines with room := by have := refines.room; omega }

end NetRefines

/-- **The directory answers as the network with its deliveries made does.** -/
theorem rdmaNet_sim {cfg : Config} (named : cfg.nodeId ≠ kInvalidNodeId) :
    TransportSim cfg (·.sourceNode = cfg.nodeId) (NetRefines cfg) where
  own _ own := own
  fewer _ _ _ _ refines := refines.fewer (Nat.le_succ _)
  read _ _ _ addr size net t refines := by
    refine ⟨PeerTransport.read_congr (t := net.regions) refines.memory cfg addr size, ?_⟩
    change NetRefines _ _ _ net (t.read cfg addr size).2
    rwa [PeerTransport.read_same]
  write _ _ _ addr buf _ _ refines := refines.write addr buf
  batchWrite d p _ requests _ _ refines :=
    batchWriteWith_alike (R := NetRefines cfg d p) (fun addr buf _ _ held => held.write addr buf) requests refines
  fence _ _ _ _ refines := ⟨rfl, refines⟩
  post _ _ _ _ _ own refines := refines.post named own
  drain _ _ _ _ refines := by
    obtain ⟨answer, short, after⟩ := refines.drain
    exact ⟨answer, after.fewer (Nat.add_le_add_left short _)⟩

end LeoMem
