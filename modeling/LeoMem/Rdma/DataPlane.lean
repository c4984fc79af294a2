import LeoMem.Api.Call
import LeoMem.Rdma.Completions

/-!
# The bytes that RDMA operations move

`LeoMem.Rdma.Completions` counts the work requests of `RdmaTransport`; here they carry
their bytes. `BatchWrite` posts all its requests before it waits for any, and copies to the
node's own region in between. What the adapter may do is a rule (`CarriesOut`): the requests to
one node take effect in the order they were posted, those to different nodes in any order,
and none is still to come once its completion has been polled. Where nothing is in flight
when they start, calls that the verbs do not fail, with batches that are accepted as a
whole, then move the same bytes and give the same answers as the plain accesses of
`PeerTransport`.
-/

namespace LeoMem
open Lib

inductive OneSidedOp where
  | read (length : UInt64)
  | write (payload : Bytes)
  deriving DecidableEq

/-- What moves bytes at the region of `node`: a work request, or a copy by the node itself. -/
structure Move where
  node : NodeId
  offset : UInt64
  op : OneSidedOp
  deriving DecidableEq

/-- The regions of all nodes, and the bytes the last read brought. -/
structure Contents where
  memory : NodeId → Bytes
  landed : Bytes := Bytes.empty

namespace Move

/-- The region after the move. -/
def store (region : Bytes) (m : Move) : Bytes :=
  match m.op with
  | .read _ => region
  | .write payload => region.blit m.offset.toNat payload

def apply (s : Contents) (m : Move) : Contents where
  memory := Function.update s.memory m.node (m.store (s.memory m.node))
  landed :=
    match m.op with
    | .read length => (s.memory m.node).slice m.offset.toNat length
    | .write _ => s.landed

end Move

/-- The moves at one node. -/
abbrev movesAt (n : NodeId) (moves : List Move) : List Move := moves.filter fun m => m.node = n

/-- A range to access, and the operation on so many bytes of it. -/
structure DataAccess where
  addr : GlobalAddr
  size : UInt64
  op : UInt64 → OneSidedOp

/-- The payload of a write of the first `length` bytes. -/
def writeOp (buf : Bytes) (length : UInt64) : OneSidedOp := .write (buf.slice 0 length)

abbrev RemoteWriteRequest.access (req : RemoteWriteRequest) : DataAccess := ⟨req.addr, req.buf.size, writeOp req.buf⟩

def RdmaCall.accesses : RdmaCall → List DataAccess
  | .read addr size => [⟨addr, size, .read⟩]
  | .write addr buf => [⟨addr, buf.size, writeOp buf⟩]
  | .batchWrite requests => requests.map RemoteWriteRequest.access
  | .fence => []

/-- The adapter and the regions: `waiting` are the requests that have not taken effect yet. -/
structure DataPlane where
  queue : SendQueue := {}
  contents : Contents
  waiting : List Move := []

/-- What happens during one call: what the verbs answer, the moves that take effect, in
their order, and those that are left. -/
structure Adapter where
  verbs : Verbs := {}
  done : List Move := []
  left : List Move := []

namespace RdmaPort

/-- `static_cast<std::uint32_t>(size)`. -/
def sgeLength (size : UInt64) : UInt64 := size.toUInt32.toUInt64

/-- The moves that `Read`, `Write` and the loop of `BatchWrite` issue, from their `posted`-th
request on: a copy within the own region, a work request for a peer, nothing from the first
access on that is refused. -/
def moves (port : RdmaPort) (verbs : Verbs) : List DataAccess → Nat → List Move
  | [], _ => []
  | access :: rest, posted =>
    if access.size = 0 then []
    else if access.addr.homeNode = port.config.nodeId then
      match port.copyLocal access.addr.offset access.size with
      | .kOk => ⟨access.addr.homeNode, access.addr.offset, access.op access.size⟩ :: port.moves verbs rest posted
      | _ => []
    else
      match port.peers access.addr.homeNode with
      | none => []
      | some length =>
        if access.addr.offset + access.size > length then []
        else if verbs.registers posted = false then []
        else if verbs.sends posted = false then []
        else
          ⟨access.addr.homeNode, access.addr.offset, access.op (sgeLength access.size)⟩ ::
            port.moves verbs rest (posted + 1)

def issued (port : RdmaPort) (verbs : Verbs) (call : RdmaCall) : List Move :=
  if port.initialized then port.moves verbs call.accesses 0 else []

/-- What the caller gets: the bytes of a read or a status, unless the call threw or waits. -/
def dataAnswer (landed : Bytes) : RdmaCall → Outcome → Option Response
  | .read _ _, .returned .kOk => some (.bytes landed)
  | _, .returned s => some (.status s)
  | _, .thrown => none
  | _, .waiting => none

/-- One call: it posts and waits as `step` says, and the adapter moves the bytes. -/
def dataStep (port : RdmaPort) (s : DataPlane) (input : RdmaCall × Adapter) : Option Response × DataPlane :=
  let r := port.step s.queue (input.1, input.2.verbs)
  let contents := input.2.done.foldl Move.apply s.contents
  (dataAnswer contents.landed input.1 r.1, { queue := r.2, contents := contents, waiting := input.2.left })

/-- What the adapter does at one node. -/
def CarriesOutAt (port : RdmaPort) (s : DataPlane) (call : RdmaCall) (adapter : Adapter) (n : NodeId) : Prop :=
  movesAt n (s.waiting ++ port.issued adapter.verbs call) = movesAt n adapter.done ++ movesAt n adapter.left ∧
    (movesAt n adapter.left).length ≤
      ((port.step s.queue (call, adapter.verbs)).2.inFlight.filter fun request => request.peer = n).length

/-- **The adapter's rule** for a call without a failed completion: the moves at one node take
effect in the order they were issued, and those that are left are still in flight. -/
def CarriesOut (port : RdmaPort) (s : DataPlane) (call : RdmaCall) (adapter : Adapter) : Prop :=
  ∀ n, port.CarriesOutAt s call adapter n

/-- The rule is one about the nodes that the moves are at. -/
theorem carriesOut_iff {port : RdmaPort} {s : DataPlane} {call : RdmaCall} {adapter : Adapter} :
    (∀ m ∈ s.waiting ++ port.issued adapter.verbs call ++ (adapter.done ++ adapter.left),
      port.CarriesOutAt s call adapter m.node) ↔ port.CarriesOut s call adapter := by
  refine ⟨fun carried n => ?_, fun carried m _ => carried m.node⟩
  by_cases some : ∃ m ∈ s.waiting ++ port.issued adapter.verbs call ++ (adapter.done ++ adapter.left), m.node = n
  · obtain ⟨m, member, rfl⟩ := some
    exact carried m member
  · have none : movesAt n (s.waiting ++ port.issued adapter.verbs call ++ (adapter.done ++ adapter.left)) = [] :=
      List.filter_eq_nil_iff.mpr fun m member here => some ⟨m, member, of_decide_eq_true here⟩
    rw [movesAt, List.filter_append, List.append_eq_nil_iff, List.filter_append adapter.done, List.append_eq_nil_iff] at none
    obtain ⟨issued, done, left⟩ := none
    rw [CarriesOutAt, movesAt, movesAt, movesAt, issued, done, left]
    exact ⟨rfl, Nat.zero_le _⟩

instance (port : RdmaPort) (s : DataPlane) (call : RdmaCall) (adapter : Adapter) (n : NodeId) :
    Decidable (port.CarriesOutAt s call adapter n) := inferInstanceAs (Decidable (_ ∧ _))

instance (port : RdmaPort) (s : DataPlane) (call : RdmaCall) (adapter : Adapter) : Decidable (port.CarriesOut s call adapter) :=
  decidable_of_iff _ carriesOut_iff

end RdmaPort

/-! ## Moves that change places -/

/-- What a region holds in the end depends on the moves at its node only. -/
theorem memory_moved (moves : List Move) (s : Contents) (n : NodeId) :
    (moves.foldl Move.apply s).memory n = (movesAt n moves).foldl Move.store (s.memory n) := by
  induction moves generalizing s with
  | nil => rfl
  | cons m moves ih =>
    rw [List.foldl_cons, ih]
    by_cases here : m.node = n
    · subst here
      simp [Move.apply]
    · simp [Move.apply, here, Function.update_of_ne (Ne.symm here)]

theorem memory_moved_congr {moves done : List Move} (same : ∀ n, movesAt n moves = movesAt n done) (s : Contents) :
    (done.foldl Move.apply s).memory = (moves.foldl Move.apply s).memory := by
  funext n
  rw [memory_moved, memory_moved, same]

/-- At one node there is only one order. -/
theorem moves_eq_of_one {moves done : List Move} {n : NodeId} (same : ∀ n, movesAt n moves = movesAt n done)
    (one : ∀ m ∈ moves, m.node = n) : done = moves := by
  have there : ∀ m ∈ done, m.node = n := by
    intro m member
    have at_own : m ∈ movesAt m.node done := List.mem_filter.mpr ⟨member, by simp⟩
    rw [← same] at at_own
    exact one m (List.mem_filter.mp at_own).1
  have whole : ∀ l : List Move, (∀ m ∈ l, m.node = n) → movesAt n l = l := fun l all =>
    List.filter_eq_self.mpr fun m member => by simpa using all m member
  calc done
    _ = movesAt n done := (whole done there).symm
    _ = movesAt n moves := (same n).symm
    _ = moves := whole moves one

/-- Sizes of regions do not change. -/
theorem size_moved (moves : List Move) (s : Contents) (n : NodeId) :
    ((moves.foldl Move.apply s).memory n).size = (s.memory n).size := by
  induction moves generalizing s with
  | nil => rfl
  | cons m moves ih =>
    rw [List.foldl_cons, ih]
    obtain ⟨node, offset, op⟩ := m
    by_cases here : n = node
    · subst here
      cases op <;> simp [Move.apply, Move.store]
    · simp [Move.apply, Function.update_of_ne here]

/-! ## Plain accesses -/

/-- The status of a plain access: its checks alone. -/
def accessStatus (cfg : Config) (memory : NodeId → Bytes) (addr : GlobalAddr) (size : UInt64) : Status :=
  if size = 0 then .kInvalidArg
  else if addr.homeNode ≠ cfg.nodeId ∧ PeerTransport.connected cfg addr.homeNode = false then .kNotFound
  else if addr.offset + size > (memory addr.homeNode).size then .kOutOfRange
  else .kOk

/-- The port of the node of `cfg` once all regions are registered and exchanged. -/
def portOf (cfg : Config) (memory : NodeId → Bytes) : RdmaPort where
  config := cfg
  peers node := if PeerTransport.connected cfg node then some (memory node).size else none
  localLength := some (memory cfg.nodeId).size

/-- A call as the interface means it. -/
def plainStep (cfg : Config) (t : PeerTransport) : RdmaCall → Response × PeerTransport
  | .read addr size => (.ofRead (t.read cfg addr size).1, t)
  | .write addr buf => let r := t.write cfg addr buf; (.status r.1, r.2)
  | .batchWrite requests => let r := batchWriteWith (PeerTransport.write cfg) requests t; (.status r.1, r.2)
  | .fence => (.status .kOk, t)

variable (cfg : Config)

/-- The checks look at the sizes of the regions only. -/
theorem accessStatus_congr {memory memory' : NodeId → Bytes} (sizes : ∀ n, (memory n).size = (memory' n).size)
    (addr : GlobalAddr) (size : UInt64) : accessStatus cfg memory addr size = accessStatus cfg memory' addr size := by
  unfold accessStatus
  rw [sizes]

theorem PeerTransport.read_eq (addr : GlobalAddr) (size : UInt64) (t : PeerTransport) :
    (t.read cfg addr size).1 = if accessStatus cfg t.memory addr size = .kOk then
      .ok ((t.memory addr.homeNode).slice addr.offset.toNat size) else .error (accessStatus cfg t.memory addr size) := by
  unfold PeerTransport.read accessStatus
  split
  · rfl
  · split
    · rfl
    · split <;> rfl

theorem PeerTransport.write_eq (addr : GlobalAddr) (buf : Bytes) (t : PeerTransport) (landed : Bytes) :
    t.write cfg addr buf = (accessStatus cfg t.memory addr buf.size,
      if accessStatus cfg t.memory addr buf.size = .kOk then
        { t with memory := (Move.apply ⟨t.memory, landed⟩ ⟨addr.homeNode, addr.offset, .write buf⟩).memory }
      else t) := by
  unfold PeerTransport.write accessStatus
  split
  · rfl
  · split
    · rfl
    · split <;> rfl

theorem sgeLength_of_lt {size : UInt64} (fits : size.toNat < 2 ^ 32) : RdmaPort.sgeLength size = size := by
  refine UInt64.toNat_inj.mp ?_
  rw [RdmaPort.sgeLength, UInt32.toNat_toUInt64, UInt64.toNat_toUInt32]
  exact Nat.mod_eq_of_lt fits

theorem writeOp_size (buf : Bytes) : writeOp buf buf.size = .write buf := by
  have whole : buf.slice 0 buf.size = buf := by
    conv => rhs; rw [← Bytes.tabulate_byte buf]
    exact Bytes.tabulate_congr fun i _ => by rw [Nat.zero_add]
  rw [writeOp, whole]

section
variable {cfg : Config} {memory : NodeId → Bytes} {verbs : Verbs}

@[simp] theorem portOf_copyLocal (cfg : Config) (memory : NodeId → Bytes) (offset size : UInt64) :
    (portOf cfg memory).copyLocal offset size = if offset + size > (memory cfg.nodeId).size then .kOutOfRange else .kOk := rfl

/-! ## One access -/

/-- What a read or a write posts, unless a verb fails: it is refused or carried out on the spot as
the plain access says, or posts the one request of an access that is accepted. -/
theorem oneSidedPosts_spec {addr : GlobalAddr} {size : UInt64} (fits : size.toNat < 2 ^ 32) (op : UInt64 → OneSidedOp) :
    ((portOf cfg memory).oneSidedPosts verbs.registers verbs.sends addr size).2 = some .kInternalError ∨
      ((portOf cfg memory).oneSidedPosts verbs.registers verbs.sends addr size = ([], some (accessStatus cfg memory addr size)) ∨
        (portOf cfg memory).oneSidedPosts verbs.registers verbs.sends addr size = ([addr.homeNode], none) ∧
          accessStatus cfg memory addr size = .kOk) ∧
      (portOf cfg memory).moves verbs [⟨addr, size, op⟩] 0 =
        if accessStatus cfg memory addr size = .kOk then [⟨addr.homeNode, addr.offset, op size⟩] else [] := by
  have ready : (portOf cfg memory).initialized = true := rfl
  have peers : ∀ node, (portOf cfg memory).peers node =
      if PeerTransport.connected cfg node then some (memory node).size else none := fun _ => rfl
  have own_id : (portOf cfg memory).config.nodeId = cfg.nodeId := rfl
  unfold accessStatus RdmaPort.oneSidedPosts RdmaPort.moves
  simp only [ready, Bool.true_eq_false, if_false, own_id, peers, portOf_copyLocal, RdmaPort.moves]
  by_cases empty : size = 0
  · simp [empty]
  simp only [if_neg empty]
  by_cases own : addr.homeNode = cfg.nodeId
  · have near : ¬ (addr.homeNode ≠ cfg.nodeId ∧ PeerTransport.connected cfg addr.homeNode = false) := fun remote => remote.1 own
    simp only [if_neg near, if_pos own]
    by_cases outside : addr.offset + size > (memory cfg.nodeId).size
    · simp [own, outside]
    · simp [own, outside]
  simp only [if_neg own]
  cases reachable : PeerTransport.connected cfg addr.homeNode with
  | false => simp [own]
  | true =>
    have near : ¬ (addr.homeNode ≠ cfg.nodeId ∧ true = false) := fun remote => by simp at remote
    simp only [if_neg near, if_true]
    by_cases outside : addr.offset + size > (memory addr.homeNode).size
    · simp [outside]
    simp only [if_neg outside]
    by_cases registers : verbs.registers 0 = false
    · simp [registers]
    by_cases sends : verbs.sends 0 = false
    · simp [sends]
    · simp [registers, sends, sgeLength_of_lt fits]

/-- **One access**: where the verbs do not fail, it has the status of the plain access, leaves nothing
in flight and issues the move of the plain access. -/
theorem oneSided_spec {st : SendQueue} (idle : st.inFlight = []) {addr : GlobalAddr} {size : UInt64}
    (fits : size.toNat < 2 ^ 32) {s : Status}
    (returned : ((portOf cfg memory).oneSided verbs addr size st).1 = .returned s) (unfailing : s ≠ .kInternalError)
    (op : UInt64 → OneSidedOp) :
    s = accessStatus cfg memory addr size ∧ ((portOf cfg memory).oneSided verbs addr size st).2.inFlight = [] ∧
      (portOf cfg memory).moves verbs [⟨addr, size, op⟩] 0 =
        if s = .kOk then [⟨addr.homeNode, addr.offset, op size⟩] else [] := by
  rw [RdmaPort.oneSided_eq] at returned ⊢
  rcases @oneSidedPosts_spec cfg memory verbs addr size fits op with failed | ⟨posts, moves⟩
  · rcases posted : (portOf cfg memory).oneSidedPosts verbs.registers verbs.sends addr size with ⟨peers, status⟩
    rw [posted] at failed returned
    obtain rfl : status = some .kInternalError := failed
    exact absurd (Outcome.returned.inj returned).symm unfailing
  rcases posts with posted | ⟨posted, ok⟩
  · simp only [posted] at returned ⊢
    obtain rfl := Outcome.returned.inj returned
    exact ⟨rfl, idle, moves⟩
  · simp only [posted] at returned ⊢
    obtain rfl := (RdmaPort.waitForCompletions_returned rfl returned).resolve_right unfailing
    obtain ⟨count, -⟩ := RdmaPort.waitForCompletions_ok returned
    refine ⟨ok.symm, List.eq_nil_of_length_eq_zero ?_, ok ▸ moves⟩
    simp only [RdmaPort.postAll, List.foldl_cons, List.foldl_nil, RdmaPort.postSend, idle, List.nil_append,
      List.length_singleton] at count ⊢
    omega

/-! ## A batch -/

/-- A batch that comes to its wait has been accepted as a whole. -/
theorem moves_of_batchPosts {requests : List RemoteWriteRequest} (fits : ∀ req ∈ requests, req.buf.size.toNat < 2 ^ 32)
    {posted : Nat} {peers : List NodeId}
    (through : (portOf cfg memory).batchPosts verbs.registers verbs.sends requests posted = (peers, none)) :
    (∀ req ∈ requests, accessStatus cfg memory req.addr req.buf.size = .kOk) ∧
      (portOf cfg memory).moves verbs (requests.map RemoteWriteRequest.access) posted =
        requests.map fun req => ⟨req.addr.homeNode, req.addr.offset, .write req.buf⟩ := by
  induction requests generalizing posted peers with
  | nil => exact ⟨fun _ member => (List.not_mem_nil member).elim, rfl⟩
  | cons req requests ih =>
    obtain ⟨small, rest⟩ := List.forall_mem_cons.mp fits
    unfold RdmaPort.batchPosts at through
    rw [List.map_cons, List.map_cons, RdmaPort.moves, List.forall_mem_cons]
    split at through
    · simp at through
    rename_i filled
    rw [if_neg filled]
    split at through
    · rename_i own
      rw [if_pos own]
      split at through
      · rename_i inside
        obtain ⟨accepted, moves⟩ := ih rest through
        refine ⟨⟨?_, accepted⟩, by rw [inside]; exact congrArg₂ (Move.mk _ _ · :: ·) (writeOp_size req.buf) moves⟩
        have own : req.addr.homeNode = cfg.nodeId := own
        rw [accessStatus, if_neg filled, if_neg fun remote => remote.1 own, own]
        exact inside
      · simp at through
    rename_i away
    rw [if_neg away]
    split at through
    · simp at through
    rename_i length found
    obtain ⟨connected, rfl⟩ : PeerTransport.connected cfg req.addr.homeNode = true ∧
        (memory req.addr.homeNode).size = length := by simpa [portOf] using found
    rw [found]
    split at through
    · simp at through
    rename_i inside
    split at through
    · simp at through
    rename_i registers
    split at through
    · simp at through
    rename_i sends
    obtain ⟨accepted, moves⟩ := ih rest (Prod.ext rfl (Prod.mk.inj through).2)
    refine ⟨⟨?_, accepted⟩, ?_⟩
    · rw [accessStatus, if_neg filled, if_neg (by simp [connected]), if_neg inside]
    · simp only [if_neg inside, if_neg registers, if_neg sends, sgeLength_of_lt small]
      exact congrArg₂ (Move.mk _ _ · :: ·) (writeOp_size req.buf) moves

/-- Plain writes that are all accepted. -/
theorem batchWriteWith_accepted {requests : List RemoteWriteRequest} {t : PeerTransport}
    (accepted : ∀ req ∈ requests, accessStatus cfg t.memory req.addr req.buf.size = .kOk) (landed : Bytes) :
    batchWriteWith (PeerTransport.write cfg) requests t = (.kOk, { t with
      memory := ((requests.map fun req => (⟨req.addr.homeNode, req.addr.offset, .write req.buf⟩ : Move)).foldl
        Move.apply ⟨t.memory, landed⟩).memory }) := by
  induction requests generalizing t with
  | nil => rfl
  | cons req requests ih =>
    obtain ⟨first, rest⟩ := List.forall_mem_cons.mp accepted
    let m : Move := ⟨req.addr.homeNode, req.addr.offset, .write req.buf⟩
    have next := ih (t := { t with memory := (m.apply ⟨t.memory, landed⟩).memory }) fun later member =>
      (accessStatus_congr cfg (fun n => size_moved [m] ⟨t.memory, landed⟩ n) _ _).trans (rest later member)
    rw [batchWriteWith, PeerTransport.write_eq cfg req.addr req.buf t landed, first, if_pos rfl]
    exact next

end

/-! ## Every run -/

/-- The sizes that a work request can carry. -/
abbrev RdmaCall.Fits (call : RdmaCall) : Prop := ∀ access ∈ call.accesses, access.size.toNat < 2 ^ 32

/-- How a call ends where the verbs do not fail: it returns, and a batch is accepted as a whole. -/
def RdmaCall.EndsWell : RdmaCall → Outcome → Bool
  | .batchWrite _, outcome => outcome = .returned .kOk
  | _, .returned s => s ≠ .kInternalError
  | _, .thrown => false
  | _, .waiting => false

/-- The call fits, ends well and is carried out. -/
def Smooth (port : RdmaPort) (s : DataPlane) (input : RdmaCall × Adapter) : Prop :=
  input.1.Fits ∧ input.1.EndsWell (port.step s.queue (input.1, input.2.verbs)).1 = true ∧
    port.CarriesOut s input.1 input.2

instance (port : RdmaPort) (s : DataPlane) (input : RdmaCall × Adapter) : Decidable (Smooth port s input) :=
  inferInstanceAs (Decidable (_ ∧ _))

/-- The adapter at rest over the memory of the plain accesses. -/
structure Resting (memory : NodeId → Bytes) (s : DataPlane) (t : PeerTransport) : Prop where
  idle : s.queue.inFlight = []
  waiting : s.waiting = []
  same : t.memory = s.contents.memory
  sizes : ∀ n, (t.memory n).size = (memory n).size

section
variable {cfg : Config} {memory : NodeId → Bytes} {s : DataPlane} {t : PeerTransport}

variable {adapter : Adapter} {call : RdmaCall}

/-- With nothing left in flight, the moves of the call have taken effect. -/
theorem RdmaPort.CarriesOut.done {port : RdmaPort} (carried : port.CarriesOut s call adapter) (waiting : s.waiting = [])
    (idle : (port.step s.queue (call, adapter.verbs)).2.inFlight = []) :
    adapter.left = [] ∧ ∀ n, movesAt n (port.issued adapter.verbs call) = movesAt n adapter.done := by
  have none : ∀ n, movesAt n adapter.left = [] := fun n =>
    List.eq_nil_of_length_eq_zero (Nat.le_zero.mp (by simpa [idle] using (carried n).2))
  refine ⟨List.eq_nil_iff_forall_not_mem.mpr fun m member => ?_, fun n => ?_⟩
  · have here : m ∈ movesAt m.node adapter.left := List.mem_filter.mpr ⟨member, by simp⟩
    rw [none] at here
    cases here
  · have order := (carried n).1
    rw [waiting, none, List.append_nil] at order
    exact order

theorem RdmaCall.returned_of_endsWell {outcome : Outcome} (well : call.EndsWell outcome = true)
    (single : ∀ requests, call ≠ .batchWrite requests) : ∃ s, outcome = .returned s ∧ s ≠ .kInternalError := by
  unfold EndsWell at well
  split at well
  · exact absurd rfl (single _)
  · exact ⟨_, rfl, by simpa using well⟩
  · cases well
  · cases well

/-- **One read or write** is the plain one. -/
theorem Resting.access (rest : Resting memory s t) {addr : GlobalAddr} {size : UInt64} {op : UInt64 → OneSidedOp}
    (accesses : call.accesses = [⟨addr, size, op⟩]) (single : ∀ requests, call ≠ .batchWrite requests)
    (posts : (portOf cfg memory).step s.queue (call, adapter.verbs) =
      (portOf cfg memory).oneSided adapter.verbs addr size s.queue) (smooth : Smooth (portOf cfg memory) s (call, adapter)) :
    ((portOf cfg memory).step s.queue (call, adapter.verbs)).1 = .returned (accessStatus cfg t.memory addr size) ∧
      ((portOf cfg memory).step s.queue (call, adapter.verbs)).2.inFlight = [] ∧ adapter.left = [] ∧
      adapter.done = if accessStatus cfg t.memory addr size = .kOk then [⟨addr.homeNode, addr.offset, op size⟩] else [] := by
  obtain ⟨status, returned, unfailing⟩ := RdmaCall.returned_of_endsWell smooth.2.1 single
  have fits := smooth.1 ⟨addr, size, op⟩ (by rw [accesses]; exact List.mem_singleton_self _)
  obtain ⟨rfl, idle, moves⟩ := oneSided_spec rest.idle fits (posts ▸ returned) unfailing op
  rw [← posts] at idle
  rw [accessStatus_congr cfg rest.sizes]
  obtain ⟨left, same⟩ := smooth.2.2.done rest.waiting idle
  have issued : (portOf cfg memory).issued adapter.verbs call = _ := (congrArg (RdmaPort.moves _ _ · 0) accesses).trans moves
  rw [issued] at same
  refine ⟨returned, idle, left, moves_eq_of_one (n := addr.homeNode) same fun m member => ?_⟩
  split at member
  · rw [List.mem_singleton.mp member]
  · cases member

/-- A batch that reports success has been accepted as a whole. -/
theorem accepted_of_batchWrite {requests : List RemoteWriteRequest} {verbs : Verbs} {st : SendQueue}
    (fits : ∀ req ∈ requests, req.buf.size.toNat < 2 ^ 32)
    (ok : ((portOf cfg memory).step st (.batchWrite requests, verbs)).1 = .returned .kOk) :
    (∀ req ∈ requests, accessStatus cfg memory req.addr req.buf.size = .kOk) ∧
      (portOf cfg memory).issued verbs (.batchWrite requests) =
        requests.map fun req => ⟨req.addr.homeNode, req.addr.offset, .write req.buf⟩ := by
  cases requests with
  | nil => exact ⟨fun _ member => (List.not_mem_nil member).elim, rfl⟩
  | cons req requests =>
    have posts : (portOf cfg memory).posts verbs.registers verbs.sends (.batchWrite (req :: requests)) =
      (portOf cfg memory).batchPosts verbs.registers verbs.sends (req :: requests) 0 := rfl
    rw [RdmaPort.step_eq, posts] at ok
    rcases posted : (portOf cfg memory).batchPosts verbs.registers verbs.sends (req :: requests) 0 with ⟨peers, _ | status⟩
    · exact moves_of_batchPosts fits posted
    · rw [posted] at ok
      obtain rfl : status = .kOk := Outcome.returned.inj ok
      exact absurd posted RdmaPort.batchPosts_stop

/-- **One batch** is the plain one. -/
theorem Resting.batch (rest : Resting memory s t) {requests : List RemoteWriteRequest}
    (smooth : Smooth (portOf cfg memory) s (.batchWrite requests, adapter)) :
    ((portOf cfg memory).step s.queue (.batchWrite requests, adapter.verbs)).1 = .returned .kOk ∧
      ((portOf cfg memory).step s.queue (.batchWrite requests, adapter.verbs)).2.inFlight = [] ∧ adapter.left = [] ∧
      batchWriteWith (PeerTransport.write cfg) requests t =
        (.kOk, { t with memory := (adapter.done.foldl Move.apply s.contents).memory }) := by
  have ok : ((portOf cfg memory).step s.queue (.batchWrite requests, adapter.verbs)).1 = .returned .kOk := by
    simpa [RdmaCall.EndsWell] using smooth.2.1
  have idle := RdmaPort.idle_step rest.idle ok
  obtain ⟨left, same⟩ := smooth.2.2.done rest.waiting idle
  obtain ⟨accepted, issued⟩ := accepted_of_batchWrite (fun req member => smooth.1 req.access (List.mem_map_of_mem member)) ok
  have plain := batchWriteWith_accepted (t := t) (fun req member =>
    (accessStatus_congr cfg rest.sizes _ _).trans (accepted req member)) s.contents.landed
  rw [← issued, rest.same, ← memory_moved_congr same] at plain
  exact ⟨ok, idle, left, plain⟩

theorem dataAnswer_status {landed : Bytes} {status : Status} (plain : (∃ addr size, call = .read addr size) → status ≠ .kOk) :
    RdmaPort.dataAnswer landed call (.returned status) = some (.status status) := by
  unfold RdmaPort.dataAnswer
  split <;> simp_all

/-- **One call** over the adapter is the plain one. -/
theorem Resting.step (rest : Resting memory s t) {input : RdmaCall × Adapter} (smooth : Smooth (portOf cfg memory) s input) :
    ((portOf cfg memory).dataStep s input).1 = some (plainStep cfg t input.1).1 ∧
      Resting memory ((portOf cfg memory).dataStep s input).2 (plainStep cfg t input.1).2 := by
  obtain ⟨call, adapter⟩ := input
  simp only [RdmaPort.dataStep]
  cases call with
  | read addr size =>
    obtain ⟨answer, idle, left, done⟩ := rest.access rfl (by rintro _ ⟨⟩) rfl smooth
    simp only [answer, done, plainStep, PeerTransport.read_eq]
    by_cases ok : accessStatus cfg t.memory addr size = .kOk
    · simp only [ok, if_true]
      refine ⟨?_, idle, left, ?_, rest.sizes⟩
      · rw [rest.same]
        rfl
      · rw [rest.same]
        exact (Function.update_eq_self _ _).symm
    · simp only [if_neg ok]
      exact ⟨dataAnswer_status fun _ => ok, idle, left, rest.same, rest.sizes⟩
  | write addr buf =>
    obtain ⟨answer, idle, left, done⟩ := rest.access rfl (by rintro _ ⟨⟩) rfl smooth
    simp only [answer, done, plainStep, PeerTransport.write_eq cfg addr buf t s.contents.landed, writeOp_size]
    refine ⟨dataAnswer_status (by rintro ⟨_, _, ⟨⟩⟩), ?_⟩
    by_cases ok : accessStatus cfg t.memory addr buf.size = .kOk
    · simp only [if_pos ok]
      refine ⟨idle, left, by rw [rest.same]; rfl, fun n => ?_⟩
      exact (size_moved [⟨addr.homeNode, addr.offset, .write buf⟩] ⟨t.memory, s.contents.landed⟩ n).trans (rest.sizes n)
    · simp only [if_neg ok]
      exact ⟨idle, left, rest.same, rest.sizes⟩
  | batchWrite requests =>
    obtain ⟨answer, idle, left, plain⟩ := rest.batch smooth
    simp only [answer, plainStep, plain]
    refine ⟨rfl, idle, left, rfl, fun n => ?_⟩
    rw [size_moved, ← rest.same]
    exact rest.sizes n
  | fence =>
    obtain ⟨status, returned, unfailing⟩ := RdmaCall.returned_of_endsWell smooth.2.1 (by rintro _ ⟨⟩)
    have wait : (portOf cfg memory).step s.queue (.fence, adapter.verbs) =
      (portOf cfg memory).waitForCompletions s.queue.outstandingSends.toNat adapter.verbs.polls s.queue := rfl
    obtain rfl := (RdmaPort.waitForCompletions_returned rfl (wait ▸ returned)).resolve_right unfailing
    have idle := RdmaPort.idle_step rest.idle returned
    obtain ⟨left, same⟩ := smooth.2.2.done rest.waiting idle
    have done : adapter.done = [] := moves_eq_of_one (n := 0) same fun _ member => (List.not_mem_nil member).elim
    simp only [returned, done]
    exact ⟨rfl, idle, left, rest.same, rest.sizes⟩

end

/-- **The bytes of every run.** Under the adapter's rule, calls that are not failed by the
verbs, each with sizes that fit a work request and each batch accepted as a whole, answer as
the plain accesses do and leave the same bytes in every region and nothing in flight. -/
theorem data_plane_refines {cfg : Config} {memory : NodeId → Bytes} {calls : List (RdmaCall × Adapter)}
    (smooth : Along (portOf cfg memory).dataStep (Smooth (portOf cfg memory)) { contents := { memory := memory } } calls) :
    (run (portOf cfg memory).dataStep { contents := { memory := memory } } calls).1 =
        (run (plainStep cfg) { memory := memory } (calls.map Prod.fst)).1.map some ∧
      (run (portOf cfg memory).dataStep { contents := { memory := memory } } calls).2.contents.memory =
        (run (plainStep cfg) { memory := memory } (calls.map Prod.fst)).2.memory ∧
      (run (portOf cfg memory).dataStep { contents := { memory := memory } } calls).2.queue.inFlight = [] := by
  suffices general : ∀ {s : DataPlane} {t : PeerTransport}, Resting memory s t →
      Along (portOf cfg memory).dataStep (Smooth (portOf cfg memory)) s calls →
      (run (portOf cfg memory).dataStep s calls).1 = (run (plainStep cfg) t (calls.map Prod.fst)).1.map some ∧
        Resting memory (run (portOf cfg memory).dataStep s calls).2 (run (plainStep cfg) t (calls.map Prod.fst)).2 by
    obtain ⟨answers, rest⟩ := general (t := { memory := memory }) ⟨rfl, rfl, rfl, fun _ => rfl⟩ smooth
    exact ⟨answers, rest.same.symm, rest.idle⟩
  clear smooth
  induction calls with
  | nil => exact fun rest _ => ⟨rfl, rest⟩
  | cons call calls ih =>
    intro s t rest along
    obtain ⟨answer, next⟩ := rest.step along.1
    obtain ⟨answers, final⟩ := ih next along.2
    exact ⟨by simp only [List.map_cons, run_cons, answer, answers], final⟩

def threeNodes : Config := { nrNodes := 3, blockSize := 4, localRegionSize := 8 }

/-- A batch to both peers and to the node itself, whose second request takes effect first, a
read of what it wrote and a fence. -/
def overtakenBatch : List (RdmaCall × Adapter) :=
  [(.batchWrite [{ addr := ⟨1, 0, 0⟩, buf := .ofList [7, 8] }, { addr := ⟨2, 0, 4⟩, buf := .ofList [9] },
        { addr := ⟨0, 0, 1⟩, buf := .ofList [5] }, { addr := ⟨1, 0, 1⟩, buf := .ofList [6] }],
      { verbs := { polls := [.completed [(1, true)], .completed [(0, true), (0, true)]] }
        done := [⟨2, 4, .write (.ofList [9])⟩, ⟨0, 1, .write (.ofList [5])⟩, ⟨1, 0, .write (.ofList [7, 8])⟩,
          ⟨1, 1, .write (.ofList [6])⟩] }),
    (.read ⟨1, 0, 0⟩ 3, { verbs := { polls := [.completed [(0, true)]] }, done := [⟨1, 0, .read 3⟩] }), (.fence, {})]

theorem overtakenBatch_refines :
    (run (portOf threeNodes fun _ => .zeros 8).dataStep { contents := { memory := fun _ => .zeros 8 } } overtakenBatch).1 =
      (run (plainStep threeNodes) { memory := fun _ => .zeros 8 } (overtakenBatch.map Prod.fst)).1.map some :=
  (data_plane_refines (by decide +kernel)).1

end LeoMem
