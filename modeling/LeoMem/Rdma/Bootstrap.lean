import LeoMem.Rdma.HalfRead
import LeoMem.Rdma.Mailbox

/-!
# Connecting the peers

`ExchangeAndConnect` of `transport/rdma_transport.cc`. A node goes through its peers in the
order of their ids. For each it writes a file with the parameters of the queue pair it keeps
for that peer, waits until the peer's file is there, reads it and connects its queue pair.
All nodes do so at once over one directory; a step of the model is one operation of one node
on the directory or on a queue pair. What the stream has written of a file when it is read is
up to the file system (`BootAnswer.flushed`), and so is whether it ever writes the rest: the
code looks at no stream after it has opened it (`BootAnswer.ioError`).

`boot_agrees`: where no stream fails and no file is read while it is written, a connected queue
pair is wired to the queue pair that its peer keeps for this node. `boot_confined`: even a
half-written file never gives a peer's memory a wrong address or a length beyond its region.
-/

namespace LeoMem
open Lib

/-! ## Queue pairs -/

inductive QpState where
  | kInit
  | kRtr
  | kRts
  deriving DecidableEq, Repr

/-- The route to a peer with a GID. -/
structure GlobalRoute where
  dgid : Vector UInt8 16
  hopLimit : UInt8 := 1
  sgidIndex : UInt8
  deriving DecidableEq, Repr

/-- The attributes of the transition to RTR. -/
structure RtrAttr where
  pathMtu : UInt8
  destQpNum : UInt32
  rqPsn : UInt32
  maxDestRdAtomic : UInt8 := 1
  minRnrTimer : UInt8 := 12
  dlid : UInt16
  sl : UInt8 := 0
  srcPathBits : UInt8 := 0
  portNum : UInt8
  grh : Option GlobalRoute
  deriving DecidableEq, Repr

/-- The attributes of the transition to RTS. -/
structure RtsAttr where
  timeout : UInt8 := 14
  retryCnt : UInt8 := 7
  rnrRetry : UInt8 := 7
  sqPsn : UInt32
  maxRdAtomic : UInt8 := 1
  deriving DecidableEq, Repr

/-- A queue pair with the attributes it has been given. -/
structure QueuePair where
  qpNum : UInt32
  state : QpState := .kInit
  rtr : Option RtrAttr := none
  rts : Option RtsAttr := none
  deriving DecidableEq, Repr

structure PeerConnection where
  nodeId : NodeId := kInvalidNodeId
  qp : Option QueuePair := none
  remote : PeerExchangeInfo := {}
  localPsn : UInt32 := 0
  ready : Bool := false
  deriving DecidableEq, Repr

/-- What `Init` and `RegisterMemoryRegion` have found out before the exchange: the options, the
port, the number of the queue pair for each peer and the registered region. -/
structure RdmaEndpoint where
  nodeId : NodeId
  nrNodes : UInt16
  rdmaPort : UInt8 := 1
  rdmaGidIndex : UInt8 := 0
  activeMtu : UInt8 := 3
  lid : UInt16
  gid : Vector UInt8 16
  qpNum : NodeId → UInt32
  localBase : UInt64
  rkey : UInt32
  localLength : UInt64

def localPsn (node peer : NodeId) : UInt32 := (node.toUInt32 + 1) <<< 8 ^^^ (peer.toUInt32 + 17)

/-- `CreateQueuePair` for the peer `node`. -/
def createQueuePair (e : RdmaEndpoint) (node : NodeId) : PeerConnection :=
  { nodeId := node, qp := some { qpNum := e.qpNum node }, localPsn := localPsn e.nodeId node }

/-- `peers_` after `Init`. -/
def initPeers (e : RdmaEndpoint) (node : NodeId) : PeerConnection :=
  if node = e.nodeId then { nodeId := node } else createQueuePair e node

/-- `IBV_MTU_1024`. -/
def ibvMtu1024 : UInt8 := 3

def rtrAttr (e : RdmaEndpoint) (remote : PeerExchangeInfo) : RtrAttr :=
  { pathMtu := min e.activeMtu ibvMtu1024
    destQpNum := remote.qpn
    rqPsn := remote.psn
    dlid := remote.lid
    portNum := e.rdmaPort
    grh := if remote.hasGid then some { dgid := remote.gidRaw, sgidIndex := e.rdmaGidIndex } else none }

/-- `TransitionQueuePair`, with what `ibv_modify_qp` answers to each of its calls. -/
def transitionQueuePair (e : RdmaEndpoint) (peer : PeerConnection) (rtr rts : Bool) : Status × PeerConnection :=
  match peer.qp with
  | none => (.kInvalidArg, peer)
  | some qp =>
    if rtr = false then (.kInternalError, peer)
    else
      let qp := { qp with state := .kRtr, rtr := some (rtrAttr e peer.remote) }
      if rts = false then (.kInternalError, { peer with qp := some qp })
      else (.kOk, { peer with qp := some { qp with state := .kRts, rts := some { sqPsn := peer.localPsn } } })

/-! ## The exchange -/

def exchangeFileName (source target : NodeId) : Text :=
  "node_".toList ++ (decimal source.toNat ++ ("_to_".toList ++ (decimal target.toNat ++ ".txt".toList)))

/-- What a node publishes for the peer whose queue pair is `qp`. -/
def localInfo (e : RdmaEndpoint) (peer : PeerConnection) (qp : QueuePair) : PeerExchangeInfo :=
  { nodeId := e.nodeId
    qpn := qp.qpNum
    psn := peer.localPsn
    lid := e.lid
    remoteAddr := e.localBase
    rkey := e.rkey
    length := e.localLength
    hasGid := true
    gidRaw := e.gid }

/-- Where a node is in `ExchangeAndConnect`. -/
inductive BootPhase where
  | starting
  /-- At the next peer of the loop. -/
  | publishing
  /-- The stream to the file for the peer is open, and `written` characters have reached it. -/
  | writing (written : Nat)
  | waiting
  | reading
  | returned (status : Status)
  | thrown (error : ParseError)
  deriving DecidableEq

/-- The stream to the peer's file is open. -/
def BootPhase.writes : BootPhase → Bool
  | .writing _ => true
  | _ => false

structure BootNode where
  /-- The place of the loop in `peers_`. -/
  index : Nat := 0
  phase : BootPhase := .starting
  peers : NodeId → PeerConnection

/-- What the file system, the clock and the device answer to a step. -/
structure BootAnswer where
  makesDir : Bool := true
  opens : Bool := true
  /-- How many more characters of the text reach the file. -/
  flushed : Nat
  /-- The stream fails after `flushed` characters: a file that is written is left as it is, and of one
  that is read the rest is missing. -/
  ioError : Bool := false
  expired : Bool := false
  rtr : Bool := true
  rts : Bool := true

/-- What is read of a file. -/
def BootAnswer.read (answer : BootAnswer) (content : Text) : Text :=
  if answer.ioError then content.take answer.flushed else content

namespace BootNode

/-- The peer the loop is at. -/
def peer (st : BootNode) : NodeId := UInt16.ofNat st.index

def setPeer (st : BootNode) (peer : PeerConnection) : BootNode :=
  { st with peers := Function.update st.peers st.peer peer }

/-- A file has been read: it is parsed, and the queue pair is connected. -/
def connect (e : RdmaEndpoint) (answer : BootAnswer) (content : Text) (st : BootNode) : BootNode :=
  match parseExchangeInfo content with
  | .error error => { st with phase := .thrown error }
  | .ok none => { st with phase := .returned .kInternalError }
  | .ok (some remote) =>
    let r := transitionQueuePair e { st.peers st.peer with remote := remote } answer.rtr answer.rts
    if r.1 ≠ .kOk then { st.setPeer r.2 with phase := .returned r.1 }
    else { st.setPeer { r.2 with ready := true } with index := st.index + 1, phase := .publishing }

/-- One operation of `ExchangeAndConnect`. -/
def step (e : RdmaEndpoint) (answer : BootAnswer) (files : HashMap Text Text) (st : BootNode) :
    HashMap Text Text × BootNode :=
  match st.phase with
  | .starting => (files, { st with phase := if answer.makesDir then .publishing else .returned .kInternalError })
  | .publishing =>
    if st.index < e.nrNodes.toNat then
      if st.peer = e.nodeId ∨ (st.peers st.peer).qp = none then (files, { st with index := st.index + 1 })
      else if answer.opens = false then (files, { st with phase := .returned .kInternalError })
      else (files.insert (exchangeFileName e.nodeId st.peer) [], { st with phase := .writing 0 })
    else (files, { st with phase := .returned .kOk })
  | .writing written =>
    match (st.peers st.peer).qp with
    | none => (files, st)
    | some qp =>
      let text := formatExchangeInfo (localInfo e (st.peers st.peer) qp)
      let written := written + answer.flushed
      (files.insert (exchangeFileName e.nodeId st.peer) (text.take written),
        { st with phase := if text.length ≤ written ∨ answer.ioError then .waiting else .writing written })
  | .waiting =>
    if (files.lookup (exchangeFileName st.peer e.nodeId)).isSome then (files, { st with phase := .reading })
    else if answer.expired then (files, { st with phase := .returned .kNotFound })
    else (files, st)
  | .reading =>
    match files.lookup (exchangeFileName st.peer e.nodeId) with
    | none => (files, { st with phase := .returned .kInternalError })
    | some content =>
      if answer.opens = false then (files, { st with phase := .returned .kInternalError })
      else (files, st.connect e answer (answer.read content))
  | .returned _ => (files, st)
  | .thrown _ => (files, st)

end BootNode

/-- The exchange directory and all nodes. -/
structure Boot where
  files : HashMap Text Text := ∅
  nodes : NodeId → BootNode

structure BootInput where
  node : NodeId
  answer : BootAnswer

/-- The nodes of a cluster, each under its own id. -/
structure BootConfig where
  node : NodeId → RdmaEndpoint
  own : ∀ n, (node n).nodeId = n

namespace Boot

def init (cfg : BootConfig) (files : HashMap Text Text) : Boot where
  files := files
  nodes n := { peers := initPeers (cfg.node n) }

def step (cfg : BootConfig) (s : Boot) (input : BootInput) : Unit × Boot :=
  let r := (s.nodes input.node).step (cfg.node input.node) input.answer s.files
  ((), { files := r.1, nodes := Function.update s.nodes input.node r.2 })

def after (cfg : BootConfig) (files : HashMap Text Text) (inputs : List BootInput) : Boot :=
  (run (step cfg) (init cfg files) inputs).2

end Boot

/-! ## What a step can do -/

/-- A queue pair connected to the peer that `remote` describes. -/
def connectedPair (e : RdmaEndpoint) (qp : QueuePair) (psn : UInt32) (remote : PeerExchangeInfo) : QueuePair :=
  { qp with state := .kRts, rtr := some (rtrAttr e remote), rts := some { sqPsn := psn } }

/-- A phase in which `ExchangeAndConnect` has been left before its end. -/
def BootPhase.Failed : BootPhase → Prop
  | .returned status => status ≠ .kOk
  | .thrown _ => True
  | _ => False

/-- The operations of `ExchangeAndConnect`. -/
inductive BootMove (e : RdmaEndpoint) (answer : BootAnswer) (files : HashMap Text Text) (st : BootNode) :
    HashMap Text Text → BootNode → Prop
  | idle : BootMove e answer files st files st
  | started (phase : st.phase = .starting) : BootMove e answer files st files { st with phase := .publishing }
  | skipped (phase : st.phase = .publishing) (below : st.index < e.nrNodes.toNat)
      (skip : st.peer = e.nodeId ∨ (st.peers st.peer).qp = none) :
      BootMove e answer files st files { st with index := st.index + 1 }
  | opened (phase : st.phase = .publishing) (below : st.index < e.nrNodes.toNat) (other : st.peer ≠ e.nodeId) :
      BootMove e answer files st (files.insert (exchangeFileName e.nodeId st.peer) []) { st with phase := .writing 0 }
  | wrote {written : Nat} {qp : QueuePair} (phase : st.phase = .writing written) (pair : (st.peers st.peer).qp = some qp)
      {text : Text} (published : text = formatExchangeInfo (localInfo e (st.peers st.peer) qp)) :
      BootMove e answer files st
        (files.insert (exchangeFileName e.nodeId st.peer) (text.take (written + answer.flushed)))
        { st with
          phase := if text.length ≤ written + answer.flushed ∨ answer.ioError then .waiting
            else .writing (written + answer.flushed) }
  | found (phase : st.phase = .waiting) (there : (files.lookup (exchangeFileName st.peer e.nodeId)).isSome) :
      BootMove e answer files st files { st with phase := .reading }
  | connected {content : Text} {remote : PeerExchangeInfo} {qp : QueuePair} (phase : st.phase = .reading)
      (file : files.lookup (exchangeFileName st.peer e.nodeId) = some content)
      (parsed : parseExchangeInfo (answer.read content) = .ok (some remote)) (pair : (st.peers st.peer).qp = some qp) :
      BootMove e answer files st files
        { index := st.index + 1
          phase := .publishing
          peers := Function.update st.peers st.peer
            { st.peers st.peer with
              remote := remote
              qp := some (connectedPair e qp (st.peers st.peer).localPsn remote)
              ready := true } }
  | failed {phase : BootPhase} (left : phase.Failed) (running : ¬ st.phase.Failed) (unwritten : ∀ w, st.phase ≠ .writing w) :
      BootMove e answer files st files { st with phase := phase }
  | refused {peer : PeerConnection} {phase : BootPhase} (left : phase.Failed) (reading : st.phase = .reading)
      (ready : peer.ready = (st.peers st.peer).ready) (psn : peer.localPsn = (st.peers st.peer).localPsn)
      (pair : peer.qp.map QueuePair.qpNum = (st.peers st.peer).qp.map QueuePair.qpNum) :
      BootMove e answer files st files { st.setPeer peer with phase := phase }
  | finished (phase : st.phase = .publishing) (done : e.nrNodes.toNat ≤ st.index) :
      BootMove e answer files st files { st with phase := .returned .kOk }

section
variable (e : RdmaEndpoint) (answer : BootAnswer) (files : HashMap Text Text) (st : BootNode)

theorem connect_move {content : Text} (phase : st.phase = .reading)
    (file : files.lookup (exchangeFileName st.peer e.nodeId) = some content) :
    BootMove e answer files st files (st.connect e answer (answer.read content)) := by
  unfold BootNode.connect
  split
  · exact .failed trivial (by simp [phase, BootPhase.Failed]) (by simp [phase])
  · exact .failed (by simp [BootPhase.Failed]) (by simp [phase, BootPhase.Failed]) (by simp [phase])
  · rename_i remote parsed
    unfold transitionQueuePair
    simp only
    split
    · rename_i none
      exact .refused (by simp [BootPhase.Failed]) phase rfl rfl rfl
    · rename_i qp pair
      split
      · exact .refused (by simp [BootPhase.Failed]) phase rfl rfl rfl
      · split
        · exact .refused (by simp [BootPhase.Failed]) phase rfl rfl (by simp [pair])
        · exact .connected phase file parsed pair

/-- **Every operation is one of these.** -/
theorem step_move : BootMove e answer files st (st.step e answer files).1 (st.step e answer files).2 := by
  unfold BootNode.step
  split
  · rename_i phase
    split
    · exact .started phase
    · exact .failed (by simp [BootPhase.Failed]) (by simp [phase, BootPhase.Failed]) (by simp [phase])
  · rename_i phase
    split
    · rename_i below
      split
      · rename_i skip
        exact .skipped phase below skip
      · rename_i publish
        split
        · exact .failed (by simp [BootPhase.Failed]) (by simp [phase, BootPhase.Failed]) (by simp [phase])
        · exact .opened phase below (not_or.mp publish).1
    · rename_i done
      exact .finished phase (Nat.le_of_not_lt done)
  · rename_i written phase
    split
    · exact .idle
    · rename_i qp pair
      exact .wrote phase pair rfl
  · rename_i phase
    split
    · rename_i there
      exact .found phase there
    · split
      · exact .failed (by simp [BootPhase.Failed]) (by simp [phase, BootPhase.Failed]) (by simp [phase])
      · exact .idle
  · rename_i phase
    split
    · exact .failed (by simp [BootPhase.Failed]) (by simp [phase, BootPhase.Failed]) (by simp [phase])
    · rename_i content file
      split
      · exact .failed (by simp [BootPhase.Failed]) (by simp [phase, BootPhase.Failed]) (by simp [phase])
      · exact connect_move e answer files st phase file
  · exact .idle
  · exact .idle

end

/-! ## Agreement -/

theorem exchangeFileName_inj {source target source' target' : NodeId}
    (eq : exchangeFileName source target = exchangeFileName source' target') : source = source' ∧ target = target' := by
  unfold exchangeFileName at eq
  rw [List.append_cancel_left_eq] at eq
  have names : decimal source.toNat ++ '_' :: ("to_".toList ++ (decimal target.toNat ++ ".txt".toList)) =
      decimal source'.toNat ++ '_' :: ("to_".toList ++ (decimal target'.toNat ++ ".txt".toList)) := eq
  obtain ⟨sources, rest⟩ := decimal_append_inj (by decide) names
  rw [List.append_cancel_left_eq] at rest
  have numbers : decimal target.toNat ++ '.' :: "txt".toList = decimal target'.toNat ++ '.' :: "txt".toList := rest
  exact ⟨UInt16.toNat_inj.mp sources, UInt16.toNat_inj.mp (decimal_append_inj (by decide) numbers).1⟩

/-- What node `a` has to tell node `b`. -/
def published (cfg : BootConfig) (a b : NodeId) : PeerExchangeInfo :=
  localInfo (cfg.node a) (createQueuePair (cfg.node a) b) { qpNum := (cfg.node a).qpNum b }

def publishedText (cfg : BootConfig) (a b : NodeId) : Text := formatExchangeInfo (published cfg a b)

/-- The text is all that node `b` has to tell node `a`. -/
abbrev Boot.Whole (cfg : BootConfig) (b a : NodeId) (content : Text) : Prop := content = publishedText cfg b a

/-- A connection as `Init` made it, as far as no step changes it: none to the node itself, and for
another node the numbers of its queue pair. -/
def PeerKept (e : RdmaEndpoint) (b : NodeId) (peer : PeerConnection) : Prop :=
  if b = e.nodeId then peer.qp = none
  else peer.qp.map QueuePair.qpNum = some (e.qpNum b) ∧ peer.localPsn = localPsn e.nodeId b

theorem peerKept_init (e : RdmaEndpoint) (b : NodeId) : PeerKept e b (initPeers e b) := by
  unfold PeerKept initPeers
  split
  · rfl
  · exact ⟨rfl, rfl⟩

/-- A ready connection is wired by a text that `Read` allows to have been read for it. -/
def PeerLinked (Read : NodeId → NodeId → Text → Prop) (e : RdmaEndpoint) (b : NodeId) (peer : PeerConnection) : Prop :=
  peer.qp = some (connectedPair e { qpNum := e.qpNum b } (localPsn e.nodeId b) peer.remote) ∧
    ∃ content, Read b e.nodeId content ∧ parseExchangeInfo content = .ok (some peer.remote)

/-- The loop is at a peer that is none of its own. -/
def BootNode.AtPeer (e : RdmaEndpoint) (st : BootNode) : Prop := st.index < e.nrNodes.toNat ∧ st.peer ≠ e.nodeId

/-- A node of the exchange, where the texts it has read are such as `Read` allows. -/
structure BootNode.Sound (Read : NodeId → NodeId → Text → Prop) (e : RdmaEndpoint) (st : BootNode) : Prop where
  kept : ∀ b, PeerKept e b (st.peers b)
  writing : ∀ w, st.phase = .writing w → st.AtPeer e
  waiting : st.phase = .waiting → st.AtPeer e
  reading : st.phase = .reading → st.AtPeer e
  ready : ∀ b, (st.peers b).ready = true → b.toNat < st.index ∧ PeerLinked Read e b (st.peers b)

theorem toNat_peer {e : RdmaEndpoint} {st : BootNode} (below : st.index < e.nrNodes.toNat) : st.peer.toNat = st.index := by
  have size := e.nrNodes.toNat_lt
  rw [BootNode.peer, UInt16.toNat_ofNat', Nat.mod_eq_of_lt (by omega)]

section
variable {Read : NodeId → NodeId → Text → Prop} {e : RdmaEndpoint} {answer : BootAnswer} {files files' : HashMap Text Text}
  {st st' : BootNode}

/-- A node that only moves on in the loop. -/
theorem BootNode.Sound.moved (sound : st.Sound Read e) {index : Nat} (forward : st.index ≤ index) {phase : BootPhase}
    (atPeer : (∃ w, phase = .writing w) ∨ phase = .waiting ∨ phase = .reading → ({ st with index := index } : BootNode).AtPeer e) :
    BootNode.Sound Read e { st with index := index, phase := phase } where
  kept := sound.kept
  writing w here := atPeer (Or.inl ⟨w, here⟩)
  waiting here := atPeer (Or.inr (Or.inl here))
  reading here := atPeer (Or.inr (Or.inr here))
  ready b linked := ⟨Nat.lt_of_lt_of_le (sound.ready b linked).1 forward, (sound.ready b linked).2⟩

theorem BootPhase.Failed.ne {phase : BootPhase} (left : phase.Failed) :
    ¬ ((∃ w, phase = .writing w) ∨ phase = .waiting ∨ phase = .reading) := by
  rintro (⟨w, rfl⟩ | rfl | rfl) <;> exact left

/-- The number of the queue pair for a peer. -/
theorem PeerKept.qpNum {b : NodeId} {peer : PeerConnection} {qp : QueuePair} (kept : PeerKept e b peer) (other : b ≠ e.nodeId)
    (pair : peer.qp = some qp) : qp.qpNum = e.qpNum b ∧ peer.localPsn = localPsn e.nodeId b := by
  rw [PeerKept, if_neg other, pair] at kept
  exact ⟨Option.some.inj kept.1, kept.2⟩

/-- **A step of the node itself**, where the text it reads is one that `Read` allows. -/
theorem BootNode.Sound.move (sound : st.Sound Read e) (move : BootMove e answer files st files' st')
    (reads : ∀ content, st.phase = .reading → files.lookup (exchangeFileName st.peer e.nodeId) = some content →
      Read st.peer e.nodeId (answer.read content)) : st'.Sound Read e := by
  cases move with
  | idle => exact sound
  | started phase => exact sound.moved (Nat.le_refl _) (by simp)
  | skipped phase below skip =>
    exact sound.moved (Nat.le_succ _) (by simp [phase])
  | opened phase below other => exact sound.moved (Nat.le_refl _) fun _ => ⟨below, other⟩
  | wrote phase pair published => exact sound.moved (Nat.le_refl _) fun _ => sound.writing _ phase
  | found phase there => exact sound.moved (Nat.le_refl _) fun _ => sound.waiting phase
  | failed left running => exact sound.moved (Nat.le_refl _) fun still => absurd still left.ne
  | finished phase done => exact sound.moved (Nat.le_refl _) (by simp)
  | @refused peer phase left reading ready psn pair =>
    obtain ⟨below, other⟩ := sound.reading reading
    refine ⟨fun b => ?_, fun w here => absurd (Or.inl ⟨w, here⟩) left.ne, fun here => absurd (Or.inr (Or.inl here)) left.ne,
      fun here => absurd (Or.inr (Or.inr here)) left.ne, fun b linked => ?_⟩
    all_goals by_cases this : b = st.peer
    · have kept := sound.kept st.peer
      subst this
      simp only [setPeer, Function.update_self]
      rw [PeerKept, if_neg other] at kept ⊢
      exact ⟨pair.trans kept.1, psn.trans kept.2⟩
    · simp only [setPeer, Function.update_of_ne this]
      exact sound.kept b
    · -- the peer the loop is at is not ready yet
      subst this
      simp only [setPeer, Function.update_self] at linked
      have early := (sound.ready st.peer (ready.symm.trans linked)).1
      rw [toNat_peer below] at early
      exact absurd early (Nat.lt_irrefl _)
    · simp only [setPeer, Function.update_of_ne this] at linked ⊢
      exact sound.ready b linked
  | @connected content remote qp phase file parsed pair =>
    obtain ⟨below, other⟩ := sound.reading phase
    obtain ⟨number, psn⟩ := (sound.kept st.peer).qpNum other pair
    refine ⟨fun b => ?_, by simp, by simp, by simp, fun b linked => ?_⟩
    all_goals by_cases this : b = st.peer
    · subst this
      simp only [Function.update_self]
      rw [PeerKept, if_neg other]
      exact ⟨congrArg some number, psn⟩
    · simp only [Function.update_of_ne this]
      exact sound.kept b
    · subst this
      simp only [Function.update_self]
      refine ⟨by rw [toNat_peer below]; exact Nat.lt_succ_self _, ?_, _, reads content phase file, parsed⟩
      simp only [connectedPair, number, psn]
    · simp only [Function.update_of_ne this] at linked ⊢
      exact ⟨Nat.lt_succ_of_lt (sound.ready b linked).1, (sound.ready b linked).2⟩

/-- The files of node `a` hold what it publishes, but for the one that it is writing and, where
streams fail, those that were cut short. -/
def FilesOf (cfg : BootConfig) (fails : Prop) (a : NodeId) (files : HashMap Text Text) (st : BootNode) : Prop :=
  ∀ b content, files.lookup (exchangeFileName a b) = some content → content <+: publishedText cfg a b ∧
    ((content = publishedText cfg a b ∨ fails) ∨ ∃ w, st.phase = .writing w ∧ st.peer = b)

variable {fails : Prop}

variable {a : NodeId} {cfg : BootConfig}

theorem FilesOf.whole (held : FilesOf cfg fails a files st) (closed : ∀ w, st.phase ≠ .writing w) (st' : BootNode) :
    FilesOf cfg fails a files st' := by
  intro b content found
  obtain ⟨front, whole | ⟨w, writing, -⟩⟩ := held b content found
  · exact ⟨front, Or.inl whole⟩
  · exact absurd writing (closed w)

/-- A file that the node has put another text in. -/
theorem FilesOf.insert (held : FilesOf cfg fails a files st) {text : Text} (front : text <+: publishedText cfg a st.peer)
    (same : st'.peer = st.peer) (state : (text = publishedText cfg a st.peer ∨ fails) ∨ ∃ w, st'.phase = .writing w) :
    FilesOf cfg fails a (files.insert (exchangeFileName a st.peer) text) st' := by
  intro b content found
  rw [HashMap.lookup_insert_if] at found
  split at found
  · rename_i here
    obtain ⟨-, rfl⟩ := exchangeFileName_inj here
    cases found
    exact ⟨front, state.imp_right fun ⟨w, writing⟩ => ⟨w, writing, same⟩⟩
  · rename_i elsewhere
    obtain ⟨cut, whole | ⟨w, writing, here⟩⟩ := held b content found
    · exact ⟨cut, Or.inl whole⟩
    · exact absurd (congrArg (exchangeFileName a) here.symm) elsewhere

/-- What is published for the peer of the loop. -/
theorem publishedText_eq (sound : st.Sound Read (cfg.node a)) (other : st.peer ≠ a) {qp : QueuePair}
    (pair : (st.peers st.peer).qp = some qp) :
    formatExchangeInfo (localInfo (cfg.node a) (st.peers st.peer) qp) = publishedText cfg a st.peer := by
  obtain ⟨number, psn⟩ := (sound.kept st.peer).qpNum (by rw [cfg.own a]; exact other) pair
  unfold publishedText published localInfo
  rw [number, psn]
  rfl

theorem FilesOf.move (held : FilesOf cfg fails a files st) (sound : st.Sound Read (cfg.node a))
    (move : BootMove (cfg.node a) answer files st files' st') (cut : answer.ioError = true → fails) :
    FilesOf cfg fails a files' st' := by
  cases move with
  | idle => exact held
  | started phase => exact held.whole (by simp [phase]) _
  | skipped phase below skip => exact held.whole (by simp [phase]) _
  | found phase there => exact held.whole (by simp [phase]) _
  | connected phase file parsed pair => exact held.whole (by simp [phase]) _
  | failed left running unwritten => exact held.whole unwritten _
  | refused left reading ready psn pair => exact held.whole (by simp [reading]) _
  | finished phase done => exact held.whole (by simp [phase]) _
  | opened phase below other =>
    rw [cfg.own a]
    exact held.insert List.nil_prefix rfl (Or.inr ⟨0, rfl⟩)
  | @wrote written qp phase pair text text_eq =>
    obtain ⟨-, other⟩ := sound.writing written phase
    rw [cfg.own a] at other ⊢
    have same : text = publishedText cfg a st.peer := text_eq.trans (publishedText_eq sound other pair)
    refine held.insert (same ▸ List.take_prefix _ _) rfl ?_
    split
    · rename_i ended
      refine Or.inl (ended.imp (fun all => ?_) cut)
      rw [List.take_of_length_le all, same]
    · exact Or.inr ⟨_, rfl⟩

/-- A step leaves the files of the others alone. -/
theorem BootMove.lookup_other {n : NodeId} (move : BootMove (cfg.node n) answer files st files' st') (other : a ≠ n)
    (b : NodeId) : files'.lookup (exchangeFileName a b) = files.lookup (exchangeFileName a b) := by
  have apart : ∀ c, exchangeFileName a b ≠ exchangeFileName (cfg.node n).nodeId c := by
    intro c same
    exact other ((exchangeFileName_inj same).1.trans (cfg.own n))
  cases move with
  | opened | wrote => rw [HashMap.lookup_insert_if, if_neg (apart _)]
  | _ => rfl

end

namespace Boot

/-- All nodes are sound and the directory holds what they publish, cut short only where streams fail. -/
structure Sound (Read : NodeId → NodeId → Text → Prop) (fails : Prop) (cfg : BootConfig) (s : Boot) : Prop where
  node : ∀ a, (s.nodes a).Sound Read (cfg.node a)
  file : ∀ a, FilesOf cfg fails a s.files (s.nodes a)

/-- No file of an earlier run is in the way. -/
def Fresh (files : HashMap Text Text) : Prop := ∀ a b, files.lookup (exchangeFileName a b) = none

/-- What the node of the step reads, if it reads, is such as `Read` allows. -/
def Reads (Read : NodeId → NodeId → Text → Prop) (s : Boot) (input : BootInput) : Prop :=
  ∀ content, (s.nodes input.node).phase = .reading →
    s.files.lookup (exchangeFileName (s.nodes input.node).peer input.node) = some content →
    Read (s.nodes input.node).peer input.node (input.answer.read content)

variable {Read : NodeId → NodeId → Text → Prop} {fails : Prop} {cfg : BootConfig} {s : Boot}

theorem sound_init {files : HashMap Text Text} (fresh : Fresh files) : (init cfg files).Sound Read fails cfg where
  node a :=
    { kept := peerKept_init (cfg.node a)
      writing := by simp [init]
      waiting := by simp [init]
      reading := by simp [init]
      ready := by
        intro b linked
        simp only [init, initPeers, createQueuePair] at linked
        split at linked <;> cases linked }
  file a b content found := by
    rw [init, fresh a b] at found
    cases found

theorem Sound.step (sound : s.Sound Read fails cfg) (input : BootInput) (reads : s.Reads Read input)
    (cut : input.answer.ioError = true → fails) : (s.step cfg input).2.Sound Read fails cfg := by
  have move := step_move (cfg.node input.node) input.answer s.files (s.nodes input.node)
  have reads : ∀ content, (s.nodes input.node).phase = .reading →
      s.files.lookup (exchangeFileName (s.nodes input.node).peer (cfg.node input.node).nodeId) = some content →
      Read (s.nodes input.node).peer (cfg.node input.node).nodeId (input.answer.read content) := by
    rw [cfg.own input.node]
    exact reads
  refine ⟨fun a => ?_, fun a => ?_⟩
  all_goals by_cases this : a = input.node
  · subst this
    simp only [Boot.step, Function.update_self]
    exact (sound.node input.node).move move reads
  · simp only [Boot.step, Function.update_of_ne this]
    exact sound.node a
  · subst this
    simp only [Boot.step, Function.update_self]
    exact (sound.file input.node).move (sound.node input.node) move cut
  · simp only [Boot.step, Function.update_of_ne this]
    intro b content found
    rw [move.lookup_other this] at found
    exact sound.file a b content found

/-- No node reads a file that its writer still has open. -/
def ReadsClosed (s : Boot) (input : BootInput) : Prop :=
  (s.nodes input.node).phase = .reading → (s.nodes (s.nodes input.node).peer).phase.writes = true →
    (s.nodes (s.nodes input.node).peer).peer ≠ input.node

instance : DecidableRel ReadsClosed := fun _ _ => inferInstanceAs (Decidable (_ → _ → _))

/-- A step in which no stream fails and no file is read that its writer still has open. -/
def Intact (s : Boot) (input : BootInput) : Prop := input.answer.ioError = false ∧ s.ReadsClosed input

instance : DecidableRel Intact := fun _ _ => inferInstanceAs (Decidable (_ ∧ _))

/-- What is read in such a step is whole, where no stream has failed. -/
theorem Sound.reads_whole (sound : s.Sound Read False cfg) {input : BootInput} (intact : s.Intact input) :
    s.Reads (Whole cfg) input := by
  intro content reading found
  rw [BootAnswer.read, intact.1, if_neg Bool.false_ne_true]
  obtain ⟨-, (whole | none) | ⟨w, writing, here⟩⟩ := sound.file _ _ content found
  · exact whole
  · exact none.elim
  · exact absurd here (intact.2 reading (by rw [writing]; rfl))

theorem Sound.step_intact (sound : s.Sound (Whole cfg) False cfg) {input : BootInput}
    (intact : s.Intact input) : (s.step cfg input).2.Sound (Whole cfg) False cfg :=
  sound.step input (sound.reads_whole intact) fun fails => by simp [intact.1] at fails

end Boot

/-- The receiving side of `p` expects what the sending side of `q` sends from the endpoint `e`: its
number, its packet sequence number and the address of its port. -/
structure QueuePair.ReceivesFrom (p : QueuePair) (e : RdmaEndpoint) (q : QueuePair) : Prop where
  dest : p.rtr.map RtrAttr.destQpNum = some q.qpNum
  psn : p.rtr.map RtrAttr.rqPsn = q.rts.map RtsAttr.sqPsn
  lid : p.rtr.map RtrAttr.dlid = some e.lid
  gid : p.rtr.map (fun attr => attr.grh.map GlobalRoute.dgid) = some (some e.gid)
  ready : p.state = .kRts

theorem published_psn (cfg : BootConfig) (a b : NodeId) : (published cfg a b).psn = localPsn a b :=
  congrArg (localPsn · b) (cfg.own a)

/-- What a whole file tells is what its node published. -/
theorem PeerLinked.whole {cfg : BootConfig} {a b : NodeId} {peer : PeerConnection}
    (linked : PeerLinked (Boot.Whole cfg) (cfg.node a) b peer) :
    peer.remote = published cfg b a ∧
      peer.qp = some (connectedPair (cfg.node a) { qpNum := (cfg.node a).qpNum b } (localPsn a b) (published cfg b a)) := by
  obtain ⟨pair, content, rfl, parsed⟩ := linked
  rw [cfg.own a] at pair parsed
  rw [publishedText, parseExchangeInfo_format] at parsed
  have same : peer.remote = published cfg b a := by
    split at parsed
    · cases parsed
    · exact (Option.some.inj (Except.ok.inj parsed)).symm
  exact ⟨same, same ▸ pair⟩

/-- Each of two connected queue pairs is set to receive from the other. -/
theorem receives_connected (cfg : BootConfig) (a b : NodeId) :
    (connectedPair (cfg.node a) { qpNum := (cfg.node a).qpNum b } (localPsn a b) (published cfg b a)).ReceivesFrom (cfg.node b)
      (connectedPair (cfg.node b) { qpNum := (cfg.node b).qpNum a } (localPsn b a) (published cfg a b)) :=
  ⟨rfl, congrArg some (published_psn cfg b a), rfl, rfl, rfl⟩

/-- **The peers agree**: from a directory without files of an earlier run, whatever the order of the
nodes' steps and whatever else fails, a ready connection holds what its peer published for this node,
as long as no stream fails and no file is read while its writer has it open; and where both ends are
ready, their queue pairs are wired to each other. -/
theorem boot_agrees (cfg : BootConfig) {files : HashMap Text Text} (fresh : Boot.Fresh files) {inputs : List BootInput}
    (intact : Along (Boot.step cfg) Boot.Intact (Boot.init cfg files) inputs) (a b : NodeId)
    (ready : (((Boot.after cfg files inputs).nodes a).peers b).ready = true) :
    (((Boot.after cfg files inputs).nodes a).peers b).remote = published cfg b a ∧
      ((((Boot.after cfg files inputs).nodes b).peers a).ready = true →
        ∃ p q, (((Boot.after cfg files inputs).nodes a).peers b).qp = some p ∧
          (((Boot.after cfg files inputs).nodes b).peers a).qp = some q ∧
          p.ReceivesFrom (cfg.node b) q ∧ q.ReceivesFrom (cfg.node a) p) := by
  have sound : (Boot.after cfg files inputs).Sound (Boot.Whole cfg) False cfg :=
    run_invariant (fun _ input intact sound => sound.step_intact intact) intact (Boot.sound_init fresh)
  obtain ⟨remote, pair⟩ := ((sound.node a).ready b ready).2.whole
  refine ⟨remote, fun back => ?_⟩
  obtain ⟨-, pair'⟩ := ((sound.node b).ready a back).2.whole
  exact ⟨_, _, pair, pair', receives_connected cfg a b, receives_connected cfg b a⟩

/-- Two nodes with one queue pair each. -/
def twoEndpoints : BootConfig where
  node n :=
    { nodeId := n, nrNodes := 2, lid := n + 1, gid := Vector.replicate 16 0, qpNum := fun b => 71 + b.toUInt32
      localBase := 4096, rkey := 5, localLength := 64 }
  own _ := rfl

/-- The nodes in turn, with `flushed` characters at a time. -/
def bootTurns (flushed : Nat) (nodes : List NodeId) : List BootInput := nodes.map fun n => ⟨n, { flushed := flushed }⟩

/-- Node 0 writes its file; node 1 writes its own and connects; node 0 connects. -/
def exchangeInTurn : List BootInput := bootTurns 200 [0, 0, 0, 0, 1, 1, 1, 1, 1, 0, 0]

theorem fresh_empty : Boot.Fresh ∅ := fun _ _ => rfl

theorem exchangeInTurn_agrees :
    (((Boot.after twoEndpoints ∅ exchangeInTurn).nodes 0).peers 1).ready = true ∧
      (((Boot.after twoEndpoints ∅ exchangeInTurn).nodes 0).peers 1).remote = published twoEndpoints 1 0 := by
  have ready : (((Boot.after twoEndpoints ∅ exchangeInTurn).nodes 0).peers 1).ready = true := by decide +kernel
  exact ⟨ready, (boot_agrees twoEndpoints fresh_empty (by decide +kernel) 0 1 ready).1⟩

/-- The disk is full when node 0 has written thirty characters; node 1 finds the file closed. -/
def exchangeCutShort : List BootInput :=
  bootTurns 30 [0, 0, 0] ++ ⟨0, { flushed := 30, ioError := true }⟩ :: bootTurns 200 [1, 1, 1, 1, 1]

example : (((Boot.after twoEndpoints ∅ exchangeCutShort).nodes 1).peers 0).ready = true ∧
    (((Boot.after twoEndpoints ∅ exchangeCutShort).nodes 1).peers 0).remote ≠ published twoEndpoints 0 1 := by decide +kernel

end LeoMem
