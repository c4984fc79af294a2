import LeoMem.Lib.Rounds
import LeoMem.Rdma.Bootstrap
import Mathlib.Algebra.Order.BigOperators.Group.Finset

/-!
# The exchange comes to its end

Each node waits for the files of its peers one after the other, in the order of their ids.
No set of nodes can wait in a ring: a node that waits for a file of `j` waits because `j` is
at a peer with a smaller id, and if `j` waits there too, for `k`, then `k` is smaller than the
first node and waits as well. So as long as files can be opened, the device accepts the queue
pairs and no deadline passes, some node can always go on, and after finitely many rounds all
nodes have connected all their queue pairs (`boot_completes`).
-/

namespace LeoMem
open Lib

/-- A cluster of `nodes` nodes whose queue pairs have numbers. -/
structure BootConfig.Numbered (cfg : BootConfig) (nodes : NodeId) : Prop where
  nrNodes : ∀ n < nodes, (cfg.node n).nrNodes = nodes
  pairs : ∀ a < nodes, ∀ b < nodes, a ≠ b → (cfg.node a).qpNum b ≠ 0

/-- Nothing goes wrong in the step, a text reaches its file at once, and no file is read before it is closed. -/
structure Boot.Smooth (cfg : BootConfig) (nodes : NodeId) (s : Boot) (input : BootInput) : Prop where
  member : input.node < nodes
  makesDir : input.answer.makesDir = true
  opens : input.answer.opens = true
  inTime : input.answer.expired = false
  rtr : input.answer.rtr = true
  rts : input.answer.rts = true
  flushed : (publishedText cfg input.node (s.nodes input.node).peer).length ≤ input.answer.flushed
  intact : s.Intact input

instance (cfg : BootConfig) (nodes : NodeId) : DecidableRel (Boot.Smooth cfg nodes) := fun s input =>
  decidable_of_iff (input.node < nodes ∧ input.answer.makesDir = true ∧ input.answer.opens = true ∧
      input.answer.expired = false ∧ input.answer.rtr = true ∧ input.answer.rts = true ∧
      (publishedText cfg input.node (s.nodes input.node).peer).length ≤ input.answer.flushed ∧ s.Intact input)
    ⟨fun ⟨member, makesDir, opens, inTime, rtr, rts, flushed, intact⟩ =>
        ⟨member, makesDir, opens, inTime, rtr, rts, flushed, intact⟩,
      fun ⟨member, makesDir, opens, inTime, rtr, rts, flushed, intact⟩ =>
        ⟨member, makesDir, opens, inTime, rtr, rts, flushed, intact⟩⟩

/-- The steps of a node that gets on. -/
inductive BootAdvance (e : RdmaEndpoint) (files : HashMap Text Text) (st : BootNode) : HashMap Text Text → BootNode → Prop
  | started (phase : st.phase = .starting) : BootAdvance e files st files { st with phase := .publishing }
  | skipped (phase : st.phase = .publishing) (below : st.index < e.nrNodes.toNat) (own : st.peer = e.nodeId) :
      BootAdvance e files st files { st with index := st.index + 1 }
  | opened (phase : st.phase = .publishing) (below : st.index < e.nrNodes.toNat) :
      BootAdvance e files st (files.insert (exchangeFileName e.nodeId st.peer) []) { st with phase := .writing 0 }
  | wrote {w : Nat} (phase : st.phase = .writing w) (text : Text) :
      BootAdvance e files st (files.insert (exchangeFileName e.nodeId st.peer) text) { st with phase := .waiting }
  | found (phase : st.phase = .waiting) (there : (files.lookup (exchangeFileName st.peer e.nodeId)).isSome) :
      BootAdvance e files st files { st with phase := .reading }
  | connected (phase : st.phase = .reading) {peer : PeerConnection} (ready : peer.ready = true) :
      BootAdvance e files st files
        { index := st.index + 1, phase := .publishing, peers := Function.update st.peers st.peer peer }
  | finished (phase : st.phase = .publishing) (done : e.nrNodes.toNat ≤ st.index) :
      BootAdvance e files st files { st with phase := .returned .kOk }

/-- The exchange is over for the node, well or not. -/
def BootPhase.isOver : BootPhase → Bool
  | .returned _ => true
  | .thrown _ => true
  | _ => false

/-- A node that can get on: it is not done, and the file it waits for is there. -/
def BootNode.CanMove (e : RdmaEndpoint) (files : HashMap Text Text) (st : BootNode) : Prop :=
  st.phase.isOver = false ∧ (st.phase = .waiting → (files.lookup (exchangeFileName st.peer e.nodeId)).isSome)

/-- The steps a node has left. -/
def BootNode.rank (nodes : NodeId) (st : BootNode) : Nat :=
  match st.phase with
  | .starting => 4 * (nodes.toNat - st.index) + 2
  | .publishing => 4 * (nodes.toNat - st.index) + 1
  | .writing _ => 4 * (nodes.toNat - st.index)
  | .waiting => 4 * (nodes.toNat - st.index) - 1
  | .reading => 4 * (nodes.toNat - st.index) - 2
  | .returned _ => 0
  | .thrown _ => 0

section
variable {Read : NodeId → NodeId → Text → Prop} {e : RdmaEndpoint} {answer : BootAnswer} {files files' : HashMap Text Text}
  {st st' : BootNode} {nodes : NodeId}

/-- A step that gets on leaves fewer steps. -/
theorem BootAdvance.rank_lt (sound : st.Sound Read e) (size : e.nrNodes = nodes)
    (advance : BootAdvance e files st files' st') : st'.rank nodes < st.rank nodes := by
  subst size
  cases advance with
  | started phase => simp [BootNode.rank, phase]
  | skipped phase below own =>
    simp only [BootNode.rank, phase]
    omega
  | opened phase below => simp [BootNode.rank, phase]
  | wrote phase text =>
    have below := (sound.writing _ phase).1
    simp only [BootNode.rank, phase]
    omega
  | found phase there =>
    have below := (sound.waiting phase).1
    simp only [BootNode.rank, phase]
    omega
  | connected phase ready =>
    have below := (sound.reading phase).1
    simp only [BootNode.rank, phase]
    omega
  | finished phase done => simp [BootNode.rank, phase]

end

/-- A connection to a peer whose file is whole. -/
theorem connect_whole {cfg : BootConfig} {nodes a : NodeId} (numbered : cfg.Numbered nodes) {Read : NodeId → NodeId → Text → Prop}
    {st : BootNode} (sound : st.Sound Read (cfg.node a)) (phase : st.phase = .reading) (inside : a < nodes)
    {answer : BootAnswer} (rtr : answer.rtr = true) (rts : answer.rts = true) :
    ∃ peer : PeerConnection, peer.ready = true ∧ st.connect (cfg.node a) answer (publishedText cfg st.peer a) =
      { index := st.index + 1, phase := .publishing, peers := Function.update st.peers st.peer peer } := by
  obtain ⟨below, other⟩ := sound.reading phase
  have size := numbered.nrNodes a inside
  have peerInside : st.peer < nodes := by
    rw [UInt16.lt_iff_toNat_lt, toNat_peer below, ← size]
    exact below
  rw [cfg.own a] at other
  have named : (published cfg st.peer a).nodeId ≠ kInvalidNodeId := by
    change (cfg.node st.peer).nodeId ≠ kInvalidNodeId
    rw [cfg.own st.peer]
    rintro last
    rw [last, UInt16.lt_iff_toNat_lt] at peerInside
    have := nodes.toNat_lt
    have value : kInvalidNodeId.toNat = 65535 := rfl
    omega
  have number : (published cfg st.peer a).qpn ≠ 0 := numbered.pairs st.peer peerInside a inside other
  have parsed : parseExchangeInfo (publishedText cfg st.peer a) = .ok (some (published cfg st.peer a)) := by
    rw [publishedText, parseExchangeInfo_format, if_neg (by simp [named, number])]
  have kept := sound.kept st.peer
  rw [PeerKept, if_neg (by rw [cfg.own a]; exact other)] at kept
  obtain ⟨qp, pair, -⟩ := Option.map_eq_some_iff.mp kept.1
  unfold BootNode.connect
  rw [parsed]
  simp only [transitionQueuePair, pair, rtr, rts, Bool.true_eq_false, if_false, ne_eq, not_true_eq_false]
  exact ⟨_, rfl, rfl⟩

/-! ## Getting on -/

/-- The node's file for its present peer is there. -/
def BootPhase.published : BootPhase → Bool
  | .writing _ => true
  | .waiting => true
  | .reading => true
  | _ => false

/-- Node `n` in a run in which nothing has gone wrong: the files of the peers it has been at are there,
and the connections to those it has left are ready. -/
structure BootNode.OnCourse (nodes n : NodeId) (files : HashMap Text Text) (st : BootNode) : Prop where
  ends : st.phase.isOver = true → st.phase = .returned .kOk ∧ nodes.toNat ≤ st.index
  there : st.phase = .reading → (files.lookup (exchangeFileName st.peer n)).isSome
  done : ∀ b < nodes, b ≠ n → b.toNat < st.index → (st.peers b).ready = true
  written : ∀ b < nodes, b ≠ n → b.toNat < st.index ∨ b.toNat = st.index ∧ st.phase.published = true →
    (files.lookup (exchangeFileName n b)).isSome

section
variable {nodes n : NodeId} {files files' : HashMap Text Text} {st st' : BootNode}

theorem BootNode.OnCourse.mono (course : st.OnCourse nodes n files)
    (more : ∀ name, (files.lookup name).isSome → (files'.lookup name).isSome) : st.OnCourse nodes n files' :=
  ⟨course.ends, fun reading => more _ (course.there reading), course.done,
    fun b inside other reached => more _ (course.written b inside other reached)⟩

theorem isSome_insert (files : HashMap Text Text) (name text : Text) (other : Text) (there : (files.lookup other).isSome) :
    ((files.insert name text).lookup other).isSome := by
  rw [HashMap.lookup_insert_if]
  split
  · rfl
  · exact there

/-- A step of a node that gets on takes no file away. -/
theorem BootAdvance.files_mono {e : RdmaEndpoint} (advance : BootAdvance e files st files' st') (name : Text)
    (there : (files.lookup name).isSome) : (files'.lookup name).isSome := by
  cases advance with
  | opened | wrote => exact isSome_insert files _ _ name there
  | _ => exact there

theorem eq_peer {e : RdmaEndpoint} (below : st.index < e.nrNodes.toNat) {b : NodeId} (here : b.toNat = st.index) :
    b = st.peer := UInt16.toNat_inj.mp (here.trans (toNat_peer below).symm)

/-- **A node that gets on stays on course.** -/
theorem BootNode.OnCourse.advance {Read : NodeId → NodeId → Text → Prop} {e : RdmaEndpoint} (own : e.nodeId = n)
    (size : e.nrNodes = nodes) (sound : st.Sound Read e) (course : st.OnCourse nodes n files)
    (advance : BootAdvance e files st files' st') : st'.OnCourse nodes n files' := by
  have grown := course.mono advance.files_mono
  -- the file for the peer of the loop is there once it has been opened
  have opened : ∀ text b, b.toNat = st.index → st.index < e.nrNodes.toNat →
      ((files.insert (exchangeFileName e.nodeId st.peer) text).lookup (exchangeFileName n b)).isSome := by
    intro text b here below
    rw [eq_peer below here, own, HashMap.lookup_insert_if, if_pos rfl]
    rfl
  cases advance with
  | started phase =>
    refine ⟨by simp [BootPhase.isOver], by simp, course.done,
      fun b inside other reached => course.written b inside other (Or.inl ?_)⟩
    exact reached.resolve_right (by simp [BootPhase.published])
  | skipped phase below self =>
    have earlier : ∀ b : NodeId, b ≠ n → b.toNat < st.index + 1 → b.toNat < st.index := by
      intro b other early
      have apart : b.toNat ≠ st.index := fun here => other ((eq_peer below here).trans (self.trans own))
      omega
    refine ⟨by simp [phase, BootPhase.isOver], by simp [phase],
      fun b inside other early => course.done b inside other (earlier b other early),
      fun b inside other reached => course.written b inside other (Or.inl (earlier b other ?_))⟩
    exact reached.resolve_right (by simp [phase, BootPhase.published])
  | opened phase below =>
    refine ⟨by simp [BootPhase.isOver], by simp, course.done, fun b inside other reached => ?_⟩
    rcases reached with early | ⟨here, -⟩
    · exact grown.written b inside other (Or.inl early)
    · exact opened [] b here below
  | wrote phase text =>
    have below := (sound.writing _ phase).1
    refine ⟨by simp [BootPhase.isOver], by simp, course.done, fun b inside other reached => ?_⟩
    rcases reached with early | ⟨here, -⟩
    · exact grown.written b inside other (Or.inl early)
    · exact opened text b here below
  | found phase there =>
    refine ⟨by simp [BootPhase.isOver], fun _ => own ▸ there, course.done, fun b inside other reached => ?_⟩
    exact course.written b inside other (reached.imp_right fun here => ⟨here.1, by rw [phase]; rfl⟩)
  | connected phase ready =>
    have below := (sound.reading phase).1
    refine ⟨by simp [BootPhase.isOver], by simp, fun b inside other early => ?_, fun b inside other reached => ?_⟩
    · by_cases this : b = st.peer
      · subst this
        simpa using ready
      · have apart : b.toNat ≠ st.index := fun here => this (eq_peer below here)
        simp only [Function.update_of_ne this]
        simp only at early
        exact course.done b inside other (by omega)
    · have early : b.toNat < st.index + 1 := reached.resolve_right (by simp [BootPhase.published])
      refine course.written b inside other ?_
      by_cases here : b.toNat = st.index
      · exact Or.inr ⟨here, by rw [phase]; rfl⟩
      · exact Or.inl (by omega)
  | finished phase done =>
    refine ⟨fun _ => ⟨rfl, size ▸ done⟩, by simp, course.done, fun b inside other reached => ?_⟩
    exact course.written b inside other (Or.inl (reached.resolve_right (by simp [BootPhase.published])))

end

namespace Boot
variable {cfg : BootConfig} {nodes : NodeId} {s : Boot}

/-- Every node is on course. -/
structure OnCourse (cfg : BootConfig) (nodes : NodeId) (s : Boot) : Prop where
  sound : s.Sound (Whole cfg) False cfg
  node : ∀ n < nodes, (s.nodes n).OnCourse nodes n s.files

/-- Node `n` can get on. -/
def CanMove (cfg : BootConfig) (s : Boot) (n : NodeId) : Prop := (s.nodes n).CanMove (cfg.node n) s.files

/-- **A node that can get on does**, in a step in which nothing goes wrong. -/
theorem OnCourse.advances (numbered : cfg.Numbered nodes) (course : s.OnCourse cfg nodes) {input : BootInput}
    (smooth : s.Smooth cfg nodes input) (moves : s.CanMove cfg input.node) :
    BootAdvance (cfg.node input.node) s.files (s.nodes input.node)
      ((s.nodes input.node).step (cfg.node input.node) input.answer s.files).1
      ((s.nodes input.node).step (cfg.node input.node) input.answer s.files).2 := by
  have node := course.node input.node smooth.member
  have sound := course.sound.node input.node
  obtain ⟨going, found⟩ := moves
  unfold BootNode.step
  split
  · rename_i phase
    simp only [smooth.makesDir, if_true]
    exact .started phase
  · rename_i phase
    split
    · rename_i below
      by_cases self : (s.nodes input.node).peer = (cfg.node input.node).nodeId
      · rw [if_pos (Or.inl self)]
        exact .skipped phase below self
      · have kept := sound.kept (s.nodes input.node).peer
        rw [PeerKept, if_neg self] at kept
        have pair : ((s.nodes input.node).peers (s.nodes input.node).peer).qp ≠ none := by
          intro none
          rw [none] at kept
          cases kept.1
        rw [if_neg (by simp [self, pair]), if_neg (by simp [smooth.opens])]
        exact .opened phase below
    · rename_i done
      exact .finished phase (Nat.le_of_not_lt done)
  · rename_i written phase
    obtain ⟨-, other⟩ := sound.writing written phase
    have kept := sound.kept (s.nodes input.node).peer
    rw [PeerKept, if_neg other] at kept
    obtain ⟨qp, pair, -⟩ := Option.map_eq_some_iff.mp kept.1
    have text := publishedText_eq sound (by rw [cfg.own] at other; exact other) pair
    have all := smooth.flushed
    simp only [pair, text]
    rw [if_pos (Or.inl (by omega))]
    exact .wrote phase _
  · rename_i phase
    rw [if_pos (found phase)]
    exact .found phase (found phase)
  · rename_i phase
    obtain ⟨content, file⟩ := Option.isSome_iff_exists.mp (node.there phase)
    have whole : input.answer.read content = publishedText cfg (s.nodes input.node).peer input.node :=
      course.sound.reads_whole smooth.intact content phase file
    obtain ⟨peer, ready, connected⟩ := connect_whole numbered sound phase smooth.member smooth.rtr smooth.rts
    rw [cfg.own, file]
    simp only [smooth.opens, Bool.true_eq_false, if_false]
    rw [whole, connected]
    exact .connected phase ready
  · rename_i status phase
    rw [phase] at going
    cases going
  · rename_i error phase
    rw [phase] at going
    cases going

/-- A node that cannot get on is done, or waits for a file that is not there. -/
theorem stuck_cases {n : NodeId} (stuck : ¬ s.CanMove cfg n) :
    (s.nodes n).phase.isOver = true ∨
      (s.nodes n).phase = .waiting ∧ s.files.lookup (exchangeFileName (s.nodes n).peer n) = none := by
  unfold CanMove BootNode.CanMove at stuck
  rw [cfg.own n] at stuck
  cases going : (s.nodes n).phase.isOver with
  | true => exact Or.inl rfl
  | false =>
    simp only [going, true_and, Classical.not_imp, Bool.not_eq_true, Option.isSome_eq_false_iff, Option.isNone_iff_eq_none] at stuck
    exact Or.inr stuck

/-- It stays where it is. -/
theorem step_of_stuck {input : BootInput} (smooth : s.Smooth cfg nodes input) (stuck : ¬ s.CanMove cfg input.node) :
    (s.nodes input.node).step (cfg.node input.node) input.answer s.files = (s.files, s.nodes input.node) := by
  rcases stuck_cases stuck with ended | ⟨waiting, missing⟩
  · unfold BootNode.step
    cases phase : (s.nodes input.node).phase with
    | returned status => rfl
    | thrown error => rfl
    | _ =>
      rw [phase] at ended
      cases ended
  · unfold BootNode.step
    simp only [waiting]
    rw [cfg.own, missing, if_neg (by simp), if_neg (by simp [smooth.inTime])]

theorem OnCourse.step (numbered : cfg.Numbered nodes) (course : s.OnCourse cfg nodes) {input : BootInput}
    (smooth : s.Smooth cfg nodes input) : (s.step cfg input).2.OnCourse cfg nodes := by
  refine ⟨course.sound.step_intact smooth.intact, fun n inside => ?_⟩
  by_cases moves : s.CanMove cfg input.node
  · have advance := course.advances numbered smooth moves
    by_cases this : n = input.node
    · subst this
      simp only [Boot.step, Function.update_self]
      exact (course.node input.node inside).advance (cfg.own _) (numbered.nrNodes _ inside) (course.sound.node _) advance
    · simp only [Boot.step, Function.update_of_ne this]
      exact (course.node n inside).mono advance.files_mono
  · have same : (s.step cfg input).2 = s := by
      unfold Boot.step
      rw [step_of_stuck smooth moves]
      simp
    rw [same]
    exact course.node n inside

/-- **No ring of nodes waits**: as long as a node is not done, some node can get on. -/
theorem OnCourse.exists_canMove (numbered : cfg.Numbered nodes) (course : s.OnCourse cfg nodes) {i : NodeId} (inside : i < nodes)
    (going : (s.nodes i).phase.isOver = false) : ∃ n < nodes, s.CanMove cfg n := by
  by_contra stuck
  simp only [not_exists, not_and] at stuck
  -- a node that waits for `j` meets `j` at a smaller id than its own
  have waits : ∀ i < nodes, (s.nodes i).phase.isOver = false →
      ∃ j < nodes, j ≠ i ∧ j.toNat = (s.nodes i).index ∧ (s.nodes j).phase.isOver = false ∧ (s.nodes j).index < i.toNat := by
    intro i inside going
    rcases stuck_cases (stuck i inside) with ended | ⟨waiting, missing⟩
    · rw [going] at ended
      cases ended
    · obtain ⟨below, other⟩ := (course.sound.node i).waiting waiting
      rw [cfg.own i] at other
      have index := toNat_peer below
      rw [numbered.nrNodes i inside] at below
      have peerInside : (s.nodes i).peer < nodes := by
        rw [UInt16.lt_iff_toNat_lt, index]
        exact below
      have unwritten : ¬ (i.toNat < (s.nodes (s.nodes i).peer).index ∨
          i.toNat = (s.nodes (s.nodes i).peer).index ∧ (s.nodes (s.nodes i).peer).phase.published = true) := by
        intro reached
        have there := (course.node _ peerInside).written i inside (Ne.symm other) reached
        rw [missing] at there
        cases there
      obtain ⟨late, notHere⟩ := not_or.mp unwritten
      have peerGoing : (s.nodes (s.nodes i).peer).phase.isOver = false := by
        cases ended : (s.nodes (s.nodes i).peer).phase.isOver with
        | false => rfl
        | true =>
          have done := ((course.node _ peerInside).ends ended).2
          have := UInt16.lt_iff_toNat_lt.mp inside
          omega
      refine ⟨_, peerInside, other, index, peerGoing, ?_⟩
      rcases stuck_cases (stuck _ peerInside) with ended | ⟨peerWaiting, -⟩
      · rw [peerGoing] at ended
        cases ended
      · have apart : i.toNat ≠ (s.nodes (s.nodes i).peer).index := fun here => notHere ⟨here, by rw [peerWaiting]; rfl⟩
        omega
  -- so every node that waits has one with a smaller id that waits
  have none : ∀ m, ∀ i < nodes, i.toNat = m → (s.nodes i).phase.isOver = false → False := by
    intro m
    induction m using Nat.strongRecOn with
    | ind m ih =>
      intro i inside same going
      obtain ⟨j, jInside, -, -, jGoing, smaller⟩ := waits i inside going
      obtain ⟨k, kInside, -, place, kGoing, -⟩ := waits j jInside jGoing
      exact ih k.toNat (by omega) k kInside rfl kGoing
  exact none _ i inside rfl going

/-- The steps all nodes have left. -/
def rank (nodes : NodeId) (s : Boot) : Nat := ∑ n ∈ (members nodes).toFinset, (s.nodes n).rank nodes

theorem mem_members_toFinset {n : NodeId} : n ∈ (members nodes).toFinset ↔ n < nodes :=
  List.mem_toFinset.trans mem_members

/-- **The exchange makes progress.** -/
theorem boot_progress (numbered : cfg.Numbered nodes) :
    Progresses (Boot.step cfg) (Smooth cfg nodes) BootInput.node (OnCourse cfg nodes) (rank nodes) (CanMove cfg) := by
  have rank_step : ∀ (s : Boot) (input : BootInput), s.Smooth cfg nodes input → s.OnCourse cfg nodes → s.CanMove cfg input.node →
      ((s.step cfg input).2.nodes input.node).rank nodes < (s.nodes input.node).rank nodes := by
    intro s input smooth course moves
    simp only [Boot.step, Function.update_self]
    exact (course.advances numbered smooth moves).rank_lt (course.sound.node _) (numbered.nrNodes _ smooth.member)
  have others : ∀ (s : Boot) (input : BootInput), ∀ n, n ≠ input.node → (s.step cfg input).2.nodes n = s.nodes n :=
    fun s input n other => Function.update_of_ne other _ _
  have same : ∀ (s : Boot) (input : BootInput), s.Smooth cfg nodes input → ¬ s.CanMove cfg input.node →
      (s.step cfg input).2 = s := by
    intro s input smooth stuck
    unfold Boot.step
    rw [step_of_stuck smooth stuck]
    simp
  have moves : ∀ (s : Boot) (input : BootInput), s.Smooth cfg nodes input → s.OnCourse cfg nodes → s.CanMove cfg input.node →
      (s.step cfg input).2.rank nodes < s.rank nodes := by
    intro s input smooth course moves
    refine Finset.sum_lt_sum (fun n _ => ?_)
      ⟨input.node, mem_members_toFinset.mpr smooth.member, rank_step s input smooth course moves⟩
    by_cases this : n = input.node
    · rw [this]
      exact (rank_step s input smooth course moves).le
    · rw [others s input n this]
  refine ⟨fun s input smooth course => course.step numbered smooth, fun s input smooth course => ?_, moves,
    fun s input n smooth course other able => ?_⟩
  · by_cases able : s.CanMove cfg input.node
    · exact (moves s input smooth course able).le
    · rw [same s input smooth able]
  · by_cases moving : s.CanMove cfg input.node
    · have advance := course.advances numbered smooth moving
      unfold CanMove
      rw [others s input n (Ne.symm other)]
      exact ⟨able.1, fun waiting => advance.files_mono _ (able.2 waiting)⟩
    · rw [same s input smooth moving]
      exact able

theorem onCourse_init (cfg : BootConfig) (nodes : NodeId) {files : HashMap Text Text} (fresh : Fresh files) :
    (init cfg files).OnCourse cfg nodes where
  sound := sound_init fresh
  node n inside :=
    { ends := by simp [init, BootPhase.isOver]
      there := by simp [init]
      done := by simp [init]
      written := by simp [init, BootPhase.published] }

theorem rank_init (cfg : BootConfig) (nodes : NodeId) (files : HashMap Text Text) :
    (init cfg files).rank nodes = nodes.toNat * (4 * nodes.toNat + 2) := by
  have size : (members nodes).toFinset.card = nodes.toNat := by
    rw [List.toFinset_card_of_nodup (nodup_members nodes), members, List.length_map, List.length_range]
  have each : ∀ n ∈ (members nodes).toFinset, ((init cfg files).nodes n).rank nodes = 4 * nodes.toNat + 2 :=
    fun n _ => by simp [init, BootNode.rank]
  unfold rank
  rw [Finset.sum_const_nat each, size]

/-- A node that is not done has steps left. -/
theorem OnCourse.isOver_of_rank (numbered : cfg.Numbered nodes) (course : s.OnCourse cfg nodes) {n : NodeId} (inside : n < nodes)
    (none : (s.nodes n).rank nodes = 0) : (s.nodes n).phase.isOver = true := by
  have size := numbered.nrNodes n inside
  have sound := course.sound.node n
  cases phase : (s.nodes n).phase with
  | returned status => rfl
  | thrown error => rfl
  | starting | publishing => simp [BootNode.rank, phase] at none
  | writing w =>
    have below := (sound.writing w phase).1
    rw [size] at below
    simp only [BootNode.rank, phase] at none
    omega
  | waiting =>
    have below := (sound.waiting phase).1
    rw [size] at below
    simp only [BootNode.rank, phase] at none
    omega
  | reading =>
    have below := (sound.reading phase).1
    rw [size] at below
    simp only [BootNode.rank, phase] at none
    omega

end Boot

/-- **The exchange completes**: from a directory without files of an earlier run, if nothing goes wrong
and every node moves in each of enough rounds, in any order, `ExchangeAndConnect` returns `kOk` at
every node with all its connections ready. -/
theorem boot_completes (cfg : BootConfig) {nodes : NodeId} (numbered : cfg.Numbered nodes) {files : HashMap Text Text}
    (fresh : Boot.Fresh files) {rounds : List (List BootInput)}
    (full : ∀ round ∈ rounds, ∀ n < nodes, n ∈ round.map BootInput.node)
    (smooth : Along (Boot.step cfg) (Boot.Smooth cfg nodes) (Boot.init cfg files) rounds.flatten)
    (enough : nodes.toNat * (4 * nodes.toNat + 2) ≤ rounds.length) (n : NodeId) (inside : n < nodes) :
    ((Boot.after cfg files rounds.flatten).nodes n).phase = .returned .kOk ∧
      ∀ b < nodes, b ≠ n → (((Boot.after cfg files rounds.flatten).nodes n).peers b).ready = true := by
  have enabled : ∀ s : Boot, s.OnCourse cfg nodes → s.rank nodes ≠ 0 → ∃ n ∈ members nodes, s.CanMove cfg n := by
    intro s course left
    obtain ⟨i, member, some⟩ := Finset.exists_ne_zero_of_sum_ne_zero left
    have inside := Boot.mem_members_toFinset.mp member
    have going : (s.nodes i).phase.isOver = false := by
      cases phase : (s.nodes i).phase with
      | returned | thrown => simp [BootNode.rank, phase] at some
      | _ => rfl
    obtain ⟨n, memberN, able⟩ := course.exists_canMove numbered inside going
    exact ⟨n, mem_members.mpr memberN, able⟩
  have all : ∀ round ∈ rounds, ∀ n ∈ members nodes, n ∈ round.map BootInput.node :=
    fun round member n here => full round member n (mem_members.mp here)
  obtain ⟨course, left⟩ := (Boot.boot_progress numbered).rounds enabled all smooth (Boot.onCourse_init cfg nodes fresh)
  rw [Boot.rank_init, Nat.sub_eq_zero_of_le enough] at left
  have none : (((Boot.after cfg files rounds.flatten).nodes n).rank nodes) = 0 :=
    Finset.sum_eq_zero_iff.mp (Nat.le_zero.mp left) n (Boot.mem_members_toFinset.mpr inside)
  obtain ⟨returned, last⟩ := (course.node n inside).ends (course.isOver_of_rank numbered inside none)
  refine ⟨returned, fun b bInside other => (course.node n inside).done b bInside other ?_⟩
  have := UInt16.lt_iff_toNat_lt.mp bInside
  exact Nat.lt_of_lt_of_le this last

/-- Two nodes take turns. -/
def takingTurns : List (List BootInput) := List.replicate 20 (bootTurns 200 [0, 1])

theorem twoEndpoints_numbered : twoEndpoints.Numbered 2 where
  nrNodes _ _ := rfl
  pairs a _ b below _ := by
    have small := UInt16.lt_iff_toNat_lt.mp below
    intro zero
    have value := congrArg UInt32.toNat zero
    simp [twoEndpoints] at value
    simp at small
    omega

theorem takingTurns_completes :
    ((Boot.after twoEndpoints ∅ takingTurns.flatten).nodes 0).phase = .returned .kOk ∧
      ∀ b < 2, b ≠ 0 → (((Boot.after twoEndpoints ∅ takingTurns.flatten).nodes 0).peers b).ready = true := by
  have full : ∀ round ∈ takingTurns, ∀ n < (2 : NodeId), n ∈ round.map BootInput.node := by
    intro round member n below
    rw [List.eq_of_mem_replicate member]
    have small := UInt16.lt_iff_toNat_lt.mp below
    have either : n = 0 ∨ n = 1 := by
      rw [← UInt16.toNat_inj, ← UInt16.toNat_inj]
      simp at small ⊢
      omega
    rcases either with rfl | rfl <;> decide
  exact boot_completes twoEndpoints twoEndpoints_numbered fresh_empty full (by decide +kernel) (by decide) 0 (by decide)

end LeoMem
