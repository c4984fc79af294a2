import LeoMem.Api.ReadEffect
import LeoMem.Stub.Memory
import LeoMem.Threads.History

/-!
# The order of flushed writes

A flush drains the queue in one section and writes the batch in others. Between them other
threads may store newer writes, drain and write them. The last write stays as long as a
batch is written before those drained earlier only where these have the bytes of a write
that precedes no other. Then what is stored last is, at any time, in the queue, or else in
the newest batch in hand; or else the home and all batches in hand have bytes that may stay
(`Carried`).
-/

namespace LeoMem
open Lib

namespace Threads

/-- Once all is done, the home has the bytes of a write that precedes no other. -/
def LastWriteStays (cfg : Config) (d : DsmAllocator) (addr : GlobalAddr) (size : UInt64) (history : List ThreadEvent)
    (s : Threads) : Prop :=
  s.Done history → (∃ call buf, ThreadEvent.writeCalled call buf ∈ history) →
    ∃ call buf, .writeCalled call buf ∈ history ∧ (StubTransport.read cfg d addr size s.transport).1 = .ok buf ∧
      ∀ other, ¬ Precedes history call other

/-- The thread has the batch in hand, with `request` to write next. -/
def Holds (s : Threads) (thread : ThreadId) (batch : Nat) (request : RemoteWriteRequest) : Prop :=
  ∃ rest next, s.stage thread = .writing batch request rest next

/-- A request of a batch is written while every earlier batch in hand has the bytes of a write
that precedes no other so far. -/
def InDrainOrder (history : List ThreadEvent) (s : Threads) : ThreadInput → Prop
  | .advance thread _ _ _ =>
    ∀ batch request other batch' request', s.Holds thread batch request → s.Holds other batch' request' →
      batch ≤ batch' ∨ ∃ call, .writeCalled call request'.buf ∈ history ∧ ∀ later, ¬ Precedes history call later
  | _ => True

end Threads

/-- A write of `size` bytes, if it is one. -/
def ThreadInput.Writes (size : UInt64) : ThreadInput → Prop
  | .write _ buf => buf.size = size
  | _ => True

instance (size : UInt64) : ∀ input : ThreadInput, Decidable (input.Writes size)
  | .write _ buf => inferInstanceAs (Decidable (buf.size = size))
  | .fence _ => .isTrue trivial
  | .advance .. => .isTrue trivial

/-! ### The bytes of the last store -/

/-- The stage is no write of a batch. -/
def Stage.HandsFree (stage : Stage) : Prop := ∀ batch request rest next, stage ≠ .writing batch request rest next

namespace Threads

/-- The bytes of a write that precedes none of the stored ones. -/
def LastAmong (history : List ThreadEvent) (order : List Nat) (buf : Bytes) : Prop :=
  ∃ call, .writeCalled call buf ∈ history ∧ ∀ other ∈ order, ¬ Precedes history call other

/-- Where the bytes stored last are: in the queue, or else in the newest batch in hand; once
this is written, the home and the batches in hand have bytes that may stay. -/
inductive Carried (cfg : Config) (d : DsmAllocator) (addr : GlobalAddr) (size : UInt64) (history : List ThreadEvent)
    (order : List Nat) (s : Threads) (buf : Bytes) : Prop
  | queued {e : PendingRemoteWrite} (queue : s.queues.of addr.homeNode = [e]) (payload : e.payload = buf)
  | inHand {thread : ThreadId} {batch : Nat} {request : RemoteWriteRequest} (queue : s.queues.of addr.homeNode = [])
      (holds : s.Holds thread batch request) (payload : request.buf = buf)
      (newest : ∀ other batch' request', s.Holds other batch' request' → batch' ≤ batch)
  | written {bytes : Bytes} (queue : s.queues.of addr.homeNode = [])
      (hands : ∀ thread batch request, s.Holds thread batch request → LastAmong history order request.buf)
      (home : (StubTransport.read cfg d addr size s.transport).1 = .ok bytes) (last : LastAmong history order bytes)

/-- The queues and the batches in hand have writes to `addr` only, one each. -/
structure Single (cfg : Config) (addr : GlobalAddr) (size : UInt64) (s : Threads) : Prop where
  elsewhere : ∀ node, node ≠ addr.homeNode → s.queues.of node = []
  queue : s.queues.of addr.homeNode = [] ∨
    ∃ e, s.queues.of addr.homeNode = [e] ∧ e.addr = addr ∧ e.payload.size = size
  hand : ∀ thread batch request rest next, s.stage thread = .writing batch request rest next →
    rest = [] ∧ request.addr = addr ∧ request.buf.size = size ∧ batch < s.batches
  apart : ∀ thread other batch request request', s.Holds thread batch request → s.Holds other batch request' →
    thread = other
  direct : cfg.enableWriteBatching = false →
    s.queues.of addr.homeNode = [] ∧ ∀ thread batch request, ¬ s.Holds thread batch request

/-- A call has failed or is about to. -/
def Failed (history : List ThreadEvent) (s : Threads) : Prop :=
  (∃ call status, .returned call status ∈ history ∧ status ≠ .kOk) ∨
    ∃ thread status, s.stage thread = .returning status ∧ status ≠ .kOk

/-- The bytes stored last are on their way or there. -/
structure Carrying (cfg : Config) (d : DsmAllocator) (addr : GlobalAddr) (size : UInt64) (history : List ThreadEvent)
    (order : List Nat) (s : Threads) : Prop where
  single : s.Single cfg addr size
  last : ∀ call, order.getLast? = some call →
    ∃ buf, .writeCalled call buf ∈ history ∧ s.Carried cfg d addr size history order buf

section
variable {cfg : Config} {d : DsmAllocator} {addr : GlobalAddr} {size : UInt64} {history history' : List ThreadEvent}
  {order : List Nat} {s s' : Threads} {thread : ThreadId}

/-- The batches in hand are the same. -/
def SameHands (s s' : Threads) : Prop := ∀ other batch request rest next,
  s'.stage other = .writing batch request rest next ↔ s.stage other = .writing batch request rest next

theorem SameHands.holds (same : SameHands s s') (other : ThreadId) (batch : Nat) (request : RemoteWriteRequest) :
    s'.Holds other batch request ↔ s.Holds other batch request :=
  exists_congr fun rest => exists_congr fun next => same other batch request rest next

variable {buf : Bytes} {stage : Stage} (next : AfterFlush)

theorem handsFree_stage : next.stage.HandsFree := by
  intro batch request rest next'
  rcases next with _ | (_ | ⟨node, nodes⟩) <;> simp [AfterFlush.stage]

theorem sameHands_update (before : (s.stage thread).HandsFree) (after : stage.HandsFree)
    (stages : s'.stage = Function.update s.stage thread stage) : SameHands s s' := by
  intro other batch request rest next
  rw [stages]
  by_cases here : other = thread
  · rw [here, Function.update_self]
    exact iff_of_false (after _ _ _ _) (before _ _ _ _)
  · rw [Function.update_of_ne here]

/-- The history grows by no call of a stored write. -/
structure Grows (history history' : List ThreadEvent) (order : List Nat) : Prop where
  events : history ⊆ history'
  precedes : ∀ v, ∀ w ∈ order, Precedes history' v w → Precedes history v w

theorem Grows.refl (history : List ThreadEvent) (order : List Nat) : Grows history history order :=
  ⟨fun _ member => member, fun _ _ _ before => before⟩

theorem LastAmong.grows (last : LastAmong history order buf) (grows : Grows history history' order) :
    LastAmong history' order buf := by
  obtain ⟨call, called, none⟩ := last
  exact ⟨call, grows.events called, fun other stored precedes => none other stored (grows.precedes call other stored precedes)⟩

theorem Carried.congr (carried : s.Carried cfg d addr size history order buf) (grows : Grows history history' order)
    (queue : s'.queues.of addr.homeNode = s.queues.of addr.homeNode) (transport : s'.transport = s.transport)
    (same : SameHands s s') : s'.Carried cfg d addr size history' order buf := by
  cases carried with
  | queued queued payload => exact .queued (queue.trans queued) payload
  | inHand empty held payload newest =>
    exact .inHand (queue.trans empty) ((same.holds _ _ _).mpr held) payload fun other batch request its =>
      newest other batch request ((same.holds _ _ _).mp its)
  | written empty hands home last =>
    exact .written (queue.trans empty)
      (fun other batch request its => (hands other batch request ((same.holds _ _ _).mp its)).grows grows)
      (transport ▸ home) (last.grows grows)

theorem Single.congr (single : s.Single cfg addr size) (queues : ∀ node, s'.queues.of node = s.queues.of node)
    (batches : s.batches ≤ s'.batches) (same : SameHands s s') : s'.Single cfg addr size := by
  refine ⟨fun node away => (queues node).trans (single.elsewhere node away), queues addr.homeNode ▸ single.queue,
    fun other batch request rest next its => ?_, fun a b batch request request' holdsA holdsB => ?_, fun off => ?_⟩
  · obtain ⟨alone, target, sized, lt⟩ := single.hand other batch request rest next ((same _ _ _ _ _).mp its)
    exact ⟨alone, target, sized, Nat.lt_of_lt_of_le lt batches⟩
  · exact single.apart a b batch request request' ((same.holds _ _ _).mp holdsA) ((same.holds _ _ _).mp holdsB)
  · obtain ⟨empty, none⟩ := single.direct off
    exact ⟨(queues _).trans empty, fun other batch request its => none other batch request ((same.holds _ _ _).mp its)⟩

/-- Nothing moves. -/
theorem Carrying.congr (carrying : s.Carrying cfg d addr size history order) (grows : Grows history history' order)
    (queues : ∀ node, s'.queues.of node = s.queues.of node) (transport : s'.transport = s.transport)
    (batches : s.batches ≤ s'.batches) (same : SameHands s s') : s'.Carrying cfg d addr size history' order := by
  refine ⟨carrying.single.congr queues batches same, fun call last => ?_⟩
  obtain ⟨buf, called, carried⟩ := carrying.last call last
  exact ⟨buf, grows.events called, carried.congr grows (queues _) transport same⟩

/-- A stored write is in the queue, alone. -/
theorem Carrying.queue (carrying : s.Carrying cfg d addr size history order) (batching : cfg.enableWriteBatching = true)
    (fits : addr.offset.toNat + size.toNat < 2 ^ 64) {choice : WriteChoice} (storing : s.stage thread = .storing buf choice)
    (called : .writeCalled (s.call thread) buf ∈ history) (sized : buf.size = size) (filled : buf.size ≠ 0) :
    ({ s with
        queues := (s.queues.queueRemoteWrite cfg addr buf (dominantMode choice.modes) choice.ownerBiased
          choice.ownerHandoff).2 }.enter thread (.deciding choice)).Carrying cfg d addr size history
      (order ++ [s.call thread]) := by
  obtain ⟨elsewhere, queue, hand, apart, direct⟩ := carrying.single
  let w : PendingRemoteWrite := ⟨addr, buf, dominantMode choice.modes, choice.ownerBiased, choice.ownerHandoff⟩
  let stored : Threads := { s with
    queues := (s.queues.queueRemoteWrite cfg addr buf (dominantMode choice.modes) choice.ownerBiased
      choice.ownerHandoff).2 }.enter thread (.deciding choice)
  have same : SameHands s stored := sameHands_update (by simp [storing, Stage.HandsFree]) (by simp [Stage.HandsFree]) rfl
  have queues : ∀ node, stored.queues.of node = if node = addr.homeNode then (enqueue (s.queues.of addr.homeNode) w).2
      else s.queues.of node := by
    intro node
    have inserted : (s.queues.queueRemoteWrite cfg addr buf (dominantMode choice.modes) choice.ownerBiased
        choice.ownerHandoff).2 = s.queues.insert addr.homeNode (enqueue (s.queues.of addr.homeNode) w).2 := by
      simp [WriteQueues.queueRemoteWrite, filled, batching, w]
    change WriteQueues.of (s.queues.queueRemoteWrite cfg addr buf _ _ _).2 node = _
    rw [inserted, WriteQueues.of_insert]
  have noWrap : w.NoWrap := by
    change addr.offset.toNat + buf.data.length < 2 ^ 64
    rw [← Bytes.toNat_size, sized]
    exact fits
  have pending : s.queues.of addr.homeNode = [] ∨
      ∃ e, s.queues.of addr.homeNode = [e] ∧ e.addr = addr ∧ e.payload.size = buf.size := by
    rw [sized]
    exact queue
  obtain ⟨e, alone, target, payload⟩ := enqueue_same noWrap pending
  have here : stored.queues.of addr.homeNode = [e] := by rw [queues, if_pos rfl, alone]
  refine ⟨⟨fun node away => ?_, Or.inr ⟨e, here, target, by rw [payload, ← sized]⟩, fun other batch request rest next its =>
      hand other batch request rest next ((same _ _ _ _ _).mp its),
      fun a b batch request request' holdsA holdsB =>
        apart a b batch request request' ((same.holds _ _ _).mp holdsA) ((same.holds _ _ _).mp holdsB), fun off => ?_⟩,
    fun call last => ?_⟩
  · rw [queues, if_neg away]
    exact elsewhere node away
  · rw [batching] at off
    cases off
  · rw [List.getLast?_append_cons, List.getLast?_singleton] at last
    cases last
    exact ⟨buf, called, .queued here payload⟩

/-- A write that goes to the transport at once is at the home. -/
theorem Carrying.direct (carrying : s.Carrying cfg d addr size history order) (off : cfg.enableWriteBatching = false)
    (remote : addr.homeNode ≠ cfg.nodeId) (fits : addr.offset.toNat + size.toNat < 2 ^ 64) {choice : WriteChoice}
    (storing : s.stage thread = .storing buf choice) (called : .writeCalled (s.call thread) buf ∈ history)
    (unreturned : ∀ status, .returned (s.call thread) status ∉ history) (sized : buf.size = size)
    (ok : (StubTransport.write cfg d addr buf s.transport).1 = .kOk) :
    ({ s with transport := (StubTransport.write cfg d addr buf s.transport).2 }.enter thread (.returning .kOk)).Carrying
      cfg d addr size history (order ++ [s.call thread]) := by
  let stored : Threads :=
    { s with transport := (StubTransport.write cfg d addr buf s.transport).2 }.enter thread (.returning .kOk)
  have same : SameHands s stored := sameHands_update (by simp [storing, Stage.HandsFree]) (by simp [Stage.HandsFree]) rfl
  have single : stored.Single cfg addr size := carrying.single.congr (fun _ => rfl) (Nat.le_refl _) same
  obtain ⟨empty, none⟩ := single.direct off
  refine ⟨single, fun call last => ?_⟩
  rw [List.getLast?_append_cons, List.getLast?_singleton] at last
  cases last
  subst sized
  refine ⟨buf, called, .written empty (fun other batch request its => absurd its (none other batch request))
    (StubTransport.read_write d remote fits ok) ⟨_, called, fun other _ precedes => ?_⟩⟩
  obtain ⟨status, returned⟩ := precedes.returned
  exact unreturned status returned

/-- A drained write is in hand, in the newest batch. -/
theorem Carrying.drain (carrying : s.Carrying cfg d addr size history order) {node : NodeId} {next : AfterFlush}
    (draining : s.stage thread = .draining node next) :
    ({ s with queues := (s.queues.drainRemoteWrites node).2, batches := s.batches + 1 }.enter thread
      (next.batchStage s.batches ((s.queues.drainRemoteWrites node).1.writes.map PendingRemoteWrite.request))).Carrying
        cfg d addr size history order := by
  have free : (s.stage thread).HandsFree := by simp [draining, Stage.HandsFree]
  rw [WriteQueues.drainRemoteWrites_writes]
  have queues := WriteQueues.of_drainRemoteWrites s.queues node
  by_cases pending : s.queues.of node = []
  · -- nothing was pending: the batch is empty
    rw [pending]
    refine carrying.congr (.refl _ _) (fun n => ?_) rfl (Nat.le_succ _)
      (sameHands_update free (handsFree_stage next) rfl)
    refine (queues n).trans ?_
    split
    · rename_i here
      rw [here, pending]
    · rfl
  · obtain ⟨elsewhere, queue, hand, apart, direct⟩ := carrying.single
    have home : node = addr.homeNode := by
      by_contra away
      exact pending (elsewhere node away)
    subst home
    obtain ⟨e, one, target, sized⟩ := queue.resolve_left pending
    rw [one]
    let taken : Threads := { s with queues := (s.queues.drainRemoteWrites addr.homeNode).2, batches := s.batches + 1 }.enter
      thread (.writing s.batches e.request [] next)
    have self : taken.Holds thread s.batches e.request := ⟨[], next, enter_stage _ _ _⟩
    have holds : ∀ {other batch request}, taken.Holds other batch request →
        (other = thread ∧ batch = s.batches) ∨ other ≠ thread ∧ s.Holds other batch request := by
      rintro other batch request ⟨rest, next', its⟩
      by_cases here : other = thread
      · rw [here, enter_stage] at its
        cases its
        exact Or.inl ⟨here, rfl⟩
      · rw [enter_stage_of_ne _ here] at its
        exact Or.inr ⟨here, rest, next', its⟩
    have older : ∀ {other batch request}, s.Holds other batch request → batch < s.batches := by
      rintro other batch request ⟨rest, next', its⟩
      exact (hand other batch request rest next' its).2.2.2
    have empty : taken.queues.of addr.homeNode = [] := (queues _).trans (if_pos rfl)
    refine ⟨⟨fun node away => ?_, Or.inl empty, fun other batch request rest next' its => ?_,
      fun a b batch request request' holdsA holdsB => ?_, fun off => absurd (direct off).1 pending⟩, fun call last => ?_⟩
    · exact ((queues node).trans (if_neg away)).trans (elsewhere node away)
    · change rest = [] ∧ request.addr = addr ∧ request.buf.size = size ∧ batch < s.batches + 1
      by_cases here : other = thread
      · rw [here, enter_stage] at its
        cases its
        exact ⟨rfl, target, sized, Nat.lt_succ_self _⟩
      · rw [enter_stage_of_ne _ here] at its
        obtain ⟨alone, its', sized', lt⟩ := hand other batch request rest next' its
        exact ⟨alone, its', sized', Nat.lt_succ_of_lt lt⟩
    · rcases holds holdsA with ⟨rfl, newA⟩ | ⟨-, oldA⟩ <;> rcases holds holdsB with ⟨rfl, newB⟩ | ⟨-, oldB⟩
      · rfl
      · exact absurd (older oldB) (by omega)
      · exact absurd (older oldA) (by omega)
      · exact apart a b batch request request' oldA oldB
    · obtain ⟨buf, called, carried⟩ := carrying.last call last
      refine ⟨buf, called, ?_⟩
      cases carried with
      | queued queue payload =>
        rw [one] at queue
        cases queue
        refine .inHand empty self payload fun other batch request its => ?_
        rcases holds its with ⟨-, rfl⟩ | ⟨-, old⟩
        · exact Nat.le_refl _
        · exact Nat.le_of_lt (older old)
      | inHand none _ _ _ => exact absurd none pending
      | written none _ _ _ => exact absurd none pending

/-- A request is written, whose batch overtakes only batches with bytes that may stay. -/
theorem Carrying.write (carrying : s.Carrying cfg d addr size history order) (booked : Booked size history order s)
    (remote : addr.homeNode ≠ cfg.nodeId)
    (fits : addr.offset.toNat + size.toNat < 2 ^ 64) {batch : Nat} {request : RemoteWriteRequest}
    {rest : List RemoteWriteRequest} {next : AfterFlush} (writing : s.stage thread = .writing batch request rest next)
    (overtaken : ∀ other batch' request', s.Holds other batch' request' →
      batch ≤ batch' ∨ LastAmong history order request'.buf)
    (ok : (StubTransport.write cfg d request.addr request.buf s.transport).1 = .kOk) :
    ({ s with transport := (StubTransport.write cfg d request.addr request.buf s.transport).2 }.enter thread
      (next.batchStage batch rest)).Carrying cfg d addr size history order := by
  obtain ⟨elsewhere, queue, hand, apart, direct⟩ := carrying.single
  have self : s.Holds thread batch request := ⟨rest, next, writing⟩
  obtain ⟨rfl, rfl, rfl, -⟩ := hand thread batch request rest next writing
  let wrote : Threads :=
    { s with transport := (StubTransport.write cfg d request.addr request.buf s.transport).2 }.enter thread next.stage
  have stages : ∀ {other batch request' rest next'}, wrote.stage other = .writing batch request' rest next' →
      other ≠ thread ∧ s.stage other = .writing batch request' rest next' := by
    intro other batch request' rest next' its
    by_cases here : other = thread
    · rw [here, enter_stage] at its
      exact absurd its (handsFree_stage next _ _ _ _)
    · rw [enter_stage_of_ne _ here] at its
      exact ⟨here, its⟩
  have holds : ∀ {other batch request'}, wrote.Holds other batch request' → other ≠ thread ∧ s.Holds other batch request' :=
    fun ⟨rest, next', its⟩ => ⟨(stages its).1, rest, next', (stages its).2⟩
  refine ⟨⟨elsewhere, queue, fun other batch request' rest next' its =>
      hand other batch request' rest next' (stages its).2, fun a b batch r r' holdsA holdsB =>
      apart a b batch r r' (holds holdsA).2 (holds holdsB).2, fun off => ?_⟩, fun call last => ?_⟩
  · exact absurd self ((direct off).2 thread batch request)
  · obtain ⟨buf, called, carried⟩ := carrying.last call last
    refine ⟨buf, called, ?_⟩
    cases carried with
    | queued queue payload => exact .queued queue payload
    | @inHand holder newest request' empty held payload latest =>
      by_cases here : holder = thread
      · -- the newest batch is written: those left in hand were overtaken
        subst here
        obtain ⟨rest', next', its⟩ := held
        rw [writing] at its
        cases its
        have left : ∀ other batch' request', wrote.Holds other batch' request' → LastAmong history order request'.buf := by
          intro other batch' request' its
          obtain ⟨ne, was⟩ := holds its
          refine (overtaken other batch' request' was).resolve_left fun older => ?_
          have same : batch' = batch := Nat.le_antisymm (latest _ _ _ was) older
          exact ne (apart other holder batch' request' request was (same ▸ self))
        subst payload
        exact .written empty left (StubTransport.read_write d remote fits ok) ⟨call, called, booked.last_precedes_stored last⟩
      · obtain ⟨rest', next', its⟩ := held
        have still : wrote.Holds holder newest request' := ⟨rest', next', (enter_stage_of_ne _ here _).trans its⟩
        exact .inHand empty still payload fun other batch' request'' its' => latest _ _ _ (holds its').2
    | written empty hands home stays =>
      exact .written empty (fun other batch' request' its => hands other batch' request' (holds its).2)
        (StubTransport.read_write d remote fits ok) (hands thread batch request self)

/-! ### Steps -/

/-- The calls are booked, and the bytes stored last are carried unless a call fails. -/
def Kept (cfg : Config) (d : DsmAllocator) (addr : GlobalAddr) (size : UInt64) (history : List ThreadEvent) (s : Threads) :
    Prop :=
  ∃ order, Booked size history order s ∧ (s.Failed history ∨ s.Carrying cfg d addr size history order)

theorem Failed.update (failed : s.Failed history) (waiting : ∀ status, s.stage thread ≠ .returning status)
    (stages : s'.stage = Function.update s.stage thread stage) : s'.Failed history := by
  rcases failed with returned | ⟨other, status, returning, bad⟩
  · exact Or.inl returned
  · have ne : other ≠ thread := fun same => waiting status (same ▸ returning)
    exact Or.inr ⟨other, status, by rw [stages, Function.update_of_ne ne, returning], bad⟩

theorem failed_of_returning {status : Status} (bad : status ≠ .kOk)
    (stages : s'.stage = Function.update s.stage thread (.returning status)) : s'.Failed history :=
  Or.inr ⟨thread, status, by rw [stages, Function.update_self], bad⟩

/-- A section that moves no data. -/
theorem Kept.enter (kept : s.Kept cfg d addr size history) (running : s.stage thread ≠ .idle)
    (before : (s.stage thread).HandsFree) (waiting : ∀ status, s.stage thread ≠ .returning status) (busy : stage ≠ .idle)
    (after : stage.HandsFree) (ready : ∀ order, StageBooked size history order (s.call thread) (s.stage thread) →
      StageBooked size history order (s.call thread) stage) : (s.enter thread stage).Kept cfg d addr size history := by
  obtain ⟨order, booked, carried⟩ := kept
  refine ⟨order, booked.enter running busy (ready order (booked.stage thread)) rfl rfl rfl, ?_⟩
  rcases carried with failed | carrying
  · exact Or.inl (failed.update waiting rfl)
  · exact Or.inr (carrying.congr (.refl _ _) (fun _ => rfl) rfl (Nat.le_refl _) (sameHands_update before after rfl))

theorem openWrite_cases (cfg : Config) (d : DsmAllocator) (addr : GlobalAddr) (status : Status) (choice : WriteChoice)
    (buf : Bytes) :
    (∃ failure, openWrite cfg d addr status choice buf = .returning failure ∧ failure ≠ .kOk) ∨
      openWrite cfg d addr status choice buf = .storing buf choice ∧ buf.size ≠ 0 := by
  unfold openWrite
  split
  · exact Or.inl ⟨_, rfl, by decide⟩
  · rename_i valid
    split
    · rename_i bad
      exact Or.inl ⟨_, rfl, bad⟩
    · split
      · rename_i failure found
        exact Or.inl ⟨failure, rfl, validateAndResolveRange_failed found⟩
      · exact Or.inr ⟨rfl, (not_or.mp valid).2⟩

theorem stageBooked_failed {call : Nat} {status : Status} (bad : status ≠ .kOk) :
    StageBooked size history order call (.returning status) := fun ok => absurd ok bad

theorem stageBooked_stage {call : Nat} (booked : (∃ buf, .writeCalled call buf ∈ history) → call ∈ order)
    (next : AfterFlush) : StageBooked size history order call next.stage := by
  rcases next with _ | (_ | ⟨node, nodes⟩)
  · exact fun _ => booked
  · exact booked
  · exact booked

theorem stageBooked_batchStage {call : Nat} (booked : (∃ buf, .writeCalled call buf ∈ history) → call ∈ order)
    (next : AfterFlush) (batch : Nat) (requests : List RemoteWriteRequest) :
    StageBooked size history order call (next.batchStage batch requests) := by
  cases requests with
  | nil => exact stageBooked_stage booked next
  | cons request rest => exact booked

theorem stage_ne_idle : next.stage ≠ .idle := by
  rcases next with _ | (_ | ⟨node, nodes⟩) <;> simp [AfterFlush.stage]

theorem batchStage_ne_idle (batch : Nat) (requests : List RemoteWriteRequest) : next.batchStage batch requests ≠ .idle := by
  cases requests with
  | nil => exact stage_ne_idle next
  | cons request rest => simp [AfterFlush.batchStage]

theorem Kept.store (kept : s.Kept cfg d addr size history) (remote : addr.homeNode ≠ cfg.nodeId)
    (fits : addr.offset.toNat + size.toNat < 2 ^ 64) {choice : WriteChoice} (storing : s.stage thread = .storing buf choice)
    (status : Status) (choice' : WriteChoice) (ord : IterOrder) :
    (s.advance cfg d addr thread status choice' ord).Kept cfg d addr size history := by
  obtain ⟨order, booked, carried⟩ := kept
  have running : s.stage thread ≠ .idle := by simp [storing]
  have waiting : ∀ status, s.stage thread ≠ .returning status := by simp [storing]
  obtain ⟨called, new, sized, filled⟩ : StageBooked size history order (s.call thread) (.storing buf choice) :=
    storing ▸ booked.stage thread
  simp only [Threads.advance, storing]
  split
  · rename_i off
    by_cases ok : (StubTransport.write cfg d addr buf s.transport).1 = .kOk
    · rw [ok]
      have ready : StageBooked size history (order ++ [s.call thread]) (s.call thread) (.returning .kOk) :=
        fun _ _ => List.mem_append_right _ List.mem_cons_self
      refine ⟨order ++ [s.call thread], booked.store storing (by simp) ready rfl rfl rfl, ?_⟩
      exact carried.imp (fun failed => failed.update waiting rfl) fun carrying =>
        carrying.direct off remote fits storing called (booked.running thread running).2 sized ok
    · exact ⟨order, booked.enter running (by simp) (stageBooked_failed ok) rfl rfl rfl,
        Or.inl (failed_of_returning ok rfl)⟩
  · rename_i on
    have ready : StageBooked size history (order ++ [s.call thread]) (s.call thread) (.deciding choice) :=
      fun _ => List.mem_append_right _ List.mem_cons_self
    refine ⟨order ++ [s.call thread], booked.store storing (by simp) ready rfl rfl rfl, ?_⟩
    exact carried.imp (fun failed => failed.update waiting rfl) fun carrying =>
      carrying.queue (by simpa using on) fits storing called sized filled

theorem Kept.drain (kept : s.Kept cfg d addr size history) {node : NodeId} {next : AfterFlush}
    (draining : s.stage thread = .draining node next) (status : Status) (choice : WriteChoice) (ord : IterOrder) :
    (s.advance cfg d addr thread status choice ord).Kept cfg d addr size history := by
  obtain ⟨order, booked, carried⟩ := kept
  have its : StageBooked size history order (s.call thread) (.draining node next) := draining ▸ booked.stage thread
  simp only [Threads.advance, draining]
  refine ⟨order, booked.enter (by simp [draining]) (batchStage_ne_idle next _ _) (stageBooked_batchStage its next _ _)
    rfl rfl rfl, ?_⟩
  exact carried.imp (fun failed => failed.update (by simp [draining]) rfl) fun carrying => carrying.drain draining

theorem Kept.write (kept : s.Kept cfg d addr size history) (remote : addr.homeNode ≠ cfg.nodeId)
    (fits : addr.offset.toNat + size.toNat < 2 ^ 64) {batch : Nat} {request : RemoteWriteRequest}
    {rest : List RemoteWriteRequest} {next : AfterFlush} (writing : s.stage thread = .writing batch request rest next)
    (status : Status) (choice : WriteChoice) (ord : IterOrder)
    (inOrder : s.InDrainOrder history (.advance thread status choice ord)) :
    (s.advance cfg d addr thread status choice ord).Kept cfg d addr size history := by
  obtain ⟨order, booked, carried⟩ := kept
  have running : s.stage thread ≠ .idle := by simp [writing]
  have its : StageBooked size history order (s.call thread) (.writing batch request rest next) :=
    writing ▸ booked.stage thread
  have overtaken : ∀ other batch' request', s.Holds other batch' request' →
      batch ≤ batch' ∨ LastAmong history order request'.buf := fun other batch' request' holds =>
    (inOrder batch request other batch' request' ⟨rest, next, writing⟩ holds).imp id fun ⟨call, called, last⟩ =>
      ⟨call, called, fun later _ => last later⟩
  simp only [Threads.advance, writing]
  by_cases ok : (StubTransport.write cfg d request.addr request.buf s.transport).1 = .kOk
  · rw [if_neg (not_not.mpr ok)]
    refine ⟨order, booked.enter running (batchStage_ne_idle next _ _) (stageBooked_batchStage its next _ _) rfl rfl rfl, ?_⟩
    exact carried.imp (fun failed => failed.update (by simp [writing]) rfl) fun carrying =>
      carrying.write booked remote fits writing overtaken ok
  · rw [if_pos ok]
    exact ⟨order, booked.enter running (by simp) (stageBooked_failed ok) rfl rfl rfl,
      Or.inl (failed_of_returning ok rfl)⟩

theorem Kept.finish (kept : s.Kept cfg d addr size history) {status : Status}
    (returning : s.stage thread = .returning status) :
    (s.enter thread .idle).Kept cfg d addr size (history ++ [.returned (s.call thread) status]) := by
  obtain ⟨order, booked, carried⟩ := kept
  refine ⟨order, booked.finish returning, ?_⟩
  rcases carried with (⟨call, status', returned, bad⟩ | ⟨other, status', its, bad⟩) | carrying
  · exact Or.inl (Or.inl ⟨call, status', List.mem_append_left _ returned, bad⟩)
  · by_cases here : other = thread
    · rw [here, returning] at its
      cases its
      exact Or.inl (Or.inl ⟨_, status, List.mem_append_right _ List.mem_cons_self, bad⟩)
    · exact Or.inl (Or.inr ⟨other, status', (enter_stage_of_ne _ here _).trans its, bad⟩)
  · refine Or.inr (carrying.congr ⟨List.subset_append_left _ _, fun v w _ => precedes_of_returned⟩ (fun _ => rfl) rfl
      (Nat.le_refl _) (sameHands_update (by simp [returning, Stage.HandsFree]) (by simp [Stage.HandsFree]) rfl))

theorem Kept.begin (kept : s.Kept cfg d addr size history) (idle : s.stage thread = .idle) (busy : stage ≠ .idle)
    (free : stage.HandsFree) {event : ThreadEvent} (number : event.number = s.calls)
    (called : ∀ call status, event ≠ .returned call status)
    (ready : ∀ order, s.calls ∉ order → (∀ buf, .writeCalled s.calls buf ∉ history) →
      StageBooked size (history ++ [event]) order s.calls stage) :
    (s.begin thread stage).Kept cfg d addr size (history ++ [event]) := by
  obtain ⟨order, booked, carried⟩ := kept
  have uncalled : ∀ buf, .writeCalled s.calls buf ∉ history := fun buf member =>
    Nat.lt_irrefl _ (booked.fresh _ member)
  have fresh : s.calls ∉ order := by
    intro member
    obtain ⟨buf, before⟩ := booked.known _ member
    exact uncalled buf before
  refine ⟨order, booked.begin idle busy number called (ready order fresh uncalled), ?_⟩
  rcases carried with (⟨call, status', returned, bad⟩ | ⟨other, status', its, bad⟩) | carrying
  · exact Or.inl (Or.inl ⟨call, status', List.mem_append_left _ returned, bad⟩)
  · have ne : other ≠ thread := by
      rintro rfl
      rw [idle] at its
      cases its
    exact Or.inl (Or.inr ⟨other, status', (Function.update_of_ne ne _ _).trans its, bad⟩)
  · refine Or.inr (carrying.congr ⟨List.subset_append_left _ _, fun v w stored precedes => ?_⟩ (fun _ => rfl) rfl
      (Nat.le_refl _) (sameHands_update (by simp [idle, Stage.HandsFree]) free rfl))
    refine (booked.precedes_called number precedes).resolve_right fun new => fresh ?_
    exact new.2 ▸ stored

theorem Kept.advance (kept : s.Kept cfg d addr size history) (remote : addr.homeNode ≠ cfg.nodeId)
    (fits : addr.offset.toNat + size.toNat < 2 ^ 64) (status : Status) (choice : WriteChoice) (ord : IterOrder)
    (inOrder : s.InDrainOrder history (.advance thread status choice ord))
    (unreturned : ∀ returned, s.stage thread ≠ .returning returned) :
    (s.advance cfg d addr thread status choice ord).Kept cfg d addr size history := by
  cases stage : s.stage thread with
  | storing buf choice' => exact kept.store remote fits stage status choice ord
  | draining node next => exact kept.drain stage status choice ord
  | writing batch request rest next => exact kept.write remote fits stage status choice ord inOrder
  | returning returned => exact absurd stage (unreturned returned)
  | idle => simpa [Threads.advance, stage] using kept
  | opening buf =>
    have running : s.stage thread ≠ .idle := by simp [stage]
    have free : (s.stage thread).HandsFree := by simp [stage, Stage.HandsFree]
    simp only [Threads.advance, stage]
    rcases openWrite_cases cfg d addr status choice buf with ⟨failure, result, bad⟩ | ⟨result, filled⟩
    · rw [result]
      exact kept.enter running free unreturned (by simp) (by simp [Stage.HandsFree]) fun order _ => stageBooked_failed bad
    · rw [result]
      refine kept.enter running free unreturned (by simp) (by simp [Stage.HandsFree]) fun order its => ?_
      rw [stage] at its
      exact ⟨its.1, its.2.1, its.2.2, filled⟩
  | deciding choice' =>
    simp only [Threads.advance, stage]
    refine kept.enter (by simp [stage]) (by simp [stage, Stage.HandsFree]) unreturned ?_ ?_ fun order its => ?_
    · split <;> simp
    · split <;> simp [Stage.HandsFree]
    · rw [stage] at its
      split
      · exact its
      · exact fun _ => its
  | fencing =>
    simp only [Threads.advance, stage]
    refine kept.enter (by simp [stage]) (by simp [stage, Stage.HandsFree]) unreturned ?_ ?_ fun order its => ?_
    · split <;> simp
    · split <;> simp [Stage.HandsFree]
    · rw [stage] at its
      split
      · exact fun _ => its
      · exact its
  | listing =>
    simp only [Threads.advance, stage]
    refine kept.enter (by simp [stage]) (by simp [stage, Stage.HandsFree]) unreturned (stage_ne_idle _) (handsFree_stage _)
      fun order its => ?_
    rw [stage] at its
    exact stageBooked_stage its _
  | settling =>
    simp only [Threads.advance, stage]
    refine kept.enter (by simp [stage]) (by simp [stage, Stage.HandsFree]) unreturned (by simp) (by simp [Stage.HandsFree])
      fun order its => ?_
    rw [stage] at its
    exact fun _ => its

theorem Kept.step (kept : s.Kept cfg d addr size history) (remote : addr.homeNode ≠ cfg.nodeId)
    (fits : addr.offset.toNat + size.toNat < 2 ^ 64) (input : ThreadInput) (writes : input.Writes size)
    (inOrder : s.InDrainOrder history input) :
    (s.step cfg d addr input).2.Kept cfg d addr size (history ++ (s.step cfg d addr input).1.toList) := by
  cases input with
  | write thread buf =>
    by_cases idle : s.stage thread = .idle
    · have began : s.step cfg d addr (.write thread buf) =
          (some (.writeCalled s.calls buf), s.begin thread (.opening buf)) := by simp [Threads.step, idle]
      rw [began]
      exact kept.begin idle (by simp) (by simp [Stage.HandsFree]) rfl (by simp) fun order fresh _ =>
        ⟨List.mem_append_right _ List.mem_cons_self, fresh, writes⟩
    · have same : s.step cfg d addr (.write thread buf) = (none, s) := by
        simp only [Threads.step]
      simpa [same] using kept
  | fence thread =>
    by_cases idle : s.stage thread = .idle
    · have began : s.step cfg d addr (.fence thread) = (some (.fenceCalled s.calls), s.begin thread .fencing) := by
        simp [Threads.step, idle]
      rw [began]
      refine kept.begin idle (by simp) (by simp [Stage.HandsFree]) rfl (by simp) fun order _ uncalled => ?_
      rintro ⟨buf, member⟩
      exact absurd (by simpa using member) (uncalled buf)
    · have same : s.step cfg d addr (.fence thread) = (none, s) := by
        simp only [Threads.step]
      simpa [same] using kept
  | advance thread status choice ord =>
    by_cases returning : ∃ returned, s.stage thread = .returning returned
    · obtain ⟨returned, returning⟩ := returning
      have finished : s.step cfg d addr (.advance thread status choice ord) =
          (some (.returned (s.call thread) returned), s.enter thread .idle) := by
        simp [Threads.step, Threads.advance, returning]
      rw [finished]
      exact kept.finish returning
    · have unreturned := not_exists.mp returning
      have moved : s.step cfg d addr (.advance thread status choice ord) =
          (none, s.advance cfg d addr thread status choice ord) := by
        simp only [Threads.step]
      rw [moved]
      simpa using kept.advance remote fits status choice ord inOrder unreturned

theorem kept_init (cfg : Config) (d : DsmAllocator) (addr : GlobalAddr) (size : UInt64) (t : StubTransport) :
    ({ transport := t } : Threads).Kept cfg d addr size [] := by
  refine ⟨[], ⟨by simp, by simp, by simp, fun _ => trivial, by simp, by simp, by simp, List.Pairwise.nil, ?_⟩,
    Or.inr ⟨⟨fun _ _ => rfl, Or.inl rfl, by simp, by simp [Holds], fun _ => ⟨rfl, by simp [Holds]⟩⟩, by simp⟩⟩
  intro v w precedes
  obtain ⟨status, returned⟩ := precedes.returned
  cases returned

end

end Threads

theorem Threads.Done.not_failed {history : List ThreadEvent} {s : Threads} (done : s.Done history) : ¬ s.Failed history := by
  rintro (⟨call, status, returned, bad⟩ | ⟨thread, status, returning, bad⟩)
  · exact bad (done.ok call status returned)
  · rw [done.idle thread] at returning
    cases returning

/-- Once all is done, the bytes stored last are at the home. -/
theorem Booked.lastWriteStays {cfg : Config} {d : DsmAllocator} {addr : GlobalAddr} {size : UInt64}
    {history : List ThreadEvent} {order : List Nat} {s : Threads} (booked : Booked size history order s)
    (carrying : s.Carrying cfg d addr size history order) : s.LastWriteStays cfg d addr size history := by
  rintro done ⟨call, buf, called⟩
  have stored : call ∈ order := booked.stored_of_done done called
  obtain ⟨last, found⟩ := Option.ne_none_iff_exists'.mp (mt List.getLast?_eq_none_iff.mp (List.ne_nil_of_mem stored))
  obtain ⟨latest, -, carried⟩ := carrying.last last found
  cases carried with
  | queued queue payload =>
    rw [done.empty] at queue
    cases queue
  | inHand queue holds payload newest =>
    obtain ⟨rest, next, writing⟩ := holds
    rw [done.idle] at writing
    cases writing
  | @written bytes queue hands home last =>
    obtain ⟨call, called, none⟩ := last
    refine ⟨call, bytes, called, home, fun other precedes => ?_⟩
    obtain ⟨buf, later⟩ := precedes.called
    exact none other (booked.stored_of_done done later) precedes

/-- **Flushes do not reorder writes**: with any number of threads and any interleaving of
their sections, once all calls have returned `kOk` and no write is pending, the home has the
bytes of a write that precedes no other, as long as a batch is written before those drained
earlier only where these have such bytes themselves. -/
theorem ordered_writes_stay {cfg : Config} (d : DsmAllocator) {addr : GlobalAddr} (remote : addr.homeNode ≠ cfg.nodeId)
    (size : UInt64) (fits : addr.offset.toNat + size.toNat < 2 ^ 64) (t : StubTransport) (inputs : List ThreadInput)
    (same : ∀ input ∈ inputs, input.Writes size)
    (inOrder : AlongTrace (Threads.step cfg d addr) (fun events s => s.InDrainOrder (callHistory events)) []
      { transport := t } inputs) :
    (run (Threads.step cfg d addr) { transport := t } inputs).2.LastWriteStays cfg d addr size
      (callHistory (trace (Threads.step cfg d addr) { transport := t } inputs)) := by
  have sizes : AlongTrace (Threads.step cfg d addr) (fun _ _ input => input.Writes size) [] { transport := t } inputs :=
    (along_of_inputs same _).traced (fun _ _ _ => id) []
  obtain ⟨order, booked, carried⟩ := (sizes.and inOrder).invariant
    (J := fun events s => s.Kept cfg d addr size (callHistory events))
    (fun events s input guard kept => callHistory_snoc events input _ ▸ kept.step remote fits input guard.1 guard.2)
    (Threads.kept_init cfg d addr size t)
  exact carried.elim (fun failed done => absurd failed done.not_failed) fun carrying => booked.lastWriteStays carrying

/-! ### Two threads -/

/-- The status a call returned. -/
def ThreadEvent.status? : ThreadEvent → Option Status
  | .returned _ status => some status
  | _ => none

/-- The bytes a write was called with. -/
def ThreadEvent.written? : ThreadEvent → Option Bytes
  | .writeCalled _ buf => some buf
  | _ => none

/-- The batch a thread has in hand. -/
def Stage.batch? : Stage → Option Nat
  | .writing batch _ _ _ => some batch
  | _ => none

/-- The order of the batches, as far as threads 0 and 1 can tell. -/
def Threads.PairInOrder (s : Threads) (input : ThreadInput) : Prop :=
  input.thread ∈ [0, 1] ∧
    ∀ other ∈ [0, 1], ∀ batch ∈ (s.stage input.thread).batch?, ∀ batch' ∈ (s.stage other).batch?, batch ≤ batch'

instance (s : Threads) (input : ThreadInput) : Decidable (s.PairInOrder input) := inferInstanceAs (Decidable (_ ∧ _))

/-- With two threads at work it is enough to look at these. -/
theorem inDrainOrder_of_pair {cfg : Config} {d : DsmAllocator} {addr : GlobalAddr} {t : StubTransport}
    {inputs : List ThreadInput}
    (pair : Along (Threads.step cfg d addr) Threads.PairInOrder { transport := t } inputs) :
    AlongTrace (Threads.step cfg d addr) (fun events s => s.InDrainOrder (callHistory events)) [] { transport := t }
      inputs := by
  have idle := pair.with_invariant (I := fun s => ∀ thread, thread ∉ [0, 1] → s.stage thread = .idle)
    (fun s input order idle thread away =>
      (Threads.step_stage_of_ne cfg d addr s fun same => away (same ▸ order.1)).trans (idle thread away))
    (fun _ _ => rfl)
  refine idle.traced (fun _ s input ⟨⟨_, order⟩, idle⟩ => ?_) []
  cases input with
  | write thread buf => trivial
  | fence thread => trivial
  | advance thread status choice ord =>
    rintro batch request other batch' request' ⟨rest, next, its⟩ ⟨rest', next', others⟩
    have near : other ∈ [0, 1] := by
      by_contra away
      rw [idle other away] at others
      cases others
    exact Or.inl
      (order other near batch (by simp [ThreadInput.thread, its, Stage.batch?]) batch' (by simp [others, Stage.batch?]))

/-- Writes in SI mode that wait for a fence. -/
def lazyFlush : Config :=
  { nodeId := 0, blockSize := 4, localRegionSize := 16, coherenceModeOverride := 1, remoteWriteBatchThreshold := 4 }

/-- The thread runs `n` sections. -/
def sections (thread : ThreadId) (n : Nat) : List ThreadInput :=
  List.replicate n (.advance thread .kOk { modes := [.kSI] } .stored)

/-- Thread 0 writes a byte. Thread 1 fences and drains it; before it is written, thread 0
writes another byte. -/
def drainedThenWritten : List ThreadInput :=
  .write 0 (.ofList [1]) :: sections 0 4 ++ .fence 1 :: sections 1 3 ++ .write 0 (.ofList [2]) :: sections 0 4

/-- Thread 1 goes on before thread 0 fences. -/
def flushedInOrder : List ThreadInput := drainedThenWritten ++ sections 1 3 ++ .fence 0 :: sections 0 6

/-- Thread 0 fences before thread 1 goes on. -/
def flushedOutOfOrder : List ThreadInput := drainedThenWritten ++ .fence 0 :: sections 0 6 ++ sections 1 3

/-- The run of two threads that write to the first byte of node 1. -/
def pairRun (inputs : List ThreadInput) : List (Option ThreadEvent) × Threads :=
  run (Threads.step lazyFlush (.init lazyFlush) ⟨1, 0, 0⟩) { transport := .init lazyFlush } inputs

def pairHistory (inputs : List ThreadInput) : List ThreadEvent :=
  callHistory (trace (Threads.step lazyFlush (.init lazyFlush) ⟨1, 0, 0⟩) { transport := .init lazyFlush } inputs)

def firstByte (inputs : List ThreadInput) : Except Status Bytes :=
  (StubTransport.read lazyFlush (.init lazyFlush) ⟨1, 0, 0⟩ 1 (pairRun inputs).2.transport).1

theorem flushedInOrder_stays :
    firstByte flushedInOrder = .ok (.ofList [2]) ∧
      (pairRun flushedInOrder).2.LastWriteStays lazyFlush (.init lazyFlush) ⟨1, 0, 0⟩ 1 (pairHistory flushedInOrder) :=
  ⟨by decide +kernel, ordered_writes_stay (.init lazyFlush) (by decide) 1 (by decide) (.init lazyFlush) flushedInOrder
    (by decide +kernel) (inDrainOrder_of_pair (by decide +kernel))⟩

/-- Every write of the node finds SI mode. -/
theorem lazyFlush_modes {ctx : RuntimeContext StubTransport} (config : ctx.config = lazyFlush) :
    (touchMetadata ctx ⟨1, 0, 0⟩ (resolveBlockRange lazyFlush ⟨1, 0, 0⟩ 1) .kWrite).1 = [.kSI] := by
  have found := observeMetas_override ctx.config (by rw [config]; decide) (by rw [config]; decide) .kWrite
    (decide ((1 : NodeId) = ctx.config.nodeId)) ((resolveBlockRange lazyFlush ⟨1, 0, 0⟩ 1).ids 0)
    ⟨ctx.cacheManager.accessEpoch, prepareMetadata ctx.config ctx.blockTable (resolveBlockRange lazyFlush ⟨1, 0, 0⟩ 1)
      ⟨1, 0, 0⟩ .kWrite, ctx.stats⟩
  refine found.trans ?_
  rw [config]
  decide +kernel

/-- The later write is overwritten by the earlier one, which thread 1 had in hand. The modes
of the run are those the records give. -/
theorem flushedOutOfOrder_overwritten :
    (∀ ctx : RuntimeContext StubTransport, ctx.config = lazyFlush →
      (touchMetadata ctx ⟨1, 0, 0⟩ (resolveBlockRange lazyFlush ⟨1, 0, 0⟩ 1) .kWrite).1 = [.kSI]) ∧
      firstByte flushedOutOfOrder = .ok (.ofList [1]) ∧ Precedes (pairHistory flushedOutOfOrder) 0 2 ∧
      (pairRun flushedOutOfOrder).2.Done (pairHistory flushedOutOfOrder) ∧
      ¬ (pairRun flushedOutOfOrder).2.LastWriteStays lazyFlush (.init lazyFlush) ⟨1, 0, 0⟩ 1 (pairHistory flushedOutOfOrder) := by
  have read : firstByte flushedOutOfOrder = .ok (.ofList [1]) := by decide +kernel
  have history : pairHistory flushedOutOfOrder =
      [.writeCalled 0 (.ofList [1]), .returned 0 .kOk, .fenceCalled 1] ++
        [.writeCalled 2 (.ofList [2]), .returned 2 .kOk, .fenceCalled 3, .returned 3 .kOk, .returned 1 .kOk] := by
    decide +kernel
  have precedes : Precedes (pairHistory flushedOutOfOrder) 0 2 :=
    ⟨_, _, history, ⟨.kOk, by simp⟩, .ofList [2], by simp⟩
  have done : (pairRun flushedOutOfOrder).2.Done (pairHistory flushedOutOfOrder) := by
    refine ⟨fun thread => ?_, fun call status returned => ?_, fun node => ?_⟩
    · by_cases near : thread ∈ [0, 1]
      · revert thread
        decide +kernel
      · have absent : ∀ input ∈ flushedOutOfOrder, input.thread ∈ [0, 1] := by decide +kernel
        exact Threads.run_stage_of_absent fun input member same => near (same ▸ absent input member)
    · have ok : ∀ event ∈ pairHistory flushedOutOfOrder, event.status?.getD .kOk = .kOk := by decide +kernel
      exact ok _ returned
    · have empty : (pairRun flushedOutOfOrder).2.queues = ∅ := AList.ext (by decide +kernel)
      rw [empty]
      rfl
  refine ⟨fun _ config => lazyFlush_modes config, read, precedes, done, fun stays => ?_⟩
  obtain ⟨call, buf, called, found, last⟩ := stays done ⟨0, .ofList [1], by simp [history]⟩
  have bytes : Except.ok buf = Except.ok (ε := Status) (.ofList [1]) := found.symm.trans read
  cases bytes
  have first : ∀ event ∈ pairHistory flushedOutOfOrder, event.written? = some (.ofList [1]) → event.number = 0 := by
    decide +kernel
  obtain rfl : call = 0 := first _ called rfl
  exact last 2 precedes

end LeoMem
