import LeoMem.Lib.Run
import LeoMem.Api.Call
import LeoMem.Api.WriteEffect

/-!
# Threads of one node

`lm_write` and `lm_fence` on several threads over the stub, all writes to one address. The
sections that hold the mutex of `CacheManager` or of `StubTransport` are the atomic steps:
`QueueRemoteWrite`, `ShouldFlushDestination`, `DrainRemoteWrites`, `PendingDestinations` and
each `Write` of a `BatchWrite`. What the control messages and the block records decide for a
call comes with the step: the status they end with, the modes and the owner flags. Cached
reads and statistics move no written byte.
-/

namespace LeoMem
open Lib

abbrev ThreadId := Nat

/-- What the records of its blocks decide for a write. -/
structure WriteChoice where
  modes : List CoherenceMode := []
  ownerBiased : Bool := false
  ownerHandoff : Bool := false
  deriving DecidableEq

/-- What follows the flush of a destination: `lm_write` returns, `lm_fence` has other
destinations left. -/
inductive AfterFlush where
  | writeReturns
  | fenceGoesOn (nodes : List NodeId)
  deriving DecidableEq

/-- The section a thread enters next. -/
inductive Stage where
  /-- Between two calls. -/
  | idle
  /-- `lm_write` up to its data. -/
  | opening (buf : Bytes)
  /-- `QueueRemoteWrite`, or `Write` with batching off. -/
  | storing (buf : Bytes) (choice : WriteChoice)
  /-- `ShouldFlushDestination`. -/
  | deciding (choice : WriteChoice)
  /-- `lm_fence` up to its first `DrainControl`. -/
  | fencing
  /-- `PendingDestinations`. -/
  | listing
  /-- `DrainRemoteWrites`. -/
  | draining (node : NodeId) (next : AfterFlush)
  /-- The next `Write` of a `BatchWrite`. The batches are numbered as they are drained. -/
  | writing (batch : Nat) (request : RemoteWriteRequest) (rest : List RemoteWriteRequest) (next : AfterFlush)
  /-- The second `DrainControl` of `lm_fence`. -/
  | settling
  | returning (status : Status)
  deriving DecidableEq

def AfterFlush.stage : AfterFlush → Stage
  | .writeReturns => .returning .kOk
  | .fenceGoesOn [] => .settling
  | .fenceGoesOn (node :: nodes) => .draining node (.fenceGoesOn nodes)

/-- The next `Write` of a batch, or what follows it. -/
def AfterFlush.batchStage (next : AfterFlush) (batch : Nat) : List RemoteWriteRequest → Stage
  | [] => next.stage
  | request :: rest => .writing batch request rest next

/-- Where a flush with this outcome leaves its thread. -/
def AfterFlush.outcome (next : AfterFlush) (status : Status) : Stage :=
  if status ≠ .kOk then .returning status else next.stage

/-- The threads and what they share. -/
structure Threads where
  stage : ThreadId → Stage := fun _ => .idle
  /-- The number of the call a thread is in. -/
  call : ThreadId → Nat := fun _ => 0
  queues : WriteQueues := ∅
  transport : StubTransport
  calls : Nat := 0
  batches : Nat := 0

inductive ThreadEvent where
  | writeCalled (call : Nat) (buf : Bytes)
  | fenceCalled (call : Nat)
  | returned (call : Nat) (status : Status)
  deriving DecidableEq

inductive ThreadInput where
  | write (thread : ThreadId) (buf : Bytes)
  | fence (thread : ThreadId)
  /-- The thread runs its next section, where the control path ends with `status`. -/
  | advance (thread : ThreadId) (status : Status) (choice : WriteChoice) (ord : IterOrder)

def ThreadInput.thread : ThreadInput → ThreadId
  | .write thread _ => thread
  | .fence thread => thread
  | .advance thread _ _ _ => thread

namespace Threads

def enter (s : Threads) (thread : ThreadId) (stage : Stage) : Threads :=
  { s with stage := Function.update s.stage thread stage }

/-- The thread is in a new call. -/
def begin (s : Threads) (thread : ThreadId) (stage : Stage) : Threads :=
  { s with
    stage := Function.update s.stage thread stage
    call := Function.update s.call thread s.calls
    calls := s.calls + 1 }

/-- `lm_write` up to its data. -/
def openWrite (cfg : Config) (d : DsmAllocator) (addr : GlobalAddr) (status : Status) (choice : WriteChoice)
    (buf : Bytes) : Stage :=
  if addr.isValid = false ∨ buf.size = 0 then .returning .kInvalidArg
  else if status ≠ .kOk then .returning status
  else
    match validateAndResolveRange cfg d addr buf.size with
    | .error failure => .returning failure
    | .ok _ => .storing buf choice

/-- One section of a thread that is in a call. -/
def advance (cfg : Config) (d : DsmAllocator) (addr : GlobalAddr) (s : Threads) (thread : ThreadId) (status : Status)
    (choice : WriteChoice) (ord : IterOrder) : Threads :=
  match s.stage thread with
  | .idle => s
  | .opening buf => s.enter thread (openWrite cfg d addr status choice buf)
  | .storing buf choice =>
    if cfg.enableWriteBatching = false then
      let r := StubTransport.write cfg d addr buf s.transport
      { s with transport := r.2 }.enter thread (.returning r.1)
    else
      let r := s.queues.queueRemoteWrite cfg addr buf (dominantMode choice.modes) choice.ownerBiased choice.ownerHandoff
      { s with queues := r.2 }.enter thread (.deciding choice)
  | .deciding choice =>
    let threshold := mostAggressiveBatchThreshold cfg choice.modes
    s.enter thread
      (if hasMode choice.modes .kWI || s.queues.shouldFlushDestination addr.homeNode threshold then
        .draining addr.homeNode .writeReturns
      else .returning .kOk)
  | .fencing => s.enter thread (if status ≠ .kOk then .returning status else .listing)
  | .listing => s.enter thread (AfterFlush.fenceGoesOn (s.queues.pendingDestinations ord)).stage
  | .draining node next =>
    let drained := s.queues.drainRemoteWrites node
    { s with queues := drained.2, batches := s.batches + 1 }.enter thread
      (next.batchStage s.batches (drained.1.writes.map PendingRemoteWrite.request))
  | .writing batch request rest next =>
    let r := StubTransport.write cfg d request.addr request.buf s.transport
    { s with transport := r.2 }.enter thread (if r.1 ≠ Status.kOk then .returning r.1 else next.batchStage batch rest)
  | .settling => s.enter thread (.returning status)
  | .returning _ => s.enter thread .idle

def step (cfg : Config) (d : DsmAllocator) (addr : GlobalAddr) (s : Threads) :
    ThreadInput → Option ThreadEvent × Threads
  | .write thread buf =>
    match s.stage thread with
    | .idle => (some (.writeCalled s.calls buf), s.begin thread (.opening buf))
    | _ => (none, s)
  | .fence thread =>
    match s.stage thread with
    | .idle => (some (.fenceCalled s.calls), s.begin thread .fencing)
    | _ => (none, s)
  | .advance thread status choice ord =>
    (match s.stage thread with
      | .returning returned => some (.returned (s.call thread) returned)
      | _ => none,
      s.advance cfg d addr thread status choice ord)

variable (s : Threads) (thread : ThreadId) (stage : Stage)

@[simp] theorem enter_stage : (s.enter thread stage).stage thread = stage := by
  simp [enter]

theorem enter_stage_of_ne {thread other : ThreadId} (ne : other ≠ thread) (stage : Stage) :
    (s.enter thread stage).stage other = s.stage other := by
  simp [enter, ne]

@[simp] theorem enter_enter (first second : Stage) : (s.enter thread first).enter thread second = s.enter thread second := by
  simp [enter]

@[simp] theorem begin_stage : (s.begin thread stage).stage thread = stage := by
  simp [begin]

@[simp] theorem begin_call : (s.begin thread stage).call thread = s.calls := by
  simp [begin]

theorem begin_stage_of_ne {thread other : ThreadId} (ne : other ≠ thread) (stage : Stage) :
    (s.begin thread stage).stage other = s.stage other := by
  simp [begin, ne]

theorem begin_call_of_ne {thread other : ThreadId} (ne : other ≠ thread) (stage : Stage) :
    (s.begin thread stage).call other = s.call other := by
  simp [begin, ne]

/-- A step is one of its thread. -/
theorem step_stage_of_ne (cfg : Config) (d : DsmAllocator) (addr : GlobalAddr) (s : Threads) {input : ThreadInput}
    {other : ThreadId} (ne : other ≠ input.thread) : (s.step cfg d addr input).2.stage other = s.stage other := by
  cases input with
  | write thread buf =>
    simp only [step]
    split
    · exact Function.update_of_ne ne _ _
    · rfl
  | fence thread =>
    simp only [step]
    split
    · exact Function.update_of_ne ne _ _
    · rfl
  | advance thread status choice ord =>
    simp only [step, advance]
    split
    · rfl
    case h_3 => split <;> exact enter_stage_of_ne _ ne _
    all_goals exact enter_stage_of_ne _ ne _

theorem run_stage_of_absent {cfg : Config} {d : DsmAllocator} {addr : GlobalAddr} {s : Threads}
    {inputs : List ThreadInput} {other : ThreadId} (absent : ∀ input ∈ inputs, other ≠ input.thread) :
    (run (step cfg d addr) s inputs).2.stage other = s.stage other :=
  run_invariant (I := fun s' => s'.stage other = s.stage other)
    (fun s' _ ne same => (step_stage_of_ne cfg d addr s' ne).trans same) (along_of_inputs absent s) rfl

/-! ### A call that is not interrupted -/

/-- The thread gets from `s` to `s'` by sections of its own. -/
def Alone (cfg : Config) (d : DsmAllocator) (addr : GlobalAddr) (thread : ThreadId) (s s' : Threads) : Prop :=
  ∃ n, (run (step cfg d addr) s (List.replicate n (.advance thread .kOk {} .stored))).2 = s'

section
variable {cfg : Config} {d : DsmAllocator} {addr : GlobalAddr} {thread : ThreadId}

theorem Alone.refl : Alone cfg d addr thread s s := ⟨0, rfl⟩

theorem Alone.trans {a b c : Threads} (first : Alone cfg d addr thread a b) (second : Alone cfg d addr thread b c) :
    Alone cfg d addr thread a c := by
  obtain ⟨n, rfl⟩ := first
  obtain ⟨m, rfl⟩ := second
  exact ⟨n + m, by rw [List.replicate_add, run_append]⟩

/-- The `Write`s of a batch are one `BatchWrite`. -/
theorem alone_batchWrite (next : AfterFlush) (batch : Nat) (requests : List RemoteWriteRequest) (s : Threads) :
    let r := Transport.batchWrite cfg d requests s.transport
    Alone cfg d addr thread (s.enter thread (next.batchStage batch requests))
      ({ s with transport := r.2 }.enter thread (next.outcome r.1)) := by
  change Alone cfg d addr thread _ ({ s with transport := (batchWriteWith (StubTransport.write cfg d) requests
    s.transport).2 }.enter thread (next.outcome (batchWriteWith (StubTransport.write cfg d) requests s.transport).1))
  induction requests generalizing s with
  | nil => exact Alone.refl _
  | cons request rest ih =>
    let w := StubTransport.write cfg d request.addr request.buf s.transport
    have first : Alone cfg d addr thread (s.enter thread (next.batchStage batch (request :: rest)))
        ({ s with transport := w.2 }.enter thread
          (if w.1 ≠ Status.kOk then .returning w.1 else next.batchStage batch rest)) := by
      refine ⟨1, ?_⟩
      simp [step, advance, AfterFlush.batchStage, enter, w]
    by_cases ok : w.1 = .kOk
    · rw [if_neg (not_not.mpr ok)] at first
      have whole : batchWriteWith (StubTransport.write cfg d) (request :: rest) s.transport =
          batchWriteWith (StubTransport.write cfg d) rest w.2 := if_neg (not_not.mpr ok)
      rw [whole]
      exact first.trans (ih { s with transport := w.2 })
    · rw [if_pos ok] at first
      have whole : batchWriteWith (StubTransport.write cfg d) (request :: rest) s.transport = w := if_pos ok
      rw [whole, AfterFlush.outcome, if_pos ok]
      exact first

/-- The threads share the queues and the transport of `ctx`. -/
def Shares (s : Threads) (ctx : RuntimeContext StubTransport) : Prop := s.queues = ctx.queues ∧ s.transport = ctx.transport

/-- The threads with the queues and the transport of `ctx`. -/
def sharing (s : Threads) (ctx : RuntimeContext StubTransport) (batches : Nat) : Threads :=
  { s with queues := ctx.queues, transport := ctx.transport, batches := batches }

theorem shares_sharing (ctx : RuntimeContext StubTransport) (batches : Nat) : (s.sharing ctx batches).Shares ctx := ⟨rfl, rfl⟩

theorem flushDestination_eq (ctx : RuntimeContext StubTransport) (node : NodeId) :
    let drained := ctx.queues.drainRemoteWrites node
    let r := Transport.batchWrite ctx.config ctx.allocator (drained.1.writes.map PendingRemoteWrite.request) ctx.transport
    (flushDestination ctx node).1 = r.1 ∧ (flushDestination ctx node).2.queues = drained.2 ∧
      (flushDestination ctx node).2.transport = r.2 := by
  have empty : ∀ cfg d (requests : List RemoteWriteRequest) (t : StubTransport),
      (if requests.isEmpty = true then (.kOk, t) else Transport.batchWrite cfg d requests t) =
        Transport.batchWrite cfg d requests t := by
    intro cfg d requests t
    cases requests <;> rfl
  unfold flushDestination
  simp only [empty]
  split
  · exact ⟨rfl, rfl, rfl⟩
  · rename_i ok
    exact ⟨(not_not.mp ok).symm, rfl, rfl⟩

variable {ctx : RuntimeContext StubTransport} {s : Threads}

/-- **A flush that is not interrupted is `FlushDestination`.** -/
theorem alone_flushDestination (shares : s.Shares ctx) (node : NodeId) (next : AfterFlush) :
    ∃ batches, Alone ctx.config ctx.allocator addr thread (s.enter thread (.draining node next))
      ((s.sharing (flushDestination ctx node).2 batches).enter thread (next.outcome (flushDestination ctx node).1)) := by
  obtain ⟨queues, transport⟩ := shares
  obtain ⟨status, left, written⟩ := flushDestination_eq ctx node
  let drained := s.queues.drainRemoteWrites node
  let requests := drained.1.writes.map PendingRemoteWrite.request
  let taken : Threads := { s with queues := drained.2, batches := s.batches + 1 }
  have first : Alone ctx.config ctx.allocator addr thread (s.enter thread (.draining node next))
      (taken.enter thread (next.batchStage s.batches requests)) := by
    refine ⟨1, ?_⟩
    simp [step, advance, enter, drained, requests, taken]
  refine ⟨s.batches + 1, first.trans ?_⟩
  rw [sharing, status, left, written, ← queues, ← transport]
  exact alone_batchWrite next s.batches requests taken

theorem AfterFlush.outcome_writeReturns (status : Status) :
    AfterFlush.writeReturns.outcome status = .returning status := by
  unfold AfterFlush.outcome
  split
  · rfl
  · rename_i ok
    rw [not_not.mp ok]
    rfl

/-- Counting the write does not touch what the threads share. -/
theorem writeBatched_eq (ctx : RuntimeContext StubTransport) (addr : GlobalAddr) (buf : Bytes)
    (modes : List CoherenceMode) (ownerBiased ownerHandoff : Bool) :
    let staged := stageWrite ctx addr buf modes ownerBiased ownerHandoff
    let flushed := if hasMode modes .kWI || staged.queues.shouldFlushDestination addr.homeNode
        (mostAggressiveBatchThreshold staged.config modes) then flushDestination staged addr.homeNode else (.kOk, staged)
    let r := writeBatched ctx addr buf modes ownerBiased ownerHandoff
    r.1 = flushed.1 ∧ r.2.queues = flushed.2.queues ∧ r.2.transport = flushed.2.transport := by
  intro staged flushed r
  change (if flushed.1 ≠ .kOk then flushed else _).1 = _ ∧ (if flushed.1 ≠ .kOk then flushed else _).2.queues = _ ∧
    (if flushed.1 ≠ .kOk then flushed else _).2.transport = _
  by_cases ok : flushed.1 = .kOk
  · rw [if_neg (not_not.mpr ok)]
    exact ⟨ok.symm, rfl, rfl⟩
  · rw [if_pos ok]
    exact ⟨rfl, rfl, rfl⟩

theorem alone_writeBatched (shares : s.Shares ctx) (batching : ctx.config.enableWriteBatching = true) (buf : Bytes)
    (choice : WriteChoice) :
    let r := writeBatched ctx addr buf choice.modes choice.ownerBiased choice.ownerHandoff
    ∃ batches, Alone ctx.config ctx.allocator addr thread (s.enter thread (.storing buf choice))
      ((s.sharing r.2 batches).enter thread (.returning r.1)) := by
  obtain ⟨queues, transport⟩ := shares
  obtain ⟨status, left, written⟩ := writeBatched_eq ctx addr buf choice.modes choice.ownerBiased choice.ownerHandoff
  simp only [sharing, status, left, written]
  let staged := stageWrite ctx addr buf choice.modes choice.ownerBiased choice.ownerHandoff
  have stored : Alone ctx.config ctx.allocator addr thread (s.enter thread (.storing buf choice))
      ((s.sharing staged s.batches).enter thread (.deciding choice)) := by
    refine ⟨1, ?_⟩
    have queued : staged.queues = (s.queues.queueRemoteWrite ctx.config addr buf (dominantMode choice.modes)
        choice.ownerBiased choice.ownerHandoff).2 := by rw [queues]; rfl
    have same : staged.transport = s.transport := transport.symm
    simp [step, advance, enter, batching, sharing, queued, same]
  have decided : Alone ctx.config ctx.allocator addr thread ((s.sharing staged s.batches).enter thread (.deciding choice))
      ((s.sharing staged s.batches).enter thread
        (if hasMode choice.modes .kWI || staged.queues.shouldFlushDestination addr.homeNode
            (mostAggressiveBatchThreshold staged.config choice.modes) then .draining addr.homeNode .writeReturns
        else .returning .kOk)) := by
    refine ⟨1, ?_⟩
    simp [step, advance]
    rfl
  split
  · rename_i due
    rw [if_pos due] at decided
    obtain ⟨batches, flushed⟩ := alone_flushDestination (shares_sharing s staged s.batches) addr.homeNode .writeReturns
    rw [AfterFlush.outcome_writeReturns] at flushed
    exact ⟨batches, (stored.trans decided).trans flushed⟩
  · rename_i due
    rw [if_neg due] at decided
    exact ⟨s.batches, stored.trans decided⟩

theorem alone_writeThrough (shares : s.Shares ctx) (off : ctx.config.enableWriteBatching = false) (buf : Bytes)
    (choice : WriteChoice) :
    let r := writeThrough ctx addr buf false
    Alone ctx.config ctx.allocator addr thread (s.enter thread (.storing buf choice))
      ((s.sharing r.2 s.batches).enter thread (.returning r.1)) := by
  obtain ⟨queues, transport⟩ := shares
  have written := writeThrough_written ctx addr buf false
  have status : (writeThrough ctx addr buf false).1 = (StubTransport.write ctx.config ctx.allocator addr buf s.transport).1 :=
    transport ▸ congrArg Prod.fst written
  have region : (writeThrough ctx addr buf false).2.transport =
      (StubTransport.write ctx.config ctx.allocator addr buf s.transport).2 := transport ▸ congrArg Prod.snd written
  have same : (writeThrough ctx addr buf false).2.queues = s.queues :=
    (congrArg CacheManager.writeQueues (writeThrough_same ctx addr buf false).2).trans queues.symm
  refine ⟨1, ?_⟩
  simp [step, advance, enter, off, sharing, status, region, same]

/-- **The data of a write that is not interrupted moves as `lm_write` moves it.** -/
theorem alone_writeData (shares : s.Shares ctx) (ord : IterOrder) (buf : Bytes) (choice : WriteChoice) :
    let r := writeData ord ctx addr buf choice.modes choice.ownerBiased choice.ownerHandoff
    ∃ batches, Alone ctx.config ctx.allocator addr thread (s.enter thread (.storing buf choice))
      ((s.sharing r.2 batches).enter thread (.returning r.1)) := by
  have dropped : s.Shares (dropCopies ord ctx addr buf.size choice.modes) := shares
  unfold writeData
  simp only
  split
  · rename_i off
    exact ⟨s.batches, alone_writeThrough dropped off buf choice⟩
  · rename_i on
    exact alone_writeBatched dropped (by simpa using on) buf choice

/-- **The flushes of a fence that is not interrupted are its flush loop.** -/
theorem alone_flushDestinations (shares : s.Shares ctx) (nodes : List NodeId) :
    let r := flushDestinations ctx nodes
    ∃ batches, Alone ctx.config ctx.allocator addr thread (s.enter thread (AfterFlush.fenceGoesOn nodes).stage)
      ((s.sharing r.2 batches).enter thread (if r.1 ≠ Status.kOk then .returning r.1 else .settling)) := by
  induction nodes generalizing s ctx with
  | nil =>
    obtain ⟨queues, transport⟩ := shares
    refine ⟨s.batches, ⟨0, ?_⟩⟩
    simp [flushDestinations, sharing, ← queues, ← transport, AfterFlush.stage]
  | cons node nodes ih =>
    obtain ⟨batches, first⟩ := alone_flushDestination shares node (.fenceGoesOn nodes)
    unfold flushDestinations
    simp only
    split
    · rename_i failed
      rw [AfterFlush.outcome, if_pos failed] at first
      exact ⟨batches, first⟩
    · rename_i ok
      rw [AfterFlush.outcome, if_neg ok] at first
      have same := flushDestination_flushed ctx node
      obtain ⟨more, rest⟩ := ih (shares_sharing s (flushDestination ctx node).2 batches)
      rw [same.same.config, same.same.allocator] at rest
      exact ⟨more, first.trans rest⟩

end

end Threads
end LeoMem
