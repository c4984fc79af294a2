import LeoMem.Lib.Run
import LeoMem.Transport

/-!
# Work requests and completions of the RDMA transport

`Read`, `Write`, `BatchWrite` and `Fence` of `RdmaTransport` post work requests and
wait for completions. A completion is only counted: nothing ties it to the request it
belongs to. The verbs library is an environment that decides, call by call, whether a
buffer can be registered, whether a request can be posted and which requests in flight
a poll of the completion queue hands out. Each is handed out once, in any order. The
bytes an access moves are those of `PeerTransport`.

A call that reports success has itself completed as long as nothing was in flight when
it started. A `BatchWrite` that fails after posting, or a failed poll, leaves requests
in flight, and the next call may count their completions as its own.
-/

namespace LeoMem
open Lib

/-- The members of `RdmaTransport` that stay as they are after `RegisterMemoryRegion`. -/
structure RdmaPort where
  config : Config
  initialized : Bool := true
  /-- The length of the region of each peer that is ready. -/
  peers : NodeId → Option UInt64
  /-- `local_length_`, where a region is registered. -/
  localLength : Option UInt64

/-- A posted request: when it was posted, and on which queue pair. -/
structure WorkRequest where
  id : Nat
  peer : NodeId
  deriving DecidableEq, Repr

structure SendQueue where
  outstandingSends : UInt64 := 0
  /-- Posted requests whose completions have not been polled, oldest first. -/
  inFlight : List WorkRequest := []
  /-- The number of requests posted so far. -/
  nextRequest : Nat := 0
  deriving DecidableEq

/-- What one `ibv_poll_cq` does: fail, or hand out requests in flight by their places,
each with whether it succeeded. -/
inductive Poll where
  | failed
  | completed (picks : List (Nat × Bool))
  deriving DecidableEq

/-- What the verbs do during one call. -/
structure Verbs where
  /-- Whether `ibv_reg_mr` succeeds for the call's `k`-th remote access. -/
  registers : Nat → Bool := fun _ => true
  /-- Whether `ibv_post_send` does. -/
  sends : Nat → Bool := fun _ => true
  polls : List Poll := []

inductive RdmaCall where
  | read (addr : GlobalAddr) (size : UInt64)
  | write (addr : GlobalAddr) (buf : Bytes)
  | batchWrite (requests : List RemoteWriteRequest)
  | fence
  deriving DecidableEq

/-- How a call ends: with a status, with an exception, or not within the polls it was given. -/
inductive Outcome where
  | returned (status : Status)
  | thrown
  | waiting
  deriving DecidableEq, Repr

namespace RdmaPort

/-- The status of `CopyLocal`. -/
def copyLocal (port : RdmaPort) (offset size : UInt64) : Status :=
  match port.localLength with
  | none => .kOutOfRange
  | some length => if offset + size > length then .kOutOfRange else .kOk

/-- The completions a poll hands out and the requests it leaves in flight. -/
def handOut : Nat → List (Nat × Bool) → List WorkRequest → List Bool × List WorkRequest
  | 0, _, inFlight => ([], inFlight)
  | _, [], inFlight => ([], inFlight)
  | limit + 1, (i, success) :: picks, inFlight =>
    if i < inFlight.length then
      let r := handOut limit picks (inFlight.eraseIdx i)
      (success :: r.1, r.2)
    else handOut (limit + 1) picks inFlight

/-- `static_cast<int>(std::max(1, max_completions))`, where it is not negative. -/
def pollLimit (maxCompletions : Nat) : Option Nat :=
  let limit := max 1 maxCompletions % 2 ^ 32
  if limit < 2 ^ 31 then some limit else none

/-- `PollCompletions`: the number of completions, or how it stops. A vector of negative
size throws. -/
def pollCompletions (port : RdmaPort) (maxCompletions : Nat) (poll : Poll) (st : SendQueue) :
    Except Outcome Nat × SendQueue :=
  if port.initialized = false then (.error (.returned .kNotInitialized), st)
  else
    match pollLimit maxCompletions, poll with
    | none, _ => (.error .thrown, st)
    | some _, .failed => (.error (.returned .kInternalError), st)
    | some limit, .completed picks =>
      let r := handOut limit picks st.inFlight
      let polled := r.1.length
      if r.1.all id = false then (.error (.returned .kInternalError), { st with inFlight := r.2 })
      else
        (.ok polled,
          { st with
            inFlight := r.2
            outstandingSends :=
              if st.outstandingSends.toNat ≥ polled then st.outstandingSends - UInt64.ofNat polled else 0 })

def waitLoop (port : RdmaPort) (target : Nat) : Nat → List Poll → SendQueue → Outcome × SendQueue
  | completed, [], st => if completed < target then (.waiting, st) else (.returned .kOk, st)
  | completed, poll :: polls, st =>
    if completed < target then
      match port.pollCompletions (target - completed) poll st with
      | (.error outcome, st) => (outcome, st)
      | (.ok polled, st) =>
        if polled = 0 then waitLoop port target completed polls st
        else waitLoop port target (completed + polled) polls st
    else (.returned .kOk, st)

def waitForCompletions (port : RdmaPort) (target : Nat) (polls : List Poll) (st : SendQueue) : Outcome × SendQueue :=
  if target = 0 then (.returned .kOk, st) else waitLoop port target 0 polls st

/-- A successful `ibv_post_send`, counted. -/
def postSend (peer : NodeId) (st : SendQueue) : SendQueue where
  outstandingSends := st.outstandingSends + 1
  inFlight := st.inFlight ++ [⟨st.nextRequest, peer⟩]
  nextRequest := st.nextRequest + 1

def postOneSided (port : RdmaPort) (verbs : Verbs) (peer : NodeId) (st : SendQueue) : Outcome × SendQueue :=
  if verbs.sends 0 = false then (.returned .kInternalError, st)
  else port.waitForCompletions 1 verbs.polls (postSend peer st)

/-- What `Read` and `Write` have in common. -/
def oneSided (port : RdmaPort) (verbs : Verbs) (addr : GlobalAddr) (size : UInt64) (st : SendQueue) :
    Outcome × SendQueue :=
  if port.initialized = false then (.returned .kNotInitialized, st)
  else if size = 0 then (.returned .kInvalidArg, st)
  else if addr.homeNode = port.config.nodeId then (.returned (port.copyLocal addr.offset size), st)
  else
    match port.peers addr.homeNode with
    | none => (.returned .kNotFound, st)
    | some length =>
      if addr.offset + size > length then (.returned .kOutOfRange, st)
      else if verbs.registers 0 = false then (.returned .kInternalError, st)
      else port.postOneSided verbs addr.homeNode st

/-- The loop of `BatchWrite` over its requests: how many it posted, or the status of an
early return, which leaves those in flight. -/
def postBatch (port : RdmaPort) (verbs : Verbs) :
    List RemoteWriteRequest → Nat → SendQueue → Except Status Nat × SendQueue
  | [], posted, st => (.ok posted, st)
  | req :: requests, posted, st =>
    if req.buf.size = 0 then (.error .kInvalidArg, st)
    else if req.addr.homeNode = port.config.nodeId then
      match port.copyLocal req.addr.offset req.buf.size with
      | .kOk => postBatch port verbs requests posted st
      | s => (.error s, st)
    else
      match port.peers req.addr.homeNode with
      | none => (.error .kNotFound, st)
      | some length =>
        if req.addr.offset + req.buf.size > length then (.error .kOutOfRange, st)
        else if verbs.registers posted = false then (.error .kInternalError, st)
        else if verbs.sends posted = false then (.error .kInternalError, st)
        else postBatch port verbs requests (posted + 1) (postSend req.addr.homeNode st)

def batchWrite (port : RdmaPort) (verbs : Verbs) (requests : List RemoteWriteRequest) (st : SendQueue) :
    Outcome × SendQueue :=
  if port.initialized = false then (.returned .kNotInitialized, st)
  else if requests.isEmpty then (.returned .kOk, st)
  else
    match port.postBatch verbs requests 0 st with
    | (.error s, st) => (.returned s, st)
    | (.ok posted, st) => port.waitForCompletions posted verbs.polls st

def fence (port : RdmaPort) (verbs : Verbs) (st : SendQueue) : Outcome × SendQueue :=
  if port.initialized = false then (.returned .kNotInitialized, st)
  else port.waitForCompletions st.outstandingSends.toNat verbs.polls st

/-- One call under what the verbs do. -/
def step (port : RdmaPort) (st : SendQueue) : RdmaCall × Verbs → Outcome × SendQueue
  | (.read addr size, verbs) => port.oneSided verbs addr size st
  | (.write addr buf, verbs) => port.oneSided verbs addr buf.size st
  | (.batchWrite requests, verbs) => port.batchWrite verbs requests st
  | (.fence, verbs) => port.fence verbs st

/-- The queue after a sequence of calls. -/
def after (port : RdmaPort) (calls : List (RdmaCall × Verbs)) : SendQueue := (run port.step {} calls).2

/-- Where the call reports success, none of the requests it posted is still in flight. -/
def CompletesOwn (port : RdmaPort) (st : SendQueue) (call : RdmaCall) (verbs : Verbs) : Prop :=
  (port.step st (call, verbs)).1 = .returned .kOk →
    ∀ request ∈ (port.step st (call, verbs)).2.inFlight, request.id < st.nextRequest

/-! ### Handing out completions -/

variable {call : RdmaCall} {peers : List NodeId} {port : RdmaPort} {registers sends : Nat → Bool} {st : SendQueue}
  (limit : Nat) (picks : List (Nat × Bool)) (inFlight : List WorkRequest)

@[simp] theorem handOut_nil : handOut limit [] inFlight = ([], inFlight) := by
  cases limit <;> rfl

theorem handOut_sublist : (handOut limit picks inFlight).2.Sublist inFlight := by
  fun_induction handOut limit picks inFlight with
  | case1 => exact List.Sublist.refl _
  | case2 => exact List.Sublist.refl _
  | case3 limit i success picks inFlight _ r ih => exact ih.trans (List.eraseIdx_sublist _ _)
  | case4 limit i success picks inFlight _ ih => exact ih

/-- Every completion handed out is one of a request that was in flight. -/
theorem handOut_length :
    (handOut limit picks inFlight).1.length + (handOut limit picks inFlight).2.length = inFlight.length := by
  fun_induction handOut limit picks inFlight with
  | case1 => simp
  | case2 => simp
  | case3 limit i success picks inFlight inside r ih =>
    change r.1.length + r.2.length = _ at ih
    rw [List.length_eraseIdx_of_lt inside] at ih
    simp only [List.length_cons]
    omega
  | case4 limit i success picks inFlight _ ih => exact ih

theorem handOut_le : (handOut limit picks inFlight).1.length ≤ limit := by
  fun_induction handOut limit picks inFlight with
  | case1 => simp
  | case2 => simp
  | case3 limit i success picks inFlight _ r ih => exact Nat.succ_le_succ ih
  | case4 limit i success picks inFlight _ ih => exact ih

/-- What a poll that reports completions has done. -/
theorem pollCompletions_ok {maxCompletions : Nat} {poll : Poll} {st st' : SendQueue} {polled : Nat}
    (ok : port.pollCompletions maxCompletions poll st = (.ok polled, st')) :
    ∃ limit, pollLimit maxCompletions = some limit ∧ polled ≤ limit ∧
      polled + st'.inFlight.length = st.inFlight.length := by
  unfold pollCompletions at ok
  split at ok
  · simp at ok
  split at ok
  · simp at ok
  · simp at ok
  · rename_i limit picks found
    simp only at ok
    split at ok
    · simp at ok
    · obtain ⟨count, rfl⟩ := Prod.mk.inj ok
      obtain rfl := Except.ok.inj count
      exact ⟨limit, found, handOut_le _ _ _, handOut_length _ _ _⟩

/-- A poll that stops the wait reports a failure or throws. -/
theorem pollCompletions_error {maxCompletions : Nat} {poll : Poll} {st st' : SendQueue} {outcome : Outcome}
    (stopped : port.pollCompletions maxCompletions poll st = (.error outcome, st')) :
    outcome = .thrown ∨ outcome = .returned .kInternalError ∨
      port.initialized = false ∧ outcome = .returned .kNotInitialized := by
  unfold pollCompletions at stopped
  split at stopped
  · rename_i off
    cases stopped
    exact Or.inr (Or.inr ⟨off, rfl⟩)
  split at stopped
  · cases stopped
    exact Or.inl rfl
  · cases stopped
    exact Or.inr (Or.inl rfl)
  · simp only at stopped
    split at stopped
    · cases stopped
      exact Or.inr (Or.inl rfl)
    · cases stopped

/-- A poll removes requests and posts none. -/
theorem pollCompletions_shrinks (port : RdmaPort) (maxCompletions : Nat) (poll : Poll) (st : SendQueue) :
    (port.pollCompletions maxCompletions poll st).2.inFlight.Sublist st.inFlight ∧
      (port.pollCompletions maxCompletions poll st).2.nextRequest = st.nextRequest := by
  unfold pollCompletions
  split
  · exact ⟨List.Sublist.refl _, rfl⟩
  split
  · exact ⟨List.Sublist.refl _, rfl⟩
  · exact ⟨List.Sublist.refl _, rfl⟩
  · simp only
    split <;> exact ⟨handOut_sublist _ _ _, rfl⟩

theorem pollLimit_le {maxCompletions limit : Nat} (positive : 0 < maxCompletions)
    (found : pollLimit maxCompletions = some limit) : limit ≤ maxCompletions := by
  simp only [pollLimit, Option.ite_none_right_eq_some, Option.some.injEq] at found
  have mod := Nat.mod_le (max 1 maxCompletions) (2 ^ 32)
  omega

/-- A count that does not fit an `int` leaves one that does not either. -/
theorem pollLimit_large {maxCompletions limit : Nat} (large : 2 ^ 31 ≤ maxCompletions)
    (found : pollLimit maxCompletions = some limit) : limit + 2 ^ 31 ≤ maxCompletions := by
  simp only [pollLimit, Option.ite_none_right_eq_some, Option.some.injEq] at found
  omega

theorem waitLoop_shrinks (port : RdmaPort) (target completed : Nat) (polls : List Poll) (st : SendQueue) :
    (port.waitLoop target completed polls st).2.inFlight.Sublist st.inFlight ∧
      (port.waitLoop target completed polls st).2.nextRequest = st.nextRequest := by
  induction polls generalizing completed st with
  | nil =>
    unfold waitLoop
    split <;> exact ⟨List.Sublist.refl _, rfl⟩
  | cons poll polls ih =>
    rw [waitLoop]
    have shrinks := pollCompletions_shrinks port (target - completed) poll st
    split
    · split
      · rename_i outcome st' polled
        rw [polled] at shrinks
        exact shrinks
      · rename_i count st' polled
        rw [polled] at shrinks
        split
        · exact ⟨(ih completed st').1.trans shrinks.1, (ih completed st').2.trans shrinks.2⟩
        · exact ⟨(ih _ st').1.trans shrinks.1, (ih _ st').2.trans shrinks.2⟩
    · exact ⟨List.Sublist.refl _, rfl⟩

/-- A wait that returns `kOk` has polled exactly as many completions as it waited for, and
a count beyond `int` never comes to an end. -/
theorem waitLoop_ok {target completed : Nat} {polls : List Poll} (within : completed ≤ target)
    (ok : (port.waitLoop target completed polls st).1 = .returned .kOk) :
    (port.waitLoop target completed polls st).2.inFlight.length + target = st.inFlight.length + completed ∧
      target - completed < 2 ^ 31 := by
  induction polls generalizing completed st with
  | nil =>
    unfold waitLoop at ok ⊢
    split at ok <;> simp at ok
    rename_i done
    rw [if_neg done]
    exact ⟨by simp only; omega, by omega⟩
  | cons poll polls ih =>
    rw [waitLoop] at ok ⊢
    split at ok
    · rename_i more
      rw [if_pos more]
      split at ok
      · rename_i outcome st' stopped
        rcases pollCompletions_error stopped with rfl | rfl | ⟨-, rfl⟩ <;> cases ok
      · rename_i count st' polled
        obtain ⟨limit, found, le, length⟩ := pollCompletions_ok polled
        have fits := pollLimit_le (by omega) found
        have large := fun big => pollLimit_large big found
        split at ok
        · rename_i none
          have next := ih within ok
          simp only [if_pos none]
          exact ⟨by omega, next.2⟩
        · rename_i some
          have next := ih (by omega) ok
          simp only [if_neg some]
          exact ⟨by omega, by omega⟩
    · rename_i done
      rw [if_neg done]
      exact ⟨by simp only; omega, by omega⟩

theorem waitLoop_returned (ready : port.initialized = true) {target completed : Nat} {polls : List Poll} {s : Status}
    (returned : (port.waitLoop target completed polls st).1 = .returned s) : s = .kOk ∨ s = .kInternalError := by
  induction polls generalizing completed st with
  | nil =>
    unfold waitLoop at returned
    split at returned
    · cases returned
    · cases returned
      exact Or.inl rfl
  | cons poll polls ih =>
    rw [waitLoop] at returned
    split at returned
    · split at returned
      · rename_i outcome st' stopped
        rcases pollCompletions_error stopped with rfl | rfl | ⟨off, -⟩
        · cases returned
        · cases returned
          exact Or.inr rfl
        · simp [ready] at off
      · split at returned <;> exact ih returned
    · cases returned
      exact Or.inl rfl

/-! ### What a call posts -/

/-- The queue pairs the requests of a batch go to, and the status of an early return. -/
def batchPosts (port : RdmaPort) (registers sends : Nat → Bool) :
    List RemoteWriteRequest → Nat → List NodeId × Option Status
  | [], _ => ([], none)
  | req :: requests, posted =>
    if req.buf.size = 0 then ([], some .kInvalidArg)
    else if req.addr.homeNode = port.config.nodeId then
      match port.copyLocal req.addr.offset req.buf.size with
      | .kOk => batchPosts port registers sends requests posted
      | s => ([], some s)
    else
      match port.peers req.addr.homeNode with
      | none => ([], some .kNotFound)
      | some length =>
        if req.addr.offset + req.buf.size > length then ([], some .kOutOfRange)
        else if registers posted = false then ([], some .kInternalError)
        else if sends posted = false then ([], some .kInternalError)
        else
          let rest := batchPosts port registers sends requests (posted + 1)
          (req.addr.homeNode :: rest.1, rest.2)

/-- The queue pair the request of a read or a write goes to, and the status of an early return. -/
def oneSidedPosts (port : RdmaPort) (registers sends : Nat → Bool) (addr : GlobalAddr) (size : UInt64) :
    List NodeId × Option Status :=
  if port.initialized = false then ([], some .kNotInitialized)
  else if size = 0 then ([], some .kInvalidArg)
  else if addr.homeNode = port.config.nodeId then ([], some (port.copyLocal addr.offset size))
  else
    match port.peers addr.homeNode with
    | none => ([], some .kNotFound)
    | some length =>
      if addr.offset + size > length then ([], some .kOutOfRange)
      else if registers 0 = false then ([], some .kInternalError)
      else if sends 0 = false then ([], some .kInternalError)
      else ([addr.homeNode], none)

/-- The queue pairs a call's requests go to, and the status of a return before any wait. -/
def posts (port : RdmaPort) (registers sends : Nat → Bool) : RdmaCall → List NodeId × Option Status
  | .read addr size => port.oneSidedPosts registers sends addr size
  | .write addr buf => port.oneSidedPosts registers sends addr buf.size
  | .batchWrite requests =>
    if port.initialized = false then ([], some .kNotInitialized)
    else if requests.isEmpty then ([], some .kOk)
    else port.batchPosts registers sends requests 0
  | .fence => if port.initialized = false then ([], some .kNotInitialized) else ([], none)

def postAll (peers : List NodeId) (st : SendQueue) : SendQueue := peers.foldl (fun st peer => postSend peer st) st

/-- How many completions a call waits for after posting. -/
def waitTarget (st : SendQueue) (peers : List NodeId) : RdmaCall → Nat
  | .fence => st.outstandingSends.toNat
  | _ => peers.length

theorem oneSided_eq (port : RdmaPort) (verbs : Verbs) (addr : GlobalAddr) (size : UInt64) (st : SendQueue) :
    port.oneSided verbs addr size st =
      match port.oneSidedPosts verbs.registers verbs.sends addr size with
      | (peers, some s) => (.returned s, postAll peers st)
      | (peers, none) => port.waitForCompletions peers.length verbs.polls (postAll peers st) := by
  unfold oneSided oneSidedPosts postOneSided
  split
  · rfl
  split
  · rfl
  split
  · rfl
  split
  · rfl
  split
  · rfl
  split
  · rfl
  split <;> rfl

theorem postBatch_eq (port : RdmaPort) (verbs : Verbs) (requests : List RemoteWriteRequest) (posted : Nat)
    (st : SendQueue) :
    port.postBatch verbs requests posted st =
      match port.batchPosts verbs.registers verbs.sends requests posted with
      | (peers, some s) => (.error s, postAll peers st)
      | (peers, none) => (.ok (posted + peers.length), postAll peers st) := by
  induction requests generalizing posted st with
  | nil => rfl
  | cons req requests ih =>
    unfold postBatch batchPosts
    split
    · rfl
    split
    · split
      · exact ih posted st
      · rfl
    split
    · rfl
    split
    · rfl
    split
    · rfl
    split
    · rfl
    rw [ih]
    rcases port.batchPosts verbs.registers verbs.sends requests (posted + 1) with ⟨peers, _ | s⟩
    · simp only [List.length_cons, postAll, List.foldl_cons, Prod.mk.injEq, Except.ok.injEq, and_true]
      omega
    · rfl

/-- A call posts its requests and then waits. -/
theorem step_eq (port : RdmaPort) (st : SendQueue) (call : RdmaCall) (verbs : Verbs) :
    port.step st (call, verbs) =
      match port.posts verbs.registers verbs.sends call with
      | (peers, some s) => (.returned s, postAll peers st)
      | (peers, none) => port.waitForCompletions (waitTarget st peers call) verbs.polls (postAll peers st) := by
  cases call with
  | read addr size => exact oneSided_eq port verbs addr size st
  | write addr buf => exact oneSided_eq port verbs addr buf.size st
  | batchWrite requests =>
    simp only [step, batchWrite, posts]
    split
    · rfl
    split
    · rfl
    rw [postBatch_eq]
    rcases port.batchPosts verbs.registers verbs.sends requests 0 with ⟨peers, _ | s⟩
    · simp [waitTarget]
    · rfl
  | fence =>
    simp only [step, fence, posts]
    split <;> rfl

/-- The requests a list of posts adds. -/
def newRequests (first : Nat) (peers : List NodeId) : List WorkRequest :=
  (peers.zipIdx first).map fun p => ⟨p.2, p.1⟩

theorem inFlight_postAll (peers : List NodeId) (st : SendQueue) :
    (postAll peers st).inFlight = st.inFlight ++ newRequests st.nextRequest peers ∧
      (postAll peers st).nextRequest = st.nextRequest + peers.length := by
  induction peers generalizing st with
  | nil => simp [postAll, newRequests]
  | cons peer peers ih =>
    obtain ⟨inFlight, next⟩ := ih (postSend peer st)
    constructor
    · rw [postAll, List.foldl_cons, ← postAll, inFlight]
      simp [postSend, newRequests]
    · rw [postAll, List.foldl_cons, ← postAll, next, List.length_cons]
      simp only [postSend]
      omega

theorem newRequests_id {first : Nat} {request : WorkRequest} (member : request ∈ newRequests first peers) :
    first ≤ request.id ∧ request.id < first + peers.length := by
  obtain ⟨⟨peer, id⟩, inside, rfl⟩ := List.mem_map.mp member
  have place := List.mem_zipIdx inside
  exact ⟨place.1, place.2.1⟩

theorem batchPosts_stop {requests : List RemoteWriteRequest} {posted : Nat} :
    port.batchPosts registers sends requests posted ≠ (peers, some .kOk) := by
  induction requests generalizing posted peers with
  | nil => simp [batchPosts]
  | cons req requests ih =>
    intro stop
    unfold batchPosts at stop
    split at stop
    · simp_all
    split at stop
    · split at stop
      · exact ih stop
      · simp_all
    split at stop
    · simp_all
    split at stop
    · simp_all
    split at stop
    · simp_all
    split at stop
    · simp_all
    obtain ⟨-, rest⟩ := Prod.mk.inj stop
    exact ih (Prod.ext rfl rest)

theorem oneSidedPosts_stop {addr : GlobalAddr} {size : UInt64} {s : Status}
    (stop : port.oneSidedPosts registers sends addr size = (peers, some s)) : peers = [] := by
  unfold oneSidedPosts at stop
  repeat' split at stop
  all_goals simp_all

/-- A call that reports success without waiting has posted nothing. -/
theorem posts_stop (stop : port.posts registers sends call = (peers, some .kOk)) : peers = [] := by
  cases call with
  | read addr size => exact oneSidedPosts_stop stop
  | write addr buf => exact oneSidedPosts_stop stop
  | batchWrite requests =>
    simp only [posts] at stop
    split at stop
    · simp_all
    split at stop
    · simp_all
    exact absurd stop batchPosts_stop
  | fence =>
    simp only [posts] at stop
    split at stop <;> simp_all

theorem batchPosts_free {requests : List RemoteWriteRequest} {posted : Nat}
    (through : port.batchPosts registers sends requests posted = (peers, none)) :
    port.batchPosts (fun _ => true) (fun _ => true) requests posted = (peers, none) := by
  induction requests generalizing posted peers with
  | nil => exact through
  | cons req requests ih =>
    unfold batchPosts at through ⊢
    split at through
    · simp at through
    rename_i size
    rw [if_neg size]
    split at through
    · rename_i home
      rw [if_pos home]
      split at through
      · exact ih through
      · simp at through
    rename_i away
    rw [if_neg away]
    split at through
    · simp at through
    split at through
    · simp at through
    rename_i inRange
    simp only
    rw [if_neg inRange]
    split at through
    · simp at through
    split at through
    · simp at through
    obtain ⟨rfl, rest⟩ := Prod.mk.inj through
    simp [ih (Prod.ext rfl rest)]

/-- Verbs that let a call come to its wait are no different from verbs that never fail. -/
theorem posts_free (through : port.posts registers sends call = (peers, none)) :
    port.posts (fun _ => true) (fun _ => true) call = (peers, none) := by
  have oneSided {addr : GlobalAddr} {size : UInt64} (through : port.oneSidedPosts registers sends addr size = (peers, none)) :
      port.oneSidedPosts (fun _ => true) (fun _ => true) addr size = (peers, none) := by
    unfold oneSidedPosts at through ⊢
    repeat' split at through
    all_goals simp_all
  cases call with
  | read addr size => exact oneSided through
  | write addr buf => exact oneSided through
  | batchWrite requests =>
    simp only [posts] at through ⊢
    split at through
    · simp at through
    rename_i ready
    rw [if_neg ready]
    split at through
    · simp at through
    rename_i some
    rw [if_neg some]
    exact batchPosts_free through
  | fence => exact through

/-! ### Success and completion -/

theorem waitForCompletions_shrinks (port : RdmaPort) (target : Nat) (polls : List Poll) (st : SendQueue) :
    (port.waitForCompletions target polls st).2.inFlight.Sublist st.inFlight ∧
      (port.waitForCompletions target polls st).2.nextRequest = st.nextRequest := by
  unfold waitForCompletions
  split
  · exact ⟨List.Sublist.refl _, rfl⟩
  · exact waitLoop_shrinks port target 0 polls st

theorem waitForCompletions_ok {target : Nat} {polls : List Poll}
    (ok : (port.waitForCompletions target polls st).1 = .returned .kOk) :
    (port.waitForCompletions target polls st).2.inFlight.length + target = st.inFlight.length ∧ target < 2 ^ 31 := by
  unfold waitForCompletions at ok ⊢
  split at ok
  · rename_i zero
    rw [if_pos zero, zero]
    exact ⟨rfl, by decide⟩
  · rename_i positive
    rw [if_neg positive]
    exact waitLoop_ok (Nat.zero_le _) ok

/-- A wait of a transport that is initialized returns `kOk` or reports a failure. -/
theorem waitForCompletions_returned (ready : port.initialized = true) {target : Nat} {polls : List Poll} {s : Status}
    (returned : (port.waitForCompletions target polls st).1 = .returned s) : s = .kOk ∨ s = .kInternalError := by
  unfold waitForCompletions at returned
  split at returned
  · cases returned
    exact Or.inl rfl
  · exact waitLoop_returned ready returned

/-- Requests in flight have been posted before. -/
def Known (st : SendQueue) : Prop := ∀ request ∈ st.inFlight, request.id < st.nextRequest

theorem Known.postAll (known : Known st) (peers : List NodeId) : Known (postAll peers st) := by
  obtain ⟨inFlight, next⟩ := inFlight_postAll peers st
  intro request member
  rw [inFlight, List.mem_append] at member
  rw [next]
  rcases member with old | new
  · have := known request old
    omega
  · exact (newRequests_id new).2

theorem Known.step (known : Known st) (input : RdmaCall × Verbs) : Known (port.step st input).2 := by
  obtain ⟨call, verbs⟩ := input
  rw [step_eq]
  rcases port.posts verbs.registers verbs.sends call with ⟨peers, _ | s⟩
  · obtain ⟨sublist, next⟩ := waitForCompletions_shrinks port (waitTarget st peers call) verbs.polls (RdmaPort.postAll peers st)
    intro request member
    exact next ▸ known.postAll peers request (sublist.subset member)
  · exact known.postAll peers

/-- From an empty queue, success leaves the queue empty. -/
theorem idle_step {input : RdmaCall × Verbs} (idle : st.inFlight = []) (ok : (port.step st input).1 = .returned .kOk) :
    (port.step st input).2.inFlight = [] := by
  obtain ⟨call, verbs⟩ := input
  rw [step_eq] at ok ⊢
  rcases posted : port.posts verbs.registers verbs.sends call with ⟨peers, _ | s⟩
  · simp only [posted] at ok ⊢
    have ⟨count, _⟩ := waitForCompletions_ok ok
    have ⟨sublist, _⟩ := waitForCompletions_shrinks port (waitTarget st peers call) verbs.polls (postAll peers st)
    obtain ⟨inFlight, _⟩ := inFlight_postAll peers st
    rw [inFlight, idle, List.nil_append] at count sublist
    cases call with
    | fence =>
      have none : peers = [] := by
        simp only [posts] at posted
        split at posted <;> simp_all
      subst none
      exact List.sublist_nil.mp sublist
    | _ =>
      simp only [waitTarget, newRequests, List.length_map, List.length_zipIdx] at count
      exact List.eq_nil_of_length_eq_zero (by simp only [waitTarget]; omega)
  · simp only [posted] at ok ⊢
    obtain rfl : s = .kOk := Outcome.returned.inj ok
    obtain rfl := posts_stop posted
    exact idle

/-- The call posts requests, not more than an `int` counts, if the verbs let it. -/
def Posts (port : RdmaPort) (call : RdmaCall) : Prop :=
  ∃ peers, port.posts (fun _ => true) (fun _ => true) call = (peers, none) ∧ peers ≠ [] ∧ peers.length < 2 ^ 31

theorem completesOwn_of_not_posts (known : Known st) (none : ¬port.Posts call) (verbs : Verbs) :
    port.CompletesOwn st call verbs := by
  intro ok
  rw [step_eq] at ok ⊢
  rcases posted : port.posts verbs.registers verbs.sends call with ⟨peers, _ | s⟩
  · simp only [posted] at ok ⊢
    have ⟨_, fits⟩ := waitForCompletions_ok ok
    have empty : peers = [] := by
      by_contra some
      refine none ⟨peers, posts_free posted, some, ?_⟩
      cases call with
      | fence =>
        simp only [posts] at posted
        split at posted <;> simp_all
      | _ => exact fits
    subst empty
    have ⟨sublist, _⟩ := waitForCompletions_shrinks port (waitTarget st [] call) verbs.polls (postAll [] st)
    intro request member
    exact known request (sublist.subset member)
  · simp only [posted] at ok ⊢
    obtain rfl : s = .kOk := Outcome.returned.inj ok
    obtain rfl := posts_stop posted
    exact known

/-- Polls that hand out the oldest request, one at a time. -/
def oldestFirst (n : Nat) : List Poll := List.replicate n (.completed [(0, true)])

theorem waitLoop_oldestFirst (ready : port.initialized = true) {target n completed : Nat} (count : completed + n = target)
    (fits : n < 2 ^ 31) (enough : n ≤ st.inFlight.length) :
    (port.waitLoop target completed (oldestFirst n) st).1 = .returned .kOk ∧
      (port.waitLoop target completed (oldestFirst n) st).2.inFlight = st.inFlight.drop n := by
  induction n generalizing completed st with
  | zero => simp [oldestFirst, waitLoop, ← count]
  | succ n ih =>
    obtain ⟨oldest, rest, inFlight⟩ := List.exists_cons_of_length_pos (show 0 < st.inFlight.length by omega)
    have limit : pollLimit (target - completed) = some (n + 1) := by
      have remaining : target - completed = n + 1 := by omega
      have small : max 1 (n + 1) % 2 ^ 32 = n + 1 := by omega
      rw [pollLimit, remaining]
      simp only [small]
      exact if_pos fits
    have poll : ∃ sends, port.pollCompletions (target - completed) (.completed [(0, true)]) st =
        (.ok 1, { st with inFlight := rest, outstandingSends := sends }) := by
      refine ⟨(port.pollCompletions (target - completed) (.completed [(0, true)]) st).2.outstandingSends, ?_⟩
      simp [pollCompletions, ready, limit, inFlight, handOut]
    obtain ⟨sends, poll⟩ := poll
    rw [oldestFirst, List.replicate_succ, ← oldestFirst, waitLoop, if_pos (by omega), poll]
    simp only [Nat.one_ne_zero, if_false, inFlight, List.drop_succ_cons]
    exact ih (by omega) (by omega) (by rw [inFlight] at enough; simpa using enough)

/-- With an older request in flight, a call that posts can report success too early. -/
theorem not_completesOwn (busy : st.inFlight ≠ []) (some : port.Posts call) : ∃ verbs, ¬port.CompletesOwn st call verbs := by
  obtain ⟨peers, posted, nonempty, fits⟩ := some
  have positive : 0 < peers.length := List.length_pos_of_ne_nil nonempty
  have older : 0 < st.inFlight.length := List.length_pos_of_ne_nil busy
  refine ⟨{ polls := oldestFirst peers.length }, fun completes => ?_⟩
  have ready : port.initialized = true := by
    by_contra missing
    simp only [Bool.not_eq_true] at missing
    cases call <;> simp [posts, oneSidedPosts, missing] at posted
  have target : waitTarget st peers call = peers.length := by
    cases call with
    | fence => simp_all [posts]
    | _ => rfl
  obtain ⟨inFlight, _⟩ := inFlight_postAll peers st
  have length : (newRequests st.nextRequest peers).length = peers.length := by simp [newRequests]
  have loop := waitLoop_oldestFirst ready (Nat.zero_add peers.length) fits
    (show peers.length ≤ (postAll peers st).inFlight.length by rw [inFlight, List.length_append]; omega)
  have result : port.step st (call, { polls := oldestFirst peers.length }) =
      port.waitLoop peers.length 0 (oldestFirst peers.length) (postAll peers st) := by
    rw [step_eq, posted]
    simp only [target, waitForCompletions, if_neg (Nat.ne_of_gt positive)]
  rw [CompletesOwn, result] at completes
  have done := completes loop.1
  rw [loop.2, inFlight, List.drop_append] at done
  -- fewer own requests have been polled than were posted
  have left : (newRequests st.nextRequest peers).drop (peers.length - st.inFlight.length) ≠ [] := by
    rw [Ne, List.drop_eq_nil_iff, length]
    omega
  obtain ⟨request, member⟩ := List.exists_mem_of_ne_nil _ left
  have early := done request (List.mem_append_right _ member)
  have late := (newRequests_id (List.mem_of_mem_drop member)).1
  omega

theorem after_known (port : RdmaPort) (calls : List (RdmaCall × Verbs)) : Known (port.after calls) :=
  run_keeps (I := Known) (fun _ input known => known.step input) calls (by simp [Known])

end RdmaPort

/-- After any sequence of calls, the next one completes what it posts whenever it reports
success, whatever the verbs do, exactly when nothing is in flight or it posts nothing.
Nothing is in flight after calls that all reported success. -/
theorem success_completes_iff (port : RdmaPort) (calls : List (RdmaCall × Verbs)) (call : RdmaCall) :
    ((∀ verbs, port.CompletesOwn (port.after calls) call verbs) ↔
      (port.after calls).inFlight = [] ∨ ¬port.Posts call) ∧
    ((∀ outcome ∈ (run port.step {} calls).1, outcome = .returned .kOk) → (port.after calls).inFlight = []) := by
  refine ⟨⟨fun completes => ?_, ?_⟩, fun ok => ?_⟩
  · by_contra both
    obtain ⟨busy, posts⟩ := not_or.mp both
    obtain ⟨verbs, early⟩ := RdmaPort.not_completesOwn busy (not_not.mp posts)
    exact early (completes verbs)
  · rintro (idle | nothing) verbs
    · intro ok request member
      rw [RdmaPort.idle_step idle ok] at member
      exact absurd member List.not_mem_nil
    · exact RdmaPort.completesOwn_of_not_posts (port.after_known calls) nothing verbs
  · exact run_invariant (I := fun st : SendQueue => st.inFlight = []) (fun _ _ ok idle => RdmaPort.idle_step idle ok)
      (along_of_answers ok) rfl

/-- Node 0 with two connected peers. -/
def twoPeers : RdmaPort where
  config := { nodeId := 0, nrNodes := 3 }
  peers := fun node => if node = 1 ∨ node = 2 then some 64 else none
  localLength := some 64

/-- One byte for a peer at an offset. -/
def byteFor (node : NodeId) (offset : UInt64) : RemoteWriteRequest :=
  { addr := { homeNode := node, offset := offset }, buf := Bytes.ofList [7] }

/-- A write to a peer that polls until the oldest request in flight is handed out. -/
def plainWrite (node : NodeId) : RdmaCall × Verbs :=
  (.write { homeNode := node } (Bytes.ofList [7]), { polls := [.completed [], .completed [(0, true)]] })

theorem plainWrites_complete :
    (run twoPeers.step {} [plainWrite 1, plainWrite 2]).1 = [.returned .kOk, .returned .kOk] ∧
    ∀ verbs, twoPeers.CompletesOwn (twoPeers.after [plainWrite 1, plainWrite 2])
      (.batchWrite [byteFor 1 0, byteFor 2 0]) verbs := by
  have ok : (run twoPeers.step {} [plainWrite 1, plainWrite 2]).1 = [.returned .kOk, .returned .kOk] := by
    decide +kernel
  have sound := success_completes_iff twoPeers [plainWrite 1, plainWrite 2] (.batchWrite [byteFor 1 0, byteFor 2 0])
  refine ⟨ok, sound.1.mpr (.inl (sound.2 ?_))⟩
  rw [ok]
  simp

/-- A batch whose second request is out of range returns with its first one in flight. -/
def brokenBatch : RdmaCall × Verbs := (.batchWrite [byteFor 1 0, byteFor 2 64], {})

/-- The write after the broken batch counts the batch's completion as its own: it reports
success with its own request, on the other queue pair, still in flight. -/
theorem brokenBatch_early_success :
    (twoPeers.step {} brokenBatch).1 = .returned .kOutOfRange ∧
    (twoPeers.step (twoPeers.after [brokenBatch]) (plainWrite 2)).1 = .returned .kOk ∧
    (twoPeers.step (twoPeers.after [brokenBatch]) (plainWrite 2)).2.inFlight = [⟨1, 2⟩] ∧
    ¬twoPeers.CompletesOwn (twoPeers.after [brokenBatch]) (plainWrite 2).1 (plainWrite 2).2 := by
  refine ⟨by decide +kernel, by decide +kernel, by decide +kernel, fun completes => ?_⟩
  exact absurd (completes (by decide +kernel)) (by decide +kernel)

end LeoMem
