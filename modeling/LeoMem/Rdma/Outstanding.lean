import LeoMem.Rdma.Completions
import Mathlib.Algebra.BigOperators.Group.List.Basic

/-!
# The count of outstanding sends

`outstanding_sends_` goes up with every posted request and down with every completion
that `PollCompletions` reports. A poll that meets a completion with an error returns
before it subtracts anything, although all completions it was handed are gone from the
completion queue. So the counter is never below the number of requests in flight, and
above it from the first such poll on.
-/

namespace LeoMem
open Lib

/-- The calls that move the counter, `PollCompletions` from outside among them. -/
inductive PortCall where
  | access (call : RdmaCall)
  | pollCompletions (maxCompletions : UInt64)
  deriving DecidableEq

/-- How many requests a call can post. -/
def PortCall.requests : PortCall → Nat
  | .access (.read _ _) => 1
  | .access (.write _ _) => 1
  | .access (.batchWrite requests) => requests.length
  | .access .fence => 0
  | .pollCompletions _ => 0

namespace RdmaPort

/-- The one poll of the completion queue that a call of `PollCompletions` makes. -/
def onlyPoll (verbs : Verbs) : Poll := verbs.polls.headD (.completed [])

def portStep (port : RdmaPort) (st : SendQueue) : PortCall × Verbs → Outcome × SendQueue
  | (.access call, verbs) => port.step st (call, verbs)
  | (.pollCompletions maxCompletions, verbs) =>
    match port.pollCompletions maxCompletions.toNat (onlyPoll verbs) st with
    | (.ok _, st) => (.returned .kOk, st)
    | (.error outcome, st) => (outcome, st)

/-- The queue after a sequence of calls. -/
def afterCalls (port : RdmaPort) (calls : List (PortCall × Verbs)) : SendQueue := (run port.portStep {} calls).2

/-! ### The completions a call takes -/

/-- What one `PollCompletions` takes from the completion queue. -/
def takenByPoll (port : RdmaPort) (maxCompletions : Nat) (poll : Poll) (st : SendQueue) : List Bool :=
  if port.initialized = false then []
  else
    match pollLimit maxCompletions, poll with
    | none, _ => []
    | some _, .failed => []
    | some limit, .completed picks => (handOut limit picks st.inFlight).1

/-- What the polls of `WaitForCompletions` take. -/
def takenByWait (port : RdmaPort) (target : Nat) : Nat → List Poll → SendQueue → List Bool
  | _, [], _ => []
  | completed, poll :: polls, st =>
    if completed < target then
      port.takenByPoll (target - completed) poll st ++
        match port.pollCompletions (target - completed) poll st with
        | (.error _, _) => []
        | (.ok polled, st) => takenByWait port target (completed + polled) polls st
    else []

/-- What a call takes, each completion with whether it succeeded. -/
def taken (port : RdmaPort) (st : SendQueue) : PortCall × Verbs → List Bool
  | (.access call, verbs) =>
    match port.posts verbs.registers verbs.sends call with
    | (_, some _) => []
    | (peers, none) => port.takenByWait (waitTarget st peers call) 0 verbs.polls (postAll peers st)
  | (.pollCompletions maxCompletions, verbs) => port.takenByPoll maxCompletions.toNat (onlyPoll verbs) st

/-- Every completion the call takes succeeded. -/
def TakesSuccesses (port : RdmaPort) (st : SendQueue) (input : PortCall × Verbs) : Prop :=
  ∀ success ∈ port.taken st input, success = true

/-! ### Polling -/

/-- The counter covers what is in flight. -/
def Covered (st : SendQueue) : Prop := st.inFlight.length ≤ st.outstandingSends.toNat

/-- What polling that takes `completions` does to the counter: it follows the requests in
flight while all of them succeed and is too high afterwards. -/
structure Accounted (st st' : SendQueue) (completions : List Bool) : Prop where
  covered : Covered st'
  fewer : st'.outstandingSends.toNat ≤ st.outstandingSends.toNat
  kept : (∀ success ∈ completions, success = true) →
    st'.outstandingSends.toNat + st.inFlight.length = st.outstandingSends.toNat + st'.inFlight.length
  lost : ¬ (∀ success ∈ completions, success = true) →
    st.outstandingSends.toNat + st'.inFlight.length < st'.outstandingSends.toNat + st.inFlight.length

variable {st : SendQueue} (port : RdmaPort) (registers sends : Nat → Bool)

theorem Accounted.refl (covered : Covered st) : Accounted st st [] :=
  ⟨covered, le_refl _, fun _ => rfl, fun failed => absurd (fun _ none => absurd none List.not_mem_nil) failed⟩

theorem Accounted.trans {st st' st'' : SendQueue} {first second : List Bool} (before : Accounted st st' first)
    (after : Accounted st' st'' second) : Accounted st st'' (first ++ second) := by
  have split : (∀ success ∈ first ++ second, success = true) ↔
      (∀ success ∈ first, success = true) ∧ ∀ success ∈ second, success = true := List.forall_mem_append
  refine ⟨after.covered, after.fewer.trans before.fewer, fun all => ?_, fun failed => ?_⟩
  · obtain ⟨left, right⟩ := split.mp all
    have := before.kept left
    have := after.kept right
    omega
  · rw [split, not_and_or] at failed
    by_cases left : ∀ success ∈ first, success = true
    · have := before.kept left
      have := after.lost (failed.resolve_left (not_not_intro left))
      omega
    · have := before.lost left
      by_cases right : ∀ success ∈ second, success = true
      · have := after.kept right
        omega
      · have := after.lost right
        omega

theorem pollCompletions_accounted (maxCompletions : Nat) (poll : Poll) (covered : Covered st) :
    Accounted st (port.pollCompletions maxCompletions poll st).2 (port.takenByPoll maxCompletions poll st) := by
  unfold pollCompletions takenByPoll
  split
  · exact .refl covered
  cases pollLimit maxCompletions with
  | none => exact .refl covered
  | some limit =>
  cases poll with
  | failed => exact .refl covered
  | completed picks =>
    dsimp only
    have length := handOut_length limit picks st.inFlight
    generalize handOut limit picks st.inFlight = r at length
    unfold Covered at covered
    by_cases all : r.1.all id = true
    · have successes : ∀ success ∈ r.1, success = true := by simpa using all
      have enough : st.outstandingSends.toNat ≥ r.1.length := by omega
      have count : (UInt64.ofNat r.1.length).toNat = r.1.length :=
        UInt64.toNat_ofNat_of_lt' (lt_of_le_of_lt enough st.outstandingSends.toNat_lt)
      have less : (st.outstandingSends - UInt64.ofNat r.1.length).toNat = st.outstandingSends.toNat - r.1.length := by
        rw [UInt64.toNat_sub_of_le _ _ (by rw [UInt64.le_iff_toNat_le, count]; exact enough), count]
      rw [if_neg (by simp [all]), if_pos enough]
      refine ⟨?_, ?_, fun _ => ?_, fun failed => absurd successes failed⟩
      · show r.2.length ≤ (st.outstandingSends - UInt64.ofNat r.1.length).toNat
        omega
      · show (st.outstandingSends - UInt64.ofNat r.1.length).toNat ≤ _
        omega
      · show (st.outstandingSends - UInt64.ofNat r.1.length).toNat + _ = _ + r.2.length
        omega
    · -- the error returns before the subtraction, so the whole poll stays counted
      have failed : ¬ ∀ success ∈ r.1, success = true := by simpa using all
      have some : 0 < r.1.length := by
        rw [List.length_pos_iff]
        rintro none
        exact failed (by simp [none])
      rw [if_pos (by simpa using all)]
      refine ⟨?_, le_refl _, fun successes => absurd successes failed, fun _ => ?_⟩
      · show r.2.length ≤ st.outstandingSends.toNat
        omega
      · show st.outstandingSends.toNat + r.2.length < st.outstandingSends.toNat + st.inFlight.length
        omega

theorem waitLoop_accounted (target completed : Nat) (polls : List Poll) (covered : Covered st) :
    Accounted st (port.waitLoop target completed polls st).2 (port.takenByWait target completed polls st) := by
  induction polls generalizing completed st with
  | nil =>
    unfold waitLoop takenByWait
    split <;> exact .refl covered
  | cons poll polls ih =>
    rw [waitLoop, takenByWait]
    split
    · have first := pollCompletions_accounted port (target - completed) poll covered
      generalize port.takenByPoll (target - completed) poll st = completions at first
      generalize port.pollCompletions (target - completed) poll st = r at first
      obtain ⟨outcome | polled, st'⟩ := r
      · simpa using first
      · have rest := ih (completed + polled) first.covered
        have skip : (if polled = 0 then port.waitLoop target completed polls st'
            else port.waitLoop target (completed + polled) polls st') =
              port.waitLoop target (completed + polled) polls st' := by
          split
          · rename_i none
            rw [none, Nat.add_zero]
          · rfl
        simp only [skip]
        exact first.trans rest
    · exact .refl covered

theorem waitForCompletions_accounted (target : Nat) (polls : List Poll) (covered : Covered st) :
    Accounted st (port.waitForCompletions target polls st).2 (port.takenByWait target 0 polls st) := by
  unfold waitForCompletions
  split
  · rename_i none
    have nothing : port.takenByWait target 0 polls st = [] := by
      subst none
      cases polls <;> rfl
    rw [nothing]
    exact .refl covered
  · exact waitLoop_accounted port target 0 polls covered

/-! ### Posting -/

theorem outstanding_postAll (peers : List NodeId) (room : st.outstandingSends.toNat + peers.length < 2 ^ 64) :
    (postAll peers st).outstandingSends.toNat = st.outstandingSends.toNat + peers.length := by
  induction peers generalizing st with
  | nil => rfl
  | cons peer peers ih =>
    rw [List.length_cons] at room
    have one : (postSend peer st).outstandingSends.toNat = st.outstandingSends.toNat + 1 := by
      show (st.outstandingSends + 1).toNat = _
      exact toNat_succ (by omega)
    have rest : (postAll peers (postSend peer st)).outstandingSends.toNat = _ := ih (by omega)
    rw [postAll, List.foldl_cons, ← postAll, rest, one, List.length_cons]
    omega

theorem length_inFlight_postAll (peers : List NodeId) (st : SendQueue) :
    (postAll peers st).inFlight.length = st.inFlight.length + peers.length := by
  rw [(inFlight_postAll peers st).1, List.length_append, newRequests, List.length_map, List.length_zipIdx]

theorem length_batchPosts_le (requests : List RemoteWriteRequest) (posted : Nat) :
    (port.batchPosts registers sends requests posted).1.length ≤ requests.length := by
  induction requests generalizing posted with
  | nil => exact le_refl 0
  | cons req requests ih =>
    have same := ih posted
    have next := ih (posted + 1)
    unfold batchPosts
    repeat' split
    all_goals simp only [List.length_nil, List.length_cons]
    all_goals omega

theorem length_oneSidedPosts_le (addr : GlobalAddr) (size : UInt64) :
    (port.oneSidedPosts registers sends addr size).1.length ≤ 1 := by
  unfold oneSidedPosts
  repeat' split
  all_goals simp

theorem length_posts_le (call : RdmaCall) : (port.posts registers sends call).1.length ≤ (PortCall.access call).requests := by
  cases call with
  | read addr size => exact length_oneSidedPosts_le port registers sends addr size
  | write addr buf => exact length_oneSidedPosts_le port registers sends addr buf.size
  | batchWrite requests =>
    show _ ≤ requests.length
    rw [posts]
    split
    · exact Nat.zero_le _
    split
    · exact Nat.zero_le _
    · exact length_batchPosts_le port registers sends requests 0
  | fence =>
    rw [posts]
    split <;> exact le_refl 0

/-- What a call does to the counter. -/
structure CallAccounted (port : RdmaPort) (st : SendQueue) (input : PortCall × Verbs) : Prop where
  covered : Covered (port.portStep st input).2
  bounded : (port.portStep st input).2.outstandingSends.toNat ≤ st.outstandingSends.toNat + input.1.requests
  kept : port.TakesSuccesses st input →
    (port.portStep st input).2.outstandingSends.toNat + st.inFlight.length =
      st.outstandingSends.toNat + (port.portStep st input).2.inFlight.length
  lost : ¬ port.TakesSuccesses st input →
    st.outstandingSends.toNat + (port.portStep st input).2.inFlight.length <
      (port.portStep st input).2.outstandingSends.toNat + st.inFlight.length

/-- A call posts some of its requests and then polls. -/
theorem CallAccounted.of_polling {port : RdmaPort} {input : PortCall × Verbs} {peers : List NodeId} (covered : Covered st)
    (few : peers.length ≤ input.1.requests) (room : st.outstandingSends.toNat + input.1.requests < 2 ^ 64)
    (polling : Covered (postAll peers st) → Accounted (postAll peers st) (port.portStep st input).2 (port.taken st input)) :
    CallAccounted port st input := by
  have count := outstanding_postAll peers (lt_of_le_of_lt (Nat.add_le_add_left few _) room)
  have length := length_inFlight_postAll peers st
  have ready : Covered (postAll peers st) := by
    unfold Covered at covered ⊢
    omega
  have polled := polling ready
  have fewer := polled.fewer
  refine ⟨polled.covered, by omega, fun successes => ?_, fun failed => ?_⟩
  · have := polled.kept successes
    omega
  · have := polled.lost failed
    omega

theorem portStep_accounted (covered : Covered st) (input : PortCall × Verbs)
    (room : st.outstandingSends.toNat + input.1.requests < 2 ^ 64) : CallAccounted port st input := by
  obtain ⟨call | maxCompletions, verbs⟩ := input
  · have few := length_posts_le port verbs.registers verbs.sends call
    rcases posted : port.posts verbs.registers verbs.sends call with ⟨peers, _ | s⟩
    all_goals
      rw [posted] at few
      refine .of_polling covered few room fun ready => ?_
      rw [portStep, step_eq, taken, posted]
    · exact waitForCompletions_accounted port _ verbs.polls ready
    · exact .refl ready
  · have few : ([] : List NodeId).length ≤ (PortCall.pollCompletions maxCompletions).requests := le_refl 0
    refine .of_polling covered few room fun ready => ?_
    have polled := pollCompletions_accounted port maxCompletions.toNat (onlyPoll verbs) ready
    rw [portStep, taken]
    show Accounted st _ _
    change Accounted st (port.pollCompletions maxCompletions.toNat (onlyPoll verbs) st).2 _ at polled
    generalize port.pollCompletions maxCompletions.toNat (onlyPoll verbs) st = r at polled ⊢
    obtain ⟨outcome | count, st'⟩ := r <;> exact polled

/-- Along a run the counter follows the requests in flight exactly as long as no
completion taken has failed, and is too high from then on. -/
theorem run_accounted (covered : Covered st) {calls : List (PortCall × Verbs)}
    (room : st.outstandingSends.toNat + (calls.map fun call => call.1.requests).sum < 2 ^ 64) :
    Covered (run port.portStep st calls).2 ∧
      (Along port.portStep port.TakesSuccesses st calls →
        (run port.portStep st calls).2.outstandingSends.toNat + st.inFlight.length =
          st.outstandingSends.toNat + (run port.portStep st calls).2.inFlight.length) ∧
      (¬ Along port.portStep port.TakesSuccesses st calls →
        st.outstandingSends.toNat + (run port.portStep st calls).2.inFlight.length <
          (run port.portStep st calls).2.outstandingSends.toNat + st.inFlight.length) := by
  induction calls generalizing st with
  | nil => exact ⟨covered, fun _ => rfl, fun failed => absurd trivial failed⟩
  | cons call calls ih =>
    rw [List.map_cons, List.sum_cons] at room
    have first := portStep_accounted port covered call (by omega)
    have bounded := first.bounded
    obtain ⟨last, kept, lost⟩ := ih first.covered (by omega)
    rw [run_cons, along_cons]
    refine ⟨last, fun ⟨here, later⟩ => ?_, fun failed => ?_⟩
    · have := first.kept here
      have := kept later
      simp only
      omega
    · rw [not_and_or] at failed
      simp only
      by_cases later : Along port.portStep port.TakesSuccesses (port.portStep st call).2 calls
      · have := first.lost (failed.resolve_right (not_not_intro later))
        have := kept later
        omega
      · have := lost later
        by_cases here : port.TakesSuccesses st call
        · have := first.kept here
          omega
        · have := first.lost here
          omega

/-! ### Waiting -/

/-- A wait for no more than what is in flight, while it lasts, has something to wait for. -/
theorem waitLoop_waiting {port : RdmaPort} {target completed : Nat} {polls : List Poll}
    (enough : target ≤ completed + st.inFlight.length) (waiting : (port.waitLoop target completed polls st).1 = .waiting) :
    (port.waitLoop target completed polls st).2.inFlight ≠ [] := by
  induction polls generalizing completed st with
  | nil =>
    unfold waitLoop at waiting ⊢
    split at waiting <;> simp at waiting
    rename_i more
    rw [if_pos more]
    apply List.ne_nil_of_length_pos
    simp only
    omega
  | cons poll polls ih =>
    rw [waitLoop] at waiting ⊢
    split at waiting
    · rename_i more
      rw [if_pos more]
      split at waiting
      · rename_i outcome st' stopped
        rcases pollCompletions_error stopped with rfl | rfl | ⟨-, rfl⟩ <;> cases waiting
      · rename_i count st' polled
        obtain ⟨-, -, -, length⟩ := pollCompletions_ok polled
        split at waiting
        · rename_i none
          simp only [if_pos none]
          exact ih (by omega) waiting
        · rename_i some
          simp only [if_neg some]
          exact ih (by omega) waiting
    · simp at waiting

theorem fence_waiting {port : RdmaPort} {verbs : Verbs} (accurate : st.outstandingSends.toNat = st.inFlight.length)
    (waiting : (port.fence verbs st).1 = .waiting) : (port.fence verbs st).2.inFlight ≠ [] := by
  unfold fence waitForCompletions at waiting ⊢
  split at waiting
  · simp at waiting
  rename_i ready
  rw [if_neg ready]
  split at waiting
  · simp at waiting
  rename_i some
  rw [if_neg some]
  exact waitLoop_waiting (by omega) waiting

/-- After any calls with fewer than 2^64 requests in all, `outstanding_sends_` is the
number of requests in flight exactly when no completion taken so far was an error; and
then a `Fence` that has not returned is waiting for a request still in flight. -/
theorem outstanding_exact_iff (port : RdmaPort) {calls : List (PortCall × Verbs)}
    (room : (calls.map fun call => call.1.requests).sum < 2 ^ 64) :
    ((port.afterCalls calls).outstandingSends.toNat = (port.afterCalls calls).inFlight.length ↔
      Along port.portStep port.TakesSuccesses {} calls) ∧
    (Along port.portStep port.TakesSuccesses {} calls →
      ∀ verbs, (port.fence verbs (port.afterCalls calls)).1 = .waiting →
        (port.fence verbs (port.afterCalls calls)).2.inFlight ≠ []) := by
  have start : Covered {} := le_refl 0
  have zero : ({} : SendQueue).outstandingSends.toNat = 0 := rfl
  have none : ({} : SendQueue).inFlight.length = 0 := rfl
  obtain ⟨-, kept, lost⟩ := run_accounted port start (show _ + _ < _ by rw [zero, Nat.zero_add]; exact room)
  rw [zero, none, Nat.zero_add, Nat.add_zero] at kept lost
  have accurate : (port.afterCalls calls).outstandingSends.toNat = (port.afterCalls calls).inFlight.length ↔
      Along port.portStep port.TakesSuccesses {} calls := by
    refine ⟨fun same => ?_, kept⟩
    by_contra failed
    exact absurd same (lost failed).ne'
  exact ⟨accurate, fun successes verbs waiting => fence_waiting (accurate.mpr successes) waiting⟩

/-! ### An error that is never subtracted -/

/-- With nothing in flight a wait goes on for as long as the queue is polled. -/
theorem waitLoop_stuck {port : RdmaPort} (ready : port.initialized = true) (idle : st.inFlight = []) {target : Nat}
    (positive : 0 < target) (small : target < 2 ^ 31) (picks : List (List (Nat × Bool))) :
    port.waitLoop target 0 (picks.map .completed) st = (.waiting, st) := by
  have limit : pollLimit target = some target := by
    have same : max 1 target % 2 ^ 32 = target := by
      rw [Nat.max_eq_right positive]
      omega
    simp only [pollLimit, same, if_pos small]
  have nothing (pick : List (Nat × Bool)) : handOut target pick [] = ([], []) := by
    have length := handOut_length target pick []
    rw [List.length_nil] at length
    exact Prod.ext (List.eq_nil_of_length_eq_zero (Nat.eq_zero_of_add_eq_zero_right length))
      (List.eq_nil_of_length_eq_zero (Nat.eq_zero_of_add_eq_zero_left length))
  have poll (pick : List (Nat × Bool)) : port.pollCompletions target (.completed pick) st = (.ok 0, st) := by
    obtain ⟨outstanding, inFlight, posted⟩ := st
    obtain rfl : inFlight = [] := idle
    unfold pollCompletions
    rw [if_neg (by simp [ready]), limit]
    simp [nothing]
  induction picks with
  | nil => rw [List.map_nil, waitLoop, if_pos positive]
  | cons pick picks ih =>
    rw [List.map_cons, waitLoop, if_pos positive, Nat.sub_zero, poll]
    exact ih

end RdmaPort

/-- A write whose only request fails. -/
def failedWrite : PortCall × Verbs :=
  (.access (.write { homeNode := 1 } (Bytes.ofList [7])), { polls := [.completed [(0, false)]] })

/-- The failed write reports its error and leaves nothing in flight, but stays counted:
`Fence` waits for it as long as the completion queue is polled. -/
theorem failedWrite_outstanding :
    (twoPeers.portStep {} failedWrite).1 = .returned .kInternalError ∧
    (twoPeers.afterCalls [failedWrite]).inFlight = [] ∧
    (twoPeers.afterCalls [failedWrite]).outstandingSends = 1 ∧
    ∀ picks : List (List (Nat × Bool)),
      (twoPeers.fence { polls := picks.map .completed } (twoPeers.afterCalls [failedWrite])).1 = .waiting := by
  have idle : (twoPeers.afterCalls [failedWrite]).inFlight = [] := by decide +kernel
  have count : (twoPeers.afterCalls [failedWrite]).outstandingSends = 1 := by decide +kernel
  refine ⟨by decide +kernel, idle, count, fun picks => ?_⟩
  have stuck := RdmaPort.waitLoop_stuck (show twoPeers.initialized = true from rfl) idle (show 0 < 1 by decide) (by decide) picks
  have one : (1 : UInt64).toNat = 1 := rfl
  rw [RdmaPort.fence, if_neg (by decide), RdmaPort.waitForCompletions, count, one, if_neg (by decide), stuck]

/-- A batch that breaks off after one request, a poll that takes its completion, and a
write. -/
def recoveredCalls : List (PortCall × Verbs) :=
  [(.access brokenBatch.1, brokenBatch.2),
   (.pollCompletions 8, { polls := [.completed [(0, true)]] }),
   (.access (plainWrite 2).1, (plainWrite 2).2)]

theorem recoveredCalls_exact :
    (recoveredCalls.map fun call => call.1.requests).sum < 2 ^ 64 ∧
    Along twoPeers.portStep twoPeers.TakesSuccesses {} recoveredCalls ∧
    (twoPeers.afterCalls recoveredCalls).outstandingSends.toNat = (twoPeers.afterCalls recoveredCalls).inFlight.length := by
  have room : (recoveredCalls.map fun call => call.1.requests).sum < 2 ^ 64 := by decide +kernel
  have successes : Along twoPeers.portStep twoPeers.TakesSuccesses {} recoveredCalls := by
    refine ⟨?_, ?_, ?_, trivial⟩ <;> (show ∀ success ∈ _, success = true; decide +kernel)
  exact ⟨room, successes, (RdmaPort.outstanding_exact_iff twoPeers room).1.mpr successes⟩

end LeoMem
