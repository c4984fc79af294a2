import LeoMem.Control.Pass
import LeoMem.Lib.Run

/-!
# The retry schedule of control requests

`AdvanceControlAckTimeouts` keeps two counters for each pending request: the polls left
before its next retry and the retries left. They are a function of one number, how
often the request has been advanced since it was tracked (`entryAt`), so the retries
fall on the multiples of the timeout and the time-out follows the last of them.
-/

namespace LeoMem
open Lib

/-! ## The counters as a function of the advances so far -/

section Counters
variable (cfg : Config)

/-- The advances between two retries: the timeout's polls and the one that sends again. -/
def retryPeriod : Nat := cfg.controlAckTimeoutPolls.toNat + 1

/-- The advances of a request's whole life. -/
def lastAdvance : Nat := (cfg.controlAckMaxRetries.toNat + 1) * retryPeriod cfg

/-- The entry of a request that has been advanced `n` times since it was tracked. -/
def entryAt (m : ControlMessage) (n : Nat) : PendingControlAck where
  message := m
  pollsRemaining := .ofNat (cfg.controlAckTimeoutPolls.toNat - n % retryPeriod cfg)
  retriesRemaining := .ofNat (cfg.controlAckMaxRetries.toNat - n / retryPeriod cfg)

variable {cfg} {m : ControlMessage} {n : Nat}

theorem toNat_polls (cfg : Config) (n : Nat) :
    (entryAt cfg m n).pollsRemaining.toNat = cfg.controlAckTimeoutPolls.toNat - n % retryPeriod cfg :=
  UInt64.toNat_ofNat_of_lt' (Nat.lt_of_le_of_lt (Nat.sub_le _ _) cfg.controlAckTimeoutPolls.toNat_lt)

theorem toNat_retries (cfg : Config) (n : Nat) :
    (entryAt cfg m n).retriesRemaining.toNat = cfg.controlAckMaxRetries.toNat - n / retryPeriod cfg :=
  UInt64.toNat_ofNat_of_lt' (Nat.lt_of_le_of_lt (Nat.sub_le _ _) cfg.controlAckMaxRetries.toNat_lt)

theorem entryAt_zero : entryAt cfg m 0 = ⟨m, cfg.controlAckTimeoutPolls, cfg.controlAckMaxRetries⟩ := by
  simp [entryAt]

theorem retryPeriod_pos (cfg : Config) : 0 < retryPeriod cfg := Nat.succ_pos _

/-- The next advance is one of the same period, or the first of the next. -/
theorem next_advance (cfg : Config) (n : Nat) :
    (n % retryPeriod cfg < cfg.controlAckTimeoutPolls.toNat ∧ (n + 1) % retryPeriod cfg = n % retryPeriod cfg + 1 ∧
        (n + 1) / retryPeriod cfg = n / retryPeriod cfg) ∨
      (n % retryPeriod cfg = cfg.controlAckTimeoutPolls.toNat ∧ (n + 1) % retryPeriod cfg = 0 ∧
        (n + 1) / retryPeriod cfg = n / retryPeriod cfg + 1) := by
  have small := Nat.mod_lt n (retryPeriod_pos cfg)
  have split := Nat.div_add_mod n (retryPeriod cfg)
  by_cases inside : n % retryPeriod cfg < cfg.controlAckTimeoutPolls.toNat
  · have next : n + 1 = retryPeriod cfg * (n / retryPeriod cfg) + (n % retryPeriod cfg + 1) := by omega
    have fits : n % retryPeriod cfg + 1 < retryPeriod cfg := Nat.succ_lt_succ inside
    refine .inl ⟨inside, ?_, ?_⟩
    · rw [next, Nat.mul_add_mod, Nat.mod_eq_of_lt fits]
    · rw [next, Nat.mul_add_div (retryPeriod_pos cfg), Nat.div_eq_of_lt fits]
      rfl
  · have ends : n % retryPeriod cfg = cfg.controlAckTimeoutPolls.toNat := by
      unfold retryPeriod at small inside ⊢
      omega
    have next : n + 1 = retryPeriod cfg * (n / retryPeriod cfg + 1) := by
      have period : retryPeriod cfg = n % retryPeriod cfg + 1 := by
        rw [ends]
        rfl
      rw [Nat.mul_add]
      omega
    refine .inr ⟨ends, ?_, ?_⟩
    · rw [next, Nat.mul_mod_right]
    · rw [next, Nat.mul_div_cancel_left _ (retryPeriod_pos cfg)]

/-- The polls run out at the multiples of the period. -/
theorem due_entryAt : (entryAt cfg m n).due = true ↔ (n + 1) % retryPeriod cfg = 0 := by
  rw [PendingControlAck.due, decide_eq_true_iff, ← UInt64.toNat_inj, toNat_polls, UInt64.toNat_zero]
  rcases next_advance cfg n with ⟨inside, next, -⟩ | ⟨ends, next, -⟩
  · omega
  · omega

theorem expired_entryAt (alive : n < lastAdvance cfg) :
    (entryAt cfg m n).expired = true ↔ n + 1 = lastAdvance cfg := by
  have round : n / retryPeriod cfg < cfg.controlAckMaxRetries.toNat + 1 := (Nat.div_lt_iff_lt_mul (retryPeriod_pos cfg)).mpr alive
  rw [PendingControlAck.expired, Bool.and_eq_true, due_entryAt, decide_eq_true_iff, ← UInt64.toNat_inj, toNat_retries,
    UInt64.toNat_zero]
  constructor
  · rintro ⟨due, last⟩
    rcases next_advance cfg n with ⟨-, next, -⟩ | ⟨-, -, next⟩
    · omega
    · have whole := Nat.div_mul_cancel (Nat.dvd_of_mod_eq_zero due)
      rw [← whole, next, lastAdvance]
      congr 1
      omega
  · intro final
    have whole : (n + 1) / retryPeriod cfg = cfg.controlAckMaxRetries.toNat + 1 := by
      rw [final, lastAdvance, Nat.mul_div_cancel _ (retryPeriod_pos cfg)]
    refine ⟨by rw [final, lastAdvance, Nat.mul_mod_left], ?_⟩
    rcases next_advance cfg n with ⟨-, -, next⟩ | ⟨-, -, next⟩
    · omega
    · omega

theorem tick_entryAt (alive : n + 1 < lastAdvance cfg) : (entryAt cfg m n).tick cfg = entryAt cfg m (n + 1) := by
  have round : (n + 1) / retryPeriod cfg < cfg.controlAckMaxRetries.toNat + 1 :=
    (Nat.div_lt_iff_lt_mul (retryPeriod_pos cfg)).mpr alive
  have polls := toNat_polls (m := m) cfg n
  have retries := toNat_retries (m := m) cfg n
  unfold PendingControlAck.tick
  rcases next_advance cfg n with ⟨inside, rest, same⟩ | ⟨ends, rest, next⟩
  · have waits : (entryAt cfg m n).pollsRemaining > 0 := by
      rw [gt_iff_lt, UInt64.lt_iff_toNat_lt, polls, UInt64.toNat_zero]
      omega
    have fewer : (entryAt cfg m n).pollsRemaining - 1 = (entryAt cfg m (n + 1)).pollsRemaining := by
      rw [← UInt64.toNat_inj, UInt64.toNat_sub_of_le _ _ (by rw [UInt64.le_iff_toNat_le, polls, UInt64.toNat_one]; omega),
        polls, toNat_polls, UInt64.toNat_one, rest]
      omega
    rw [if_pos waits, fewer]
    simp only [entryAt, same]
  · have waited : ¬(entryAt cfg m n).pollsRemaining > 0 := by
      rw [gt_iff_lt, UInt64.lt_iff_toNat_lt, polls, UInt64.toNat_zero]
      omega
    have fewer : (entryAt cfg m n).retriesRemaining - 1 = (entryAt cfg m (n + 1)).retriesRemaining := by
      rw [← UInt64.toNat_inj, UInt64.toNat_sub_of_le _ _ (by rw [UInt64.le_iff_toNat_le, retries, UInt64.toNat_one]; omega),
        retries, toNat_retries, UInt64.toNat_one, next]
      omega
    have fresh : (entryAt cfg m (n + 1)).pollsRemaining = cfg.controlAckTimeoutPolls := by
      rw [← UInt64.toNat_inj, toNat_polls, rest, Nat.sub_zero]
    rw [if_neg waited, fewer, ← fresh]
    rfl

end Counters

/-! ## Every interleaving of the three calls -/

/-- A call on the pending requests; each pass may meet them in an order of its own. -/
inductive AckCall where
  | track (message : ControlMessage)
  | complete (requestId : UInt64)
  | advance (ord : IterOrder)

/-- What a call returns. -/
inductive AckAnswer where
  | done
  | advanced (s : Status) (retries : List ControlMessage)

/-- One call on the pending requests. -/
def ackStep (cfg : Config) (acks : PendingControlAcks) : AckCall → AckAnswer × PendingControlAcks
  | .track message => (.done, acks.track cfg message)
  | .complete requestId => (.done, acks.complete requestId)
  | .advance ord =>
    let (s, retries, acks) := acks.advance ord cfg
    (.advanced s retries, acks)

/-- The pending requests by their ids, each with the advances since it was tracked. -/
abbrev Schedule := UInt64 → Option (ControlMessage × Nat)

/-- What one call does to the count of advances. -/
def Schedule.step (pending : Schedule) : AckCall → Schedule
  | .track message =>
    if message.requestId = 0 then pending else Function.update pending message.requestId (some (message, 0))
  | .complete requestId => Function.update pending requestId none
  | .advance _ => fun id => (pending id).map fun request => (request.1, request.2 + 1)

/-- The requests that are pending after `calls`. -/
def schedule (calls : List AckCall) : Schedule := calls.foldl Schedule.step fun _ => none

/-- The next advance is the last one of some pending request. -/
def Schedule.LastFor (cfg : Config) (pending : Schedule) : Prop :=
  ∃ id m n, pending id = some (m, n) ∧ n + 1 = lastAdvance cfg

/-- `m` is pending, and the next advance ends one of its first `control_ack_max_retries` periods. -/
def Schedule.RetryFor (cfg : Config) (pending : Schedule) (m : ControlMessage) : Prop :=
  ∃ n k, pending m.requestId = some (m, n) ∧ 1 ≤ k ∧ k ≤ cfg.controlAckMaxRetries.toNat ∧ n + 1 = k * retryPeriod cfg

/-- The code's map holds what the counts say, and no count is past its last advance. -/
structure OnSchedule (cfg : Config) (pending : Schedule) (acks : PendingControlAcks) : Prop where
  entries : ∀ id, acks.lookup id = (pending id).map fun request => entryAt cfg request.1 request.2
  named : ∀ id m n, pending id = some (m, n) → m.requestId = id ∧ id ≠ 0
  alive : ∀ id m n, pending id = some (m, n) → n < lastAdvance cfg

namespace OnSchedule
variable {cfg : Config} {pending : Schedule} {acks : PendingControlAcks}

theorem start (cfg : Config) : OnSchedule cfg (schedule []) ∅ where
  entries _ := AList.lookup_empty _
  named _ _ _ none := nomatch none
  alive _ _ _ none := nomatch none

theorem lookup_some_iff (held : OnSchedule cfg pending acks) {id : UInt64} {e : PendingControlAck} :
    acks.lookup id = some e ↔ ∃ m n, pending id = some (m, n) ∧ e = entryAt cfg m n := by
  rw [held.entries, Option.map_eq_some_iff]
  constructor
  · rintro ⟨⟨m, n⟩, found, rfl⟩
    exact ⟨m, n, found, rfl⟩
  · rintro ⟨m, n, found, rfl⟩
    exact ⟨(m, n), found, rfl⟩

theorem timedOut_iff (held : OnSchedule cfg pending acks) (ord : IterOrder) :
    (acks.advance ord cfg).1 = .kTimedOut ↔ pending.LastFor cfg := by
  rw [PendingControlAcks.advance_timedOut_iff]
  constructor
  · rintro ⟨id, e, found, expired⟩
    obtain ⟨m, n, tracked, rfl⟩ := held.lookup_some_iff.mp found
    exact ⟨id, m, n, tracked, (expired_entryAt (held.alive id m n tracked)).mp expired⟩
  · rintro ⟨id, m, n, tracked, last⟩
    exact ⟨id, entryAt cfg m n, held.lookup_some_iff.mpr ⟨m, n, tracked, rfl⟩,
      (expired_entryAt (held.alive id m n tracked)).mpr last⟩

theorem none_expired (held : OnSchedule cfg pending acks) (goes : ¬pending.LastFor cfg) (id : UInt64) (e : PendingControlAck)
    (found : acks.lookup id = some e) : e.expired = false := by
  obtain ⟨m, n, tracked, rfl⟩ := held.lookup_some_iff.mp found
  refine Bool.eq_false_iff.mpr fun expired => goes ⟨id, m, n, tracked, ?_⟩
  exact (expired_entryAt (held.alive id m n tracked)).mp expired

theorem track (held : OnSchedule cfg pending acks) (message : ControlMessage) :
    OnSchedule cfg (pending.step (.track message)) (acks.track cfg message) := by
  unfold Schedule.step PendingControlAcks.track
  by_cases zero : message.requestId = 0
  · simpa only [if_pos zero] using held
  · simp only [if_neg zero]
    refine ⟨fun id => ?_, fun id m n found => ?_, fun id m n found => ?_⟩
    · rw [HashMap.lookup_insert_if, Function.update_apply, apply_ite (Option.map _), held.entries, Option.map_some,
        entryAt_zero]
    · rw [Function.update_apply] at found
      split at found
      · cases found
        rename_i same
        exact ⟨same.symm, same ▸ zero⟩
      · exact held.named id m n found
    · rw [Function.update_apply] at found
      split at found
      · cases found
        exact Nat.mul_pos (Nat.succ_pos _) (retryPeriod_pos cfg)
      · exact held.alive id m n found

theorem complete (held : OnSchedule cfg pending acks) (requestId : UInt64) :
    OnSchedule cfg (pending.step (.complete requestId)) (acks.complete requestId) := by
  have still : ∀ {id m n}, pending.step (.complete requestId) id = some (m, n) → pending id = some (m, n) := by
    intro id m n found
    simp only [Schedule.step, Function.update_apply] at found
    split at found
    · cases found
    · exact found
  refine ⟨fun id => ?_, fun id m n found => held.named id m n (still found), fun id m n found => held.alive id m n (still found)⟩
  rw [PendingControlAcks.lookup_complete, held.entries, Schedule.step, Function.update_apply]
  -- id 0 is never tracked, so completing it does nothing on either side
  by_cases same : id = requestId
  · by_cases zero : requestId = 0
    · have absent : pending id = none :=
        Option.eq_none_iff_forall_ne_some.mpr fun request found => (held.named id _ _ found).2 (same.trans zero)
      rw [if_pos same, absent]
      simp
    · rw [if_pos ⟨same, zero⟩, if_pos same]
      rfl
  · rw [if_neg fun both => same both.1, if_neg same]

theorem advance (held : OnSchedule cfg pending acks) (ord : IterOrder) (goes : ¬pending.LastFor cfg) :
    OnSchedule cfg (pending.step (.advance ord)) (acks.advance ord cfg).2.2 := by
  have before : ∀ {id m n}, pending.step (.advance ord) id = some (m, n) →
      ∃ k, pending id = some (m, k) ∧ n = k + 1 ∧ k + 1 < lastAdvance cfg := by
    intro id m n found
    obtain ⟨⟨pendingMessage, k⟩, tracked, same⟩ := Option.map_eq_some_iff.mp found
    obtain ⟨rfl, rfl⟩ := Prod.mk.inj same
    have alive := held.alive id pendingMessage k tracked
    have notLast : k + 1 ≠ lastAdvance cfg := fun last => goes ⟨id, pendingMessage, k, tracked, last⟩
    exact ⟨k, tracked, rfl, by omega⟩
  refine ⟨fun id => ?_, fun id m n found => ?_, fun id m n found => ?_⟩
  · rw [PendingControlAcks.lookup_advance_all ord cfg (held.none_expired goes), held.entries]
    rcases tracked : pending id with _ | ⟨m, n⟩
    · simp [Schedule.step, tracked]
    · have next : pending.step (.advance ord) id = some (m, n + 1) := by simp [Schedule.step, tracked]
      obtain ⟨k, -, counted, alive⟩ := before next
      cases counted
      rw [next, Option.map_some, Option.map_some, Option.map_some, tick_entryAt alive]
  · obtain ⟨k, tracked, -⟩ := before found
    exact held.named id m k tracked
  · obtain ⟨k, -, rfl, alive⟩ := before found
    exact alive

/-! ### The messages to send again -/

theorem requestIds (held : OnSchedule cfg pending acks) : acks.Each fun id m => m.requestId = id := by
  intro id e found
  obtain ⟨m, n, tracked, rfl⟩ := held.lookup_some_iff.mp found
  exact (held.named id m n tracked).1

theorem nodup_retries (held : OnSchedule cfg pending acks) (ord : IterOrder) : (acks.advance ord cfg).2.1.Nodup := by
  rw [PendingControlAcks.advance_eq]
  exact PendingControlAcks.nodup_retriesOf ord held.requestIds

/-- An advance that ends a period of a request that goes on ends one of its retry periods. -/
theorem retryFor_iff (held : OnSchedule cfg pending acks) (goes : ¬pending.LastFor cfg) (m : ControlMessage) :
    pending.RetryFor cfg m ↔ ∃ n, pending m.requestId = some (m, n) ∧ (n + 1) % retryPeriod cfg = 0 := by
  constructor
  · rintro ⟨n, k, tracked, -, -, multiple⟩
    exact ⟨n, tracked, by rw [multiple, Nat.mul_mod_left]⟩
  · rintro ⟨n, tracked, ends⟩
    have whole : (n + 1) / retryPeriod cfg * retryPeriod cfg = n + 1 := Nat.div_mul_cancel (Nat.dvd_of_mod_eq_zero ends)
    have alive := held.alive _ m n tracked
    have notLast : n + 1 ≠ lastAdvance cfg := fun last => goes ⟨_, m, n, tracked, last⟩
    have fewer : (n + 1) / retryPeriod cfg < cfg.controlAckMaxRetries.toNat + 1 := by
      rw [Nat.div_lt_iff_lt_mul (retryPeriod_pos cfg)]
      change n + 1 < lastAdvance cfg
      omega
    refine ⟨n, (n + 1) / retryPeriod cfg, tracked, ?_, Nat.le_of_lt_succ fewer, whole.symm⟩
    refine Nat.one_le_iff_ne_zero.mpr fun zero => ?_
    rw [zero, Nat.zero_mul] at whole
    omega

theorem mem_retries (held : OnSchedule cfg pending acks) (ord : IterOrder) (goes : ¬pending.LastFor cfg) (m : ControlMessage) :
    m ∈ (acks.advance ord cfg).2.1 ↔ pending.RetryFor cfg m := by
  rw [PendingControlAcks.advance_eq, held.retryFor_iff goes, PendingControlAcks.mem_retriesOf,
    PendingControlAcks.passed_arrange ord (held.none_expired goes)]
  constructor
  · rintro ⟨⟨id, e⟩, member, due, rfl⟩
    have found := HashMap.lookup_of_mem_arrange member
    have named := held.requestIds id e found
    obtain ⟨m, n, tracked, rfl⟩ := held.lookup_some_iff.mp found
    exact ⟨n, named.symm ▸ tracked, due_entryAt.mp due⟩
  · rintro ⟨n, tracked, ends⟩
    have found := held.lookup_some_iff.mpr ⟨m, n, tracked, rfl⟩
    exact ⟨_, PendingControlAcks.mem_arrange_of_lookup ord found, due_entryAt.mpr ends, rfl⟩

end OnSchedule

/-! ### Whole runs -/

/-- Some call of `calls` returned `kTimedOut`. -/
def TimedOut (cfg : Config) (acks : PendingControlAcks) (calls : List AckCall) : Prop :=
  ∃ retries, .advanced .kTimedOut retries ∈ (run (ackStep cfg) acks calls).1

/-- Some advance of `calls` is the last one of a request pending then. -/
def Schedule.PassesLast (cfg : Config) (pending : Schedule) (calls : List AckCall) : Prop :=
  ∃ before ord after, calls = before ++ .advance ord :: after ∧ (before.foldl Schedule.step pending).LastFor cfg

section Runs
variable {cfg : Config} {pending : Schedule} {acks : PendingControlAcks}

theorem timedOut_cons (call : AckCall) (calls : List AckCall) :
    TimedOut cfg acks (call :: calls) ↔
      (∃ retries, (ackStep cfg acks call).1 = .advanced .kTimedOut retries) ∨ TimedOut cfg (ackStep cfg acks call).2 calls := by
  unfold TimedOut
  simp only [run_cons, List.mem_cons, exists_or, eq_comm]

theorem not_passesLast_nil : ¬pending.PassesLast cfg [] := by
  rintro ⟨before, ord, after, split, -⟩
  simp at split

theorem passesLast_cons (call : AckCall) (calls : List AckCall) :
    pending.PassesLast cfg (call :: calls) ↔
      (∃ ord, call = .advance ord ∧ pending.LastFor cfg) ∨ (pending.step call).PassesLast cfg calls := by
  constructor
  · rintro ⟨_ | ⟨first, before⟩, ord, after, split, last⟩
    · cases split
      exact .inl ⟨ord, rfl, last⟩
    · cases split
      exact .inr ⟨before, ord, after, rfl, last⟩
  · rintro (⟨ord, rfl, last⟩ | ⟨before, ord, after, rfl, last⟩)
    · exact ⟨[], ord, calls, rfl, last⟩
    · exact ⟨call :: before, ord, after, rfl, last⟩

/-- One call: it times out where it is some request's last advance, and otherwise the map stays on its schedule. -/
theorem OnSchedule.step (held : OnSchedule cfg pending acks) (call : AckCall) :
    ((∃ retries, (ackStep cfg acks call).1 = .advanced .kTimedOut retries) ↔ ∃ ord, call = .advance ord ∧ pending.LastFor cfg) ∧
      ((¬∃ ord, call = .advance ord ∧ pending.LastFor cfg) → OnSchedule cfg (pending.step call) (ackStep cfg acks call).2) := by
  cases call with
  | track message => exact ⟨by simp [ackStep], fun _ => held.track message⟩
  | complete requestId => exact ⟨by simp [ackStep], fun _ => held.complete requestId⟩
  | advance ord =>
    refine ⟨?_, fun goes => held.advance ord fun last => goes ⟨ord, rfl, last⟩⟩
    simp [ackStep, held.timedOut_iff]

/-- **A run**: the first time-out comes with the first last advance, and up to there the map is on its schedule. -/
theorem OnSchedule.run (held : OnSchedule cfg pending acks) (calls : List AckCall) :
    (TimedOut cfg acks calls ↔ pending.PassesLast cfg calls) ∧
      (¬pending.PassesLast cfg calls →
        OnSchedule cfg (calls.foldl Schedule.step pending) (Lib.run (ackStep cfg) acks calls).2) := by
  induction calls generalizing pending acks with
  | nil => exact ⟨by simp [TimedOut, not_passesLast_nil], fun _ => held⟩
  | cons call calls ih =>
    obtain ⟨answer, keeps⟩ := held.step call
    rw [timedOut_cons, passesLast_cons, answer]
    by_cases last : ∃ ord, call = .advance ord ∧ pending.LastFor cfg
    · exact ⟨by simp only [last, true_or], fun never => absurd (.inl last) never⟩
    · obtain ⟨rest, kept⟩ := ih (keeps last)
      refine ⟨or_congr_right rest, fun never => ?_⟩
      rw [run_cons]
      exact kept fun passes => never (.inr passes)

theorem passesLast_concat (calls : List AckCall) (ord : IterOrder) :
    pending.PassesLast cfg (calls ++ [.advance ord]) ↔
      pending.PassesLast cfg calls ∨ (calls.foldl Schedule.step pending).LastFor cfg := by
  induction calls generalizing pending with
  | nil => simp [passesLast_cons, not_passesLast_nil]
  | cons call calls ih => rw [List.cons_append, passesLast_cons, passesLast_cons, ih, List.foldl_cons, or_assoc]

end Runs

/-- **The retry schedule.** For every interleaving of the three calls, the pending map met in any order
at each pass: the first time-out is the first advance that is number `(R + 1) (T + 1)` of a request
still pending, and an advance before it sends again, once each, exactly the pending requests for
which it is number `k (T + 1)` with `1 ≤ k ≤ R`. -/
theorem retries_on_schedule (cfg : Config) (before : List AckCall) (ord : IterOrder) :
    (¬TimedOut cfg ∅ before ∧ TimedOut cfg ∅ (before ++ [.advance ord]) ↔
        (schedule before).LastFor cfg ∧
          ∀ earlier other rest, before = earlier ++ .advance other :: rest → ¬(schedule earlier).LastFor cfg) ∧
      (¬TimedOut cfg ∅ (before ++ [.advance ord]) →
        ∀ m, ((schedule before).RetryFor cfg m → ((run (ackStep cfg) ∅ before).2.advance ord cfg).2.1.count m = 1) ∧
          (¬(schedule before).RetryFor cfg m → ((run (ackStep cfg) ∅ before).2.advance ord cfg).2.1.count m = 0)) := by
  have held := OnSchedule.start cfg
  obtain ⟨first, kept⟩ := held.run before
  obtain ⟨now, -⟩ := held.run (before ++ [AckCall.advance ord])
  rw [first, now, passesLast_concat]
  have none : (∀ earlier other rest, before = earlier ++ .advance other :: rest → ¬(schedule earlier).LastFor cfg) ↔
      ¬(schedule []).PassesLast cfg before :=
    ⟨fun never ⟨earlier, other, rest, split, last⟩ => never earlier other rest split last,
      fun never earlier other rest split last => never ⟨earlier, other, rest, split, last⟩⟩
  refine ⟨?_, fun quiet m => ?_⟩
  · rw [none]
    constructor
    · rintro ⟨never, passed | last⟩
      · exact absurd passed never
      · exact ⟨last, never⟩
    · rintro ⟨last, never⟩
      exact ⟨never, .inr last⟩
  · obtain ⟨never, goes⟩ := not_or.mp quiet
    have onTime := kept never
    have once := onTime.nodup_retries ord
    have members := onTime.mem_retries ord goes m
    refine ⟨fun retried => ?_, fun waits => ?_⟩
    · exact List.count_eq_one_of_mem once (members.mpr retried)
    · exact List.count_eq_zero_of_not_mem fun member => waits (members.mp member)

end LeoMem
