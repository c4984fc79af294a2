import LeoMem.Threads.Model

/-!
# Calls and returns of the threads

A history has the calls and returns of a run in order. `Booked` says how it fits the threads:
every call has a number of its own, a write that was called has returned or is in some
thread's hands, and the writes are stored in an order that no return before a call
contradicts.
-/

namespace LeoMem
open Lib

def ThreadEvent.number : ThreadEvent → Nat
  | .writeCalled call _ => call
  | .fenceCalled call => call
  | .returned call _ => call

/-- The calls and returns of a run, in order. -/
def callHistory (events : List (ThreadInput × Option ThreadEvent)) : List ThreadEvent := events.filterMap Prod.snd

theorem callHistory_snoc (events : List (ThreadInput × Option ThreadEvent)) (input : ThreadInput)
    (event : Option ThreadEvent) : callHistory (events ++ [(input, event)]) = callHistory events ++ event.toList := by
  cases event <;> simp [callHistory]

/-- `v` returned before `lm_write` was called for `w`. -/
def Precedes (history : List ThreadEvent) (v w : Nat) : Prop :=
  ∃ before after, history = before ++ after ∧ (∃ status, .returned v status ∈ before) ∧ ∃ buf, .writeCalled w buf ∈ after

namespace Threads

/-- All calls have returned `kOk` and no write is pending. -/
structure Done (history : List ThreadEvent) (s : Threads) : Prop where
  idle : ∀ thread, s.stage thread = .idle
  ok : ∀ call status, .returned call status ∈ history → status = .kOk
  empty : ∀ node, s.queues.of node = []

end Threads

variable {history : List ThreadEvent}

/-- Only the last event is new. -/
theorem mem_of_mem_snoc {event last : ThreadEvent} (member : event ∈ history ++ [last]) (ne : last ≠ event) :
    event ∈ history := by
  rcases List.mem_append.mp member with before | now
  · exact before
  · exact absurd (List.mem_singleton.mp now).symm ne

theorem precedes_snoc {event : ThreadEvent} {v w : Nat} (precedes : Precedes (history ++ [event]) v w) :
    Precedes history v w ∨ ((∃ status, .returned v status ∈ history) ∧ ∃ buf, event = .writeCalled w buf) := by
  obtain ⟨before, after, split, ⟨status, returned⟩, buf, called⟩ := precedes
  rcases List.eq_nil_or_concat after with rfl | ⟨front, last, rfl⟩
  · cases called
  · rw [List.concat_eq_append, ← List.append_assoc] at split
    obtain ⟨rfl, same⟩ := List.append_inj' split rfl
    cases same
    rw [List.concat_eq_append, List.mem_append, List.mem_singleton] at called
    rcases called with early | now
    · exact Or.inl ⟨before, front, rfl, ⟨status, returned⟩, buf, early⟩
    · exact Or.inr ⟨⟨status, List.mem_append_left _ returned⟩, buf, now.symm⟩

/-- A return makes nothing precede. -/
theorem precedes_of_returned {call v w : Nat} {status : Status}
    (precedes : Precedes (history ++ [.returned call status]) v w) : Precedes history v w := by
  rcases precedes_snoc precedes with old | ⟨-, buf, event⟩
  · exact old
  · cases event

theorem Precedes.returned {v w : Nat} (precedes : Precedes history v w) : ∃ status, .returned v status ∈ history := by
  obtain ⟨before, after, rfl, ⟨status, member⟩, -⟩ := precedes
  exact ⟨status, List.mem_append_left _ member⟩

theorem Precedes.called {v w : Nat} (precedes : Precedes history v w) : ∃ buf, .writeCalled w buf ∈ history := by
  obtain ⟨before, after, rfl, -, buf, member⟩ := precedes
  exact ⟨buf, List.mem_append_right _ member⟩

/-- What is known of a thread's call from the stage it is in. `order` has the calls whose
writes are stored, in that order. -/
def StageBooked (size : UInt64) (history : List ThreadEvent) (order : List Nat) (call : Nat) : Stage → Prop
  | .idle => True
  | .opening buf => .writeCalled call buf ∈ history ∧ call ∉ order ∧ buf.size = size
  | .storing buf _ => .writeCalled call buf ∈ history ∧ call ∉ order ∧ buf.size = size ∧ buf.size ≠ 0
  | .returning status => status = .kOk → (∃ buf, .writeCalled call buf ∈ history) → call ∈ order
  | _ => (∃ buf, .writeCalled call buf ∈ history) → call ∈ order

/-- An event that is no write of the call changes nothing for its stage. -/
theorem StageBooked.snoc {size : UInt64} {order : List Nat} {call : Nat} {stage : Stage}
    (booked : StageBooked size history order call stage) {event : ThreadEvent}
    (other : ∀ buf, event ≠ .writeCalled call buf) : StageBooked size (history ++ [event]) order call stage := by
  have old : ∀ {buf}, .writeCalled call buf ∈ history ++ [event] → .writeCalled call buf ∈ history :=
    fun member => mem_of_mem_snoc member (other _)
  cases stage with
  | idle => trivial
  | opening buf => exact ⟨List.mem_append_left _ booked.1, booked.2⟩
  | storing buf choice => exact ⟨List.mem_append_left _ booked.1, booked.2⟩
  | returning status => exact fun ok ⟨buf, member⟩ => booked ok ⟨buf, old member⟩
  | _ => exact fun ⟨buf, member⟩ => booked ⟨buf, old member⟩

/-- The history, the order of the stores and the threads fit together. -/
structure Booked (size : UInt64) (history : List ThreadEvent) (order : List Nat) (s : Threads) : Prop where
  fresh : ∀ event ∈ history, event.number < s.calls
  running : ∀ thread, s.stage thread ≠ .idle → s.call thread < s.calls ∧ ∀ status, .returned (s.call thread) status ∉ history
  apart : ∀ thread other, s.stage thread ≠ .idle → s.stage other ≠ .idle → s.call thread = s.call other → thread = other
  stage : ∀ thread, StageBooked size history order (s.call thread) (s.stage thread)
  answered : ∀ call buf, .writeCalled call buf ∈ history →
    (∃ status, .returned call status ∈ history) ∨ ∃ thread, s.stage thread ≠ .idle ∧ s.call thread = call
  stored : ∀ call, .returned call .kOk ∈ history → (∃ buf, .writeCalled call buf ∈ history) → call ∈ order
  known : ∀ call ∈ order, ∃ buf, .writeCalled call buf ∈ history
  ordered : order.Pairwise fun earlier later => ¬ Precedes history later earlier
  rising : ∀ v w, Precedes history v w → v < w

namespace Booked
variable {size : UInt64} {history : List ThreadEvent} {order : List Nat} {s : Threads} {thread : ThreadId}

variable {s' : Threads} {stage : Stage}

/-- A thread goes on to another stage of its call, and stores its write or not. -/
theorem move {order' : List Nat} (booked : Booked size history order s) (running : s.stage thread ≠ .idle)
    (busy : stage ≠ .idle) (ready : StageBooked size history order' (s.call thread) stage)
    (others : ∀ other, other ≠ thread → StageBooked size history order' (s.call other) (s.stage other))
    (grows : ∀ call ∈ order, call ∈ order') (known : ∀ call ∈ order', ∃ buf, .writeCalled call buf ∈ history)
    (ordered : order'.Pairwise fun earlier later => ¬ Precedes history later earlier)
    (stages : s'.stage = Function.update s.stage thread stage) (call : s'.call = s.call) (calls : s'.calls = s.calls) :
    Booked size history order' s' := by
  have same : ∀ other, s'.stage other ≠ .idle ↔ s.stage other ≠ .idle := by
    intro other
    rw [stages]
    by_cases here : other = thread
    · subst here
      simp [busy, running]
    · simp [here]
  refine ⟨fun event member => calls ▸ booked.fresh event member, fun other busy => ?_, fun a b busyA busyB => ?_,
    fun other => ?_, fun c buf member => ?_, fun c returned wrote => grows c (booked.stored c returned wrote), known,
    ordered, booked.rising⟩
  · rw [call, calls]
    exact booked.running other ((same other).mp busy)
  · rw [call]
    exact booked.apart a b ((same a).mp busyA) ((same b).mp busyB)
  · rw [call, stages]
    by_cases here : other = thread
    · subst here
      simpa using ready
    · simpa [here] using others other here
  · rcases booked.answered c buf member with returned | ⟨other, busy, its⟩
    · exact Or.inl returned
    · exact Or.inr ⟨other, (same other).mpr busy, call ▸ its⟩

theorem enter (booked : Booked size history order s) (running : s.stage thread ≠ .idle) (busy : stage ≠ .idle)
    (ready : StageBooked size history order (s.call thread) stage)
    (stages : s'.stage = Function.update s.stage thread stage) (call : s'.call = s.call) (calls : s'.calls = s.calls) :
    Booked size history order s' :=
  booked.move running busy ready (fun other _ => booked.stage other) (fun _ member => member) booked.known booked.ordered
    stages call calls

theorem store (booked : Booked size history order s) {buf : Bytes} {choice : WriteChoice}
    (storing : s.stage thread = .storing buf choice) (busy : stage ≠ .idle)
    (ready : StageBooked size history (order ++ [s.call thread]) (s.call thread) stage)
    (stages : s'.stage = Function.update s.stage thread stage) (call : s'.call = s.call) (calls : s'.calls = s.calls) :
    Booked size history (order ++ [s.call thread]) s' := by
  have running : s.stage thread ≠ .idle := by simp [storing]
  have written := booked.stage thread
  rw [storing] at written
  refine booked.move running busy ready (fun other ne => ?_) (fun c member => List.mem_append_left _ member)
    (fun c member => ?_) ?_ stages call calls
  · have its := booked.stage other
    cases stage : s.stage other with
    | idle => trivial
    | opening buf =>
      rw [stage] at its
      have new := fun same => ne (booked.apart other thread (by simp [stage]) running same)
      exact ⟨its.1, by simpa using ⟨its.2.1, new⟩, its.2.2⟩
    | storing buf choice =>
      rw [stage] at its
      have new := fun same => ne (booked.apart other thread (by simp [stage]) running same)
      exact ⟨its.1, by simpa using ⟨its.2.1, new⟩, its.2.2⟩
    | returning status =>
      rw [stage] at its
      exact fun ok wrote => List.mem_append_left _ (its ok wrote)
    | _ =>
      rw [stage] at its
      exact fun wrote => List.mem_append_left _ (its wrote)
  · rcases List.mem_append.mp member with old | new
    · exact booked.known c old
    · rw [List.mem_singleton.mp new]
      exact ⟨buf, written.1⟩
  · -- the write has not returned, so it precedes none of those stored before it
    refine List.pairwise_append.mpr ⟨booked.ordered, List.pairwise_singleton _ _, fun earlier _ later member => ?_⟩
    rw [List.mem_singleton.mp member]
    intro precedes
    obtain ⟨status, returned⟩ := precedes.returned
    exact (booked.running thread running).2 status returned

/-! #### A call begins -/

section Begin
variable {event : ThreadEvent} {stage : Stage}

/-- The call of a thread at work is an older one than the call that begins. -/
theorem begin_call_lt (booked : Booked size history order s) {other : ThreadId} (ne : other ≠ thread)
    (running : (s.begin thread stage).stage other ≠ .idle) :
    s.stage other ≠ .idle ∧ (s.begin thread stage).call other = s.call other ∧ s.call other < s.calls := by
  rw [Threads.begin_stage_of_ne s ne] at running
  exact ⟨running, Threads.begin_call_of_ne s ne stage, (booked.running other running).1⟩

/-- The event of a new call is no write of an older one. -/
theorem uncalled_of_lt (number : event.number = s.calls) {call : Nat} (lt : call < s.calls) (buf : Bytes) :
    event ≠ .writeCalled call buf := by
  rintro rfl
  exact absurd number (Nat.ne_of_lt lt)

/-- Only the new call is preceded by more than before. -/
theorem precedes_called (booked : Booked size history order s) (number : event.number = s.calls) {v w : Nat}
    (new : Precedes (history ++ [event]) v w) : Precedes history v w ∨ v < s.calls ∧ w = s.calls := by
  rcases precedes_snoc new with old | ⟨⟨status, returned⟩, buf, rfl⟩
  · exact Or.inl old
  · exact Or.inr ⟨booked.fresh _ returned, number⟩

theorem begin_running (booked : Booked size history order s)
    (unreturned : ∀ {call status}, .returned call status ∈ history ++ [event] → .returned call status ∈ history)
    (other : ThreadId) (running : (s.begin thread stage).stage other ≠ .idle) :
    (s.begin thread stage).call other < s.calls + 1 ∧
      ∀ status, .returned ((s.begin thread stage).call other) status ∉ history ++ [event] := by
  by_cases here : other = thread
  · rw [here, Threads.begin_call]
    exact ⟨Nat.lt_succ_self _, fun status member => Nat.lt_irrefl _ (booked.fresh _ (unreturned member))⟩
  · obtain ⟨was, call, lt⟩ := booked.begin_call_lt here running
    rw [call]
    exact ⟨Nat.lt_succ_of_lt lt, fun status member => (booked.running other was).2 status (unreturned member)⟩

theorem begin_apart (booked : Booked size history order s) (a b : ThreadId)
    (busyA : (s.begin thread stage).stage a ≠ .idle) (busyB : (s.begin thread stage).stage b ≠ .idle)
    (same : (s.begin thread stage).call a = (s.begin thread stage).call b) : a = b := by
  by_cases hereA : a = thread <;> by_cases hereB : b = thread
  · rw [hereA, hereB]
  · obtain ⟨-, call, lt⟩ := booked.begin_call_lt hereB busyB
    rw [hereA, Threads.begin_call, call] at same
    exact absurd same (Nat.ne_of_gt lt)
  · obtain ⟨-, call, lt⟩ := booked.begin_call_lt hereA busyA
    rw [hereB, Threads.begin_call, call] at same
    exact absurd same (Nat.ne_of_lt lt)
  · obtain ⟨wasA, callA, -⟩ := booked.begin_call_lt hereA busyA
    obtain ⟨wasB, callB, -⟩ := booked.begin_call_lt hereB busyB
    rw [callA, callB] at same
    exact booked.apart a b wasA wasB same

theorem begin_stage (booked : Booked size history order s) (number : event.number = s.calls)
    (ready : StageBooked size (history ++ [event]) order s.calls stage) (other : ThreadId) :
    StageBooked size (history ++ [event]) order ((s.begin thread stage).call other) ((s.begin thread stage).stage other) := by
  by_cases here : other = thread
  · rw [here, Threads.begin_stage, Threads.begin_call]
    exact ready
  · rw [Threads.begin_stage_of_ne s here, Threads.begin_call_of_ne s here]
    by_cases running : s.stage other = .idle
    · rw [running]
      trivial
    · exact (booked.stage other).snoc (uncalled_of_lt number (booked.running other running).1)

theorem begin_answered (booked : Booked size history order s) (idle : s.stage thread = .idle) (busy : stage ≠ .idle)
    (number : event.number = s.calls) (c : Nat) (buf : Bytes) (member : .writeCalled c buf ∈ history ++ [event]) :
    (∃ status, .returned c status ∈ history ++ [event]) ∨
      ∃ other, (s.begin thread stage).stage other ≠ .idle ∧ (s.begin thread stage).call other = c := by
  rcases List.mem_append.mp member with before | now
  · rcases booked.answered c buf before with ⟨status, returned⟩ | ⟨other, running, its⟩
    · exact Or.inl ⟨status, List.mem_append_left _ returned⟩
    · have ne : other ≠ thread := fun same => running (same ▸ idle)
      refine Or.inr ⟨other, ?_, ?_⟩
      · rwa [Threads.begin_stage_of_ne s ne]
      · rwa [Threads.begin_call_of_ne s ne]
  · have its : c = s.calls := by rw [← number, ← List.mem_singleton.mp now]; rfl
    exact Or.inr ⟨thread, by rwa [Threads.begin_stage], (Threads.begin_call s thread stage).trans its.symm⟩

/-- An idle thread begins a call. -/
theorem begin (booked : Booked size history order s) (idle : s.stage thread = .idle) (busy : stage ≠ .idle)
    (number : event.number = s.calls) (called : ∀ call status, event ≠ .returned call status)
    (ready : StageBooked size (history ++ [event]) order s.calls stage) :
    Booked size (history ++ [event]) order (s.begin thread stage) := by
  have unreturned : ∀ {call status}, .returned call status ∈ history ++ [event] → .returned call status ∈ history :=
    fun member => mem_of_mem_snoc member (called _ _)
  refine ⟨fun e member => ?_, booked.begin_running unreturned, booked.begin_apart, booked.begin_stage number ready,
    booked.begin_answered idle busy number, fun c returned ⟨buf, member⟩ => ?_, fun c member => ?_, ?_, fun v w new => ?_⟩
  · change e.number < s.calls + 1
    rcases List.mem_append.mp member with before | now
    · exact Nat.lt_succ_of_lt (booked.fresh e before)
    · rw [List.mem_singleton.mp now, number]
      exact Nat.lt_succ_self _
  · have old := unreturned returned
    exact booked.stored c old ⟨buf, mem_of_mem_snoc member (uncalled_of_lt number (booked.fresh _ old) buf)⟩
  · obtain ⟨buf, before⟩ := booked.known c member
    exact ⟨buf, List.mem_append_left _ before⟩
  · refine booked.ordered.imp_of_mem fun {earlier later} stored _ old new => ?_
    rcases booked.precedes_called number new with before | ⟨-, now⟩
    · exact old before
    · obtain ⟨buf, called⟩ := booked.known earlier stored
      exact Nat.ne_of_lt (booked.fresh _ called) now
  · rcases booked.precedes_called number new with before | ⟨small, rfl⟩
    · exact booked.rising v w before
    · exact small

end Begin

/-- A call returns. -/
theorem finish (booked : Booked size history order s) {status : Status} (returning : s.stage thread = .returning status) :
    Booked size (history ++ [.returned (s.call thread) status]) order (s.enter thread .idle) := by
  have running : s.stage thread ≠ .idle := by simp [returning]
  have uncalled : ∀ {call buf}, .writeCalled call buf ∈ history ++ [.returned (s.call thread) status] →
      .writeCalled call buf ∈ history := by
    intro call buf member
    simpa using member
  have others : ∀ other, (s.enter thread .idle).stage other ≠ .idle → other ≠ thread ∧ s.stage other ≠ .idle := by
    intro other busy
    by_cases here : other = thread
    · subst here
      simp at busy
    · exact ⟨here, by rwa [Threads.enter_stage_of_ne _ here] at busy⟩
  constructor
  case fresh =>
    intro e member
    rcases List.mem_append.mp member with before | now
    · exact booked.fresh e before
    · rw [List.mem_singleton.mp now]
      exact (booked.running thread running).1
  case running =>
    intro other busy
    obtain ⟨ne, was⟩ := others other busy
    refine ⟨(booked.running other was).1, fun status' member => ?_⟩
    rcases List.mem_append.mp member with before | now
    · exact (booked.running other was).2 status' before
    · obtain ⟨same, -⟩ := ThreadEvent.returned.inj (List.mem_singleton.mp now)
      exact ne (booked.apart other thread was running same)
  case apart =>
    intro a b busyA busyB
    exact booked.apart a b (others a busyA).2 (others b busyB).2
  case stage =>
    intro other
    by_cases here : other = thread
    · rw [here, Threads.enter_stage]
      trivial
    · rw [Threads.enter_stage_of_ne _ here]
      exact (booked.stage other).snoc (by simp)
  case answered =>
    intro c buf member
    rcases booked.answered c buf (uncalled member) with ⟨status', returned⟩ | ⟨other, busy, its⟩
    · exact Or.inl ⟨status', List.mem_append_left _ returned⟩
    · by_cases here : other = thread
      · rw [here] at its
        exact Or.inl ⟨status, List.mem_append_right _ (by simp [its])⟩
      · exact Or.inr ⟨other, by rwa [Threads.enter_stage_of_ne _ here], its⟩
  case stored =>
    intro c returned wrote
    obtain ⟨buf, member⟩ := wrote
    rcases List.mem_append.mp returned with before | now
    · exact booked.stored c before ⟨buf, uncalled member⟩
    · obtain ⟨rfl, ok⟩ := ThreadEvent.returned.inj (List.mem_singleton.mp now)
      have its := booked.stage thread
      rw [returning] at its
      exact its ok.symm ⟨buf, uncalled member⟩
  case known =>
    intro c member
    obtain ⟨buf, before⟩ := booked.known c member
    exact ⟨buf, List.mem_append_left _ before⟩
  case ordered =>
    exact booked.ordered.imp fun old new => old (precedes_of_returned new)
  case rising =>
    intro v w new
    exact booked.rising v w (precedes_of_returned new)

/-- Once all calls have returned, every write was stored. -/
theorem stored_of_done (booked : Booked size history order s) (done : s.Done history) {call : Nat} {buf : Bytes}
    (called : .writeCalled call buf ∈ history) : call ∈ order := by
  rcases booked.answered call buf called with ⟨status, returned⟩ | ⟨thread, running, -⟩
  · exact booked.stored call (done.ok _ _ returned ▸ returned) ⟨buf, called⟩
  · exact absurd (done.idle thread) running

/-- What was stored last precedes nothing that was stored. -/
theorem last_precedes_stored (booked : Booked size history order s) {call : Nat} (last : order.getLast? = some call) :
    ∀ other ∈ order, ¬ Precedes history call other := by
  intro other stored precedes
  obtain ⟨front, rfl⟩ := List.getLast?_eq_some_iff.mp last
  rcases List.mem_append.mp stored with early | same
  · exact (List.pairwise_append.mp booked.ordered).2.2 other early call List.mem_cons_self precedes
  · rw [List.mem_singleton.mp same] at precedes
    exact Nat.lt_irrefl _ (booked.rising _ _ precedes)

end Booked

end LeoMem
