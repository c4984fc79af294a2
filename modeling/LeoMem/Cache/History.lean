import LeoMem.Cache.Profile
import LeoMem.Lib.Run
import LeoMem.Lib.Windows
import Mathlib.Data.List.Induction

/-!
# The profile of a block as a function of its history

One counter numbers all calls of `ObserveAccess`; a block's record is touched only when
the block is accessed, and its window counters are reset when that happens in a new
window. As long as fewer than 2^64 calls have been made, every counter of the record is
what one reads off the list of calls.
-/

namespace LeoMem
open Lib

/-- A call of `ObserveAccess`. -/
structure Access where
  block : BlockId
  type : AccessType
  isLocal : Bool
  deriving DecidableEq, Repr

/-- `access_epoch_` and the record of every block. -/
structure Profile where
  accessEpoch : UInt64 := 0
  metas : BlockId → BlockMeta := fun bid => { bid := bid }

/-- `ObserveAccess` on the block of the access. -/
def Profile.observe (cfg : Config) (p : Profile) (access : Access) : CoherenceMode × Profile :=
  let r := observeAccess cfg p.accessEpoch (p.metas access.block) access.type access.isLocal
  (r.1, { accessEpoch := r.2.1, metas := Function.update p.metas access.block r.2.2 })

/-- The records after `Init` and a history of calls. -/
def Profile.after (cfg : Config) (history : List Access) : Profile := (run (Profile.observe cfg) {} history).2

variable (block : BlockId) (cfg : Config) (history : List Access)

theorem Profile.after_snoc (access : Access) :
    Profile.after cfg (history ++ [access]) = ((Profile.after cfg history).observe cfg access).2 := by
  rw [Profile.after, run_append]
  rfl

/-- The calls on a block, numbered among all calls from 1. -/
def callsOf (block : BlockId) (history : List Access) : List (Access × Nat) :=
  (history.zipIdx 1).filter fun call => call.1.block = block

theorem callsOf_snoc (access : Access) :
    callsOf block (history ++ [access]) =
      callsOf block history ++ if access.block = block then [(access, history.length + 1)] else [] := by
  rw [callsOf, List.zipIdx_append, List.filter_append, callsOf, Nat.add_comm 1]
  congr 1
  split <;> rename_i here <;> simp [here]

theorem number_le {block : BlockId} {history : List Access} {call : Access × Nat}
    (member : call ∈ callsOf block history) : call.2 ≤ history.length := by
  have place := List.mem_zipIdx (List.mem_filter.mp member).1
  omega

theorem ordered_callsOf : Ordered (callsOf block history) := by
  induction history using List.reverseRecOn with
  | nil => exact ⟨List.Pairwise.nil, fun _ none => absurd none List.not_mem_nil⟩
  | append_singleton history access ih =>
    rw [callsOf_snoc]
    split
    · exact ih.snoc (fun call member => Nat.lt_succ_of_le (number_le member)) (Nat.le_add_left 1 _)
    · rw [List.append_nil]
      exact ih

theorem length_callsOf_le : (callsOf block history).length ≤ history.length := by
  have sub := List.length_filter_le (fun call : Access × Nat => decide (call.1.block = block)) (history.zipIdx 1)
  rwa [List.length_zipIdx] at sub

/-! ### What one access does to the record -/

/-- The window of an epoch. -/
def windowIdOf (cfg : Config) (epoch : UInt64) : UInt64 := (epoch - 1) / safeWindowSize cfg.profilingWindowSize

/-- The record after an access, field by field. -/
theorem BlockMeta.observe_eq (epoch : UInt64) (type : AccessType) (isLocal : Bool) (m : BlockMeta) :
    m.observe cfg epoch type isLocal =
      { m with
        accessEpoch := epoch
        lastAccessEpoch := epoch
        lastAccessType := type
        readCount := if type = .kRead then m.readCount + 1 else m.readCount
        writeCount := if type = .kWrite then m.writeCount + 1 else m.writeCount
        sharerCount := if type = .kRead ∧ isLocal = false then m.sharerCount + 1 else m.sharerCount
        invalidationCost := if type = .kWrite ∧ isLocal = false then m.invalidationCost + 1 else m.invalidationCost
        windowId := windowIdOf cfg epoch
        windowReads :=
          (if windowIdOf cfg epoch = m.windowId then m.windowReads else 0) + if type = .kRead then 1 else 0
        windowWrites :=
          (if windowIdOf cfg epoch = m.windowId then m.windowWrites else 0) + if type = .kWrite then 1 else 0
        phaseChangeCount :=
          (if windowIdOf cfg epoch = m.windowId then m.phaseChangeCount else 0) +
            if m.lastAccessEpoch ≠ 0 ∧ m.lastAccessType ≠ type then 1 else 0
        lastReuseDistance := if m.lastAccessEpoch ≠ 0 then epoch - m.lastAccessEpoch else m.lastReuseDistance } := by
  unfold windowIdOf BlockMeta.observe
  generalize (epoch - 1) / safeWindowSize cfg.profilingWindowSize = window
  have rolled : (m.windowId ≠ window) = ¬ window = m.windowId := by
    rw [ne_comm]
  by_cases same : window = m.windowId <;> by_cases first : m.lastAccessEpoch = 0 <;>
    by_cases kept : m.lastAccessType = type <;> cases type <;> cases isLocal <;>
    simp [BlockMeta.rollWindow, BlockMeta.noteReuse, BlockMeta.countAccess, same, first, kept, rolled]

/-! ### Counts over the calls on a block -/

def readsIn (calls : List (Access × Nat)) : Nat := calls.countP fun call => call.1.type = .kRead

def writesIn (calls : List (Access × Nat)) : Nat := calls.countP fun call => call.1.type = .kWrite

def remoteReadsIn (calls : List (Access × Nat)) : Nat :=
  calls.countP fun call => call.1.type = .kRead ∧ call.1.isLocal = false

def remoteWritesIn (calls : List (Access × Nat)) : Nat :=
  calls.countP fun call => call.1.type = .kWrite ∧ call.1.isLocal = false

/-- The accesses in the latest window whose type is not that of the access before. -/
def phaseChangesIn (size : Nat) (calls : List (Access × Nat)) : Nat :=
  changes (fun before after => before.type ≠ after.type) size calls

/-- The number of calls in a window. -/
def windowSize (cfg : Config) : Nat := max 1 cfg.profilingWindowSize.toNat

theorem windowSize_pos : 0 < windowSize cfg := Nat.lt_of_lt_of_le Nat.one_pos (Nat.le_max_left _ _)

theorem toNat_safeWindowSize : (safeWindowSize cfg.profilingWindowSize).toNat = windowSize cfg :=
  toNat_max 1 cfg.profilingWindowSize

theorem toNat_windowIdOf {epoch : UInt64} (positive : 1 ≤ epoch.toNat) :
    (windowIdOf cfg epoch).toNat = windowOf (windowSize cfg) epoch.toNat := by
  have one : (1 : UInt64) ≤ epoch := UInt64.le_iff_toNat_le.mpr positive
  rw [windowIdOf, UInt64.toNat_div, toNat_safeWindowSize, UInt64.toNat_sub_of_le _ _ one]
  rfl

/-- A call is in the window of the record exactly when it is in that of the latest call. -/
theorem windowIdOf_eq_iff {cfg : Config} {calls : List (Access × Nat)} {epoch window : UInt64} (positive : 1 ≤ epoch.toNat)
    (known : window.toNat = windowOf (windowSize cfg) (lastNumber calls)) :
    windowIdOf cfg epoch = window ↔
      windowOf (windowSize cfg) epoch.toNat = windowOf (windowSize cfg) (lastNumber calls) := by
  rw [← UInt64.toNat_inj, toNat_windowIdOf cfg positive, known]

/-- The record says what the calls on the block say. -/
structure Profiled (cfg : Config) (calls : List (Access × Nat)) (m : BlockMeta) : Prop where
  lastEpoch : m.lastAccessEpoch.toNat = lastNumber calls
  lastType : ∀ call ∈ calls.getLast?, m.lastAccessType = call.1.type
  windowId : m.windowId.toNat = windowOf (windowSize cfg) (lastNumber calls)
  reads : m.readCount.toNat = readsIn calls
  writes : m.writeCount.toNat = writesIn calls
  windowReads : m.windowReads.toNat = readsIn (latestWindow (windowSize cfg) calls)
  windowWrites : m.windowWrites.toNat = writesIn (latestWindow (windowSize cfg) calls)
  phaseChanges : m.phaseChangeCount.toNat = phaseChangesIn (windowSize cfg) calls
  reuseDistance : m.lastReuseDistance.toNat = lastDistance calls
  sharers : m.sharerCount.toNat = remoteReadsIn calls % 2 ^ 32
  invalidations : m.invalidationCost.toNat = remoteWritesIn calls

theorem profiled_fresh (bid : BlockId) : Profiled cfg [] { bid := bid } := by
  constructor
  case lastType => simp
  case windowId => exact (Nat.zero_div _).symm
  all_goals rfl

section Counters
variable {P : Access × Nat → Prop} [DecidablePred P] {calls : List (Access × Nat)}

/-- A counter of 64 bits after one more call, if it counts it. -/
theorem toNat_count {c : UInt64} (count : c.toNat = calls.countP fun call => P call)
    (room : calls.length + 1 < 2 ^ 64) (call : Access × Nat) :
    (if P call then c + 1 else c).toNat = (calls ++ [call]).countP fun call => P call := by
  have bound := List.countP_le_length (p := fun call => decide (P call)) (l := calls)
  rw [List.countP_append, List.countP_singleton, ← count]
  by_cases counted : P call
  · rw [if_pos counted, if_pos (decide_eq_true counted), toNat_succ (by omega)]
  · rw [if_neg counted, if_neg (by simpa using counted), Nat.add_zero]

/-- A counter of the latest window after one more call. -/
theorem toNat_windowCount {cfg : Config} {epoch window c : UInt64} (ordered : Ordered calls)
    (later : ∀ call ∈ calls, call.2 < epoch.toNat) (positive : 1 ≤ epoch.toNat)
    (known : window.toNat = windowOf (windowSize cfg) (lastNumber calls))
    (count : c.toNat = (latestWindow (windowSize cfg) calls).countP fun call => P call)
    (room : calls.length + 1 < 2 ^ 64) (access : Access) :
    ((if windowIdOf cfg epoch = window then c else 0) + if P (access, epoch.toNat) then 1 else 0).toNat =
      (latestWindow (windowSize cfg) (calls ++ [(access, epoch.toNat)])).countP fun call => P call := by
  have within : (latestWindow (windowSize cfg) calls).length ≤ calls.length := List.length_filter_le _ _
  rw [latestWindow_snoc ordered later]
  simp only [windowIdOf_eq_iff positive known]
  split
  · have next := toNat_count count (by omega) (access, epoch.toNat)
    rw [← next]
    split <;> simp
  · rw [List.nil_append, List.countP_singleton]
    by_cases counted : P (access, epoch.toNat)
    · rw [if_pos counted, if_pos (decide_eq_true counted)]
      rfl
    · rw [if_neg counted, if_neg (by simpa using counted)]
      rfl

end Counters

section Step
variable {cfg : Config} {calls : List (Access × Nat)} {m : BlockMeta} {access : Access} {epoch : UInt64}

theorem Profiled.accessed_iff (held : Profiled cfg calls m) (ordered : Ordered calls) :
    m.lastAccessEpoch ≠ 0 ↔ calls ≠ [] := by
  have zero : m.lastAccessEpoch = 0 ↔ lastNumber calls = 0 := by
    rw [← held.lastEpoch, ← UInt64.toNat_inj]
    rfl
  rw [not_iff_not, zero]
  constructor
  · intro none
    by_contra some
    have := lastNumber_pos ordered some
    omega
  · rintro rfl
    rfl

/-- Whether the access changes the phase of the block. -/
theorem Profiled.phaseChange (held : Profiled cfg calls m) (ordered : Ordered calls) (type : AccessType) :
    (if m.lastAccessEpoch ≠ 0 ∧ m.lastAccessType ≠ type then 1 else 0 : UInt64).toNat =
      (calls.getLast?.map fun call => (decide (call.1.type ≠ type)).toNat).getD 0 := by
  have accessed := held.accessed_iff ordered
  cases last : calls.getLast? with
  | none =>
    rw [if_neg fun changed => accessed.mp changed.1 (List.getLast?_eq_none_iff.mp last)]
    rfl
  | some call =>
    have some : calls ≠ [] := by
      rintro rfl
      cases last
    have known := held.lastType call last
    by_cases same : call.1.type = type
    · rw [if_neg fun changed => changed.2 (known.trans same)]
      simp [same]
    · rw [if_pos ⟨accessed.mpr some, fun eq => same (known.symm.trans eq)⟩]
      simp [same]

/-- The phase changes of the window after one more call. -/
theorem Profiled.phaseChanges_snoc (held : Profiled cfg calls m) (ordered : Ordered calls)
    (later : ∀ call ∈ calls, call.2 < epoch.toNat) (positive : 1 ≤ epoch.toNat) (room : calls.length + 1 < 2 ^ 64)
    (access : Access) :
    ((if windowIdOf cfg epoch = m.windowId then m.phaseChangeCount else 0) +
        if m.lastAccessEpoch ≠ 0 ∧ m.lastAccessType ≠ access.type then 1 else 0).toNat =
      phaseChangesIn (windowSize cfg) (calls ++ [(access, epoch.toNat)]) := by
  have bound : phaseChangesIn (windowSize cfg) calls ≤ calls.length :=
    (changes_le _ _ calls).trans (List.length_filter_le _ _)
  have change := held.phaseChange ordered access.type
  have small : (if m.lastAccessEpoch ≠ 0 ∧ m.lastAccessType ≠ access.type then 1 else 0 : UInt64).toNat ≤ 1 := by
    split <;> decide
  have window : (if windowIdOf cfg epoch = m.windowId then m.phaseChangeCount else 0).toNat =
      if windowOf (windowSize cfg) epoch.toNat = windowOf (windowSize cfg) (lastNumber calls) then
        phaseChangesIn (windowSize cfg) calls else 0 := by
    rw [← held.phaseChanges, apply_ite UInt64.toNat]
    exact if_congr (windowIdOf_eq_iff positive held.windowId) rfl rfl
  have least : (if windowIdOf cfg epoch = m.windowId then m.phaseChangeCount else 0).toNat ≤ calls.length := by
    rw [window]
    split <;> omega
  rw [phaseChangesIn, changes_snoc ordered later, ← change, ← phaseChangesIn, ← window, UInt64.toNat_add,
    Nat.mod_eq_of_lt (by omega)]

theorem Profiled.reuseDistance_snoc (held : Profiled cfg calls m) (ordered : Ordered calls)
    (later : ∀ call ∈ calls, call.2 < epoch.toNat) (access : Access) :
    (if m.lastAccessEpoch ≠ 0 then epoch - m.lastAccessEpoch else m.lastReuseDistance).toNat =
      lastDistance (calls ++ [(access, epoch.toNat)]) := by
  have accessed := held.accessed_iff ordered
  rw [lastDistance_snoc]
  by_cases none : calls = []
  · rw [if_pos none, if_neg (mt accessed.mp (not_not_intro none)), held.reuseDistance, none]
    rfl
  · have le : m.lastAccessEpoch ≤ epoch := by
      rw [UInt64.le_iff_toNat_le, held.lastEpoch]
      exact Ordered.last_le (e := (access, epoch.toNat)) later
    rw [if_neg none, if_pos (accessed.mpr none), UInt64.toNat_sub_of_le _ _ le, held.lastEpoch]

/-- The sharer count, which alone may come round. -/
theorem Profiled.sharers_snoc (held : Profiled cfg calls m) (call : Access × Nat) :
    (if call.1.type = .kRead ∧ call.1.isLocal = false then m.sharerCount + 1 else m.sharerCount).toNat =
      remoteReadsIn (calls ++ [call]) % 2 ^ 32 := by
  rw [remoteReadsIn, List.countP_append, List.countP_singleton, ← remoteReadsIn]
  by_cases remote : call.1.type = .kRead ∧ call.1.isLocal = false
  · rw [if_pos remote, if_pos (decide_eq_true remote), UInt32.toNat_add, held.sharers, UInt32.toNat_one]
    omega
  · rw [if_neg remote, if_neg (by simpa using remote), held.sharers, Nat.add_zero]

/-- One access counts itself and nothing else. -/
theorem Profiled.observe (held : Profiled cfg calls m) (ordered : Ordered calls)
    (later : ∀ call ∈ calls, call.2 < epoch.toNat) (few : calls.length < epoch.toNat) :
    Profiled cfg (calls ++ [(access, epoch.toNat)]) (m.observe cfg epoch access.type access.isLocal) := by
  have positive : 1 ≤ epoch.toNat := by omega
  have room : calls.length + 1 < 2 ^ 64 := by
    have := epoch.toNat_lt
    omega
  rw [BlockMeta.observe_eq]
  constructor
  case lastEpoch => rw [lastNumber_snoc]
  case lastType => simp
  case windowId =>
    rw [lastNumber_snoc]
    exact toNat_windowIdOf cfg positive
  case reads => exact toNat_count held.reads room (access, epoch.toNat)
  case writes => exact toNat_count held.writes room (access, epoch.toNat)
  case windowReads => exact toNat_windowCount ordered later positive held.windowId held.windowReads room access
  case windowWrites => exact toNat_windowCount ordered later positive held.windowId held.windowWrites room access
  case phaseChanges => exact held.phaseChanges_snoc ordered later positive room access
  case reuseDistance => exact held.reuseDistance_snoc ordered later access
  case sharers => exact held.sharers_snoc (access, epoch.toNat)
  case invalidations => exact toNat_count held.invalidations room (access, epoch.toNat)

end Step

/-! ### Whole histories -/

/-- What `ObserveAccess` leaves: the observed record with the mode decided on it. -/
theorem observeAccess_record (accessEpoch : UInt64) (m : BlockMeta) (type : AccessType) (isLocal : Bool) :
    ∃ switches, (observeAccess cfg accessEpoch m type isLocal).2.2 =
      { m.observe cfg (accessEpoch + 1) type isLocal with
        mode := decideCoherenceMode cfg (m.observe cfg (accessEpoch + 1) type isLocal)
        coherenceSwitchCount := switches } := by
  simp only [observeAccess]
  split
  · exact ⟨_, rfl⟩
  · exact ⟨_, rfl⟩

theorem Profiled.observeAccess {cfg : Config} {calls : List (Access × Nat)} {m : BlockMeta}
    {accessEpoch : UInt64} (held : Profiled cfg calls m) (ordered : Ordered calls)
    (later : ∀ call ∈ calls, call.2 ≤ accessEpoch.toNat) (few : calls.length ≤ accessEpoch.toNat)
    (room : accessEpoch.toNat + 1 < 2 ^ 64) (access : Access) :
    Profiled cfg (calls ++ [(access, accessEpoch.toNat + 1)])
      (observeAccess cfg accessEpoch m access.type access.isLocal).2.2 := by
  have epoch := toNat_succ room
  have observed : Profiled cfg (calls ++ [(access, (accessEpoch + 1).toNat)])
      (m.observe cfg (accessEpoch + 1) access.type access.isLocal) :=
    held.observe ordered (fun call member => by rw [epoch]; exact Nat.lt_succ_of_le (later call member)) (by omega)
  obtain ⟨switches, record⟩ := observeAccess_record cfg accessEpoch m access.type access.isLocal
  rw [record, ← epoch]
  exact ⟨observed.lastEpoch, observed.lastType, observed.windowId, observed.reads, observed.writes,
    observed.windowReads, observed.windowWrites, observed.phaseChanges, observed.reuseDistance, observed.sharers,
    observed.invalidations⟩

/-- After fewer than 2^64 calls every record is the profile of the calls on its block. -/
theorem profiled_after {history : List Access} (few : history.length < 2 ^ 64) :
    (Profile.after cfg history).accessEpoch.toNat = history.length ∧
      ∀ block, Profiled cfg (callsOf block history) ((Profile.after cfg history).metas block) := by
  induction history using List.reverseRecOn with
  | nil => exact ⟨rfl, profiled_fresh cfg⟩
  | append_singleton history access ih =>
    rw [List.length_append, List.length_singleton] at few
    obtain ⟨epoch, records⟩ := ih (by omega)
    rw [Profile.after_snoc]
    refine ⟨?_, fun block => ?_⟩
    · show ((Profile.after cfg history).accessEpoch + 1).toNat = _
      rw [toNat_succ (by omega), epoch, List.length_append, List.length_singleton]
    · rw [callsOf_snoc]
      by_cases here : access.block = block
      · have next := (records access.block).observeAccess (ordered_callsOf access.block history)
          (fun call member => by rw [epoch]; exact number_le member) (by rw [epoch]; exact length_callsOf_le _ _)
          (by omega) access
        rw [epoch] at next
        rw [if_pos here, ← here]
        simpa [Profile.observe] using next
      · rw [if_neg here, List.append_nil]
        simpa [Profile.observe, Function.update_of_ne (Ne.symm here)] using records block

theorem length_latestWindow (size : Nat) (calls : List (Access × Nat)) :
    readsIn (latestWindow size calls) + writesIn (latestWindow size calls) = (latestWindow size calls).length := by
  rw [List.length_eq_countP_add_countP fun call => decide (call.1.type = .kRead), readsIn, writesIn]
  congr 1
  apply List.countP_congr
  intro call _
  cases call.1.type <;> simp

/-- What the record of an accessed block holds, read off the calls on it. -/
structure ExactProfile (cfg : Config) (calls : List (Access × Nat)) (m : BlockMeta) : Prop where
  readCount : m.readCount.toNat = readsIn calls
  writeCount : m.writeCount.toNat = writesIn calls
  windowReads : m.windowReads.toNat = readsIn (latestWindow (windowSize cfg) calls)
  windowWrites : m.windowWrites.toNat = writesIn (latestWindow (windowSize cfg) calls)
  phaseChangeCount : m.phaseChangeCount.toNat = phaseChangesIn (windowSize cfg) calls
  lastReuseDistance : m.lastReuseDistance.toNat = lastDistance calls
  windowUsed : 1 ≤ m.windowReads.toNat + m.windowWrites.toNat
  windowBound : m.windowReads.toNat + m.windowWrites.toNat ≤ windowSize cfg
  phaseBound : m.phaseChangeCount.toNat ≤ m.windowReads.toNat + m.windowWrites.toNat

theorem Profiled.exact {cfg : Config} {calls : List (Access × Nat)} {m : BlockMeta} (held : Profiled cfg calls m)
    (ordered : Ordered calls) (accessed : calls ≠ []) : ExactProfile cfg calls m := by
  have total : m.windowReads.toNat + m.windowWrites.toNat = (latestWindow (windowSize cfg) calls).length := by
    rw [held.windowReads, held.windowWrites, length_latestWindow]
  refine ⟨held.reads, held.writes, held.windowReads, held.windowWrites, held.phaseChanges, held.reuseDistance, ?_, ?_, ?_⟩
  · rw [total]
    exact latestWindow_pos _ accessed
  · rw [total]
    exact latestWindow_le ordered (windowSize_pos cfg)
  · rw [total, held.phaseChanges]
    exact changes_le _ _ _

/-- After fewer than 2^64 calls the record of every accessed block is an exact function of
the history, and the record on which `ObserveAccess` decides the mode counts at least one
access in its window. -/
theorem profile_exact (cfg : Config) {history : List Access} (few : history.length < 2 ^ 64) :
    (∀ block, callsOf block history ≠ [] →
      ExactProfile cfg (callsOf block history) ((Profile.after cfg history).metas block)) ∧
    ∀ access : Access, history.length + 1 < 2 ^ 64 →
      (((Profile.after cfg history).metas access.block).observe cfg ((Profile.after cfg history).accessEpoch + 1)
          access.type access.isLocal).windowReads.toNat +
        (((Profile.after cfg history).metas access.block).observe cfg ((Profile.after cfg history).accessEpoch + 1)
          access.type access.isLocal).windowWrites.toNat ≠ 0 := by
  obtain ⟨epoch, records⟩ := profiled_after cfg few
  refine ⟨fun block accessed => (records block).exact (ordered_callsOf block history) accessed, fun access room => ?_⟩
  have next := toNat_succ (show (Profile.after cfg history).accessEpoch.toNat + 1 < 2 ^ 64 by omega)
  have later : ∀ call ∈ callsOf access.block history, call.2 < ((Profile.after cfg history).accessEpoch + 1).toNat := by
    intro call member
    rw [next, epoch]
    exact Nat.lt_succ_of_le (number_le member)
  have fewer : (callsOf access.block history).length < ((Profile.after cfg history).accessEpoch + 1).toNat := by
    rw [next, epoch]
    exact Nat.lt_succ_of_le (length_callsOf_le _ _)
  have observed : Profiled cfg _ (((Profile.after cfg history).metas access.block).observe cfg _ access.type access.isLocal) :=
    (records access.block).observe (ordered_callsOf access.block history) later fewer
  have positive : 1 ≤ ((Profile.after cfg history).accessEpoch + 1).toNat := by omega
  have ordered := (ordered_callsOf access.block history).snoc (e := (access, _)) later positive
  have used := (observed.exact ordered (by simp)).windowUsed
  omega

/-! ### A counter that comes round -/

/-- The read counter is exact up to its 64 bits, however long the history. -/
theorem readCount_mod (block : BlockId) :
    ((Profile.after cfg history).metas block).readCount = UInt64.ofNat (readsIn (callsOf block history)) := by
  induction history using List.reverseRecOn with
  | nil => rfl
  | append_singleton history access ih =>
    rw [Profile.after_snoc, callsOf_snoc]
    by_cases here : access.block = block
    · obtain ⟨switches, record⟩ := observeAccess_record cfg (Profile.after cfg history).accessEpoch
        ((Profile.after cfg history).metas access.block) access.type access.isLocal
      have count : (((Profile.after cfg history).observe cfg access).2.metas block).readCount =
          if access.type = .kRead then ((Profile.after cfg history).metas block).readCount + 1
          else ((Profile.after cfg history).metas block).readCount := by
        rw [← here, Profile.observe]
        simp only [Function.update_self]
        rw [record, BlockMeta.observe_eq]
      rw [count, if_pos here, readsIn, List.countP_append, List.countP_singleton, ← readsIn, ih]
      by_cases read : access.type = .kRead
      · rw [if_pos read, if_pos (decide_eq_true read), UInt64.ofNat_add]
        rfl
      · rw [if_neg read, if_neg (by simpa using read), Nat.add_zero]
    · rw [if_neg here, List.append_nil, ← ih]
      simp [Profile.observe, Function.update_of_ne (Ne.symm here)]

/-- A read of the first block from another node. -/
def remoteRead : Access := { block := {}, type := .kRead, isLocal := false }

theorem readsIn_replicate (n : Nat) : readsIn (callsOf {} (List.replicate n remoteRead)) = n := by
  induction n with
  | zero => rfl
  | succ n ih =>
    rw [List.replicate_succ', callsOf_snoc, if_pos (show remoteRead.block = {} from rfl), readsIn, List.countP_append, ← readsIn, ih]
    rfl

/-- After 2^64 reads of a block its `read_count` is 0 again. -/
theorem readCount_wraps :
    readsIn (callsOf {} (List.replicate (2 ^ 64) remoteRead)) = 2 ^ 64 ∧
    ((Profile.after {} (List.replicate (2 ^ 64) remoteRead)).metas {}).readCount = 0 := by
  refine ⟨readsIn_replicate _, ?_⟩
  rw [readCount_mod, readsIn_replicate]
  rfl

/-- Two blocks in turn over two windows of three calls. -/
def twoBlockHistory : List Access :=
  [⟨⟨0, 0⟩, .kRead, true⟩, ⟨⟨0, 1⟩, .kWrite, true⟩, ⟨⟨0, 0⟩, .kRead, false⟩, ⟨⟨0, 0⟩, .kWrite, true⟩,
    ⟨⟨0, 1⟩, .kRead, false⟩, ⟨⟨0, 0⟩, .kRead, true⟩]

theorem twoBlockHistory_exact :
    twoBlockHistory.length < 2 ^ 64 ∧ callsOf ⟨0, 0⟩ twoBlockHistory ≠ [] ∧
    ExactProfile { profilingWindowSize := 3 } (callsOf ⟨0, 0⟩ twoBlockHistory)
      ((Profile.after { profilingWindowSize := 3 } twoBlockHistory).metas ⟨0, 0⟩) := by
  have few : twoBlockHistory.length < 2 ^ 64 := by decide
  have accessed : callsOf ⟨0, 0⟩ twoBlockHistory ≠ [] := by decide
  exact ⟨few, accessed, (profile_exact _ few).1 _ accessed⟩

end LeoMem
