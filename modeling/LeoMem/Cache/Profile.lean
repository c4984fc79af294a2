import LeoMem.Metadata
import Mathlib.Algebra.Order.Field.Rat

/-!
# Access profiling and the coherence mode

`ObserveAccess`, `DecideCoherenceMode` and `ShouldCache` of
`memory/cache/cache_manager.cc`, on one block's record. The window ratios are
exact rationals where the source divides doubles.
-/

namespace LeoMem

def safeWindowSize (value : UInt64) : UInt64 := max 1 value

/-- `static_cast<CoherenceMode>(value)` for a value already checked to be an enumerator. -/
def CoherenceMode.ofInt (value : Int) : CoherenceMode :=
  if value = 0 then .kWI else if value = 1 then .kSI else .kAdaptive

def decideCoherenceMode (cfg : Config) (m : BlockMeta) : CoherenceMode :=
  if 0 ≤ cfg.coherenceModeOverride ∧ cfg.coherenceModeOverride ≤ CoherenceMode.kAdaptive.toInt then
    CoherenceMode.ofInt cfg.coherenceModeOverride
  else
    let windowReads : ℚ := m.windowReads.toNat
    let windowWrites : ℚ := m.windowWrites.toNat
    let total := windowReads + windowWrites
    if total = 0 then .kWI
    else
      let writeRatio := windowWrites / total
      let phaseChangeRatio := (m.phaseChangeCount.toNat : ℚ) / total
      if writeRatio ≥ cfg.coherenceWriteDominantRatio ∨
          phaseChangeRatio ≥ cfg.coherencePhaseChangePromoteRatio then .kWI
      else if m.sharerCount.toNat ≥ cfg.coherenceSharerPromoteThreshold.toNat ∨
          m.invalidationCost ≥ cfg.coherenceInvalidationPromoteThreshold then .kAdaptive
      else .kSI

/-- `ObserveAccess`: the window counters start over when the access falls in a new window. -/
def BlockMeta.rollWindow (windowId : UInt64) (m : BlockMeta) : BlockMeta :=
  if m.windowId ≠ windowId then
    { m with windowId := windowId, windowReads := 0, windowWrites := 0, phaseChangeCount := 0 }
  else m

/-- `ObserveAccess`: reuse distance and phase change against the block's previous access. -/
def BlockMeta.noteReuse (epoch lastEpoch : UInt64) (type : AccessType) (m : BlockMeta) : BlockMeta :=
  if lastEpoch ≠ 0 then
    { m with
      lastReuseDistance := epoch - lastEpoch
      phaseChangeCount := if m.lastAccessType ≠ type then m.phaseChangeCount + 1 else m.phaseChangeCount }
  else m

/-- `ObserveAccess`: the read or write counters. -/
def BlockMeta.countAccess (type : AccessType) (isLocal : Bool) (m : BlockMeta) : BlockMeta :=
  match type with
  | .kRead =>
    { m with
      readCount := m.readCount + 1
      windowReads := m.windowReads + 1
      sharerCount := if isLocal then m.sharerCount else m.sharerCount + 1 }
  | .kWrite =>
    { m with
      writeCount := m.writeCount + 1
      windowWrites := m.windowWrites + 1
      invalidationCost := if isLocal then m.invalidationCost else m.invalidationCost + 1 }

/-- `ObserveAccess` up to the mode decision. -/
def BlockMeta.observe (cfg : Config) (epoch : UInt64) (type : AccessType) (isLocal : Bool) (m : BlockMeta) :
    BlockMeta :=
  let lastEpoch := m.lastAccessEpoch
  let windowId := (epoch - 1) / safeWindowSize cfg.profilingWindowSize
  let m := { m with lastAccessEpoch := epoch }
  let m := m.rollWindow windowId
  let m := { m with accessEpoch := epoch }
  let m := m.noteReuse epoch lastEpoch type
  let m := { m with lastAccessType := type }
  m.countAccess type isLocal

/-- `ObserveAccess`: the new mode, the advanced access epoch and the updated record. -/
def observeAccess (cfg : Config) (accessEpoch : UInt64) (m : BlockMeta) (type : AccessType) (isLocal : Bool) :
    CoherenceMode × UInt64 × BlockMeta :=
  let epoch := accessEpoch + 1
  let m := m.observe cfg epoch type isLocal
  let nextMode := decideCoherenceMode cfg m
  let previousMode := m.mode
  let m := { m with mode := nextMode }
  let m := if previousMode ≠ nextMode then { m with coherenceSwitchCount := m.coherenceSwitchCount + 1 } else m
  (nextMode, epoch, m)

def shouldCache (cfg : Config) (m : BlockMeta) : Bool :=
  if cfg.enableCache = false then false
  else if cfg.cacheAdmissionPolicy = 1 then true
  else if cfg.cacheAdmissionPolicy = 2 then false
  else
    let windowReads : ℚ := m.windowReads.toNat
    let windowWrites : ℚ := m.windowWrites.toNat
    let windowTotal := windowReads + windowWrites
    if windowTotal = 0 then false
    else
      let readRatio := windowReads / windowTotal
      let phaseChangeRatio := (m.phaseChangeCount.toNat : ℚ) / windowTotal
      decide (m.readCount ≥ cfg.cacheAdmissionMinReads ∧
        m.writeCount ≤ cfg.cacheAdmissionMaxWrites ∧
        m.sharerCount.toNat ≤ cfg.cacheAdmissionMaxSharers.toNat ∧
        m.lastReuseDistance ≤ cfg.cacheAdmissionMaxReuseDistance ∧
        readRatio ≥ cfg.cacheAdmissionMinReadRatio ∧
        phaseChangeRatio ≤ cfg.cacheAdmissionMaxPhaseChangeRatio ∧
        m.mode ≠ .kWI ∧
        m.invalidationCost ≤ m.writeCount + 1)

/-- The record fields an observed access leaves alone. -/
structure BlockMeta.SameOwnership (m m' : BlockMeta) : Prop where
  ownerNode : m'.ownerNode = m.ownerNode
  version : m'.version = m.version
  state : m'.state = m.state
  lastValidatedVersion : m'.lastValidatedVersion = m.lastValidatedVersion

theorem BlockMeta.SameOwnership.refl (m : BlockMeta) : m.SameOwnership m := ⟨rfl, rfl, rfl, rfl⟩

theorem BlockMeta.SameOwnership.trans {a b c : BlockMeta} (h : a.SameOwnership b) (h' : b.SameOwnership c) :
    a.SameOwnership c :=
  ⟨h'.ownerNode.trans h.ownerNode, h'.version.trans h.version, h'.state.trans h.state,
    h'.lastValidatedVersion.trans h.lastValidatedVersion⟩

theorem BlockMeta.rollWindow_ownership (windowId : UInt64) (m : BlockMeta) :
    m.SameOwnership (m.rollWindow windowId) := by
  unfold BlockMeta.rollWindow
  split <;> exact ⟨rfl, rfl, rfl, rfl⟩

theorem BlockMeta.noteReuse_ownership (epoch lastEpoch : UInt64) (type : AccessType) (m : BlockMeta) :
    m.SameOwnership (m.noteReuse epoch lastEpoch type) := by
  unfold BlockMeta.noteReuse
  split <;> exact ⟨rfl, rfl, rfl, rfl⟩

theorem BlockMeta.countAccess_ownership (type : AccessType) (isLocal : Bool) (m : BlockMeta) :
    m.SameOwnership (m.countAccess type isLocal) := by
  cases type <;> exact ⟨rfl, rfl, rfl, rfl⟩

theorem BlockMeta.observe_ownership (cfg : Config) (epoch : UInt64) (type : AccessType) (isLocal : Bool)
    (m : BlockMeta) : m.SameOwnership (m.observe cfg epoch type isLocal) := by
  have start : m.SameOwnership { m with lastAccessEpoch := epoch } := ⟨rfl, rfl, rfl, rfl⟩
  have rolled := start.trans (rollWindow_ownership ((epoch - 1) / safeWindowSize cfg.profilingWindowSize) _)
  have stamped := rolled.trans (c := { rollWindow _ _ with accessEpoch := epoch }) ⟨rfl, rfl, rfl, rfl⟩
  have noted := stamped.trans (noteReuse_ownership epoch m.lastAccessEpoch type _)
  have typed := noted.trans (c := { noteReuse _ _ _ _ with lastAccessType := type }) ⟨rfl, rfl, rfl, rfl⟩
  exact typed.trans (countAccess_ownership type isLocal _)

theorem observeAccess_ownership (cfg : Config) (accessEpoch : UInt64) (m : BlockMeta) (type : AccessType)
    (isLocal : Bool) : m.SameOwnership (observeAccess cfg accessEpoch m type isLocal).2.2 := by
  apply (m.observe_ownership cfg (accessEpoch + 1) type isLocal).trans
  simp only [observeAccess]
  split <;> exact ⟨rfl, rfl, rfl, rfl⟩

/-- With a coherence override the mode is the configured one whatever the profile says. -/
theorem observeAccess_override {cfg : Config} (lower : 0 ≤ cfg.coherenceModeOverride)
    (upper : cfg.coherenceModeOverride ≤ 2) (accessEpoch : UInt64) (m : BlockMeta) (type : AccessType)
    (isLocal : Bool) :
    (observeAccess cfg accessEpoch m type isLocal).1 = CoherenceMode.ofInt cfg.coherenceModeOverride := by
  simp only [observeAccess, decideCoherenceMode]
  rw [if_pos ⟨lower, upper⟩]

end LeoMem
