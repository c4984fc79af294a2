import LeoMem.Cache.Promotion
import Mathlib.Algebra.Order.Field.Basic
import Mathlib.Tactic.Linarith
import Mathlib.Tactic.Ring

/-!
# Cache admission of a block that is read again and again

Of the conditions `ShouldCache` puts on a record, further reads of the block keep all but
one: the read count grows, the shares of writes and phase changes in the window fall or
start over at 0, and the mode does not turn to WI. The exception is the sharer count,
which every remote read raises, also when it is always the same node that reads.
-/

namespace LeoMem
open Lib

/-! ### Ratios -/

section Ratios

variable {a t bound : ℚ}

theorem share_lt (nonneg : 0 ≤ a) (pos : 0 < t) (below : a / t < bound) : a / (t + 1) < bound :=
  lt_of_le_of_lt (div_le_div_of_nonneg_left nonneg pos (by linarith)) below

theorem share_le (nonneg : 0 ≤ a) (pos : 0 < t) (below : a / t ≤ bound) : a / (t + 1) ≤ bound :=
  le_trans (div_le_div_of_nonneg_left nonneg pos (by linarith)) below

theorem le_share (part : a ≤ t) (pos : 0 < t) (above : bound ≤ a / t) : bound ≤ (a + 1) / (t + 1) := by
  refine le_trans above ?_
  rw [div_le_div_iff₀ pos (by linarith)]
  linarith

end Ratios

/-- What `ShouldCache` asks of a record under the profiled policy, the sharer count apart. -/
structure Admitted (cfg : Config) (m : BlockMeta) : Prop where
  enabled : cfg.enableCache = true
  used : (m.windowReads.toNat : ℚ) + m.windowWrites.toNat ≠ 0
  reads : m.readCount ≥ cfg.cacheAdmissionMinReads
  writes : m.writeCount ≤ cfg.cacheAdmissionMaxWrites
  reuse : m.lastReuseDistance ≤ cfg.cacheAdmissionMaxReuseDistance
  readRatio : (m.windowReads.toNat : ℚ) / (m.windowReads.toNat + m.windowWrites.toNat) ≥ cfg.cacheAdmissionMinReadRatio
  phaseRatio :
    (m.phaseChangeCount.toNat : ℚ) / (m.windowReads.toNat + m.windowWrites.toNat) ≤
      cfg.cacheAdmissionMaxPhaseChangeRatio
  mode : m.mode ≠ .kWI
  invalidations : m.invalidationCost ≤ m.writeCount + 1

/-- Neither of the two policies that ignore the profile. -/
def ProfiledPolicy (cfg : Config) : Prop := cfg.cacheAdmissionPolicy ≠ 1 ∧ cfg.cacheAdmissionPolicy ≠ 2

theorem shouldCache_iff {cfg : Config} (policy : ProfiledPolicy cfg) (m : BlockMeta) :
    shouldCache cfg m = true ↔ Admitted cfg m ∧ m.sharerCount.toNat ≤ cfg.cacheAdmissionMaxSharers.toNat := by
  unfold shouldCache
  by_cases enabled : cfg.enableCache = false
  · rw [if_pos enabled]
    refine ⟨fun no => absurd no (by decide), fun held => ?_⟩
    exact absurd held.1.enabled (by simp [enabled])
  rw [if_neg enabled, if_neg policy.1, if_neg policy.2]
  simp only
  by_cases used : (m.windowReads.toNat : ℚ) + m.windowWrites.toNat = 0
  · rw [if_pos used]
    exact ⟨fun no => absurd no (by decide), fun held => absurd used held.1.used⟩
  rw [if_neg used, decide_eq_true_iff]
  constructor
  · rintro ⟨reads, writes, sharers, reuse, readRatio, phaseRatio, mode, invalidations⟩
    exact ⟨⟨by simpa using enabled, used, reads, writes, reuse, readRatio, phaseRatio, mode, invalidations⟩, sharers⟩
  · rintro ⟨held, sharers⟩
    exact ⟨held.reads, held.writes, sharers, held.reuse, held.readRatio, held.phaseRatio, held.mode, held.invalidations⟩

/-! ### Windows -/

/-- What the window of a record has to show: the mode is not WI, and both ratios of the
admission are kept. -/
structure GoodWindow (cfg : Config) (m : BlockMeta) : Prop where
  calm : Calm cfg m
  readRatio : (m.windowReads.toNat : ℚ) / (m.windowReads.toNat + m.windowWrites.toNat) ≥ cfg.cacheAdmissionMinReadRatio
  phaseRatio : (m.phaseChangeCount.toNat : ℚ) / (m.windowReads.toNat + m.windowWrites.toNat) ≤
    cfg.cacheAdmissionMaxPhaseChangeRatio

section Window

variable {cfg : Config} {m m' : BlockMeta}

theorem GoodWindow.total_pos (good : GoodWindow cfg m) : (0 : ℚ) < m.windowReads.toNat + m.windowWrites.toNat :=
  lt_of_le_of_ne (add_nonneg (Nat.cast_nonneg _) (Nat.cast_nonneg _)) (Ne.symm good.calm.used)

/-- One more read in the same window. -/
theorem GoodWindow.read_more (good : GoodWindow cfg m) (reads : m'.windowReads.toNat = m.windowReads.toNat + 1)
    (writes : m'.windowWrites = m.windowWrites) (phases : m'.phaseChangeCount = m.phaseChangeCount) : GoodWindow cfg m' := by
  have total := good.total_pos
  have writesNonneg : (0 : ℚ) ≤ m.windowWrites.toNat := Nat.cast_nonneg _
  have phasesNonneg : (0 : ℚ) ≤ m.phaseChangeCount.toNat := Nat.cast_nonneg _
  obtain ⟨⟨used, writeShare, phaseShare⟩, readRatio, phaseRatio⟩ := good
  have sum : (m'.windowReads.toNat : ℚ) + m'.windowWrites.toNat = m.windowReads.toNat + m.windowWrites.toNat + 1 := by
    rw [reads, writes, Nat.cast_add, Nat.cast_one]
    ring
  refine ⟨⟨?_, ?_, ?_⟩, ?_, ?_⟩
  · rw [sum]
    linarith
  · rw [sum, writes]
    exact share_lt writesNonneg total writeShare
  · rw [sum, phases]
    exact share_lt phasesNonneg total phaseShare
  · rw [sum, reads, Nat.cast_add, Nat.cast_one]
    exact le_share (by linarith) total readRatio
  · rw [sum, phases]
    exact share_le phasesNonneg total phaseRatio

/-- A read that starts a window: its ratios are 1 and 0, the best there are. -/
theorem GoodWindow.read_first (good : GoodWindow cfg m) (reads : m'.windowReads.toNat = 1) (writes : m'.windowWrites = 0)
    (phases : m'.phaseChangeCount = 0) : GoodWindow cfg m' := by
  have total := good.total_pos
  have writesNonneg : (0 : ℚ) ≤ m.windowWrites.toNat := Nat.cast_nonneg _
  have phasesNonneg : (0 : ℚ) ≤ m.phaseChangeCount.toNat := Nat.cast_nonneg _
  obtain ⟨⟨used, writeShare, phaseShare⟩, readRatio, phaseRatio⟩ := good
  have sum : (m'.windowReads.toNat : ℚ) + m'.windowWrites.toNat = 1 := by
    rw [reads, writes, UInt64.toNat_zero, Nat.cast_one, Nat.cast_zero, add_zero]
  refine ⟨⟨?_, ?_, ?_⟩, ?_, ?_⟩
  · rw [sum]
    exact one_ne_zero
  · rw [writes, UInt64.toNat_zero, Nat.cast_zero, zero_div]
    exact lt_of_le_of_lt (div_nonneg writesNonneg total.le) writeShare
  · rw [phases, UInt64.toNat_zero, Nat.cast_zero, zero_div]
    exact lt_of_le_of_lt (div_nonneg phasesNonneg total.le) phaseShare
  · rw [sum, reads, Nat.cast_one, div_one]
    exact readRatio.trans ((div_le_one total).mpr (by linarith))
  · rw [phases, UInt64.toNat_zero, Nat.cast_zero, zero_div]
    exact (div_nonneg phasesNonneg total.le).trans phaseRatio

end Window

/-! ### One more read -/

/-- A block that was admitted and read in the latest call. -/
structure Hot (cfg : Config) (p : Profile) (block : BlockId) : Prop where
  admitted : Admitted cfg (p.metas block)
  decided : (p.metas block).mode = decideCoherenceMode cfg (p.metas block)
  lastRead : (p.metas block).lastAccessType = .kRead
  latest : (p.metas block).lastAccessEpoch = p.accessEpoch
  started : p.accessEpoch ≠ 0
  counted : (p.metas block).readCount.toNat ≤ p.accessEpoch.toNat
  windowCounted : (p.metas block).windowReads.toNat ≤ p.accessEpoch.toNat

/-- A read of `block` from another node. -/
def remoteReadOf (block : BlockId) : Access := { block := block, type := .kRead, isLocal := false }

section Read

variable {cfg : Config} {p : Profile} {block : BlockId}

/-- The record on which the next read is decided: its window goes on or starts over. -/
theorem Hot.observed (hot : Hot cfg p block) :
    (p.metas block).observe cfg (p.accessEpoch + 1) .kRead false =
      { p.metas block with
        accessEpoch := p.accessEpoch + 1
        lastAccessEpoch := p.accessEpoch + 1
        lastAccessType := .kRead
        readCount := (p.metas block).readCount + 1
        sharerCount := (p.metas block).sharerCount + 1
        windowId := windowIdOf cfg (p.accessEpoch + 1)
        windowReads :=
          (if windowIdOf cfg (p.accessEpoch + 1) = (p.metas block).windowId then (p.metas block).windowReads else 0) + 1
        windowWrites :=
          if windowIdOf cfg (p.accessEpoch + 1) = (p.metas block).windowId then (p.metas block).windowWrites else 0
        phaseChangeCount :=
          if windowIdOf cfg (p.accessEpoch + 1) = (p.metas block).windowId then (p.metas block).phaseChangeCount else 0
        lastReuseDistance := 1 } := by
  have distance : p.accessEpoch + 1 - p.accessEpoch = 1 := by grind
  rw [BlockMeta.observe_eq]
  simp [hot.started, hot.lastRead, hot.latest, distance]

/-- The window of that record is at least as full of reads. -/
theorem Hot.window (hot : Hot cfg p block) (free : NoOverride cfg) (room : p.accessEpoch.toNat + 1 < 2 ^ 64)
    {m : BlockMeta}
    (reads : m.windowReads =
      (if windowIdOf cfg (p.accessEpoch + 1) = (p.metas block).windowId then (p.metas block).windowReads else 0) + 1)
    (writes : m.windowWrites =
      if windowIdOf cfg (p.accessEpoch + 1) = (p.metas block).windowId then (p.metas block).windowWrites else 0)
    (phases : m.phaseChangeCount =
      if windowIdOf cfg (p.accessEpoch + 1) = (p.metas block).windowId then (p.metas block).phaseChangeCount else 0) :
    GoodWindow cfg m ∧ m.windowReads.toNat ≤ p.accessEpoch.toNat + 1 := by
  have good : GoodWindow cfg (p.metas block) :=
    ⟨(decideCoherenceMode_ne_kWI_iff free _).mp (hot.decided ▸ hot.admitted.mode), hot.admitted.readRatio,
      hot.admitted.phaseRatio⟩
  have counted := hot.windowCounted
  by_cases same : windowIdOf cfg (p.accessEpoch + 1) = (p.metas block).windowId
  · rw [if_pos same] at reads writes phases
    have count : m.windowReads.toNat = (p.metas block).windowReads.toNat + 1 := by
      rw [reads, toNat_succ (by omega)]
    exact ⟨good.read_more count writes phases, by omega⟩
  · rw [if_neg same] at reads writes phases
    have count : m.windowReads.toNat = 1 := by
      rw [reads]
      rfl
    exact ⟨good.read_first count writes phases, by omega⟩

theorem Hot.read (hot : Hot cfg p block) (free : NoOverride cfg) (distance : 1 ≤ cfg.cacheAdmissionMaxReuseDistance)
    (room : p.accessEpoch.toNat + 1 < 2 ^ 64) :
    Hot cfg (p.observe cfg (remoteReadOf block)).2 block ∧
      ((p.observe cfg (remoteReadOf block)).2.metas block).sharerCount = (p.metas block).sharerCount + 1 := by
  obtain ⟨switches, record⟩ := observeAccess_record cfg p.accessEpoch (p.metas block) .kRead false
  have next : (p.observe cfg (remoteReadOf block)).2.metas block = _ := (Function.update_self _ _ _).trans record
  have epoch : (p.observe cfg (remoteReadOf block)).2.accessEpoch = p.accessEpoch + 1 := rfl
  have advanced := toNat_succ room
  have counted := hot.counted
  have observed := hot.observed
  generalize (p.metas block).observe cfg (p.accessEpoch + 1) .kRead false = m at next observed
  obtain ⟨⟨calm, readRatio, phaseRatio⟩, windowCounted⟩ := hot.window (m := m) free room
    (by rw [observed]) (by rw [observed]) (by rw [observed])
  have reads : m.readCount = (p.metas block).readCount + 1 := by rw [observed]
  have more : m.readCount.toNat = (p.metas block).readCount.toNat + 1 := by
    rw [reads, toNat_succ (by omega)]
  have enough := UInt64.le_iff_toNat_le.mp hot.admitted.reads
  have started : p.accessEpoch + 1 ≠ 0 := fun zero => by
    rw [zero] at advanced
    cases advanced
  refine ⟨⟨⟨hot.admitted.enabled, ?_, ?_, ?_, ?_, ?_, ?_, ?_, ?_⟩, ?_, ?_, ?_, started, ?_, ?_⟩, ?_⟩
  all_goals rw [next]
  · exact calm.used
  · show cfg.cacheAdmissionMinReads ≤ m.readCount
    rw [UInt64.le_iff_toNat_le]
    omega
  · show m.writeCount ≤ _
    rw [observed]
    exact hot.admitted.writes
  · show m.lastReuseDistance ≤ _
    rw [observed]
    exact distance
  · exact readRatio
  · exact phaseRatio
  · exact (decideCoherenceMode_ne_kWI_iff free m).mpr calm
  · show m.invalidationCost ≤ m.writeCount + 1
    rw [observed]
    exact hot.admitted.invalidations
  · rfl
  · show m.lastAccessType = _
    rw [observed]
  · show m.lastAccessEpoch = _
    rw [observed, epoch]
  · show m.readCount.toNat ≤ _
    rw [epoch]
    omega
  · show m.windowReads.toNat ≤ _
    rw [epoch]
    omega
  · show m.sharerCount = _
    rw [observed]

/-- The block after `k` more reads. -/
theorem Hot.reads {history : List Access} (hot : Hot cfg (Profile.after cfg history) block) (free : NoOverride cfg)
    (distance : 1 ≤ cfg.cacheAdmissionMaxReuseDistance) {k : Nat} (few : history.length + k < 2 ^ 64) :
    Hot cfg (Profile.after cfg (history ++ List.replicate k (remoteReadOf block))) block ∧
      ((Profile.after cfg (history ++ List.replicate k (remoteReadOf block))).metas block).sharerCount =
        ((Profile.after cfg history).metas block).sharerCount + UInt32.ofNat k := by
  induction k with
  | zero =>
    rw [List.replicate_zero, List.append_nil]
    exact ⟨hot, (UInt32.add_zero _).symm⟩
  | succ k ih =>
    obtain ⟨held, sharers⟩ := ih (by omega)
    have short : (history ++ List.replicate k (remoteReadOf block)).length < 2 ^ 64 := by
      rw [List.length_append, List.length_replicate]
      omega
    have epoch := (profiled_after cfg short).1
    rw [List.length_append, List.length_replicate] at epoch
    obtain ⟨next, one⟩ := held.read free distance (by omega)
    rw [List.replicate_succ', ← List.append_assoc, Profile.after_snoc]
    refine ⟨next, one.trans ?_⟩
    rw [sharers, UInt32.ofNat_add, UInt32.add_assoc]
    rfl

/-- A history that ends with a read of an admitted block. -/
theorem hot_of_read {front : List Access} {access : Access} (read : access.type = .kRead)
    (few : front.length + 1 < 2 ^ 64)
    (admitted : Admitted cfg ((Profile.after cfg (front ++ [access])).metas access.block)) :
    Hot cfg (Profile.after cfg (front ++ [access])) access.block := by
  have short : (front ++ [access]).length < 2 ^ 64 := by
    rw [List.length_append]
    exact few
  obtain ⟨epoch, records⟩ := profiled_after cfg short
  have held := records access.block
  have length := length_callsOf_le access.block (front ++ [access])
  rw [List.length_append, List.length_singleton] at epoch length
  have last : callsOf access.block (front ++ [access]) = callsOf access.block front ++ [(access, front.length + 1)] := by
    rw [callsOf_snoc, if_pos rfl]
  refine ⟨admitted, ?_, ?_, ?_, ?_, ?_, ?_⟩
  · obtain ⟨switches, record⟩ := observeAccess_record cfg (Profile.after cfg front).accessEpoch
      ((Profile.after cfg front).metas access.block) access.type access.isLocal
    rw [Profile.after_snoc, Profile.observe]
    simp only [Function.update_self, record]
    rfl
  · rw [held.lastType (access, front.length + 1) (by rw [last]; simp), read]
  · rw [← UInt64.toNat_inj, held.lastEpoch, last, lastNumber_snoc, epoch]
  · intro zero
    rw [zero] at epoch
    cases epoch
  · rw [held.reads, epoch]
    exact List.countP_le_length.trans length
  · rw [held.windowReads, epoch]
    exact List.countP_le_length.trans ((List.length_filter_le _ _).trans length)

end Read

/-- Under the profiled policy, a block that is admitted after a read stays admitted through
`k` further remote reads exactly as long as its 32-bit sharer count, which each of them
raises, is within its bound. -/
theorem admission_after_reads {cfg : Config} (policy : ProfiledPolicy cfg) (free : NoOverride cfg)
    (distance : 1 ≤ cfg.cacheAdmissionMaxReuseDistance) {front : List Access} {access : Access}
    (read : access.type = .kRead) {k : Nat} (few : front.length + 1 + k < 2 ^ 64)
    (cached : shouldCache cfg ((Profile.after cfg (front ++ [access])).metas access.block) = true) :
    shouldCache cfg ((Profile.after cfg
        (front ++ [access] ++ List.replicate k (remoteReadOf access.block))).metas access.block) = true ↔
      (((Profile.after cfg (front ++ [access])).metas access.block).sharerCount.toNat + k) % 2 ^ 32 ≤
        cfg.cacheAdmissionMaxSharers.toNat := by
  have hot := hot_of_read read (by omega) ((shouldCache_iff policy _).mp cached).1
  obtain ⟨held, sharers⟩ := hot.reads free distance (k := k) (by rw [List.length_append]; exact few)
  have count : (((Profile.after cfg (front ++ [access])).metas access.block).sharerCount + UInt32.ofNat k).toNat =
      (((Profile.after cfg (front ++ [access])).metas access.block).sharerCount.toNat + k) % 2 ^ 32 := by
    rw [UInt32.toNat_add, UInt32.toNat_ofNat', Nat.add_mod_mod]
  rw [shouldCache_iff policy, sharers, count]
  exact and_iff_right held.admitted

/-- The third read of a block by one and the same node makes it inadmissible. -/
theorem third_read_rejected :
    ProfiledPolicy {} ∧ NoOverride {} ∧ 1 ≤ ({} : Config).cacheAdmissionMaxReuseDistance ∧
    shouldCache {} ((Profile.after {} [remoteReadOf {}, remoteReadOf {}]).metas {}) = true ∧
    shouldCache {} ((Profile.after {} [remoteReadOf {}, remoteReadOf {}, remoteReadOf {}]).metas {}) = false := by
  refine ⟨⟨by decide, by decide⟩, by decide, by decide, ?_, ?_⟩
  · decide +kernel
  · decide +kernel

/-- Up to eight sharers are admitted. -/
def eightSharers : Config := { cacheAdmissionMaxSharers := 8 }

theorem more_reads_admitted :
    ProfiledPolicy eightSharers ∧ NoOverride eightSharers ∧ 1 ≤ eightSharers.cacheAdmissionMaxReuseDistance ∧
    shouldCache eightSharers
      ((Profile.after eightSharers ([remoteRead] ++ [remoteRead])).metas remoteRead.block) = true ∧
    shouldCache eightSharers ((Profile.after eightSharers
      ([remoteRead] ++ [remoteRead] ++ List.replicate 5 (remoteReadOf remoteRead.block))).metas
        remoteRead.block) = true := by
  have policy : ProfiledPolicy eightSharers := ⟨by decide, by decide⟩
  have free : NoOverride eightSharers := by decide
  have distance : 1 ≤ eightSharers.cacheAdmissionMaxReuseDistance := by decide
  have cached : shouldCache eightSharers
      ((Profile.after eightSharers ([remoteRead] ++ [remoteRead])).metas remoteRead.block) = true := by decide +kernel
  have few : [remoteRead].length + 1 + 5 < 2 ^ 64 := by decide
  exact ⟨policy, free, distance, cached,
    (admission_after_reads policy free distance rfl few cached).mpr (by decide +kernel)⟩

end LeoMem
