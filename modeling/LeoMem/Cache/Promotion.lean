import LeoMem.Cache.History

/-!
# Promotion out of SI

A block leaves the mode SI for good when its sharer count or its invalidation cost
reaches its threshold, because both only grow. The invalidation cost has 64 bits. The
sharer count has 32, and every remote read adds to it, so 2^32 remote reads of one block
bring it back to 0 and the block back to SI.
-/

namespace LeoMem
open Lib

/-- One of the two promotion thresholds is reached. -/
def Promoted (cfg : Config) (m : BlockMeta) : Prop :=
  m.sharerCount.toNat ≥ cfg.coherenceSharerPromoteThreshold.toNat ∨
    m.invalidationCost ≥ cfg.coherenceInvalidationPromoteThreshold

/-- `coherence_mode_override` names no mode. -/
def NoOverride (cfg : Config) : Prop :=
  ¬ (0 ≤ cfg.coherenceModeOverride ∧ cfg.coherenceModeOverride ≤ CoherenceMode.kAdaptive.toInt)

instance (cfg : Config) (m : BlockMeta) : Decidable (Promoted cfg m) := inferInstanceAs (Decidable (_ ∨ _))

instance (cfg : Config) : Decidable (NoOverride cfg) := inferInstanceAs (Decidable (¬ _))

/-- The window of the record is neither empty nor full of writes or phase changes. -/
structure Calm (cfg : Config) (m : BlockMeta) : Prop where
  used : (m.windowReads.toNat : ℚ) + m.windowWrites.toNat ≠ 0
  writes : (m.windowWrites.toNat : ℚ) / (m.windowReads.toNat + m.windowWrites.toNat) < cfg.coherenceWriteDominantRatio
  phases :
    (m.phaseChangeCount.toNat : ℚ) / (m.windowReads.toNat + m.windowWrites.toNat) < cfg.coherencePhaseChangePromoteRatio

/-- Without an override a calm block is in SI until it is promoted. -/
theorem decideCoherenceMode_calm {cfg : Config} (free : NoOverride cfg) {m : BlockMeta} (calm : Calm cfg m) :
    decideCoherenceMode cfg m = if Promoted cfg m then .kAdaptive else .kSI := by
  rw [decideCoherenceMode, if_neg free]
  simp only
  rw [if_neg calm.used, if_neg (not_or.mpr ⟨not_le.mpr calm.writes, not_le.mpr calm.phases⟩)]
  rfl

/-- And any other is in WI. -/
theorem decideCoherenceMode_ne_kWI_iff {cfg : Config} (free : NoOverride cfg) (m : BlockMeta) :
    decideCoherenceMode cfg m ≠ .kWI ↔ Calm cfg m := by
  constructor
  · intro other
    rw [decideCoherenceMode, if_neg free] at other
    simp only at other
    split at other
    · exact absurd rfl other
    split at other
    · exact absurd rfl other
    · rename_i used quiet
      obtain ⟨writes, phases⟩ := not_or.mp quiet
      exact ⟨used, not_le.mp writes, not_le.mp phases⟩
  · intro calm
    rw [decideCoherenceMode_calm free calm]
    split <;> decide

theorem decideCoherenceMode_promoted {cfg : Config} (free : NoOverride cfg) {m : BlockMeta} (promoted : Promoted cfg m) :
    decideCoherenceMode cfg m ≠ .kSI := by
  by_cases calm : Calm cfg m
  · rw [decideCoherenceMode_calm free calm, if_pos promoted]
    decide
  · rw [not_not.mp (mt (decideCoherenceMode_ne_kWI_iff free m).mp calm)]
    decide

/-- The mode `ObserveAccess` returns is decided on the record it leaves. -/
theorem observe_mode (cfg : Config) (history : List Access) (access : Access) :
    ((Profile.after cfg history).observe cfg access).1 =
      decideCoherenceMode cfg ((Profile.after cfg (history ++ [access])).metas access.block) := by
  obtain ⟨switches, record⟩ := observeAccess_record cfg (Profile.after cfg history).accessEpoch
    ((Profile.after cfg history).metas access.block) access.type access.isLocal
  rw [Profile.after_snoc, Profile.observe]
  simp only [Function.update_self, record]
  rfl

theorem callsOf_append (block : BlockId) (before after : List Access) :
    callsOf block before <+: callsOf block (before ++ after) := by
  rw [callsOf, callsOf, List.zipIdx_append, List.filter_append]
  exact List.prefix_append _ _

/-- A count over a longer history is larger. -/
theorem countP_callsOf_le (block : BlockId) (before after : List Access) (p : Access × Nat → Bool) :
    (callsOf block before).countP p ≤ (callsOf block (before ++ after)).countP p :=
  (callsOf_append block before after).sublist.countP_le

/-- A promoted block stays promoted, unless its sharer count comes round. -/
theorem promoted_append {cfg : Config} {before after : List Access} (few : (before ++ after).length < 2 ^ 64)
    {block : BlockId} (reached : Promoted cfg ((Profile.after cfg before).metas block))
    (lasting : ((Profile.after cfg before).metas block).invalidationCost ≥ cfg.coherenceInvalidationPromoteThreshold ∨
      cfg.coherenceSharerPromoteThreshold = 0 ∨ remoteReadsIn (callsOf block (before ++ after)) < 2 ^ 32) :
    Promoted cfg ((Profile.after cfg (before ++ after)).metas block) := by
  have shorter : before.length < 2 ^ 64 := by
    rw [List.length_append] at few
    omega
  have early := (profiled_after cfg shorter).2 block
  have late := (profiled_after cfg few).2 block
  by_cases invalidated :
      ((Profile.after cfg before).metas block).invalidationCost ≥ cfg.coherenceInvalidationPromoteThreshold
  · refine .inr (UInt64.le_trans invalidated ?_)
    rw [UInt64.le_iff_toNat_le, early.invalidations, late.invalidations]
    exact countP_callsOf_le block before after _
  · have shared := reached.resolve_right invalidated
    rcases lasting.resolve_left invalidated with zero | narrow
    · left
      rw [zero]
      exact Nat.zero_le _
    · left
      have grows : remoteReadsIn (callsOf block before) ≤ remoteReadsIn (callsOf block (before ++ after)) :=
        countP_callsOf_le block before after _
      rw [early.sharers, Nat.mod_eq_of_lt (by omega)] at shared
      rw [late.sharers, Nat.mod_eq_of_lt narrow]
      omega

/-- Once a block has been promoted no access returns SI for it, as long as its
invalidation cost did it, or the sharer threshold is 0, or fewer than 2^32 remote reads
of it have been made in all. -/
theorem promotion_permanent {cfg : Config} (free : NoOverride cfg) {before after : List Access} {access : Access}
    (few : (before ++ after ++ [access]).length < 2 ^ 64)
    (reached : Promoted cfg ((Profile.after cfg before).metas access.block))
    (lasting : ((Profile.after cfg before).metas access.block).invalidationCost ≥
        cfg.coherenceInvalidationPromoteThreshold ∨
      cfg.coherenceSharerPromoteThreshold = 0 ∨
      remoteReadsIn (callsOf access.block (before ++ after ++ [access])) < 2 ^ 32) :
    ((Profile.after cfg (before ++ after)).observe cfg access).1 ≠ .kSI := by
  rw [observe_mode]
  apply decideCoherenceMode_promoted free
  rw [List.append_assoc] at few lasting ⊢
  exact promoted_append few reached lasting

/-! ### A sharer count that comes round -/

section ReadsOnly

variable {n : Nat}

theorem mem_replicate_calls {call : Access × Nat} (member : call ∈ callsOf {} (List.replicate n remoteRead)) :
    call.1 = remoteRead := by
  have place := (List.mem_zipIdx (List.mem_filter.mp member).1).2.2
  rw [place, List.getElem_replicate]

theorem remoteReadsIn_replicate (n : Nat) : remoteReadsIn (callsOf {} (List.replicate n remoteRead)) = n := by
  refine Eq.trans (List.countP_congr fun call member => ?_) (readsIn_replicate n)
  simp [mem_replicate_calls member, remoteRead]

/-- Reads alone make neither writes nor phase changes. -/
theorem reads_only_quiet (size : Nat) :
    writesIn (latestWindow size (callsOf {} (List.replicate n remoteRead))) = 0 ∧
      remoteWritesIn (callsOf {} (List.replicate n remoteRead)) = 0 ∧
      phaseChangesIn size (callsOf {} (List.replicate n remoteRead)) = 0 := by
  refine ⟨?_, ?_, ?_⟩
  · refine List.countP_eq_zero.mpr fun call member => ?_
    simp [mem_replicate_calls (List.mem_of_mem_filter member), remoteRead]
  · refine List.countP_eq_zero.mpr fun call member => ?_
    simp [mem_replicate_calls member, remoteRead]
  · refine List.countP_eq_zero.mpr fun p member => ?_
    obtain ⟨first, second⟩ := List.of_mem_zip member
    simp [mem_replicate_calls first, mem_replicate_calls (List.mem_of_mem_tail second)]

/-- A block that is only read remotely is in SI or adaptive, by its sharer count. -/
theorem reads_only_mode (few : n + 1 < 2 ^ 64) :
    ((Profile.after {} (List.replicate n remoteRead)).observe {} remoteRead).1 =
      if 2 ≤ (n + 1) % 2 ^ 32 then .kAdaptive else .kSI := by
  have free : NoOverride {} := by decide
  have whole : List.replicate n remoteRead ++ [remoteRead] = List.replicate (n + 1) remoteRead :=
    List.replicate_succ'.symm
  have short : (List.replicate (n + 1) remoteRead).length < 2 ^ 64 := by rwa [List.length_replicate]
  have held := (profiled_after {} short).2 {}
  have some : callsOf {} (List.replicate (n + 1) remoteRead) ≠ [] := by
    rw [List.replicate_succ', callsOf_snoc, if_pos (show remoteRead.block = {} from rfl)]
    simp
  have used := (held.exact (ordered_callsOf {} _) some).windowUsed
  obtain ⟨writes, invalidations, phases⟩ := reads_only_quiet (n := n + 1) (windowSize {})
  rw [observe_mode, whole, show remoteRead.block = {} from rfl]
  rw [← held.windowWrites] at writes
  rw [← held.phaseChanges] at phases
  rw [← held.invalidations] at invalidations
  have sharers := held.sharers
  rw [remoteReadsIn_replicate] at sharers
  generalize (Profile.after {} (List.replicate (n + 1) remoteRead)).metas {} = m at used writes phases invalidations sharers
  have calm : Calm {} m := by
    refine ⟨?_, ?_, ?_⟩
    · rw [writes, Nat.cast_zero, add_zero, Nat.cast_ne_zero]
      omega
    · rw [writes, Nat.cast_zero, zero_div]
      decide +kernel
    · rw [phases, Nat.cast_zero, zero_div]
      decide +kernel
  have promoted : Promoted {} m ↔ 2 ≤ (n + 1) % 2 ^ 32 := by
    rw [← sharers]
    refine ⟨fun reached => reached.resolve_right fun cost => ?_, .inl⟩
    have two : 2 ≤ m.invalidationCost.toNat := UInt64.le_iff_toNat_le.mp cost
    omega
  rw [decideCoherenceMode_calm free calm]
  exact if_congr promoted rfl rfl

end ReadsOnly

/-- Two remote reads promote the block, and after 2^32 of them it is in SI again. -/
theorem sharerCount_wraps :
    NoOverride {} ∧
    Promoted {} ((Profile.after {} (List.replicate 2 remoteRead)).metas {}) ∧
    ((Profile.after {} (List.replicate 2 remoteRead ++ List.replicate (2 ^ 32 - 3) remoteRead)).observe {}
      remoteRead).1 = .kSI := by
  refine ⟨by decide, by decide +kernel, ?_⟩
  rw [List.replicate_append_replicate, reads_only_mode (by decide)]
  rfl

/-- Two remote reads, then accesses of all kinds to two blocks. -/
def laterAccesses : List Access :=
  [⟨{}, .kWrite, true⟩, ⟨⟨0, 1⟩, .kRead, false⟩, ⟨{}, .kRead, true⟩, ⟨⟨0, 1⟩, .kWrite, false⟩]

theorem laterAccesses_promoted :
    NoOverride {} ∧ (List.replicate 2 remoteRead ++ laterAccesses ++ [remoteRead]).length < 2 ^ 64 ∧
    Promoted {} ((Profile.after {} (List.replicate 2 remoteRead)).metas {}) ∧
    remoteReadsIn (callsOf {} (List.replicate 2 remoteRead ++ laterAccesses ++ [remoteRead])) < 2 ^ 32 ∧
    ((Profile.after {} (List.replicate 2 remoteRead ++ laterAccesses)).observe {} remoteRead).1 ≠ .kSI := by
  have free : NoOverride {} := by decide
  have few : (List.replicate 2 remoteRead ++ laterAccesses ++ [remoteRead]).length < 2 ^ 64 := by decide
  have reached : Promoted {} ((Profile.after {} (List.replicate 2 remoteRead)).metas {}) := by decide +kernel
  have narrow : remoteReadsIn (callsOf {} (List.replicate 2 remoteRead ++ laterAccesses ++ [remoteRead])) < 2 ^ 32 := by
    decide +kernel
  exact ⟨free, few, reached, narrow, promotion_permanent free few reached (.inr (.inr narrow))⟩

end LeoMem
