import LeoMem.Lib.Assignments
import LeoMem.Lib.Text
import LeoMem.Types

/-!
# Configuration files

`runtime/config_loader.cc`. A file is read line by line, and every known key stores at once,
until a number is met that `std::stoul` or one of its siblings does not take: that throws, with
the lines before it stored. `std::stod` is a parameter. What a file means does not
depend on the order of its lines but for the last one of each key (`config_file_meaning`).
-/

namespace LeoMem
open Lib

/-- `Config` with the options of the transport and the paths. -/
structure FileConfig extends Config where
  enableRdma : Bool := false
  rdmaDeviceName : Text := []
  rdmaPort : UInt8 := 1
  rdmaGidIndex : UInt8 := 0
  rdmaMaxInlineBytes : UInt64 := 256
  rdmaCqDepth : UInt64 := 1024
  rdmaSqDepth : UInt64 := 1024
  rdmaRqDepth : UInt64 := 1024
  rdmaBootstrapTimeoutMs : UInt64 := 30000
  rdmaExchangeDir : Text := []
  clusterConfigPath : Text := []

/-! ## Keys -/

/-- The keys that `ApplyKV` knows, in its order. -/
inductive ConfigKey where
  | nodeId | nrNodes | blockSize | localRegionSize | enableRdma | enableCache | enableWriteBatching
  | rdmaEnableControlPath | coherenceModeOverride | cacheAdmissionPolicy | controlAckTimeoutPolls
  | controlAckMaxRetries | rdmaDeviceName | rdmaPort | rdmaGidIndex | rdmaMaxInlineBytes | rdmaCqDepth
  | rdmaSqDepth | rdmaRqDepth | rdmaBootstrapTimeoutMs | rdmaExchangeDir | profilingWindowSize
  | cacheCapacityBytes | cacheAdmissionMinReads | cacheAdmissionMaxWrites | cacheAdmissionMaxSharers
  | cacheAdmissionMaxReuseDistance | cacheAdmissionMinReadRatio | cacheAdmissionMaxPhaseChangeRatio
  | remoteWriteBatchThreshold | coherenceSharerPromoteThreshold | coherenceInvalidationPromoteThreshold
  | coherenceWriteDominantRatio | coherencePhaseChangePromoteRatio | adaptiveModeBatchThreshold
  deriving DecidableEq, Repr

namespace ConfigKey

def all : List ConfigKey :=
  [.nodeId, .nrNodes, .blockSize, .localRegionSize, .enableRdma, .enableCache, .enableWriteBatching,
   .rdmaEnableControlPath, .coherenceModeOverride, .cacheAdmissionPolicy, .controlAckTimeoutPolls,
   .controlAckMaxRetries, .rdmaDeviceName, .rdmaPort, .rdmaGidIndex, .rdmaMaxInlineBytes, .rdmaCqDepth,
   .rdmaSqDepth, .rdmaRqDepth, .rdmaBootstrapTimeoutMs, .rdmaExchangeDir, .profilingWindowSize,
   .cacheCapacityBytes, .cacheAdmissionMinReads, .cacheAdmissionMaxWrites, .cacheAdmissionMaxSharers,
   .cacheAdmissionMaxReuseDistance, .cacheAdmissionMinReadRatio, .cacheAdmissionMaxPhaseChangeRatio,
   .remoteWriteBatchThreshold, .coherenceSharerPromoteThreshold, .coherenceInvalidationPromoteThreshold,
   .coherenceWriteDominantRatio, .coherencePhaseChangePromoteRatio, .adaptiveModeBatchThreshold]

def name : ConfigKey → String
  | .nodeId => "node_id"
  | .nrNodes => "nr_nodes"
  | .blockSize => "block_size"
  | .localRegionSize => "local_region_size"
  | .enableRdma => "enable_rdma"
  | .enableCache => "enable_cache"
  | .enableWriteBatching => "enable_write_batching"
  | .rdmaEnableControlPath => "rdma_enable_control_path"
  | .coherenceModeOverride => "coherence_mode_override"
  | .cacheAdmissionPolicy => "cache_admission_policy"
  | .controlAckTimeoutPolls => "control_ack_timeout_polls"
  | .controlAckMaxRetries => "control_ack_max_retries"
  | .rdmaDeviceName => "rdma_device_name"
  | .rdmaPort => "rdma_port"
  | .rdmaGidIndex => "rdma_gid_index"
  | .rdmaMaxInlineBytes => "rdma_max_inline_bytes"
  | .rdmaCqDepth => "rdma_cq_depth"
  | .rdmaSqDepth => "rdma_sq_depth"
  | .rdmaRqDepth => "rdma_rq_depth"
  | .rdmaBootstrapTimeoutMs => "rdma_bootstrap_timeout_ms"
  | .rdmaExchangeDir => "rdma_exchange_dir"
  | .profilingWindowSize => "profiling_window_size"
  | .cacheCapacityBytes => "cache_capacity_bytes"
  | .cacheAdmissionMinReads => "cache_admission_min_reads"
  | .cacheAdmissionMaxWrites => "cache_admission_max_writes"
  | .cacheAdmissionMaxSharers => "cache_admission_max_sharers"
  | .cacheAdmissionMaxReuseDistance => "cache_admission_max_reuse_distance"
  | .cacheAdmissionMinReadRatio => "cache_admission_min_read_ratio"
  | .cacheAdmissionMaxPhaseChangeRatio => "cache_admission_max_phase_change_ratio"
  | .remoteWriteBatchThreshold => "remote_write_batch_threshold"
  | .coherenceSharerPromoteThreshold => "coherence_sharer_promote_threshold"
  | .coherenceInvalidationPromoteThreshold => "coherence_invalidation_promote_threshold"
  | .coherenceWriteDominantRatio => "coherence_write_dominant_ratio"
  | .coherencePhaseChangePromoteRatio => "coherence_phase_change_promote_ratio"
  | .adaptiveModeBatchThreshold => "adaptive_mode_batch_threshold"

/-- The type of the option that a key sets. -/
def Value : ConfigKey → Type
  | .nodeId | .nrNodes => UInt16
  | .rdmaPort | .rdmaGidIndex => UInt8
  | .enableRdma | .enableCache | .enableWriteBatching | .rdmaEnableControlPath => Bool
  | .coherenceModeOverride | .cacheAdmissionPolicy => Int
  | .rdmaDeviceName | .rdmaExchangeDir => Text
  | .cacheAdmissionMinReadRatio | .cacheAdmissionMaxPhaseChangeRatio | .coherenceWriteDominantRatio
  | .coherencePhaseChangePromoteRatio => ℚ
  | .blockSize | .localRegionSize | .controlAckTimeoutPolls | .controlAckMaxRetries | .rdmaMaxInlineBytes
  | .rdmaCqDepth | .rdmaSqDepth | .rdmaRqDepth | .rdmaBootstrapTimeoutMs | .profilingWindowSize
  | .cacheCapacityBytes | .cacheAdmissionMinReads | .cacheAdmissionMaxWrites | .cacheAdmissionMaxSharers
  | .cacheAdmissionMaxReuseDistance | .remoteWriteBatchThreshold | .coherenceSharerPromoteThreshold
  | .coherenceInvalidationPromoteThreshold | .adaptiveModeBatchThreshold => UInt64

def set : (k : ConfigKey) → k.Value → FileConfig → FileConfig
  | .nodeId, x, cfg => { cfg with nodeId := x }
  | .nrNodes, x, cfg => { cfg with nrNodes := x }
  | .blockSize, x, cfg => { cfg with blockSize := x }
  | .localRegionSize, x, cfg => { cfg with localRegionSize := x }
  | .enableRdma, x, cfg => { cfg with enableRdma := x }
  | .enableCache, x, cfg => { cfg with enableCache := x }
  | .enableWriteBatching, x, cfg => { cfg with enableWriteBatching := x }
  | .rdmaEnableControlPath, x, cfg => { cfg with rdmaEnableControlPath := x }
  | .coherenceModeOverride, x, cfg => { cfg with coherenceModeOverride := x }
  | .cacheAdmissionPolicy, x, cfg => { cfg with cacheAdmissionPolicy := x }
  | .controlAckTimeoutPolls, x, cfg => { cfg with controlAckTimeoutPolls := x }
  | .controlAckMaxRetries, x, cfg => { cfg with controlAckMaxRetries := x }
  | .rdmaDeviceName, x, cfg => { cfg with rdmaDeviceName := x }
  | .rdmaPort, x, cfg => { cfg with rdmaPort := x }
  | .rdmaGidIndex, x, cfg => { cfg with rdmaGidIndex := x }
  | .rdmaMaxInlineBytes, x, cfg => { cfg with rdmaMaxInlineBytes := x }
  | .rdmaCqDepth, x, cfg => { cfg with rdmaCqDepth := x }
  | .rdmaSqDepth, x, cfg => { cfg with rdmaSqDepth := x }
  | .rdmaRqDepth, x, cfg => { cfg with rdmaRqDepth := x }
  | .rdmaBootstrapTimeoutMs, x, cfg => { cfg with rdmaBootstrapTimeoutMs := x }
  | .rdmaExchangeDir, x, cfg => { cfg with rdmaExchangeDir := x }
  | .profilingWindowSize, x, cfg => { cfg with profilingWindowSize := x }
  | .cacheCapacityBytes, x, cfg => { cfg with cacheCapacityBytes := x }
  | .cacheAdmissionMinReads, x, cfg => { cfg with cacheAdmissionMinReads := x }
  | .cacheAdmissionMaxWrites, x, cfg => { cfg with cacheAdmissionMaxWrites := x }
  | .cacheAdmissionMaxSharers, x, cfg => { cfg with cacheAdmissionMaxSharers := x }
  | .cacheAdmissionMaxReuseDistance, x, cfg => { cfg with cacheAdmissionMaxReuseDistance := x }
  | .cacheAdmissionMinReadRatio, x, cfg => { cfg with cacheAdmissionMinReadRatio := x }
  | .cacheAdmissionMaxPhaseChangeRatio, x, cfg => { cfg with cacheAdmissionMaxPhaseChangeRatio := x }
  | .remoteWriteBatchThreshold, x, cfg => { cfg with remoteWriteBatchThreshold := x }
  | .coherenceSharerPromoteThreshold, x, cfg => { cfg with coherenceSharerPromoteThreshold := x }
  | .coherenceInvalidationPromoteThreshold, x, cfg => { cfg with coherenceInvalidationPromoteThreshold := x }
  | .coherenceWriteDominantRatio, x, cfg => { cfg with coherenceWriteDominantRatio := x }
  | .coherencePhaseChangePromoteRatio, x, cfg => { cfg with coherencePhaseChangePromoteRatio := x }
  | .adaptiveModeBatchThreshold, x, cfg => { cfg with adaptiveModeBatchThreshold := x }

theorem mem_all (k : ConfigKey) : k ∈ all := by cases k <;> decide

theorem nodup_all : all.Nodup := by decide

/-- Different keys set different options. -/
theorem set_apart {k k' : ConfigKey} (ne : k ≠ k') (x : k.Value) (x' : k'.Value) (cfg : FileConfig) :
    k.set x (k'.set x' cfg) = k'.set x' (k.set x cfg) := by
  cases k <;> cases k' <;> first | rfl | exact absurd rfl ne

theorem set_hides (k : ConfigKey) (x y : k.Value) (cfg : FileConfig) : k.set x (k.set y cfg) = k.set x cfg := by
  cases k <;> rfl

end ConfigKey

/-! ## Values -/

def parseFlag (value : Text) : Bool := value = "1".toList ∨ value = "true".toList

def parseCoherenceModeOverride (value : Text) : Except NumberError Int :=
  if value = "wi".toList ∨ value = "WI".toList then .ok 0
  else if value = "si".toList ∨ value = "SI".toList then .ok 1
  else if value = "adaptive".toList ∨ value = "ADAPTIVE".toList then .ok 2
  else stoi value

def parseAdmissionPolicy (value : Text) : Except NumberError Int :=
  if value = "profiled".toList then .ok 0
  else if value = "always".toList then .ok 1
  else if value = "never".toList then .ok 2
  else stoi value

section
variable (stod : Text → Except NumberError ℚ)

def ConfigKey.parse (value : Text) : (k : ConfigKey) → Except NumberError k.Value
  | .nodeId => (stoull value).map UInt64.toUInt16
  | .nrNodes => (stoull value).map UInt64.toUInt16
  | .blockSize => stoull value
  | .localRegionSize => stoull value
  | .enableRdma => .ok (parseFlag value)
  | .enableCache => .ok (parseFlag value)
  | .enableWriteBatching => .ok (parseFlag value)
  | .rdmaEnableControlPath => .ok (parseFlag value)
  | .coherenceModeOverride => parseCoherenceModeOverride value
  | .cacheAdmissionPolicy => parseAdmissionPolicy value
  | .controlAckTimeoutPolls => stoull value
  | .controlAckMaxRetries => stoull value
  | .rdmaDeviceName => .ok value
  | .rdmaPort => (stoull value).map UInt64.toUInt8
  | .rdmaGidIndex => (stoull value).map UInt64.toUInt8
  | .rdmaMaxInlineBytes => stoull value
  | .rdmaCqDepth => stoull value
  | .rdmaSqDepth => stoull value
  | .rdmaRqDepth => stoull value
  | .rdmaBootstrapTimeoutMs => stoull value
  | .rdmaExchangeDir => .ok value
  | .profilingWindowSize => stoull value
  | .cacheCapacityBytes => stoull value
  | .cacheAdmissionMinReads => stoull value
  | .cacheAdmissionMaxWrites => stoull value
  | .cacheAdmissionMaxSharers => stoull value
  | .cacheAdmissionMaxReuseDistance => stoull value
  | .cacheAdmissionMinReadRatio => stod value
  | .cacheAdmissionMaxPhaseChangeRatio => stod value
  | .remoteWriteBatchThreshold => stoull value
  | .coherenceSharerPromoteThreshold => stoull value
  | .coherenceInvalidationPromoteThreshold => stoull value
  | .coherenceWriteDominantRatio => stod value
  | .coherencePhaseChangePromoteRatio => stod value
  | .adaptiveModeBatchThreshold => stoull value

/-- The key with this name, if `ApplyKV` knows it. -/
def ConfigKey.ofName? (key : Text) : Option ConfigKey := ConfigKey.all.find? fun k => k.name.toList = key

def applyKV (key value : Text) (cfg : FileConfig) : Except NumberError FileConfig :=
  match ConfigKey.ofName? key with
  | none => .ok cfg
  | some k => (k.parse stod value).map fun x => k.set x cfg

/-! ## The loop -/

/-- Key and value of a line; empty lines, comments and lines without `=` have none. -/
def configLine (line : Text) : Option (Text × Text) :=
  if line.isEmpty ∨ line.head? = some '#' then none else splitAt '=' line

/-- The loop over the lines, with what is stored where it throws. -/
def applyLines : List Text → FileConfig → Except NumberError Unit × FileConfig
  | [], cfg => (.ok (), cfg)
  | line :: lines, cfg =>
    match configLine line with
    | none => applyLines lines cfg
    | some (key, value) =>
      match applyKV stod key value cfg with
      | .error e => (.error e, cfg)
      | .ok cfg => applyLines lines cfg

/-- `LoadConfigFile`, where `open?` gives the content of a file that can be opened. -/
def loadConfigFile (open? : Text → Option Text) (path : Text) (cfg : FileConfig) :
    Except NumberError Status × FileConfig :=
  if path.isEmpty then (.ok .kOk, cfg)
  else
    match open? path with
    | none => (.ok .kNotFound, cfg)
    | some content =>
      match applyLines stod (getLines content) cfg with
      | (.error e, cfg) => (.error e, cfg)
      | (.ok (), cfg) => (.ok .kOk, { cfg with clusterConfigPath := path })

/-! ## What a file means -/

/-- The known key and the value that a line assigns to it. -/
def assignment? (line : Text) : Option (ConfigKey × Text) :=
  (configLine line).bind fun field => (ConfigKey.ofName? field.1).map fun k => (k, field.2)

/-- The assignments of a file, in their order. -/
def assignments (content : Text) : List (ConfigKey × Text) := (getLines content).filterMap assignment?

/-- The value is one the key takes. -/
def ConfigKey.Accepts (k : ConfigKey) (value : Text) : Prop := (k.parse stod value).isOk = true

instance (k : ConfigKey) (value : Text) : Decidable (k.Accepts stod value) := inferInstanceAs (Decidable (_ = true))

/-- The option set to a value the key takes. -/
def ConfigKey.put (k : ConfigKey) (value : Text) (cfg : FileConfig) : FileConfig :=
  match k.parse stod value with
  | .ok x => k.set x cfg
  | .error _ => cfg

variable {stod}

theorem ConfigKey.Accepts.parsed {k : ConfigKey} {value : Text} (accepts : k.Accepts stod value) :
    ∃ x, k.parse stod value = .ok x := by
  unfold ConfigKey.Accepts at accepts
  cases parsed : k.parse stod value with
  | ok x => exact ⟨x, rfl⟩
  | error e =>
    rw [parsed] at accepts
    cases accepts

theorem independent_put : Independent (ConfigKey.put stod) (ConfigKey.Accepts stod) where
  apart k k' v v' cfg ne := by
    unfold ConfigKey.put
    cases k.parse stod v with
    | error e => rfl
    | ok x =>
      cases k'.parse stod v' with
      | error e => rfl
      | ok x' => exact ConfigKey.set_apart ne x x' cfg
  hides k v v' cfg accepts := by
    obtain ⟨x, parsed⟩ := accepts.parsed
    unfold ConfigKey.put
    rw [parsed]
    cases k.parse stod v' with
    | error e => rfl
    | ok y => exact ConfigKey.set_hides k x y cfg

/-- The loop makes the assignments of its lines one by one. -/
theorem applyLines_accepted {lines : List Text} (accepted : ∀ a ∈ lines.filterMap assignment?, a.1.Accepts stod a.2)
    (rest : List Text) (cfg : FileConfig) :
    applyLines stod (lines ++ rest) cfg =
      applyLines stod rest (assignAll (ConfigKey.put stod) (lines.filterMap assignment?) cfg) := by
  induction lines generalizing cfg with
  | nil => rfl
  | cons line lines ih =>
    rw [List.cons_append, applyLines]
    cases field : configLine line with
    | none =>
      have skipped : assignment? line = none := by simp [assignment?, field]
      rw [List.filterMap_cons_none skipped] at accepted ⊢
      exact ih accepted cfg
    | some found =>
      obtain ⟨key, value⟩ := found
      simp only [applyKV]
      cases known : ConfigKey.ofName? key with
      | none =>
        have skipped : assignment? line = none := by simp [assignment?, field, known]
        rw [List.filterMap_cons_none skipped] at accepted ⊢
        exact ih accepted cfg
      | some k =>
        have assigned : assignment? line = some (k, value) := by simp [assignment?, field, known]
        rw [List.filterMap_cons_some assigned] at accepted ⊢
        obtain ⟨here, later⟩ := List.forall_mem_cons.mp accepted
        obtain ⟨x, parsed⟩ := here.parsed
        have stored : (k.put stod value cfg) = k.set x cfg := by simp only [ConfigKey.put, parsed]
        simp only [parsed, Except.map]
        rw [ih later, assignAll, assignAll, List.foldl_cons, stored]

/-- The first assignment that is not accepted throws. -/
theorem applyLines_rejected {line : Text} {k : ConfigKey} {value : Text} (assigned : assignment? line = some (k, value))
    {e : NumberError} (rejected : k.parse stod value = .error e) (lines : List Text) (cfg : FileConfig) :
    applyLines stod (line :: lines) cfg = (.error e, cfg) := by
  obtain ⟨⟨key, value'⟩, field, known⟩ := Option.bind_eq_some_iff.mp assigned
  obtain ⟨k', found, same⟩ := Option.map_eq_some_iff.mp known
  obtain ⟨rfl, rfl⟩ := Prod.mk.inj same
  simp only [applyLines, field, applyKV, found, rejected, Except.map]

/-- Each option set once, to what the assignments give its key last. -/
def settled (stod : Text → Except NumberError ℚ) (as : List (ConfigKey × Text)) (cfg : FileConfig) : FileConfig :=
  settleAll (ConfigKey.put stod) ConfigKey.all as cfg

theorem assignAll_eq_settled {as : List (ConfigKey × Text)} (accepted : ∀ a ∈ as, a.1.Accepts stod a.2)
    (cfg : FileConfig) : assignAll (ConfigKey.put stod) as cfg = settled stod as cfg :=
  independent_put.assignAll_eq ConfigKey.nodup_all (fun a _ => a.1.mem_all) accepted cfg

section
variable {open? : Text → Option Text} {path content : Text} {cfg cfg' : FileConfig}

theorem loadConfigFile_applied (named : path ≠ []) (opens : open? path = some content)
    (applied : applyLines stod (getLines content) cfg = (.ok (), cfg')) :
    loadConfigFile stod open? path cfg = (.ok .kOk, { cfg' with clusterConfigPath := path }) := by
  unfold loadConfigFile
  rw [if_neg (by simpa using named), opens]
  simp only [applied]

theorem loadConfigFile_thrown (named : path ≠ []) (opens : open? path = some content) {e : NumberError}
    (thrown : applyLines stod (getLines content) cfg = (.error e, cfg')) :
    loadConfigFile stod open? path cfg = (.error e, cfg') := by
  unfold loadConfigFile
  rw [if_neg (by simpa using named), opens]
  simp only [thrown]

end

/-- **What a configuration file means.** If every value is one its key takes, the file sets each option to the
last value of its key and leaves the others alone, in whatever order its lines are. Otherwise loading it
throws at the first value that is not taken, and only what stands before it is set. -/
theorem config_file_meaning {open? : Text → Option Text} {path content : Text} (named : path ≠ [])
    (opens : open? path = some content) (cfg : FileConfig) :
    ((∀ a ∈ assignments content, a.1.Accepts stod a.2) →
        loadConfigFile stod open? path cfg =
          (.ok .kOk, { settled stod (assignments content) cfg with clusterConfigPath := path })) ∧
      ∀ before k value after e, assignments content = before ++ (k, value) :: after →
        (∀ a ∈ before, a.1.Accepts stod a.2) → k.parse stod value = .error e →
        loadConfigFile stod open? path cfg = (.error e, settled stod before cfg) := by
  refine ⟨fun accepted => ?_, fun before k value after e split accepted rejected => ?_⟩
  · have applied := applyLines_accepted accepted [] cfg
    rw [List.append_nil] at applied
    rw [← assignAll_eq_settled accepted]
    exact loadConfigFile_applied named opens applied
  · -- the lines in front of the one that throws make exactly the assignments before it
    obtain ⟨front, back, lines, rfl, ahead⟩ := List.filterMap_eq_append_iff.mp split
    obtain ⟨skipped, line, later, rfl, none, assigned, -⟩ := List.filterMap_eq_cons_iff.mp ahead
    have same : (front ++ skipped).filterMap assignment? = front.filterMap assignment? := by
      rw [List.filterMap_append, List.filterMap_eq_nil_iff.mpr none, List.append_nil]
    rw [← same] at accepted ⊢
    rw [← assignAll_eq_settled accepted]
    refine loadConfigFile_thrown named opens ?_
    rw [lines, ← List.append_assoc, applyLines_accepted accepted]
    exact applyLines_rejected assigned rejected later _

end

/-- A key assigned twice, between a comment and a key that is not known. -/
def assignedTwice : Text :=
  "node_id=1\n#block_size=16\nblock_size= 64B\nnode_id=3\nblocksize=7\nenable_cache=yes\n".toList

theorem assignedTwice_means :
    (assignments assignedTwice).map Prod.fst = [.nodeId, .blockSize, .nodeId, .enableCache] ∧
      ∀ stod, loadConfigFile stod (fun _ => some assignedTwice) ['c'] {} =
        (.ok .kOk, { settled stod (assignments assignedTwice) {} with clusterConfigPath := ['c'] }) ∧
        (settled stod (assignments assignedTwice) {}).nodeId = 3 ∧
        (settled stod (assignments assignedTwice) {}).blockSize = 64 ∧
        (settled stod (assignments assignedTwice) {}).enableCache = false := by
  have listed : assignments assignedTwice =
      [(.nodeId, ['1']), (.blockSize, " 64B".toList), (.nodeId, ['3']), (.enableCache, "yes".toList)] := by
    decide +kernel
  refine ⟨by rw [listed]; rfl, fun stod => ⟨?_, ?_⟩⟩
  · refine (@config_file_meaning stod (fun _ => some assignedTwice) ['c'] _ (by simp) rfl {}).1 ?_
    rw [listed]
    simp only [List.mem_cons, List.not_mem_nil, or_false, forall_eq_or_imp, forall_eq]
    exact ⟨rfl, rfl, rfl, rfl⟩
  · rw [listed]
    exact ⟨rfl, rfl, rfl⟩

end LeoMem
