import LeoMem.Types

/-!
# Statistics counters

`stats/counters.{h,cc}`.
-/

namespace LeoMem

structure StatsCollector where
  allocOps : UInt64 := 0
  readOps : UInt64 := 0
  writeOps : UInt64 := 0
  localReads : UInt64 := 0
  localWrites : UInt64 := 0
  remoteReads : UInt64 := 0
  remoteWrites : UInt64 := 0
  cacheHits : UInt64 := 0
  cacheMisses : UInt64 := 0
  cacheAdmissions : UInt64 := 0
  cacheRejections : UInt64 := 0
  queuedRemoteWrites : UInt64 := 0
  flushedRemoteWrites : UInt64 := 0
  flushedRemoteWriteBytes : UInt64 := 0
  flushedRemoteBatches : UInt64 := 0
  mergedRemoteWrites : UInt64 := 0
  coherenceModeSwitches : UInt64 := 0
  coherenceModeWi : UInt64 := 0
  coherenceModeSi : UInt64 := 0
  coherenceModeAdaptive : UInt64 := 0
  preciseCacheInvalidations : UInt64 := 0
  rangeCacheInvalidations : UInt64 := 0
  ownerBiasedWrites : UInt64 := 0
  ownerHandoffs : UInt64 := 0
  deriving DecidableEq, Repr

namespace StatsCollector

def incAlloc (s : StatsCollector) : StatsCollector := { s with allocOps := s.allocOps + 1 }

def incRead (s : StatsCollector) (isLocal : Bool) : StatsCollector :=
  let s := { s with readOps := s.readOps + 1 }
  if isLocal then { s with localReads := s.localReads + 1 } else { s with remoteReads := s.remoteReads + 1 }

def incWrite (s : StatsCollector) (isLocal : Bool) : StatsCollector :=
  let s := { s with writeOps := s.writeOps + 1 }
  if isLocal then { s with localWrites := s.localWrites + 1 } else { s with remoteWrites := s.remoteWrites + 1 }

def incCacheHit (s : StatsCollector) : StatsCollector := { s with cacheHits := s.cacheHits + 1 }

def incCacheMiss (s : StatsCollector) : StatsCollector := { s with cacheMisses := s.cacheMisses + 1 }

def incCacheAdmission (s : StatsCollector) (admitted : Bool) : StatsCollector :=
  if admitted then { s with cacheAdmissions := s.cacheAdmissions + 1 }
  else { s with cacheRejections := s.cacheRejections + 1 }

def incQueuedRemoteWrite (s : StatsCollector) : StatsCollector :=
  { s with queuedRemoteWrites := s.queuedRemoteWrites + 1 }

def incMergedRemoteWrite (s : StatsCollector) : StatsCollector :=
  { s with mergedRemoteWrites := s.mergedRemoteWrites + 1 }

def addFlushedRemoteBatch (s : StatsCollector) (writes bytes : UInt64) : StatsCollector :=
  { s with
    flushedRemoteBatches := s.flushedRemoteBatches + 1
    flushedRemoteWrites := s.flushedRemoteWrites + writes
    flushedRemoteWriteBytes := s.flushedRemoteWriteBytes + bytes }

def recordCoherenceMode (s : StatsCollector) (mode : CoherenceMode) (switched : Bool) : StatsCollector :=
  let s := if switched then { s with coherenceModeSwitches := s.coherenceModeSwitches + 1 } else s
  match mode with
  | .kWI => { s with coherenceModeWi := s.coherenceModeWi + 1 }
  | .kSI => { s with coherenceModeSi := s.coherenceModeSi + 1 }
  | .kAdaptive => { s with coherenceModeAdaptive := s.coherenceModeAdaptive + 1 }

def addCacheInvalidations (s : StatsCollector) (rangeBased : Bool) (count : UInt64) : StatsCollector :=
  if rangeBased then { s with rangeCacheInvalidations := s.rangeCacheInvalidations + count }
  else { s with preciseCacheInvalidations := s.preciseCacheInvalidations + count }

def incOwnerBiasedWrite (s : StatsCollector) : StatsCollector := { s with ownerBiasedWrites := s.ownerBiasedWrites + 1 }

def incOwnerHandoff (s : StatsCollector) : StatsCollector := { s with ownerHandoffs := s.ownerHandoffs + 1 }

end StatsCollector
end LeoMem
