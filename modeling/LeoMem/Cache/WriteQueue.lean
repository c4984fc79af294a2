import LeoMem.Types
import LeoMem.Lib.IterOrder

/-!
# Batched remote writes

`QueueRemoteWrite`, `DrainRemoteWrites` and the merge behind them, of
`memory/cache/cache_manager.cc`: one queue of pending writes for each destination
node.
-/

namespace LeoMem
open Lib

structure PendingRemoteWrite where
  addr : GlobalAddr
  payload : Bytes
  mode : CoherenceMode := .kSI
  ownerBiased : Bool := false
  ownerHandoff : Bool := false
  deriving DecidableEq, Repr

structure DrainedRemoteWriteBatch where
  writes : List PendingRemoteWrite := []
  totalBytes : UInt64 := 0
  deriving DecidableEq, Repr

/-- `write_queues_`. -/
abbrev WriteQueues := HashMap NodeId (List PendingRemoteWrite)

def effectiveBatchThreshold (cfg : Config) : CoherenceMode → UInt64
  | .kWI => 1
  | .kAdaptive => max 1 cfg.adaptiveModeBatchThreshold
  | .kSI => max 1 cfg.remoteWriteBatchThreshold

def canMergeWrites (current incoming : PendingRemoteWrite) : Bool :=
  if current.addr.homeNode ≠ incoming.addr.homeNode then false
  else if current.addr.regionId ≠ incoming.addr.regionId then false
  else
    let currentBegin := current.addr.offset
    let currentEnd := current.addr.offset + current.payload.size
    let incomingBegin := incoming.addr.offset
    let incomingEnd := incoming.addr.offset + incoming.payload.size
    !(decide (incomingEnd < currentBegin) || decide (currentEnd < incomingBegin)) ||
      decide (currentEnd = incomingBegin) || decide (incomingEnd = currentBegin)

def mergeWrites (current incoming : PendingRemoteWrite) : PendingRemoteWrite :=
  let mergedBegin := min current.addr.offset incoming.addr.offset
  let mergedEnd := max (current.addr.offset + current.payload.size) (incoming.addr.offset + incoming.payload.size)
  let mergedPayload := Bytes.zeros (mergedEnd - mergedBegin)
  let mergedPayload := mergedPayload.blit (current.addr.offset - mergedBegin).toNat current.payload
  let mergedPayload := mergedPayload.blit (incoming.addr.offset - mergedBegin).toNat incoming.payload
  { current with
    addr := { current.addr with offset := mergedBegin }
    payload := mergedPayload }

/-- The loop body of `QueueRemoteWrite` at the entry that takes the write in. -/
def absorbWrite (queued incoming : PendingRemoteWrite) : PendingRemoteWrite :=
  let queued := mergeWrites queued incoming
  { queued with
    ownerBiased := queued.ownerBiased || incoming.ownerBiased
    ownerHandoff := queued.ownerHandoff || incoming.ownerHandoff
    mode := if incoming.mode.toInt < queued.mode.toInt then incoming.mode else queued.mode }

/-- The loop of `QueueRemoteWrite`: the first entry that can take the write does. -/
def mergeFirst : List PendingRemoteWrite → PendingRemoteWrite → Option (List PendingRemoteWrite)
  | [], _ => none
  | queued :: queue, incoming =>
    if canMergeWrites queued incoming then some (absorbWrite queued incoming :: queue)
    else (mergeFirst queue incoming).map (queued :: ·)

/-- One destination's queue after a write, and whether it was merged. -/
def enqueue (queue : List PendingRemoteWrite) (incoming : PendingRemoteWrite) : Bool × List PendingRemoteWrite :=
  match mergeFirst queue incoming with
  | some merged => (true, merged)
  | none => (false, queue ++ [incoming])

namespace WriteQueues

/-- The queue of a destination; `operator[]` makes an empty one. -/
def of (q : WriteQueues) (node : NodeId) : List PendingRemoteWrite := (q.lookup node).getD []

def queueRemoteWrite (cfg : Config) (q : WriteQueues) (addr : GlobalAddr) (buf : Bytes) (mode : CoherenceMode)
    (ownerBiased ownerHandoff : Bool) : Bool × WriteQueues :=
  if buf.size = 0 ∨ cfg.enableWriteBatching = false then (false, q)
  else
    let r := enqueue (of q addr.homeNode) ⟨addr, buf, mode, ownerBiased, ownerHandoff⟩
    (r.1, q.insert addr.homeNode r.2)

def shouldFlushDestination (q : WriteQueues) (node : NodeId) (threshold : UInt64) : Bool :=
  match q.lookup node with
  | none => false
  | some queue => decide ((max 1 threshold).toNat ≤ queue.length)

def drainRemoteWrites (q : WriteQueues) (node : NodeId) : DrainedRemoteWriteBatch × WriteQueues :=
  match q.lookup node with
  | none => ({}, q)
  | some queue => (⟨queue, queue.foldl (fun total write => total + write.payload.size) 0⟩, q.erase node)

def pendingDestinations (ord : IterOrder) (q : WriteQueues) : List NodeId :=
  ((ord.arrange q.entries).filter fun e => !e.2.isEmpty).map Sigma.fst

theorem of_insert (q : WriteQueues) (a n : NodeId) (queue : List PendingRemoteWrite) :
    of (q.insert a queue) n = if n = a then queue else of q n := by
  unfold of
  rw [HashMap.lookup_insert_if]
  split <;> rfl

theorem of_erase (q : WriteQueues) (a n : NodeId) : of (q.erase a) n = if n = a then [] else of q n := by
  unfold of
  rw [HashMap.lookup_erase_if]
  split <;> rfl

@[simp] theorem of_empty (n : NodeId) : of (∅ : WriteQueues) n = [] := rfl

/-- A drained batch is the whole queue, and leaves that destination's queue empty. -/
theorem drainRemoteWrites_writes (q : WriteQueues) (node : NodeId) :
    (q.drainRemoteWrites node).1.writes = of q node := by
  unfold drainRemoteWrites of
  cases q.lookup node <;> rfl

theorem of_drainRemoteWrites (q : WriteQueues) (node n : NodeId) :
    of (q.drainRemoteWrites node).2 n = if n = node then [] else of q n := by
  unfold drainRemoteWrites
  split
  · rename_i absent
    split
    · rename_i same
      rw [same, of, absent]
      rfl
    · rfl
  · exact of_erase q node n

theorem mem_pendingDestinations {ord : IterOrder} {q : WriteQueues} {n : NodeId} :
    n ∈ q.pendingDestinations ord ↔ of q n ≠ [] := by
  simp only [pendingDestinations, List.mem_map, List.mem_filter, IterOrder.mem_arrange, HashMap.mem_entries]
  constructor
  · rintro ⟨e, ⟨found, filled⟩, rfl⟩
    simpa [of, found] using filled
  · intro filled
    cases found : q.lookup n with
    | none => simp [of, found] at filled
    | some queue => exact ⟨⟨n, queue⟩, ⟨found, by simpa [of, found] using filled⟩, rfl⟩

end WriteQueues
end LeoMem
