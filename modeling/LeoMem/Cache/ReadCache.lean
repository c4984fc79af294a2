import LeoMem.Types
import LeoMem.Lib.IterOrder

/-!
# The cache of remote reads

`TryReadCached`, `InsertCached`, `Invalidate` and `InvalidateRange` of
`memory/cache/cache_manager.cc` with the LRU list behind them. A node of
`std::list` is a number and the key it carries; `lru_it` is the number of the
node it points at.
-/

namespace LeoMem
open Lib

structure CacheKey where
  addr : GlobalAddr
  size : UInt64
  deriving DecidableEq, Repr

structure CachedValue where
  payload : Bytes
  lruIt : Nat
  deriving DecidableEq, Repr

/-- The cached-read state of `CacheManager`. -/
structure ReadCache where
  cachedBytes : UInt64 := 0
  evictionCount : UInt64 := 0
  lru : List (Nat × CacheKey) := []
  /-- The number the next list node gets. -/
  nextIt : Nat := 0
  cachedReads : HashMap CacheKey CachedValue := ∅

def rangesOverlap (lhsAddr : GlobalAddr) (lhsSize : UInt64) (rhsAddr : GlobalAddr) (rhsSize : UInt64) : Bool :=
  if lhsAddr.homeNode ≠ rhsAddr.homeNode then false
  else if lhsAddr.regionId ≠ rhsAddr.regionId then false
  else
    let lhsBegin := lhsAddr.offset
    let lhsEnd := lhsAddr.offset + lhsSize
    let rhsBegin := rhsAddr.offset
    let rhsEnd := rhsAddr.offset + rhsSize
    !(decide (lhsEnd ≤ rhsBegin) || decide (rhsEnd ≤ lhsBegin))

namespace ReadCache

/-- `TouchLocked`: splice the entry's node to the front. -/
def touchLocked (c : ReadCache) (key : CacheKey) (v : CachedValue) : ReadCache :=
  match c.lru.find? fun node => node.1 = v.lruIt with
  | none => c
  | some node =>
    { c with
      lru := node :: c.lru.eraseP fun node => node.1 = v.lruIt
      cachedReads := c.cachedReads.insert key { v with lruIt := node.1 } }

/-- One round of the eviction loop, on the list's last node. -/
def evictVictim (c : ReadCache) (victim : CacheKey) : ReadCache :=
  match c.cachedReads.lookup victim with
  | none => { c with lru := c.lru.dropLast }
  | some v =>
    { c with
      cachedBytes := c.cachedBytes - v.payload.size
      lru := c.lru.dropLast
      cachedReads := c.cachedReads.erase victim
      evictionCount := c.evictionCount + 1 }

/-- The loop of `EvictIfNeededLocked`. Every round pops a node, so the length of the
list bounds the rounds. -/
def evictLoop (cfg : Config) (incomingBytes : UInt64) : Nat → ReadCache → ReadCache
  | 0, c => c
  | rounds + 1, c =>
    match c.lru.getLast? with
    | none => c
    | some victim =>
      if c.cachedBytes + incomingBytes > cfg.cacheCapacityBytes then
        evictLoop cfg incomingBytes rounds (c.evictVictim victim.2)
      else c

def evictIfNeededLocked (cfg : Config) (c : ReadCache) (incomingBytes : UInt64) : ReadCache :=
  if cfg.cacheCapacityBytes = 0 then c else evictLoop cfg incomingBytes c.lru.length c

/-- The test of the scan in `TryReadCached`. -/
def covers (key : CacheKey) (addr : GlobalAddr) (size : UInt64) : Bool :=
  if key.addr.homeNode ≠ addr.homeNode then false
  else if key.addr.regionId ≠ addr.regionId then false
  else if key.addr.offset > addr.offset then false
  else
    let cachedEnd := key.addr.offset + key.size
    let requestedEnd := addr.offset + size
    if cachedEnd < requestedEnd then false else true

def tryReadCached (ord : IterOrder) (c : ReadCache) (addr : GlobalAddr) (size : UInt64) :
    Option Bytes × ReadCache :=
  if size = 0 then (none, c)
  else
    let key : CacheKey := ⟨addr, size⟩
    match c.cachedReads.lookup key with
    | some v => (some (v.payload.slice 0 size), c.touchLocked key v)
    | none =>
      match (ord.arrange c.cachedReads.entries).find? fun e => covers e.1 addr size with
      | some e =>
        (some (e.2.payload.slice (addr.offset - e.1.addr.offset).toNat size), c.touchLocked e.1 e.2)
      | none => (none, c)

def insertCached (cfg : Config) (c : ReadCache) (addr : GlobalAddr) (buf : Bytes) : ReadCache :=
  if buf.size = 0 ∨ cfg.enableCache = false then c
  else if cfg.cacheCapacityBytes ≠ 0 ∧ buf.size > cfg.cacheCapacityBytes then c
  else
    let key : CacheKey := ⟨addr, buf.size⟩
    match c.cachedReads.lookup key with
    | some v =>
      let c := if v.payload.size ≠ buf.size then
          { c with cachedBytes := c.cachedBytes - v.payload.size + buf.size }
        else c
      let v := { v with payload := buf }
      let c := { c with cachedReads := c.cachedReads.insert key v }
      (c.touchLocked key v).evictIfNeededLocked cfg 0
    | none =>
      let c := c.evictIfNeededLocked cfg buf.size
      { c with
        lru := (c.nextIt, key) :: c.lru
        nextIt := c.nextIt + 1
        cachedBytes := c.cachedBytes + buf.size
        cachedReads := c.cachedReads.insert key ⟨buf, c.nextIt⟩ }

/-- The erasure of one entry: its bytes, its list node and the entry itself. -/
def eraseEntry (c : ReadCache) (key : CacheKey) (v : CachedValue) : ReadCache :=
  { c with
    cachedBytes := c.cachedBytes - v.payload.size
    lru := c.lru.eraseP fun node => node.1 = v.lruIt
    cachedReads := c.cachedReads.erase key }

def invalidate (c : ReadCache) (addr : GlobalAddr) (size : UInt64) : UInt64 × ReadCache :=
  match c.cachedReads.lookup ⟨addr, size⟩ with
  | none => (0, c)
  | some v => (1, c.eraseEntry ⟨addr, size⟩ v)

/-- The loop body of `InvalidateRange` at one entry. -/
def invalidateStep (addr : GlobalAddr) (size : UInt64) (acc : UInt64 × ReadCache)
    (e : Sigma fun _ : CacheKey => CachedValue) : UInt64 × ReadCache :=
  if rangesOverlap e.1.addr e.1.size addr size then (acc.1 + 1, acc.2.eraseEntry e.1 e.2) else acc

def invalidateRange (ord : IterOrder) (c : ReadCache) (addr : GlobalAddr) (size : UInt64) : UInt64 × ReadCache :=
  (ord.arrange c.cachedReads.entries).foldl (invalidateStep addr size) (0, c)

/-- The payload cached under a key. -/
def payload? (c : ReadCache) (key : CacheKey) : Option Bytes := (c.cachedReads.lookup key).map CachedValue.payload

/-- Every entry of `c'` is an entry of `c`. -/
def Within (c' c : ReadCache) : Prop := ∀ k p, c'.payload? k = some p → c.payload? k = some p

variable (cfg : Config) (ord : IterOrder) (c : ReadCache) (addr : GlobalAddr) (size : UInt64) (k : CacheKey)

theorem Within.refl : c.Within c := fun _ _ h => h

theorem Within.trans {a b c : ReadCache} (h : a.Within b) (h' : b.Within c) : a.Within c :=
  fun k p held => h' k p (h k p held)

theorem payload?_touchLocked {c : ReadCache} {key : CacheKey} {v : CachedValue}
    (resident : c.cachedReads.lookup key = some v) (k : CacheKey) :
    (c.touchLocked key v).payload? k = c.payload? k := by
  unfold touchLocked
  split
  · rfl
  · simp only [payload?, HashMap.lookup_insert_if]
    split
    · rename_i same
      rw [same, resident]
      rfl
    · rfl

theorem evictVictim_within (victim : CacheKey) : (c.evictVictim victim).Within c := by
  intro k p held
  unfold evictVictim at held
  split at held
  · exact held
  · simp only [payload?, HashMap.lookup_erase_if] at held
    split at held
    · cases held
    · exact held

theorem evictLoop_within (incomingBytes : UInt64) (rounds : Nat) (c : ReadCache) :
    (evictLoop cfg incomingBytes rounds c).Within c := by
  induction rounds generalizing c with
  | zero => exact .refl c
  | succ rounds ih =>
    unfold evictLoop
    split
    · exact .refl c
    · split
      · exact (ih _).trans (evictVictim_within c _)
      · exact .refl c

theorem evictIfNeededLocked_within (incomingBytes : UInt64) : (c.evictIfNeededLocked cfg incomingBytes).Within c := by
  unfold evictIfNeededLocked
  split
  · exact .refl c
  · exact evictLoop_within cfg incomingBytes _ c

theorem covers_iff {key : CacheKey} {addr : GlobalAddr} {size : UInt64} :
    covers key addr size = true ↔
      key.addr.homeNode = addr.homeNode ∧ key.addr.regionId = addr.regionId ∧ key.addr.offset ≤ addr.offset ∧
        addr.offset + size ≤ key.addr.offset + key.size := by
  unfold covers
  by_cases home : key.addr.homeNode = addr.homeNode
  · by_cases region : key.addr.regionId = addr.regionId
    · by_cases start : key.addr.offset ≤ addr.offset
      · by_cases stop : addr.offset + size ≤ key.addr.offset + key.size
        · simp [home, region, UInt64.not_lt.mpr start, UInt64.not_lt.mpr stop, start, stop]
        · simp [home, region, UInt64.not_lt.mpr start, UInt64.not_le.mp stop, stop]
      · simp [home, region, UInt64.not_le.mp start, start]
    · simp [home, region]
  · simp [home]

/-- **What a lookup does**: it misses and changes nothing, or it copies out of one entry, the one
under the exact key where there is one, and moves that entry to the front. -/
theorem tryReadCached_used :
    (c.tryReadCached ord addr size = (none, c) ∧
        (size ≠ 0 → c.cachedReads.lookup ⟨addr, size⟩ = none ∧
          ∀ k v, c.cachedReads.lookup k = some v → covers k addr size = false)) ∨
      ∃ k v, size ≠ 0 ∧ c.cachedReads.lookup k = some v ∧ covers k addr size = true ∧
        (k = ⟨addr, size⟩ ∨ c.cachedReads.lookup ⟨addr, size⟩ = none) ∧
        c.tryReadCached ord addr size =
          (some (v.payload.slice (addr.offset - k.addr.offset).toNat size), c.touchLocked k v) := by
  unfold tryReadCached
  by_cases empty : size = 0
  · exact Or.inl ⟨by simp [empty], fun filled => absurd empty filled⟩
  rw [if_neg empty]
  simp only
  cases exactly : c.cachedReads.lookup ⟨addr, size⟩ with
  | some v =>
    refine Or.inr ⟨⟨addr, size⟩, v, empty, exactly, covers_iff.mpr ⟨rfl, rfl, ?_, ?_⟩, Or.inl rfl, by simp⟩
    · exact UInt64.le_refl _
    · exact UInt64.le_refl _
  | none =>
    cases found : (ord.arrange c.cachedReads.entries).find? fun e => covers e.1 addr size with
    | some e =>
      have resident := HashMap.lookup_of_mem_arrange (List.mem_of_find?_eq_some found)
      have test : covers e.1 addr size = true := by simpa using List.find?_some found
      exact Or.inr ⟨e.1, e.2, empty, resident, test, Or.inr rfl, rfl⟩
    | none =>
      refine Or.inl ⟨rfl, fun _ => ⟨rfl, fun k v resident => ?_⟩⟩
      have stored : ⟨k, v⟩ ∈ c.cachedReads.entries := HashMap.mem_entries.mpr resident
      simpa using List.find?_eq_none.mp found ⟨k, v⟩ (ord.mem_arrange.mpr stored)

/-- **What a hit returns**: the requested slice of an entry that covers the request. -/
theorem tryReadCached_hit {ord : IterOrder} {c : ReadCache} {addr : GlobalAddr} {size : UInt64} {buf : Bytes}
    (hit : (c.tryReadCached ord addr size).1 = some buf) :
    ∃ k p, c.payload? k = some p ∧ k.addr.homeNode = addr.homeNode ∧ k.addr.regionId = addr.regionId ∧
      k.addr.offset ≤ addr.offset ∧ addr.offset + size ≤ k.addr.offset + k.size ∧
      buf = p.slice (addr.offset - k.addr.offset).toNat size := by
  rcases tryReadCached_used ord c addr size with ⟨missed, -⟩ | ⟨k, v, -, resident, covered, -, read⟩
  · rw [missed] at hit
    cases hit
  · rw [read] at hit
    obtain ⟨home, region, start, stop⟩ := covers_iff.mp covered
    exact ⟨k, v.payload, by simp [payload?, resident], home, region, start, stop, (Option.some.inj hit).symm⟩

theorem payload?_tryReadCached : (c.tryReadCached ord addr size).2.payload? k = c.payload? k := by
  rcases tryReadCached_used ord c addr size with ⟨missed, -⟩ | ⟨used, v, -, resident, -, -, read⟩
  · rw [missed]
  · rw [read]
    exact payload?_touchLocked resident k

theorem tryReadCached_miss {ord : IterOrder} {c : ReadCache} {addr : GlobalAddr} {size : UInt64}
    (miss : (c.tryReadCached ord addr size).1 = none) : (c.tryReadCached ord addr size).2 = c := by
  rcases tryReadCached_used ord c addr size with ⟨missed, -⟩ | ⟨used, v, -, -, -, -, read⟩
  · rw [missed]
  · rw [read] at miss
    cases miss

/-- An insertion adds at most its own entry. -/
theorem insertCached_within (buf : Bytes) (k : CacheKey) (p : Bytes)
    (held : (c.insertCached cfg addr buf).payload? k = some p) :
    (k = ⟨addr, buf.size⟩ ∧ p = buf) ∨ c.payload? k = some p := by
  unfold insertCached at held
  split at held
  · exact Or.inr held
  split at held
  · exact Or.inr held
  simp only at held
  split at held
  · rename_i v resident
    have kept := evictIfNeededLocked_within cfg _ 0 k p held
    rw [payload?_touchLocked (by simp)] at kept
    simp only [payload?, HashMap.lookup_insert_if] at kept
    split at kept
    · rename_i same
      exact Or.inl ⟨same, by simpa using kept.symm⟩
    · refine Or.inr ?_
      split at kept <;> exact kept
  · simp only [payload?, HashMap.lookup_insert_if] at held
    split at held
    · rename_i same
      exact Or.inl ⟨same, by simpa using held.symm⟩
    · exact Or.inr (evictIfNeededLocked_within cfg c buf.size k p held)

theorem insertCached_disabled {cfg : Config} (off : cfg.enableCache = false) (c : ReadCache) (addr : GlobalAddr)
    (buf : Bytes) : c.insertCached cfg addr buf = c := by
  simp [insertCached, off]

theorem payload?_eraseEntry (key : CacheKey) (v : CachedValue) (k : CacheKey) :
    (c.eraseEntry key v).payload? k = if k = key then none else c.payload? k := by
  simp only [eraseEntry, payload?, HashMap.lookup_erase_if]
  split <;> rfl

theorem payload?_invalidate : (c.invalidate addr size).2.payload? k = if k = ⟨addr, size⟩ then none else c.payload? k := by
  unfold invalidate
  split
  · rename_i absent
    split
    · rename_i same
      rw [same, payload?, absent]
      rfl
    · rfl
  · exact payload?_eraseEntry c _ _ k

theorem payload?_invalidateFold (es : List (Sigma fun _ : CacheKey => CachedValue)) (acc : UInt64 × ReadCache)
    (k : CacheKey) :
    (es.foldl (invalidateStep addr size) acc).2.payload? k =
      if (∃ e ∈ es, e.1 = k) ∧ rangesOverlap k.addr k.size addr size then none else acc.2.payload? k := by
  induction es generalizing acc with
  | nil => simp
  | cons e es ih =>
    rw [List.foldl_cons, ih]
    simp only [List.mem_cons, exists_eq_or_imp]
    have head : (invalidateStep addr size acc e).2.payload? k =
        if e.1 = k ∧ rangesOverlap k.addr k.size addr size then none else acc.2.payload? k := by
      unfold invalidateStep
      by_cases overlap : rangesOverlap e.1.addr e.1.size addr size
      · rw [if_pos overlap, payload?_eraseEntry]
        by_cases same : k = e.1
        · simp [same, overlap]
        · simp [same, Ne.symm same]
      · rw [if_neg overlap]
        by_cases same : e.1 = k
        · subst same
          simp [overlap]
        · simp [same]
    rw [head]
    by_cases later : ∃ e ∈ es, e.1 = k
    · by_cases overlap : rangesOverlap k.addr k.size addr size <;> simp [later, overlap]
    · simp [later]

/-- **What a range invalidation leaves**: the entries that do not overlap the range. -/
theorem payload?_invalidateRange :
    (c.invalidateRange ord addr size).2.payload? k =
      if rangesOverlap k.addr k.size addr size then none else c.payload? k := by
  rw [invalidateRange, payload?_invalidateFold]
  by_cases member : ∃ e ∈ ord.arrange c.cachedReads.entries, e.1 = k
  · simp only [member, true_and]
  · have absent : c.payload? k = none := by
      rw [payload?, Option.map_eq_none_iff]
      cases found : c.cachedReads.lookup k with
      | none => rfl
      | some v => exact absurd ⟨⟨k, v⟩, ord.mem_arrange.mpr (HashMap.mem_entries.mpr found), rfl⟩ member
    simp [absent]

theorem invalidateRange_within : (c.invalidateRange ord addr size).2.Within c := by
  intro k p held
  rw [payload?_invalidateRange] at held
  split at held
  · cases held
  · exact held

end ReadCache
end LeoMem
