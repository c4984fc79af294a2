import LeoMem.Cache.ReadCache
import LeoMem.Lib.Run

/-!
# The representation of the read cache

The map, the LRU list, the stored iterators and the byte counter are updated one by
one. `Linked` says how they hang together; every operation keeps it, whatever the
sizes, since the counter wraps as the sum of the payloads does. Where that sum stays
below the 64-bit words the counter is the sum, eviction finds room and the capacity is
kept (`cache_sound`).
-/

namespace LeoMem
open Lib

namespace ReadCache

/-- The bytes of all payloads. -/
def residentBytes (c : ReadCache) : Nat := HashMap.total (fun e => e.2.payload.data.length) c.cachedReads

/-- The list holds one node for each entry, the node its iterator points at, and the counter
counts the payloads. -/
structure Linked (c : ReadCache) : Prop where
  nodes : (c.lru.map Prod.fst).Nodup
  fresh : ∀ node ∈ c.lru, node.1 < c.nextIt
  pointed : ∀ k v, c.cachedReads.lookup k = some v → (v.lruIt, k) ∈ c.lru
  entered : ∀ node ∈ c.lru, ∃ v, c.cachedReads.lookup node.2 = some v ∧ v.lruIt = node.1
  payload : ∀ k v, c.cachedReads.lookup k = some v → v.payload.size = k.size ∧ k.size ≠ 0
  bytes : c.cachedBytes = UInt64.ofNat c.residentBytes

theorem linked_init : Linked {} where
  nodes := List.nodup_nil
  fresh := by simp
  pointed k v held := by cases held
  entered := by simp
  payload k v held := by cases held
  bytes := rfl

section
variable {c : ReadCache} {key : CacheKey} {v : CachedValue}

/-- A list node is the only one with its number. -/
theorem Linked.node_unique (linked : c.Linked) {a b : Nat × CacheKey} (inA : a ∈ c.lru) (inB : b ∈ c.lru)
    (same : a.1 = b.1) : a = b :=
  List.inj_on_of_nodup_map linked.nodes inA inB same

/-- A key is carried by one node. -/
theorem Linked.distinct (linked : c.Linked) : (c.lru.map Prod.snd).Nodup := by
  refine (linked.nodes.of_map Prod.fst).map_on fun a inA b inB same => ?_
  -- two nodes with one key are both the node its entry points at
  obtain ⟨v, found, points⟩ := linked.entered a inA
  obtain ⟨w, found', points'⟩ := linked.entered b inB
  rw [same, found'] at found
  cases found
  exact linked.node_unique inA inB (points.symm.trans points')

/-- The list around the node of an entry. -/
theorem Linked.around (linked : c.Linked) (resident : c.cachedReads.lookup key = some v) :
    c.lru.find? (fun node => node.1 = v.lruIt) = some (v.lruIt, key) ∧
      c.lru.Perm ((v.lruIt, key) :: c.lru.eraseP fun node => node.1 = v.lruIt) := by
  have here := linked.pointed key v resident
  constructor
  · cases found : c.lru.find? (fun node => node.1 = v.lruIt) with
    | none =>
      have missed := List.find?_eq_none.mp found _ here
      simp at missed
    | some node =>
      have number : node.1 = v.lruIt := by simpa using List.find?_some found
      rw [linked.node_unique (List.mem_of_find?_eq_some found) here number]
  · obtain ⟨node, front, back, -, number, list, erased⟩ :=
      List.exists_of_eraseP here (p := fun node => node.1 = v.lruIt) (by simp)
    have same : node = (v.lruIt, key) :=
      linked.node_unique (list ▸ by simp) here (by simpa using number)
    rw [erased, list, same]
    exact List.perm_middle

/-- The order of the list and the storage of the map play no part. -/
theorem Linked.congr {c' : ReadCache} (linked : c.Linked) (lru : c'.lru.Perm c.lru)
    (lookup : ∀ k, c'.cachedReads.lookup k = c.cachedReads.lookup k) (next : c'.nextIt = c.nextIt)
    (bytes : c'.cachedBytes = c.cachedBytes) (resident : c'.residentBytes = c.residentBytes) : c'.Linked where
  nodes := (lru.map Prod.fst).nodup_iff.mpr linked.nodes
  fresh node member := next ▸ linked.fresh node (lru.mem_iff.mp member)
  pointed k v held := lru.mem_iff.mpr (linked.pointed k v (lookup k ▸ held))
  entered node member := by
    rw [lookup]
    exact linked.entered node (lru.mem_iff.mp member)
  payload k v held := linked.payload k v (lookup k ▸ held)
  bytes := by rw [bytes, resident, linked.bytes]

/-- Storing a value of the same length and node back under its key changes no total. -/
theorem residentBytes_insert {reads : HashMap CacheKey CachedValue} (resident : reads.lookup key = some v)
    (v' : CachedValue) (length : v'.payload.data.length = v.payload.data.length) :
    HashMap.total (fun e => e.2.payload.data.length) (reads.insert key v') =
      HashMap.total (fun e => e.2.payload.data.length) reads := by
  have erased := HashMap.total_erase (fun e => e.2.payload.data.length) resident
  rw [HashMap.total_insert]
  simp only at erased ⊢
  omega

theorem Linked.touchLocked (linked : c.Linked) (resident : c.cachedReads.lookup key = some v) :
    (c.touchLocked key v).Linked ∧ (c.touchLocked key v).residentBytes = c.residentBytes := by
  obtain ⟨found, perm⟩ := linked.around resident
  have bytes := residentBytes_insert resident { v with lruIt := v.lruIt } rfl
  unfold ReadCache.touchLocked
  rw [found]
  refine ⟨linked.congr perm.symm (fun k => ?_) rfl rfl bytes, bytes⟩
  rw [HashMap.lookup_insert_if]
  split
  · rename_i same
    rw [same, resident]
  · rfl

/-- **Dropping an entry** with its node and its bytes. -/
theorem Linked.remove {c' : ReadCache} (linked : c.Linked) (resident : c.cachedReads.lookup key = some v)
    (lru : c.lru.Perm ((v.lruIt, key) :: c'.lru)) (reads : c'.cachedReads = c.cachedReads.erase key)
    (next : c'.nextIt = c.nextIt) (bytes : c'.cachedBytes = c.cachedBytes - v.payload.size) :
    c'.Linked ∧ c'.residentBytes + v.payload.data.length = c.residentBytes := by
  have total : c'.residentBytes + v.payload.data.length = c.residentBytes := by
    rw [residentBytes, reads]
    exact HashMap.total_erase (fun e => e.2.payload.data.length) resident
  have numbers := (lru.map Prod.fst).nodup_iff.mp linked.nodes
  rw [List.map_cons, List.nodup_cons] at numbers
  have older : ∀ node ∈ c'.lru, node ∈ c.lru := fun node member => lru.mem_iff.mpr (List.mem_cons_of_mem _ member)
  have lookup : ∀ k w, c'.cachedReads.lookup k = some w → k ≠ key ∧ c.cachedReads.lookup k = some w := by
    intro k w held
    rw [reads, HashMap.lookup_erase_if] at held
    split at held
    · cases held
    · rename_i other
      exact ⟨other, held⟩
  refine ⟨⟨numbers.2, fun node member => next ▸ linked.fresh node (older node member), fun k w held => ?_,
    fun node member => ?_, fun k w held => linked.payload k w (lookup k w held).2, ?_⟩, total⟩
  · obtain ⟨other, held⟩ := lookup k w held
    rcases List.mem_cons.mp (lru.mem_iff.mp (linked.pointed k w held)) with here | there
    · exact absurd (congrArg Prod.snd here) other
    · exact there
  · obtain ⟨w, held, points⟩ := linked.entered node (older node member)
    have other : node.2 ≠ key := by
      intro same
      rw [same, resident] at held
      obtain rfl := Option.some.inj held
      rw [points] at numbers
      exact numbers.1 (List.mem_map.mpr ⟨node, member, rfl⟩)
    rw [reads, HashMap.lookup_erase_if, if_neg other]
    exact ⟨w, held, points⟩
  · rw [bytes, linked.bytes, ← total, UInt64.ofNat_add, Bytes.size, UInt64.add_sub_cancel]

theorem Linked.eraseEntry (linked : c.Linked) (resident : c.cachedReads.lookup key = some v) :
    (c.eraseEntry key v).Linked ∧ (c.eraseEntry key v).residentBytes + v.payload.data.length = c.residentBytes :=
  linked.remove resident (linked.around resident).2 rfl rfl rfl

theorem Linked.evictVictim (linked : c.Linked) {victim : Nat × CacheKey} (last : c.lru.getLast? = some victim) :
    ∃ v, c.cachedReads.lookup victim.2 = some v ∧ (c.evictVictim victim.2).Linked ∧
      (c.evictVictim victim.2).residentBytes + v.payload.data.length = c.residentBytes ∧
      (c.evictVictim victim.2).lru.length + 1 = c.lru.length := by
  have list : c.lru.dropLast ++ [victim] = c.lru := List.dropLast_append_getLast? victim last
  obtain ⟨v, resident, points⟩ := linked.entered victim (List.mem_of_getLast? last)
  let left : ReadCache := { c with
    cachedBytes := c.cachedBytes - v.payload.size
    lru := c.lru.dropLast
    cachedReads := c.cachedReads.erase victim.2
    evictionCount := c.evictionCount + 1 }
  have evicted : c.evictVictim victim.2 = left := by simp [ReadCache.evictVictim, resident, left]
  have perm : c.lru.Perm ((v.lruIt, victim.2) :: c.lru.dropLast) := by
    have moved := List.perm_append_singleton victim c.lru.dropLast
    rw [list] at moved
    rw [points]
    exact moved
  rw [evicted]
  obtain ⟨next, total⟩ : left.Linked ∧ left.residentBytes + _ = _ := linked.remove resident perm rfl rfl rfl
  refine ⟨v, resident, next, total, ?_⟩
  simpa [left] using congrArg List.length list

theorem Linked.loop (linked : c.Linked) (cfg : Config) (incomingBytes : UInt64) (rounds : Nat) :
    (evictLoop cfg incomingBytes rounds c).Linked := by
  induction rounds generalizing c with
  | zero => exact linked
  | succ rounds ih =>
    unfold ReadCache.evictLoop
    split
    · exact linked
    · rename_i victim last
      obtain ⟨v, -, next, -⟩ := linked.evictVictim last
      split
      · exact ih next
      · exact linked

theorem Linked.evictIfNeededLocked (linked : c.Linked) (cfg : Config) (incomingBytes : UInt64) :
    (c.evictIfNeededLocked cfg incomingBytes).Linked := by
  unfold ReadCache.evictIfNeededLocked
  split
  · exact linked
  · exact linked.loop cfg incomingBytes _

theorem Linked.tryReadCached (linked : c.Linked) (ord : IterOrder) (addr : GlobalAddr) (size : UInt64) :
    (c.tryReadCached ord addr size).2.Linked ∧ (c.tryReadCached ord addr size).2.residentBytes = c.residentBytes := by
  rcases tryReadCached_used ord c addr size with ⟨missed, -⟩ | ⟨used, v, -, resident, -, -, read⟩
  · rw [missed]
    exact ⟨linked, rfl⟩
  · rw [read]
    exact linked.touchLocked resident

theorem Linked.invalidate (linked : c.Linked) (addr : GlobalAddr) (size : UInt64) :
    (c.invalidate addr size).2.Linked ∧ (c.invalidate addr size).2.residentBytes ≤ c.residentBytes := by
  unfold ReadCache.invalidate
  split
  · exact ⟨linked, Nat.le_refl _⟩
  · rename_i v resident
    obtain ⟨next, total⟩ := linked.eraseEntry resident
    exact ⟨next, by simp only; omega⟩

/-- **The loop of `InvalidateRange`**: what erasing an overlapping entry that is there keeps, the
loop keeps. -/
theorem invalidateFold_keeps {I : UInt64 × ReadCache → Prop} {addr : GlobalAddr} {size : UInt64}
    (step : ∀ n c k v, c.cachedReads.lookup k = some v → rangesOverlap k.addr k.size addr size → I (n, c) →
      I (n + 1, c.eraseEntry k v))
    {es : List (Sigma fun _ : CacheKey => CachedValue)} (distinct : (es.map Sigma.fst).Nodup)
    {acc : UInt64 × ReadCache} (present : ∀ e ∈ es, acc.2.cachedReads.lookup e.1 = some e.2) (start : I acc) :
    I (es.foldl (invalidateStep addr size) acc) := by
  induction es generalizing acc with
  | nil => exact start
  | cons e es ih =>
    obtain ⟨fresh, distinct⟩ := List.nodup_cons.mp distinct
    have resident := present e List.mem_cons_self
    have later : ∀ e ∈ es, acc.2.cachedReads.lookup e.1 = some e.2 := fun e member =>
      present e (List.mem_cons_of_mem _ member)
    rw [List.foldl_cons]
    unfold invalidateStep
    split
    · rename_i overlap
      refine ih distinct (fun other member => ?_) (step _ _ _ _ resident overlap start)
      have different : other.1 ≠ e.1 := fun same => fresh (same ▸ List.mem_map_of_mem member)
      change (acc.2.cachedReads.erase e.1).lookup other.1 = _
      rw [HashMap.lookup_erase_if, if_neg different]
      exact later other member
    · exact ih distinct later start

/-- The entries of a scan have distinct keys. -/
theorem nodup_arrange (ord : IterOrder) (reads : HashMap CacheKey CachedValue) :
    ((ord.arrange reads.entries).map Sigma.fst).Nodup :=
  ((ord.perm _).map Sigma.fst).nodup_iff.mpr reads.keys_nodup

theorem Linked.invalidateRange (linked : c.Linked) (ord : IterOrder) (addr : GlobalAddr) (size : UInt64) :
    (c.invalidateRange ord addr size).2.Linked ∧
      (c.invalidateRange ord addr size).2.residentBytes ≤ c.residentBytes := by
  refine invalidateFold_keeps (I := fun acc => acc.2.Linked ∧ acc.2.residentBytes ≤ c.residentBytes) ?_
    (nodup_arrange ord c.cachedReads) (fun e member => HashMap.lookup_of_mem_arrange member) ⟨linked, Nat.le_refl _⟩
  intro n left k v resident _ held
  obtain ⟨held, fewer⟩ : left.Linked ∧ left.residentBytes ≤ c.residentBytes := held
  obtain ⟨next, total⟩ := held.eraseEntry resident
  exact ⟨next, by simp only; omega⟩

/-! ## Eviction -/

/-- The eviction loop, made to fail where it would meet a victim missing from the map or go
on after its last round. -/
def evictLoopChecked (cfg : Config) (incomingBytes : UInt64) : Nat → ReadCache → Option ReadCache
  | 0, c => if c.lru ≠ [] ∧ c.cachedBytes + incomingBytes > cfg.cacheCapacityBytes then none else some c
  | rounds + 1, c =>
    match c.lru.getLast? with
    | none => some c
    | some victim =>
      if c.cachedBytes + incomingBytes > cfg.cacheCapacityBytes then
        match c.cachedReads.lookup victim.2 with
        | none => none
        | some _ => evictLoopChecked cfg incomingBytes rounds (c.evictVictim victim.2)
      else some c

/-- What eviction for `incomingBytes` leads to: no victim is missing, the loop stops, and there is room. -/
structure Evicts (cfg : Config) (incomingBytes : UInt64) (rounds : Nat) (c : ReadCache) : Prop where
  checked : evictLoopChecked cfg incomingBytes rounds c = some (evictLoop cfg incomingBytes rounds c)
  linked : (evictLoop cfg incomingBytes rounds c).Linked
  room : (evictLoop cfg incomingBytes rounds c).residentBytes + incomingBytes.toNat ≤ cfg.cacheCapacityBytes.toNat

variable {cfg : Config} {incomingBytes : UInt64}

/-- An empty list means an empty map. -/
theorem Linked.residentBytes_of_nil (linked : c.Linked) (empty : c.lru = []) : c.residentBytes = 0 := by
  have none : c.cachedReads.entries = [] := by
    refine List.eq_nil_iff_forall_not_mem.mpr fun e member => ?_
    have pointed := linked.pointed e.1 e.2 (HashMap.mem_entries.mp member)
    rw [empty] at pointed
    cases pointed
  simp [residentBytes, HashMap.total, none]

/-- The counter with the incoming bytes, where they fit the words together. -/
theorem Linked.toNat_sum (linked : c.Linked) (fits : c.residentBytes + incomingBytes.toNat < 2 ^ 64) :
    (c.cachedBytes + incomingBytes).toNat = c.residentBytes + incomingBytes.toNat := by
  rw [linked.bytes, UInt64.toNat_add, UInt64.toNat_ofNat']
  omega

/-- **The eviction loop** drops entries from the end of the list until there is room. -/
theorem Linked.evicts (linked : c.Linked) (fits : c.residentBytes + incomingBytes.toNat < 2 ^ 64)
    (small : incomingBytes ≤ cfg.cacheCapacityBytes) {rounds : Nat} (enough : c.lru.length ≤ rounds) :
    Evicts cfg incomingBytes rounds c := by
  rw [UInt64.le_iff_toNat_le] at small
  induction rounds generalizing c with
  | zero =>
    have empty : c.lru = [] := List.length_eq_zero_iff.mp (Nat.le_zero.mp enough)
    refine ⟨by simp [evictLoopChecked, evictLoop, empty], linked, ?_⟩
    change c.residentBytes + _ ≤ _
    rw [linked.residentBytes_of_nil empty, Nat.zero_add]
    exact small
  | succ rounds ih =>
    cases last : c.lru.getLast? with
    | none =>
      have same : evictLoop cfg incomingBytes (rounds + 1) c = c := by simp [evictLoop, last]
      refine ⟨by simp [evictLoopChecked, evictLoop, last], same.symm ▸ linked, ?_⟩
      rw [same, linked.residentBytes_of_nil (List.getLast?_eq_none_iff.mp last), Nat.zero_add]
      exact small
    | some victim =>
      by_cases full : c.cachedBytes + incomingBytes > cfg.cacheCapacityBytes
      · obtain ⟨v, resident, next, total, shorter⟩ := linked.evictVictim last
        have rest := ih next (by omega) (by omega)
        have loop : evictLoop cfg incomingBytes (rounds + 1) c =
            evictLoop cfg incomingBytes rounds (c.evictVictim victim.2) := by
          simp only [evictLoop, last, if_pos full]
        refine ⟨?_, loop ▸ rest.linked, loop ▸ rest.room⟩
        rw [loop, ← rest.checked]
        simp only [evictLoopChecked, last, if_pos full, resident]
      · have same : evictLoop cfg incomingBytes (rounds + 1) c = c := by simp only [evictLoop, last, if_neg full]
        refine ⟨by simp only [evictLoopChecked, evictLoop, last, if_neg full], same.symm ▸ linked, ?_⟩
        have room := UInt64.le_iff_toNat_le.mp (UInt64.not_lt.mp full)
        rw [linked.toNat_sum fits] at room
        rw [same]
        exact room

/-! ## The state between two calls -/

/-- The cache between two calls, as long as its payloads fit the words. -/
structure Held (cfg : Config) (c : ReadCache) : Prop where
  linked : c.Linked
  fits : c.residentBytes < 2 ^ 64
  capacity : cfg.cacheCapacityBytes ≠ 0 → c.residentBytes ≤ cfg.cacheCapacityBytes.toNat

/-- Fewer bytes keep to the capacity. -/
theorem Held.shrink {c' : ReadCache} (held : c.Held cfg) (linked : c'.Linked)
    (fewer : c'.residentBytes ≤ c.residentBytes) : c'.Held cfg :=
  ⟨linked, fewer.trans_lt held.fits, fun bounded => fewer.trans (held.capacity bounded)⟩

theorem Held.tryReadCached (held : c.Held cfg) (ord : IterOrder) (addr : GlobalAddr) (size : UInt64) :
    (c.tryReadCached ord addr size).2.Held cfg := by
  obtain ⟨linked, same⟩ := held.linked.tryReadCached ord addr size
  exact held.shrink linked (Nat.le_of_eq same)

theorem Held.invalidate (held : c.Held cfg) (addr : GlobalAddr) (size : UInt64) :
    (c.invalidate addr size).2.Held cfg := by
  obtain ⟨linked, fewer⟩ := held.linked.invalidate addr size
  exact held.shrink linked fewer

theorem Held.invalidateRange (held : c.Held cfg) (ord : IterOrder) (addr : GlobalAddr) (size : UInt64) :
    (c.invalidateRange ord addr size).2.Held cfg := by
  obtain ⟨linked, fewer⟩ := held.linked.invalidateRange ord addr size
  exact held.shrink linked fewer

/-! ## Insertion -/

/-- A payload stored over one under the same key. -/
theorem Linked.update (linked : c.Linked) (resident : c.cachedReads.lookup key = some v) {buf : Bytes}
    (size : buf.size = key.size) :
    let c' := { c with cachedReads := c.cachedReads.insert key { v with payload := buf } }
    c'.Linked ∧ c'.residentBytes = c.residentBytes := by
  have sizes := linked.payload key v resident
  have length : buf.data.length = v.payload.data.length := by
    rw [← Bytes.toNat_size, ← Bytes.toNat_size, size, sizes.1]
  have bytes := residentBytes_insert resident { v with payload := buf } length
  have lookup : ∀ k w, (c.cachedReads.insert key { v with payload := buf }).lookup k = some w →
      ∃ w', c.cachedReads.lookup k = some w' ∧ w.lruIt = w'.lruIt ∧ w.payload.size = w'.payload.size := by
    intro k w held
    rw [HashMap.lookup_insert_if] at held
    split at held
    · rename_i same
      cases held
      exact ⟨v, same ▸ resident, rfl, size.trans sizes.1.symm⟩
    · exact ⟨w, held, rfl, rfl⟩
  refine ⟨⟨linked.nodes, linked.fresh, fun k w held => ?_, fun node member => ?_, fun k w held => ?_, ?_⟩, bytes⟩
  · obtain ⟨w', old, it, -⟩ := lookup k w held
    exact it ▸ linked.pointed k w' old
  · obtain ⟨w, old, points⟩ := linked.entered node member
    simp only [HashMap.lookup_insert_if]
    split
    · rename_i same
      rw [same, resident] at old
      cases old
      exact ⟨_, rfl, points⟩
    · exact ⟨w, old, points⟩
  · obtain ⟨w', old, -, size⟩ := lookup k w held
    exact size ▸ linked.payload k w' old
  · rw [linked.bytes]
    exact congrArg UInt64.ofNat bytes.symm

/-- A new entry at the front of the list. -/
theorem Linked.add (linked : c.Linked) (absent : c.cachedReads.lookup key = none) {buf : Bytes}
    (size : buf.size = key.size) (filled : key.size ≠ 0) :
    let c' := { c with
      lru := (c.nextIt, key) :: c.lru
      nextIt := c.nextIt + 1
      cachedBytes := c.cachedBytes + buf.size
      cachedReads := c.cachedReads.insert key ⟨buf, c.nextIt⟩ }
    c'.Linked ∧ c'.residentBytes = c.residentBytes + buf.data.length := by
  have total : HashMap.total (fun e => e.2.payload.data.length) (c.cachedReads.insert key ⟨buf, c.nextIt⟩) =
      c.residentBytes + buf.data.length := by
    rw [HashMap.total_insert, HashMap.erase_of_absent absent, Nat.add_comm]
    rfl
  refine ⟨⟨?_, fun node member => ?_, fun k w held => ?_, fun node member => ?_, fun k w held => ?_, ?_⟩, total⟩
  · refine List.nodup_cons.mpr ⟨fun member => ?_, linked.nodes⟩
    obtain ⟨node, inList, number⟩ := List.mem_map.mp member
    exact absurd (linked.fresh node inList) (number ▸ Nat.lt_irrefl _)
  · rcases List.mem_cons.mp member with rfl | old
    · exact Nat.lt_succ_self _
    · exact Nat.lt_succ_of_lt (linked.fresh node old)
  · simp only [HashMap.lookup_insert_if] at held
    split at held
    · rename_i same
      cases held
      exact same ▸ List.mem_cons_self
    · exact List.mem_cons_of_mem _ (linked.pointed k w held)
  · simp only [HashMap.lookup_insert_if]
    rcases List.mem_cons.mp member with rfl | old
    · exact ⟨_, if_pos rfl, rfl⟩
    · obtain ⟨w, held, points⟩ := linked.entered node old
      refine ⟨w, ?_, points⟩
      rw [if_neg fun same => by rw [same, absent] at held; cases held]
      exact held
  · simp only [HashMap.lookup_insert_if] at held
    split at held
    · rename_i same
      cases held
      exact same ▸ ⟨size, filled⟩
    · exact linked.payload k w held
  · change c.cachedBytes + buf.size = UInt64.ofNat _
    rw [residentBytes, total, linked.bytes, UInt64.ofNat_add]
    rfl

/-- A key that is absent stays absent under eviction. -/
theorem lookup_evictIfNeededLocked (cfg : Config) (incomingBytes : UInt64)
    (absent : c.cachedReads.lookup key = none) :
    (c.evictIfNeededLocked cfg incomingBytes).cachedReads.lookup key = none := by
  cases found : (c.evictIfNeededLocked cfg incomingBytes).cachedReads.lookup key with
  | none => rfl
  | some v =>
    have old := evictIfNeededLocked_within cfg c incomingBytes key v.payload (by simp [payload?, found])
    simp [payload?, absent] at old

/-- A payload stored over one under the same key, and its entry moved to the front. -/
def replace (c : ReadCache) (key : CacheKey) (v : CachedValue) (buf : Bytes) : ReadCache :=
  { c with cachedReads := c.cachedReads.insert key { v with payload := buf } }.touchLocked key { v with payload := buf }

/-- A new entry at the front. -/
def prepend (c : ReadCache) (key : CacheKey) (buf : Bytes) : ReadCache :=
  { c with
    lru := (c.nextIt, key) :: c.lru
    nextIt := c.nextIt + 1
    cachedBytes := c.cachedBytes + buf.size
    cachedReads := c.cachedReads.insert key ⟨buf, c.nextIt⟩ }

/-- `InsertCached` past its guards. -/
theorem insertCached_admitted (addr : GlobalAddr) {buf : Bytes} (filled : buf.size ≠ 0) (enabled : cfg.enableCache = true)
    (small : cfg.cacheCapacityBytes ≠ 0 → buf.size ≤ cfg.cacheCapacityBytes) (linked : c.Linked) :
    (c.cachedReads.lookup ⟨addr, buf.size⟩ = none →
        c.insertCached cfg addr buf = (c.evictIfNeededLocked cfg buf.size).prepend ⟨addr, buf.size⟩ buf) ∧
      ∀ v, c.cachedReads.lookup ⟨addr, buf.size⟩ = some v →
        c.insertCached cfg addr buf = (c.replace ⟨addr, buf.size⟩ v buf).evictIfNeededLocked cfg 0 := by
  have guard : ¬ (buf.size = 0 ∨ cfg.enableCache = false) := by simp [filled, enabled]
  have room : ¬ (cfg.cacheCapacityBytes ≠ 0 ∧ buf.size > cfg.cacheCapacityBytes) := fun large =>
    UInt64.not_lt.mpr (small large.1) large.2
  unfold ReadCache.insertCached
  rw [if_neg guard, if_neg room]
  refine ⟨fun absent => ?_, fun v resident => ?_⟩
  · simp only [absent]
    rfl
  · have size := (linked.payload _ v resident).1
    simp only [resident, size, ne_eq, not_true_eq_false, if_false]
    rfl

/-- `InsertCached` turned down by a guard. -/
theorem insertCached_refused (cfg : Config) (c : ReadCache) (addr : GlobalAddr) (buf : Bytes) :
    c.insertCached cfg addr buf = c ∨
      buf.size ≠ 0 ∧ cfg.enableCache = true ∧ (cfg.cacheCapacityBytes ≠ 0 → buf.size ≤ cfg.cacheCapacityBytes) := by
  unfold ReadCache.insertCached
  split
  · exact Or.inl rfl
  · rename_i guard
    split
    · exact Or.inl rfl
    · rename_i room
      refine Or.inr ⟨fun empty => guard (Or.inl empty), ?_, fun bounded => ?_⟩
      · cases enabled : cfg.enableCache with
        | true => rfl
        | false => exact absurd (Or.inr enabled) guard
      · exact UInt64.not_lt.mp fun large => room ⟨bounded, large⟩

theorem Linked.replace (linked : c.Linked) (resident : c.cachedReads.lookup key = some v) {buf : Bytes}
    (size : buf.size = key.size) :
    (c.replace key v buf).Linked ∧ (c.replace key v buf).residentBytes = c.residentBytes := by
  have stored : (c.cachedReads.insert key { v with payload := buf }).lookup key = some { v with payload := buf } :=
    AList.lookup_insert _
  obtain ⟨updated, bytes⟩ := linked.update resident size
  obtain ⟨touched, same⟩ := updated.touchLocked stored
  exact ⟨touched, same.trans bytes⟩

/-- **An insertion** keeps the list, the map and the counter together, whatever the sizes. -/
theorem Linked.insertCached (linked : c.Linked) (cfg : Config) (addr : GlobalAddr) (buf : Bytes) :
    (c.insertCached cfg addr buf).Linked := by
  rcases insertCached_refused cfg c addr buf with same | ⟨filled, enabled, small⟩
  · rw [same]
    exact linked
  · obtain ⟨fresh, known⟩ := insertCached_admitted addr filled enabled small linked
    cases resident : c.cachedReads.lookup ⟨addr, buf.size⟩ with
    | none =>
      rw [fresh resident]
      have absent := lookup_evictIfNeededLocked cfg buf.size resident
      exact ((linked.evictIfNeededLocked cfg buf.size).add absent rfl filled).1
    | some v =>
      rw [known v resident]
      exact (linked.replace resident rfl).1.evictIfNeededLocked cfg 0

/-- Eviction between two calls, for bytes that fit the words together with those held. -/
theorem Linked.room (linked : c.Linked) (bounded : cfg.cacheCapacityBytes ≠ 0)
    (small : incomingBytes ≤ cfg.cacheCapacityBytes) (fits : c.residentBytes + incomingBytes.toNat < 2 ^ 64) :
    (c.evictIfNeededLocked cfg incomingBytes).residentBytes + incomingBytes.toNat ≤ cfg.cacheCapacityBytes.toNat := by
  unfold ReadCache.evictIfNeededLocked
  rw [if_neg bounded]
  exact (linked.evicts fits small (Nat.le_refl _)).room

/-- Where the counter leaves room nothing is evicted. -/
theorem evictIfNeededLocked_of_le (room : c.cachedBytes + incomingBytes ≤ cfg.cacheCapacityBytes) :
    c.evictIfNeededLocked cfg incomingBytes = c := by
  unfold ReadCache.evictIfNeededLocked
  split
  · rfl
  · cases length : c.lru.length with
    | zero => rfl
    | succ rounds =>
      unfold evictLoop
      split
      · rfl
      · exact if_neg (UInt64.not_lt.mpr room)

/-- Where the sum wraps the loop stops at once, and nothing is evicted. -/
theorem Held.evictIfNeededLocked_wrapped (held : c.Held cfg) (bounded : cfg.cacheCapacityBytes ≠ 0)
    (small : incomingBytes ≤ cfg.cacheCapacityBytes) (wraps : ¬ c.residentBytes + incomingBytes.toNat < 2 ^ 64) :
    c.evictIfNeededLocked cfg incomingBytes = c := by
  have within := UInt64.le_iff_toNat_le.mp small
  have capacity := held.capacity bounded
  have bound := cfg.cacheCapacityBytes.toNat_lt
  have sum : (c.cachedBytes + incomingBytes).toNat = c.residentBytes + incomingBytes.toNat - 2 ^ 64 := by
    rw [held.linked.bytes, UInt64.toNat_add, UInt64.toNat_ofNat']
    omega
  exact evictIfNeededLocked_of_le (UInt64.le_iff_toNat_le.mpr (by omega))

/-- **An insertion** keeps the capacity as long as the payloads fit the words after it. -/
theorem Held.insertCached (held : c.Held cfg) (addr : GlobalAddr) (buf : Bytes)
    (after : (c.insertCached cfg addr buf).residentBytes < 2 ^ 64) : (c.insertCached cfg addr buf).Held cfg := by
  refine ⟨held.linked.insertCached cfg addr buf, after, fun bounded => ?_⟩
  rcases insertCached_refused cfg c addr buf with same | ⟨filled, enabled, small⟩
  · rw [same]
    exact held.capacity bounded
  · obtain ⟨fresh, known⟩ := insertCached_admitted addr filled enabled small held.linked
    cases resident : c.cachedReads.lookup ⟨addr, buf.size⟩ with
    | none =>
      rw [fresh resident] at after ⊢
      have absent := lookup_evictIfNeededLocked cfg buf.size resident
      have bytes := ((held.linked.evictIfNeededLocked cfg buf.size).add absent rfl filled).2
      by_cases fits : c.residentBytes + buf.size.toNat < 2 ^ 64
      · have enough := held.linked.room bounded (small bounded) fits
        rw [Bytes.toNat_size] at enough
        exact bytes ▸ enough
      · -- nothing was evicted, so the payloads do not fit the words after the insertion
        have wrapped := held.evictIfNeededLocked_wrapped bounded (small bounded) fits
        rw [wrapped] at bytes after
        rw [Bytes.toNat_size] at fits
        exact absurd (bytes ▸ after) fits
    | some v =>
      rw [known v resident]
      obtain ⟨replaced, bytes⟩ := held.linked.replace resident (rfl : buf.size = buf.size)
      have fits := held.fits
      exact replaced.room bounded UInt64.zero_le (by rw [bytes]; exact fits)

end
end ReadCache

/-! ## Whole runs -/

/-- A call of the cache's interface; a scan of the map comes with the order it takes. -/
inductive CacheCall where
  | insertCached (addr : GlobalAddr) (buf : Bytes)
  | tryReadCached (ord : IterOrder) (addr : GlobalAddr) (size : UInt64)
  | invalidate (addr : GlobalAddr) (size : UInt64)
  | invalidateRange (ord : IterOrder) (addr : GlobalAddr) (size : UInt64)

inductive CacheAnswer where
  | done
  | read (buf : Option Bytes)
  | removed (count : UInt64)
  deriving DecidableEq, Repr

def cacheStep (cfg : Config) (c : ReadCache) : CacheCall → CacheAnswer × ReadCache
  | .insertCached addr buf => (.done, c.insertCached cfg addr buf)
  | .tryReadCached ord addr size => let r := c.tryReadCached ord addr size; (.read r.1, r.2)
  | .invalidate addr size => let r := c.invalidate addr size; (.removed r.1, r.2)
  | .invalidateRange ord addr size => let r := c.invalidateRange ord addr size; (.removed r.1, r.2)

/-- **The representation invariant** of the cache. -/
structure CacheSound (cfg : Config) (c : ReadCache) : Prop where
  /-- The list has no duplicates and holds exactly the keys of the map. -/
  distinct : (c.lru.map Prod.snd).Nodup
  keys : ∀ k, k ∈ c.lru.map Prod.snd ↔ k ∈ c.cachedReads
  /-- An entry's iterator is the node of the list that carries its key. -/
  pointed : ∀ k v, c.cachedReads.lookup k = some v → c.lru.find? (fun node => node.1 = v.lruIt) = some (v.lruIt, k)
  payload : ∀ k v, c.cachedReads.lookup k = some v → v.payload.size = k.size ∧ 0 < k.size
  bytes : c.cachedBytes.toNat = c.residentBytes
  capacity : cfg.cacheCapacityBytes ≠ 0 → c.cachedBytes ≤ cfg.cacheCapacityBytes
  /-- Eviction for bytes that may be admitted meets no missing victim, stops, and makes room. -/
  evicts : ∀ incomingBytes, cfg.cacheCapacityBytes ≠ 0 → incomingBytes ≤ cfg.cacheCapacityBytes →
    c.residentBytes + incomingBytes.toNat < 2 ^ 64 →
    ReadCache.evictLoopChecked cfg incomingBytes c.lru.length c = some (c.evictIfNeededLocked cfg incomingBytes) ∧
      (c.evictIfNeededLocked cfg incomingBytes).residentBytes + incomingBytes.toNat ≤ cfg.cacheCapacityBytes.toNat

section
variable {cfg : Config} {c : ReadCache}

theorem ReadCache.Linked.step (linked : c.Linked) (call : CacheCall) : (cacheStep cfg c call).2.Linked := by
  cases call with
  | insertCached addr buf => exact linked.insertCached cfg addr buf
  | tryReadCached ord addr size => exact (linked.tryReadCached ord addr size).1
  | invalidate addr size => exact (linked.invalidate addr size).1
  | invalidateRange ord addr size => exact (linked.invalidateRange ord addr size).1

/-- Every reachable cache hangs together, whatever the sizes. -/
theorem cache_linked (cfg : Config) (calls : List CacheCall) : (run (cacheStep cfg) {} calls).2.Linked :=
  run_keeps (fun _ call linked => linked.step call) calls ReadCache.linked_init

theorem ReadCache.Held.step (held : c.Held cfg) (call : CacheCall)
    (fits : (cacheStep cfg c call).2.residentBytes < 2 ^ 64) : (cacheStep cfg c call).2.Held cfg := by
  cases call with
  | insertCached addr buf => exact held.insertCached addr buf fits
  | tryReadCached ord addr size => exact held.tryReadCached ord addr size
  | invalidate addr size => exact held.invalidate addr size
  | invalidateRange ord addr size => exact held.invalidateRange ord addr size

theorem ReadCache.Held.sound (held : c.Held cfg) : CacheSound cfg c := by
  have linked := held.linked
  have bytes : c.cachedBytes.toNat = c.residentBytes := by
    rw [linked.bytes, UInt64.toNat_ofNat', Nat.mod_eq_of_lt held.fits]
  refine ⟨linked.distinct, fun k => ⟨fun member => ?_, fun member => ?_⟩, fun k v resident => (linked.around resident).1,
    fun k v resident => ?_, bytes, fun bounded => ?_, fun incomingBytes bounded small fits => ?_⟩
  · obtain ⟨node, inList, rfl⟩ := List.mem_map.mp member
    obtain ⟨v, found, -⟩ := linked.entered node inList
    exact AList.lookup_isSome.mp (Option.isSome_of_eq_some found)
  · obtain ⟨v, found⟩ := Option.isSome_iff_exists.mp (AList.lookup_isSome.mpr member)
    exact List.mem_map.mpr ⟨_, linked.pointed k v found, rfl⟩
  · obtain ⟨size, filled⟩ := linked.payload k v resident
    exact ⟨size, UInt64.pos_iff_ne_zero.mpr filled⟩
  · rw [UInt64.le_iff_toNat_le, bytes]
    exact held.capacity bounded
  · have evicts := linked.evicts fits small (Nat.le_refl _)
    simp only [ReadCache.evictIfNeededLocked, if_neg bounded]
    exact ⟨evicts.checked, evicts.room⟩

/-- **Every reachable cache is sound**: for every configuration and every sequence of calls
after `Init` whose payloads fit the 64-bit words together. -/
theorem cache_sound (cfg : Config) (calls : List CacheCall)
    (fits : Along (cacheStep cfg) (fun c call => (cacheStep cfg c call).2.residentBytes < 2 ^ 64) {} calls) :
    CacheSound cfg (run (cacheStep cfg) {} calls).2 := by
  have initial : ReadCache.Held cfg {} := ⟨ReadCache.linked_init, by decide, fun _ => Nat.zero_le _⟩
  exact (run_invariant (fun c call small held => ReadCache.Held.step held call small) fits initial).sound

end

/-- A cache of four bytes: the third entry evicts the least recently used one. -/
def smallCache : Config := { cacheCapacityBytes := 4 }

def evictingCalls : List CacheCall :=
  [.insertCached ⟨1, 0, 0⟩ (.ofList [1, 2]), .insertCached ⟨1, 0, 8⟩ (.ofList [3, 4]),
    .tryReadCached .stored ⟨1, 0, 0⟩ 2, .insertCached ⟨2, 0, 0⟩ (.ofList [5]), .invalidate ⟨1, 0, 0⟩ 2]

theorem evictingCalls_sound :
    Along (cacheStep smallCache) (fun c call => (cacheStep smallCache c call).2.residentBytes < 2 ^ 64) {} evictingCalls ∧
      CacheSound smallCache (run (cacheStep smallCache) {} evictingCalls).2 := by
  have fits : Along (cacheStep smallCache) (fun c call => (cacheStep smallCache c call).2.residentBytes < 2 ^ 64) {}
      evictingCalls := by
    refine ⟨?_, ?_, ?_, ?_, ?_, trivial⟩ <;> decide +kernel
  exact ⟨fits, cache_sound smallCache evictingCalls fits⟩

end LeoMem
