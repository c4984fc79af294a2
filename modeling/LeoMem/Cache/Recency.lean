import LeoMem.Cache.Invariant
import LeoMem.Lib.Recency

/-!
# The cache as a list ordered by use

`recency` reads the entries off the LRU list, most recently used first. The map, the
spliced list and the counter together act on that list alone: a lookup and an
overwriting insertion move one entry to the front, eviction drops entries from the
end, and an invalidation filters.
-/

namespace LeoMem
open Lib

namespace ReadCache

/-- The entries from the most to the least recently used one. -/
def recency (c : ReadCache) : List (CacheKey × Bytes) := entriesAt Prod.snd c.payload? c.lru

/-- The bytes of a list of entries. -/
def bytesOf (l : List (CacheKey × Bytes)) : Nat := (l.map fun e => e.2.data.length).sum

section
variable {c : ReadCache} {key : CacheKey} {v : CachedValue}

/-! ## Entries and nodes -/

theorem Linked.payload?_isSome (linked : c.Linked) : ∀ node ∈ c.lru, (c.payload? node.2).isSome := by
  intro node member
  obtain ⟨v, found, -⟩ := linked.entered node member
  simp [payload?, found]

theorem Linked.keys (linked : c.Linked) : c.recency.map Prod.fst = c.lru.map Prod.snd :=
  map_fst_entriesAt linked.payload?_isSome

theorem Linked.mem_recency (linked : c.Linked) {k : CacheKey} {p : Bytes} :
    (k, p) ∈ c.recency ↔ c.payload? k = some p := by
  unfold recency
  rw [mem_entriesAt]
  refine ⟨And.right, fun held => ⟨?_, held⟩⟩
  obtain ⟨v, found, -⟩ := Option.map_eq_some_iff.mp held
  exact ⟨_, linked.pointed k v found, rfl⟩

theorem Linked.nodup_recency (linked : c.Linked) : c.recency.Nodup :=
  (linked.keys ▸ linked.distinct).of_map

/-- The list holds the entries of the map. -/
theorem Linked.perm_entries (linked : c.Linked) :
    c.recency.Perm (c.cachedReads.entries.map fun e => (e.1, e.2.payload)) := by
  refine (List.perm_ext_iff_of_nodup linked.nodup_recency ?_).mpr fun e => ?_
  · have keys : (c.cachedReads.entries.map fun e => (e.1, e.2.payload)).map Prod.fst = c.cachedReads.keys := by
      rw [List.map_map]
      rfl
    exact (keys ▸ c.cachedReads.keys_nodup).of_map
  · rw [linked.mem_recency, List.mem_map]
    constructor
    · intro held
      obtain ⟨v, found, same⟩ := Option.map_eq_some_iff.mp held
      exact ⟨⟨e.1, v⟩, HashMap.mem_entries.mpr found, by rw [same]⟩
    · rintro ⟨entry, member, rfl⟩
      simp [payload?, HashMap.mem_entries.mp member]

theorem Linked.bytesOf_recency (linked : c.Linked) : bytesOf c.recency = c.residentBytes := by
  unfold bytesOf residentBytes HashMap.total
  rw [(linked.perm_entries.map _).sum_nat, List.map_map]
  rfl

/-- Erasing an entry's node leaves the nodes of the other keys. -/
theorem Linked.eraseP_eq (linked : c.Linked) (resident : c.cachedReads.lookup key = some v) :
    (c.lru.eraseP fun node => node.1 = v.lruIt) = c.lru.filter fun node => node.2 ≠ key := by
  have here := linked.pointed key v resident
  obtain ⟨node, front, back, -, number, list, erased⟩ :=
    List.exists_of_eraseP here (p := fun node => node.1 = v.lruIt) (by simp)
  have same : node = (v.lruIt, key) := linked.node_unique (list ▸ by simp) here (by simpa using number)
  have distinct := linked.distinct
  rw [list, same, List.map_append, List.map_cons, List.nodup_middle, List.nodup_cons, ← List.map_append] at distinct
  have others : ∀ node ∈ front ++ back, node.2 ≠ key := fun node member same =>
    distinct.1 (List.mem_map.mpr ⟨node, member, same⟩)
  have kept : (front ++ back).filter (fun node => node.2 ≠ key) = front ++ back :=
    List.filter_eq_self.mpr fun node member => by simpa using others node member
  rw [erased, list, same, List.filter_append, List.filter_cons_of_neg (by simp), ← List.filter_append, kept]

/-- **A use** moves the entry to the front. -/
theorem Linked.recency_touchLocked (linked : c.Linked) (resident : c.cachedReads.lookup key = some v) :
    (c.touchLocked key v).recency = (key, v.payload) :: without key c.recency := by
  have list : (c.touchLocked key v).lru = (v.lruIt, key) :: c.lru.filter fun node => node.2 ≠ key := by
    rw [← linked.eraseP_eq resident, ReadCache.touchLocked, (linked.around resident).1]
  have held : c.payload? (Prod.snd (v.lruIt, key)) = some v.payload := by simp [payload?, resident]
  unfold recency
  rw [list, entriesAt_congr fun node _ => payload?_touchLocked resident node.2, entriesAt_cons held]
  exact congrArg _ (entriesAt_filter (fun k => k ≠ key) c.lru)

/-- **An erasure** leaves the other entries in their order. -/
theorem Linked.recency_eraseEntry (linked : c.Linked) (resident : c.cachedReads.lookup key = some v) :
    (c.eraseEntry key v).recency = without key c.recency := by
  have list : (c.eraseEntry key v).lru = c.lru.filter fun node => node.2 ≠ key := linked.eraseP_eq resident
  have others : ∀ node ∈ c.lru.filter (fun node => node.2 ≠ key), (c.eraseEntry key v).payload? node.2 = c.payload? node.2 := by
    intro node member
    have other : node.2 ≠ key := by simpa using (List.mem_filter.mp member).2
    rw [payload?_eraseEntry, if_neg other]
  unfold recency
  rw [list, entriesAt_congr others]
  exact entriesAt_filter (fun k => k ≠ key) c.lru

/-! ## Eviction and insertion -/

/-- One round of eviction drops the last entry. -/
theorem Linked.recency_evictVictim (linked : c.Linked) {victim : Nat × CacheKey} (last : c.lru.getLast? = some victim) :
    (∃ entry, c.recency = (c.evictVictim victim.2).recency ++ [entry]) ∧
      (c.evictVictim victim.2).evictionCount = c.evictionCount + 1 := by
  obtain ⟨v, resident, -⟩ := linked.entered victim (List.mem_of_getLast? last)
  have list : c.lru.dropLast ++ [victim] = c.lru := List.dropLast_append_getLast? victim last
  have held : c.payload? (Prod.snd victim) = some v.payload := by simp [payload?, resident]
  have distinct := linked.distinct
  rw [← list, List.map_append, List.nodup_append] at distinct
  have others : ∀ node ∈ c.lru.dropLast, (c.evictVictim victim.2).payload? node.2 = c.payload? node.2 := by
    intro node member
    have other : node.2 ≠ victim.2 := distinct.2.2 _ (List.mem_map_of_mem member) _ (by simp)
    simp only [ReadCache.evictVictim, resident, payload?, HashMap.lookup_erase_if, if_neg other]
  have left : (c.evictVictim victim.2).lru = c.lru.dropLast := by simp [ReadCache.evictVictim, resident]
  refine ⟨⟨(victim.2, v.payload), ?_⟩, by simp [ReadCache.evictVictim, resident]⟩
  unfold recency
  rw [left, entriesAt_congr others, ← entriesAt_nil, ← entriesAt_cons held, ← entriesAt_append, list]

variable {cfg : Config} {incomingBytes : UInt64}

/-- `left` is what eviction for `incoming` bytes leaves of `c`: the longest prefix that fits besides
them, with every dropped entry counted. -/
structure Evicted (cfg : Config) (incoming : Nat) (c left : ReadCache) : Prop where
  kept : LongestPrefix (fun l => bytesOf l + incoming ≤ cfg.cacheCapacityBytes.toNat) left.recency c.recency
  counted : left.evictionCount = c.evictionCount + UInt64.ofNat (c.recency.length - left.recency.length)

theorem Evicted.none {incoming : Nat} (room : bytesOf c.recency + incoming ≤ cfg.cacheCapacityBytes.toNat) :
    Evicted cfg incoming c c := by
  refine ⟨LongestPrefix.whole room, ?_⟩
  rw [Nat.sub_self]
  exact (UInt64.add_zero _).symm

/-- The loop goes on after a round on a full cache. -/
theorem Evicted.after {incoming : Nat} {entry : CacheKey × Bytes} {next left : ReadCache}
    (rest : Evicted cfg incoming next left) (list : c.recency = next.recency ++ [entry])
    (counted : next.evictionCount = c.evictionCount + 1)
    (full : cfg.cacheCapacityBytes.toNat < bytesOf c.recency + incoming) : Evicted cfg incoming c left := by
  constructor
  · rw [list]
    exact rest.kept.of_concat (by rw [← list]; omega)
  · have shorter := rest.kept.initial.length_le
    have longer : c.recency.length = next.recency.length + 1 := by rw [list, List.length_append, List.length_singleton]
    have dropped : c.recency.length - left.recency.length = 1 + (next.recency.length - left.recency.length) := by omega
    rw [rest.counted, counted, dropped, UInt64.ofNat_add, UInt64.add_assoc]
    rfl

/-- **The eviction loop** leaves the longest prefix that fits. -/
theorem Linked.evicted (linked : c.Linked) (fits : c.residentBytes + incomingBytes.toNat < 2 ^ 64)
    (small : incomingBytes.toNat ≤ cfg.cacheCapacityBytes.toNat) {rounds : Nat} (enough : c.lru.length ≤ rounds) :
    Evicted cfg incomingBytes.toNat c (evictLoop cfg incomingBytes rounds c) := by
  induction rounds generalizing c with
  | zero =>
    refine Evicted.none ?_
    have empty : c.lru = [] := List.length_eq_zero_iff.mp (Nat.le_zero.mp enough)
    rw [linked.bytesOf_recency, linked.residentBytes_of_nil empty, Nat.zero_add]
    exact small
  | succ rounds ih =>
    unfold evictLoop
    cases last : c.lru.getLast? with
    | none =>
      refine Evicted.none ?_
      rw [linked.bytesOf_recency, linked.residentBytes_of_nil (List.getLast?_eq_none_iff.mp last), Nat.zero_add]
      exact small
    | some victim =>
      have sum := linked.toNat_sum fits
      simp only
      split
      · rename_i full
        rw [gt_iff_lt, UInt64.lt_iff_toNat_lt, sum, ← linked.bytesOf_recency] at full
        obtain ⟨v, -, next, total, shorter⟩ := linked.evictVictim last
        obtain ⟨⟨entry, list⟩, counted⟩ := linked.recency_evictVictim last
        exact (ih next (by omega) (by omega)).after list counted full
      · rename_i room
        rw [UInt64.not_lt, UInt64.le_iff_toNat_le, sum, ← linked.bytesOf_recency] at room
        exact Evicted.none room

/-- An insertion puts a new entry in front of the list. -/
theorem Linked.recency_prepend (linked : c.Linked) (absent : c.cachedReads.lookup key = none) (buf : Bytes) :
    (c.prepend key buf).recency = (key, buf) :: c.recency := by
  have held : (c.prepend key buf).payload? (Prod.snd (c.nextIt, key)) = some buf := by
    simp [prepend, payload?]
  have others : ∀ node ∈ c.lru, (c.prepend key buf).payload? node.2 = c.payload? node.2 := by
    intro node member
    obtain ⟨v, found, -⟩ := linked.entered node member
    have other : node.2 ≠ key := fun same => by rw [same, absent] at found; cases found
    simp only [prepend, payload?, HashMap.lookup_insert_if, if_neg other]
  unfold recency
  rw [← entriesAt_congr others]
  exact entriesAt_cons held c.lru

/-- An insertion over an entry moves it to the front with its new payload. -/
theorem Linked.recency_replace (linked : c.Linked) (resident : c.cachedReads.lookup key = some v) {buf : Bytes}
    (size : buf.size = key.size) : (c.replace key v buf).recency = (key, buf) :: without key c.recency := by
  have stored : (c.cachedReads.insert key { v with payload := buf }).lookup key = some { v with payload := buf } :=
    AList.lookup_insert _
  have touched := (linked.update resident size).1.recency_touchLocked stored
  rw [ReadCache.replace, touched]
  refine congrArg _ ?_
  unfold recency without
  rw [← entriesAt_filter (fun k => k ≠ key), ← entriesAt_filter (fun k => k ≠ key)]
  refine entriesAt_congr fun node member => ?_
  have other : node.2 ≠ key := by simpa using (List.mem_filter.mp member).2
  simp only [payload?, HashMap.lookup_insert_if, if_neg other]

end
end ReadCache

/-! ## Whole runs -/

/-- `InsertCached` of a new key puts it in front of the longest prefix that fits the capacity
besides it, and counts the entries it drops. -/
def InsertsFresh (cfg : Config) (c : ReadCache) (addr : GlobalAddr) (buf : Bytes) : Prop :=
  ∃ kept,
    LongestPrefix (fun l => ReadCache.bytesOf l + buf.data.length ≤ cfg.cacheCapacityBytes.toNat) kept c.recency ∧
      (c.insertCached cfg addr buf).recency = (⟨addr, buf.size⟩, buf) :: kept ∧
      (c.insertCached cfg addr buf).evictionCount = c.evictionCount + UInt64.ofNat (c.recency.length - kept.length)

/-- The cache acts as a list ordered by use, with eviction at its end. -/
structure ExactLru (cfg : Config) (c : ReadCache) : Prop where
  fresh : ∀ addr buf, cfg.enableCache = true → buf.size ≠ 0 → buf.size ≤ cfg.cacheCapacityBytes →
    c.residentBytes + buf.data.length < 2 ^ 64 → c.payload? ⟨addr, buf.size⟩ = none → InsertsFresh cfg c addr buf
  /-- An insertion over a resident key moves that entry to the front and drops nothing. -/
  known : ∀ addr buf, c.payload? ⟨addr, buf.size⟩ ≠ none →
    (c.insertCached cfg addr buf).recency = (⟨addr, buf.size⟩, buf) :: without ⟨addr, buf.size⟩ c.recency ∧
      (c.insertCached cfg addr buf).evictionCount = c.evictionCount
  /-- A hit moves the entry it copies from to the front and drops nothing. -/
  used : ∀ ord addr size buf, (c.tryReadCached ord addr size).1 = some buf →
    ∃ k p, (k, p) ∈ c.recency ∧ ReadCache.covers k addr size = true ∧
      buf = p.slice (addr.offset - k.addr.offset).toNat size ∧
      (c.tryReadCached ord addr size).2.recency = (k, p) :: without k c.recency ∧
      (c.tryReadCached ord addr size).2.evictionCount = c.evictionCount

section
variable {cfg : Config} {c : ReadCache}

theorem ReadCache.evictionCount_touchLocked (c : ReadCache) (key : CacheKey) (v : CachedValue) :
    (c.touchLocked key v).evictionCount = c.evictionCount := by
  unfold ReadCache.touchLocked
  split
  · rfl
  · rfl

theorem ReadCache.Linked.inserts_fresh (linked : c.Linked) (addr : GlobalAddr) {buf : Bytes}
    (bounded : cfg.cacheCapacityBytes ≠ 0) (enabled : cfg.enableCache = true) (filled : buf.size ≠ 0)
    (small : buf.size ≤ cfg.cacheCapacityBytes) (fits : c.residentBytes + buf.data.length < 2 ^ 64)
    (absent : c.cachedReads.lookup ⟨addr, buf.size⟩ = none) : InsertsFresh cfg c addr buf := by
  have inserted := (ReadCache.insertCached_admitted addr filled enabled (fun _ => small) linked).1 absent
  have gone := ReadCache.lookup_evictIfNeededLocked cfg buf.size absent
  have list := (linked.evictIfNeededLocked cfg buf.size).recency_prepend gone buf
  have room := UInt64.le_iff_toNat_le.mp small
  rw [← Bytes.toNat_size] at fits
  have evicted := linked.evicted fits room (Nat.le_refl _)
  refine ⟨(c.evictIfNeededLocked cfg buf.size).recency, ?_, inserted ▸ list, ?_⟩
  · rw [← Bytes.toNat_size, ReadCache.evictIfNeededLocked, if_neg bounded]
    exact evicted.kept
  · rw [inserted]
    change (c.evictIfNeededLocked cfg buf.size).evictionCount = _
    rw [ReadCache.evictIfNeededLocked, if_neg bounded]
    exact evicted.counted

theorem ReadCache.Held.inserts_known (held : c.Held cfg) (addr : GlobalAddr) {buf : Bytes}
    (enabled : cfg.enableCache = true) (bounded : cfg.cacheCapacityBytes ≠ 0) {v : CachedValue}
    (resident : c.cachedReads.lookup ⟨addr, buf.size⟩ = some v) :
    c.insertCached cfg addr buf = c.replace ⟨addr, buf.size⟩ v buf := by
  have sizes := held.linked.payload _ v resident
  have total := HashMap.total_erase (fun e => e.2.payload.data.length) resident
  have capacity := held.capacity bounded
  have small : buf.size ≤ cfg.cacheCapacityBytes := by
    have length := congrArg UInt64.toNat sizes.1
    rw [Bytes.toNat_size] at length
    rw [UInt64.le_iff_toNat_le]
    simp only [ReadCache.residentBytes] at total capacity length ⊢
    omega
  obtain ⟨replaced, bytes⟩ := held.linked.replace resident (rfl : buf.size = buf.size)
  rw [(ReadCache.insertCached_admitted addr sizes.2 enabled (fun _ => small) held.linked).2 v resident]
  refine ReadCache.evictIfNeededLocked_of_le ?_
  have fits : (c.replace ⟨addr, buf.size⟩ v buf).residentBytes + (0 : UInt64).toNat < 2 ^ 64 := by
    rw [bytes]
    exact held.fits
  rw [UInt64.le_iff_toNat_le, replaced.toNat_sum fits, bytes]
  exact capacity

/-- A cache that is switched off holds nothing. -/
theorem nothing_cached (off : cfg.enableCache = false) (calls : List CacheCall) (k : CacheKey) :
    (run (cacheStep cfg) {} calls).2.payload? k = none := by
  refine run_keeps (I := fun c : ReadCache => c.payload? k = none) (fun c call empty => ?_) calls rfl
  cases call with
  | insertCached addr buf =>
    change (c.insertCached cfg addr buf).payload? k = none
    rw [ReadCache.insertCached_disabled off]
    exact empty
  | tryReadCached ord addr size => exact (ReadCache.payload?_tryReadCached ord c addr size k).trans empty
  | invalidate addr size =>
    change (c.invalidate addr size).2.payload? k = none
    rw [ReadCache.payload?_invalidate, empty, ite_self]
  | invalidateRange ord addr size =>
    change (c.invalidateRange ord addr size).2.payload? k = none
    rw [ReadCache.payload?_invalidateRange, empty, ite_self]

theorem ReadCache.Linked.moves_used (linked : c.Linked) {ord : IterOrder} {addr : GlobalAddr} {size : UInt64} {buf : Bytes}
    (hit : (c.tryReadCached ord addr size).1 = some buf) :
    ∃ k p, (k, p) ∈ c.recency ∧ ReadCache.covers k addr size = true ∧
      buf = p.slice (addr.offset - k.addr.offset).toNat size ∧
      (c.tryReadCached ord addr size).2.recency = (k, p) :: without k c.recency ∧
      (c.tryReadCached ord addr size).2.evictionCount = c.evictionCount := by
  rcases ReadCache.tryReadCached_used ord c addr size with ⟨missed, -⟩ | ⟨k, v, -, resident, covered, -, read⟩
  · rw [missed] at hit
    cases hit
  · rw [read] at hit ⊢
    refine ⟨k, v.payload, ?_, covered, (Option.some.inj hit).symm, linked.recency_touchLocked resident,
      c.evictionCount_touchLocked k v⟩
    exact linked.mem_recency.mpr (by simp [ReadCache.payload?, resident])

/-- **Eviction is exactly LRU**: in every state reached by calls whose payloads fit the 64-bit
words together. -/
theorem cache_exactly_lru (cfg : Config) (bounded : cfg.cacheCapacityBytes ≠ 0) (calls : List CacheCall)
    (fits : Along (cacheStep cfg) (fun c call => (cacheStep cfg c call).2.residentBytes < 2 ^ 64) {} calls) :
    ExactLru cfg (run (cacheStep cfg) {} calls).2 := by
  have initial : ReadCache.Held cfg {} := ⟨ReadCache.linked_init, by decide, fun _ => Nat.zero_le _⟩
  have held := run_invariant (fun c call small held => ReadCache.Held.step held call small) fits initial
  constructor
  · intro addr buf enabled filled small sum absent
    refine held.linked.inserts_fresh addr bounded enabled filled small sum ?_
    exact Option.map_eq_none_iff.mp absent
  · intro addr buf present
    cases enabled : cfg.enableCache with
    | false => exact absurd (nothing_cached enabled calls _) present
    | true =>
      obtain ⟨p, found⟩ := Option.ne_none_iff_exists'.mp present
      obtain ⟨v, resident, -⟩ := Option.map_eq_some_iff.mp found
      rw [held.inserts_known addr enabled bounded resident]
      refine ⟨held.linked.recency_replace resident rfl, ?_⟩
      exact ReadCache.evictionCount_touchLocked _ _ _
  · intro ord addr size buf hit
    exact held.linked.moves_used hit

end

theorem evictingCalls_exactly_lru :
    smallCache.cacheCapacityBytes ≠ 0 ∧ ExactLru smallCache (run (cacheStep smallCache) {} evictingCalls).2 := by
  refine ⟨by decide, cache_exactly_lru smallCache (by decide) evictingCalls ?_⟩
  refine ⟨?_, ?_, ?_, ?_, ?_, trivial⟩ <;> decide +kernel

/-- The same cache switched off. -/
def disabledCache : Config := { smallCache with enableCache := false }

/-- A cache that is switched off takes no new key. -/
theorem disabledCache_takes_nothing :
    disabledCache.cacheCapacityBytes ≠ 0 ∧ (Bytes.ofList [1]).size ≤ disabledCache.cacheCapacityBytes ∧
      (run (cacheStep disabledCache) {} []).2.payload? ⟨⟨1, 0, 0⟩, (Bytes.ofList [1]).size⟩ = none ∧
      ¬ InsertsFresh disabledCache (run (cacheStep disabledCache) {} []).2 ⟨1, 0, 0⟩ (.ofList [1]) := by
  refine ⟨by decide, by decide, rfl, ?_⟩
  rintro ⟨kept, -, list, -⟩
  rw [ReadCache.insertCached_disabled rfl] at list
  cases list

end LeoMem
