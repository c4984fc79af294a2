import LeoMem.Cache.Recency

/-!
# Ranges against the bytes they stand for

`InvalidateRange` and `TryReadCached` compare range ends that are sums of 64-bit
words. For ranges whose ends stay below 2^64 the tests decide whether bytes are
shared or covered; an entry whose end wraps is judged by the wrapped end, so it
escapes an invalidation of its bytes and is not found by the scan.
-/

namespace LeoMem
open Lib

/-- Two ranges have a byte in common. -/
def SharesByte (a : GlobalAddr) (m : UInt64) (b : GlobalAddr) (n : UInt64) : Prop :=
  a.homeNode = b.homeNode ∧ a.regionId = b.regionId ∧
    ∃ x, a.offset.toNat ≤ x ∧ x < a.offset.toNat + m.toNat ∧ b.offset.toNat ≤ x ∧ x < b.offset.toNat + n.toNat

/-- The end of a range is past the 64-bit words. -/
def Wraps (a : GlobalAddr) (n : UInt64) : Prop := 2 ^ 64 ≤ a.offset.toNat + n.toNat

section
variable {a b : GlobalAddr} {m n : UInt64}

theorem sharesByte_iff :
    SharesByte a m b n ↔ a.homeNode = b.homeNode ∧ a.regionId = b.regionId ∧
      max a.offset.toNat b.offset.toNat < min (a.offset.toNat + m.toNat) (b.offset.toNat + n.toNat) := by
  unfold SharesByte
  refine and_congr_right fun _ => and_congr_right fun _ => ⟨?_, fun common => ?_⟩
  · rintro ⟨x, startA, stopA, startB, stopB⟩
    omega
  · exact ⟨max a.offset.toNat b.offset.toNat, by omega, by omega, by omega, by omega⟩

instance : Decidable (SharesByte a m b n) := decidable_of_iff _ sharesByte_iff.symm

instance : Decidable (Wraps a n) := inferInstanceAs (Decidable (_ ≤ _))

theorem rangesOverlap_iff :
    rangesOverlap a m b n = true ↔
      a.homeNode = b.homeNode ∧ a.regionId = b.regionId ∧ b.offset < a.offset + m ∧ a.offset < b.offset + n := by
  unfold rangesOverlap
  by_cases home : a.homeNode = b.homeNode
  · by_cases region : a.regionId = b.regionId
    · simp [home, region, UInt64.not_le]
    · simp [home, region]
  · simp [home]

theorem toNat_end (inside : ¬ Wraps a n) : (a.offset + n).toNat = a.offset.toNat + n.toNat := by
  unfold Wraps at inside
  rw [UInt64.toNat_add]
  omega

/-- Of two ranges that stay in the words the test decides whether they share a byte. -/
theorem rangesOverlap_eq (insideA : ¬ Wraps a m) (insideB : ¬ Wraps b n) (filledA : m ≠ 0) (filledB : n ≠ 0) :
    rangesOverlap a m b n = true ↔ SharesByte a m b n := by
  have posA := UInt64.pos_iff_ne_zero.mpr filledA
  have posB := UInt64.pos_iff_ne_zero.mpr filledB
  rw [UInt64.lt_iff_toNat_lt, UInt64.toNat_zero] at posA posB
  rw [rangesOverlap_iff, sharesByte_iff, UInt64.lt_iff_toNat_lt, UInt64.lt_iff_toNat_lt, toNat_end insideA, toNat_end insideB]
  refine and_congr_right fun _ => and_congr_right fun _ => ?_
  omega

/-- A range that wraps shares a byte with what it does not start after. -/
theorem sharesByte_of_wraps (wraps : Wraps a m) (insideB : ¬ Wraps b n) (filledB : n ≠ 0) :
    SharesByte a m b n ↔
      a.homeNode = b.homeNode ∧ a.regionId = b.regionId ∧ a.offset.toNat < b.offset.toNat + n.toNat := by
  have posB := UInt64.pos_iff_ne_zero.mpr filledB
  rw [UInt64.lt_iff_toNat_lt, UInt64.toNat_zero] at posB
  unfold Wraps at wraps insideB
  have start := a.offset.toNat_lt
  rw [sharesByte_iff]
  refine and_congr_right fun _ => and_congr_right fun _ => ?_
  omega

end

namespace ReadCache
variable {c : ReadCache}

/-! ## Invalidation -/

/-- The loop of `InvalidateRange` over entries that are there. -/
theorem Linked.recency_invalidateFold (addr : GlobalAddr) (size : UInt64)
    {es : List (Sigma fun _ : CacheKey => CachedValue)} (distinct : (es.map Sigma.fst).Nodup) (acc : UInt64 × ReadCache)
    (present : ∀ e ∈ es, acc.2.cachedReads.lookup e.1 = some e.2) (linked : acc.2.Linked) :
    (es.foldl (invalidateStep addr size) acc).2.recency =
        acc.2.recency.filter (fun e => ¬ (e.1 ∈ es.map Sigma.fst ∧ rangesOverlap e.1.addr e.1.size addr size = true)) ∧
      (es.foldl (invalidateStep addr size) acc).1 =
        acc.1 + UInt64.ofNat (es.countP fun e => rangesOverlap e.1.addr e.1.size addr size) := by
  induction es generalizing acc with
  | nil => simp
  | cons e es ih =>
    obtain ⟨fresh, distinct⟩ := List.nodup_cons.mp distinct
    have resident := present e List.mem_cons_self
    have later : ∀ e ∈ es, acc.2.cachedReads.lookup e.1 = some e.2 := fun e member =>
      present e (List.mem_cons_of_mem _ member)
    let hit := fun e : Sigma fun _ : CacheKey => CachedValue => rangesOverlap e.1.addr e.1.size addr size
    rw [List.foldl_cons]
    by_cases overlap : rangesOverlap e.1.addr e.1.size addr size = true
    · have step : invalidateStep addr size acc e = (acc.1 + 1, acc.2.eraseEntry e.1 e.2) := if_pos overlap
      have still : ∀ other ∈ es, (acc.2.eraseEntry e.1 e.2).cachedReads.lookup other.1 = some other.2 := by
        intro other member
        have different : other.1 ≠ e.1 := fun same => fresh (same ▸ List.mem_map_of_mem member)
        change (acc.2.cachedReads.erase e.1).lookup other.1 = _
        rw [HashMap.lookup_erase_if, if_neg different]
        exact later other member
      rw [step]
      obtain ⟨list, count⟩ := ih distinct (acc.1 + 1, acc.2.eraseEntry e.1 e.2) still
        (linked.eraseEntry resident).1
      constructor
      · rw [list, linked.recency_eraseEntry resident, without, List.filter_filter]
        refine List.filter_congr fun entry _ => ?_
        rw [← Bool.decide_and, decide_eq_decide, List.map_cons, List.mem_cons]
        by_cases same : entry.1 = e.1
        · simp [same, overlap]
        · simp [same]
      · rw [count, List.countP_cons_of_pos (p := hit) overlap, Nat.add_comm, UInt64.ofNat_add, ← UInt64.add_assoc]
        rfl
    · have step : invalidateStep addr size acc e = acc := if_neg overlap
      rw [step]
      obtain ⟨list, count⟩ := ih distinct acc later linked
      constructor
      · rw [list]
        refine List.filter_congr fun entry _ => ?_
        rw [decide_eq_decide, List.map_cons, List.mem_cons]
        by_cases same : entry.1 = e.1
        · simp [same, overlap]
        · simp [same]
      · rw [count, List.countP_cons_of_neg (p := hit) overlap]

/-- **What `InvalidateRange` does** to the list of entries, and the number it returns. -/
theorem Linked.recency_invalidateRange (linked : c.Linked) (ord : IterOrder) (addr : GlobalAddr) (size : UInt64) :
    (c.invalidateRange ord addr size).2.recency =
        c.recency.filter (fun e => ¬ rangesOverlap e.1.addr e.1.size addr size = true) ∧
      (c.invalidateRange ord addr size).1 =
        UInt64.ofNat (c.recency.countP fun e => rangesOverlap e.1.addr e.1.size addr size) := by
  obtain ⟨list, count⟩ := recency_invalidateFold addr size (nodup_arrange ord c.cachedReads) (0, c)
    (fun e member => HashMap.lookup_of_mem_arrange member) linked
  constructor
  · rw [ReadCache.invalidateRange, list]
    refine List.filter_congr fun entry member => ?_
    have stored : entry.1 ∈ (ord.arrange c.cachedReads.entries).map Sigma.fst := by
      obtain ⟨v, found, -⟩ := Option.map_eq_some_iff.mp (linked.mem_recency.mp member)
      exact List.mem_map.mpr ⟨⟨entry.1, v⟩, ord.mem_arrange.mpr (HashMap.mem_entries.mpr found), rfl⟩
    simp only [stored, true_and]
  · have same : (ord.arrange c.cachedReads.entries).countP (fun e => rangesOverlap e.1.addr e.1.size addr size) =
        c.recency.countP fun e => rangesOverlap e.1.addr e.1.size addr size := by
      rw [(ord.perm _).countP_eq, linked.perm_entries.countP_eq, List.countP_map]
      rfl
    rw [ReadCache.invalidateRange, count, same]
    exact UInt64.zero_add _

/-- The calls that insert nothing leave only entries that were there. -/
theorem within_of_no_insert (cfg : Config) {calls : List CacheCall}
    (none : ∀ call ∈ calls, ∀ addr buf, call ≠ .insertCached addr buf) (c : ReadCache) :
    (run (cacheStep cfg) c calls).2.Within c := by
  refine run_invariant (I := fun left => left.Within c) (fun left call quiet within => ?_) (along_of_inputs none c)
    (.refl c)
  cases call with
  | insertCached addr buf => exact absurd rfl (quiet addr buf)
  | tryReadCached ord addr size =>
    intro k p held
    exact within k p ((payload?_tryReadCached ord left addr size k).symm.trans held)
  | invalidate addr size =>
    intro k p held
    have kept : (left.invalidate addr size).2.payload? k = some p := held
    rw [payload?_invalidate] at kept
    split at kept
    · cases kept
    · exact within k p kept
  | invalidateRange ord addr size => exact (invalidateRange_within ord left addr size).trans within

/-- A lookup of a request is answered out of the entry `k`. -/
def ServedFrom (ord : IterOrder) (c : ReadCache) (addr : GlobalAddr) (size : UInt64) (k : CacheKey) : Prop :=
  ∃ v, c.cachedReads.lookup k = some v ∧
    c.tryReadCached ord addr size =
      (some (v.payload.slice (addr.offset - k.addr.offset).toNat size), c.touchLocked k v)

variable {addr : GlobalAddr} {size : UInt64}

/-- A lookup answers where a resident entry passes the test of the scan. -/
theorem tryReadCached_ne_none (filled : size ≠ 0) {k : CacheKey} (held : c.payload? k ≠ none)
    (covered : covers k addr size = true) (ord : IterOrder) : (c.tryReadCached ord addr size).1 ≠ none := by
  obtain ⟨p, found⟩ := Option.ne_none_iff_exists'.mp held
  obtain ⟨v, resident, -⟩ := Option.map_eq_some_iff.mp found
  rcases tryReadCached_used ord c addr size with ⟨missed, empty⟩ | ⟨used, w, -, -, -, -, read⟩
  · have test := (empty filled).2 k v resident
    rw [covered] at test
    cases test
  · rw [read]
    simp

theorem covers_of_hit {ord : IterOrder} (hit : (c.tryReadCached ord addr size).1 ≠ none) :
    ∃ k, c.payload? k ≠ none ∧ covers k addr size = true := by
  rcases tryReadCached_used ord c addr size with ⟨missed, -⟩ | ⟨k, v, -, resident, covered, -⟩
  · rw [missed] at hit
    exact absurd rfl hit
  · exact ⟨k, by simp [payload?, resident], covered⟩

/-- The entry a lookup is answered from passed its test: it is the one at the front afterwards. -/
theorem Linked.covers_of_servedFrom (linked : c.Linked) {ord : IterOrder} {k : CacheKey}
    (served : ServedFrom ord c addr size k) : size ≠ 0 ∧ c.payload? k ≠ none ∧ covers k addr size = true := by
  obtain ⟨v, resident, read⟩ := served
  refine ⟨?_, by simp [payload?, resident], ?_⟩
  · intro empty
    simp [ReadCache.tryReadCached, empty] at read
  · rcases tryReadCached_used ord c addr size with ⟨missed, -⟩ | ⟨used, w, -, found, covered, -, same⟩
    · rw [missed] at read
      cases congrArg Prod.fst read
    · have front := congrArg (fun r => r.2.recency) (same.symm.trans read)
      simp only [linked.recency_touchLocked resident, linked.recency_touchLocked found] at front
      have key : used = k := congrArg Prod.fst (List.cons.inj front).1
      exact key ▸ covered

/-! ## Exactness -/

/-- `InvalidateRange` of a range: exactly the entries that share a byte with it go, and their
number is returned; a request that shares a byte with it misses until the next insertion; one
that was answered from an entry apart from it still is. -/
structure InvalidatesExactly (cfg : Config) (ord : IterOrder) (c : ReadCache) (addr : GlobalAddr) (size : UInt64)
    (reqAddr : GlobalAddr) (reqSize : UInt64) : Prop where
  left : (c.invalidateRange ord addr size).2.recency =
    c.recency.filter fun e => ¬ SharesByte e.1.addr e.1.size addr size
  count : (c.invalidateRange ord addr size).1 =
    UInt64.ofNat (c.recency.countP fun e => SharesByte e.1.addr e.1.size addr size)
  gone : SharesByte reqAddr reqSize addr size →
    ∀ later ord', (∀ call ∈ later, ∀ a b, call ≠ CacheCall.insertCached a b) →
      ((run (cacheStep cfg) (c.invalidateRange ord addr size).2 later).2.tryReadCached ord' reqAddr reqSize).1 = none
  served : ∀ ord₀ k, ServedFrom ord₀ c reqAddr reqSize k → ¬ SharesByte k.addr k.size addr size →
    ∀ ord', ((c.invalidateRange ord addr size).2.tryReadCached ord' reqAddr reqSize).1 ≠ none

/-- No entry whose end wraps is misjudged: it starts after the range, or its wrapped end is past
the start of the range. -/
def WrappedSeen (c : ReadCache) (addr : GlobalAddr) (size : UInt64) : Prop :=
  ∀ k, c.payload? k ≠ none → k.addr.homeNode = addr.homeNode → k.addr.regionId = addr.regionId →
    Wraps k.addr k.size →
      addr.offset.toNat + size.toNat ≤ k.addr.offset.toNat ∨ addr.offset < k.addr.offset + k.size

/-- A request whose end wraps is taken for covered by no entry apart from the range. -/
def RequestSeen (c : ReadCache) (addr : GlobalAddr) (size : UInt64) (reqAddr : GlobalAddr) (reqSize : UInt64) : Prop :=
  Wraps reqAddr reqSize → SharesByte reqAddr reqSize addr size →
    ∀ k, c.payload? k ≠ none → ¬ SharesByte k.addr k.size addr size → covers k reqAddr reqSize = false

section
variable {addr : GlobalAddr} {size : UInt64}

theorem Linked.filled (linked : c.Linked) {k : CacheKey} (held : c.payload? k ≠ none) : k.size ≠ 0 := by
  obtain ⟨p, found⟩ := Option.ne_none_iff_exists'.mp held
  obtain ⟨v, resident, -⟩ := Option.map_eq_some_iff.mp found
  exact (linked.payload k v resident).2

/-- The test of `InvalidateRange` is right at every entry exactly where none is misjudged. -/
theorem Linked.overlaps_iff (linked : c.Linked) (filled : size ≠ 0) (inside : ¬ Wraps addr size) :
    (∀ k, c.payload? k ≠ none → (rangesOverlap k.addr k.size addr size = true ↔ SharesByte k.addr k.size addr size)) ↔
      c.WrappedSeen addr size := by
  have stop : (addr.offset + size).toNat = addr.offset.toNat + size.toNat := toNat_end inside
  constructor
  · intro right k held home region wraps
    by_cases before : k.addr.offset.toNat < addr.offset.toNat + size.toNat
    · have shares := (sharesByte_of_wraps wraps inside filled).mpr ⟨home, region, before⟩
      exact Or.inr (rangesOverlap_iff.mp ((right k held).mpr shares)).2.2.1
    · exact Or.inl (Nat.not_lt.mp before)
  · intro seen k held
    by_cases wraps : Wraps k.addr k.size
    · rw [rangesOverlap_iff, sharesByte_of_wraps wraps inside filled, UInt64.lt_iff_toNat_lt (a := k.addr.offset), stop]
      refine ⟨fun overlap => ⟨overlap.1, overlap.2.1, overlap.2.2.2⟩, fun shares => ⟨shares.1, shares.2.1, ?_, shares.2.2⟩⟩
      rcases seen k held shares.1 shares.2.1 wraps with after | past
      · exact absurd shares.2.2 (Nat.not_lt.mpr after)
      · exact past
    · exact rangesOverlap_eq wraps inside (linked.filled held) filled

/-- What the scan takes to cover a request apart from the range does cover it, unless the request wraps. -/
theorem sharesByte_of_covers {k : CacheKey} {reqAddr : GlobalAddr} {reqSize : UInt64} (filled : size ≠ 0)
    (inside : ¬ Wraps addr size) (reqInside : ¬ Wraps reqAddr reqSize) (covered : covers k reqAddr reqSize = true)
    (shares : SharesByte reqAddr reqSize addr size) : SharesByte k.addr k.size addr size := by
  obtain ⟨home, region, start, stop⟩ := covers_iff.mp covered
  obtain ⟨home', region', x, low, high, low', high'⟩ := shares
  rw [UInt64.le_iff_toNat_le] at start stop
  rw [toNat_end reqInside] at stop
  by_cases wraps : Wraps k.addr k.size
  · exact (sharesByte_of_wraps wraps inside filled).mpr ⟨home.trans home', region.trans region', by omega⟩
  · rw [toNat_end wraps] at stop
    exact ⟨home.trans home', region.trans region', x, by omega, by omega, low', high'⟩

section
variable (right : ∀ k, c.payload? k ≠ none →
  (rangesOverlap k.addr k.size addr size = true ↔ SharesByte k.addr k.size addr size)) {reqAddr : GlobalAddr}
  {reqSize : UInt64}

include right in
/-- An entry apart from the range is still there once the test is right. -/
theorem payload?_of_apart (ord : IterOrder) {k : CacheKey} (held : c.payload? k ≠ none)
    (apart : ¬ SharesByte k.addr k.size addr size) : (c.invalidateRange ord addr size).2.payload? k ≠ none := by
  rw [payload?_invalidateRange, if_neg fun overlap => apart ((right k held).mp overlap)]
  exact held

include right in
/-- A request that shares a byte with the range misses until the next insertion once the test is right. -/
theorem misses_of_shared (cfg : Config) (ord : IterOrder) (filled : size ≠ 0) (inside : ¬ Wraps addr size)
    (request : c.RequestSeen addr size reqAddr reqSize) (shares : SharesByte reqAddr reqSize addr size)
    {later : List CacheCall} (quiet : ∀ call ∈ later, ∀ a b, call ≠ CacheCall.insertCached a b) (ord' : IterOrder) :
    ((run (cacheStep cfg) (c.invalidateRange ord addr size).2 later).2.tryReadCached ord' reqAddr reqSize).1 = none := by
  by_contra hit
  obtain ⟨k, held, covered⟩ := covers_of_hit hit
  obtain ⟨p, found⟩ := Option.ne_none_iff_exists'.mp held
  have kept := within_of_no_insert cfg quiet _ k p found
  rw [payload?_invalidateRange] at kept
  split at kept
  · cases kept
  · rename_i missed
    have old : c.payload? k ≠ none := by simp [kept]
    have apart : ¬ SharesByte k.addr k.size addr size := fun shared => missed ((right k old).mpr shared)
    by_cases wraps : Wraps reqAddr reqSize
    · rw [request wraps shares k old apart] at covered
      cases covered
    · exact apart (sharesByte_of_covers filled inside wraps covered shares)

end

variable {k : CacheKey}

/-- The list tells whether the test is right. -/
theorem Linked.overlaps_of_left (linked : c.Linked) {ord : IterOrder} (left : (c.invalidateRange ord addr size).2.recency =
      c.recency.filter fun e => ¬ SharesByte e.1.addr e.1.size addr size) (held : c.payload? k ≠ none) :
    rangesOverlap k.addr k.size addr size = true ↔ SharesByte k.addr k.size addr size := by
  obtain ⟨p, found⟩ := Option.ne_none_iff_exists'.mp held
  have member := linked.mem_recency.mpr found
  have same := congrArg (fun l => (k, p) ∈ l) ((linked.recency_invalidateRange ord addr size).1.symm.trans left)
  simp only [List.mem_filter, member, true_and, decide_eq_true_eq, eq_iff_iff] at same
  exact not_iff_not.mp same

/-- **Range invalidation is exact** in every linked cache, exactly where neither an entry nor the
request is misjudged. -/
theorem Linked.invalidates_exactly_iff (linked : c.Linked) (cfg : Config) (ord : IterOrder) (filled : size ≠ 0)
    (inside : ¬ Wraps addr size) (reqAddr : GlobalAddr) (reqSize : UInt64) :
    InvalidatesExactly cfg ord c addr size reqAddr reqSize ↔
      c.WrappedSeen addr size ∧ c.RequestSeen addr size reqAddr reqSize := by
  obtain ⟨list, number⟩ := linked.recency_invalidateRange ord addr size
  constructor
  · intro invalidated
    have right := fun k held => linked.overlaps_of_left invalidated.left (k := k) held
    refine ⟨(linked.overlaps_iff filled inside).mp right, fun _ shares k held apart => ?_⟩
    cases covered : covers k reqAddr reqSize with
    | false => rfl
    | true =>
      have reqFilled : reqSize ≠ 0 := by
        rintro rfl
        obtain ⟨-, -, x, low, high, -⟩ := shares
        rw [UInt64.toNat_zero] at high
        omega
      have hit := tryReadCached_ne_none reqFilled (payload?_of_apart right ord held apart) covered ord
      exact absurd (invalidated.gone shares [] ord (by simp)) hit
  · rintro ⟨seen, request⟩
    have right := (linked.overlaps_iff filled inside).mpr seen
    refine ⟨?_, ?_, fun shares later ord' quiet => ?_, fun ord₀ k served apart ord' => ?_⟩
    · rw [list]
      refine List.filter_congr fun e member => ?_
      have held : c.payload? e.1 ≠ none := by simp [linked.mem_recency.mp member]
      simp only [right e.1 held]
    · rw [number]
      refine congrArg UInt64.ofNat (List.countP_congr fun e member => ?_)
      have held : c.payload? e.1 ≠ none := by simp [linked.mem_recency.mp member]
      simp only [right e.1 held, decide_eq_true_eq]
    · exact misses_of_shared right cfg ord filled inside request shares quiet ord'
    · obtain ⟨reqFilled, held, covered⟩ := linked.covers_of_servedFrom served
      exact tryReadCached_ne_none reqFilled (payload?_of_apart right ord held apart) covered ord'

/-! ## Lookup -/

/-- Every byte of the range is one of the key's. -/
def CoversBytes (k : CacheKey) (addr : GlobalAddr) (size : UInt64) : Prop :=
  k.addr.homeNode = addr.homeNode ∧ k.addr.regionId = addr.regionId ∧ k.addr.offset.toNat ≤ addr.offset.toNat ∧
    addr.offset.toNat + size.toNat ≤ k.addr.offset.toNat + k.size.toNat

instance (k : CacheKey) (addr : GlobalAddr) (size : UInt64) : Decidable (CoversBytes k addr size) :=
  inferInstanceAs (Decidable (_ ∧ _))

/-- `TryReadCached` finds a covering entry if there is one, copies the request out of it in bounds,
out of the one under the exact key where it is resident, and changes no entry. -/
structure LooksUpExactly (ord : IterOrder) (c : ReadCache) (addr : GlobalAddr) (size : UInt64) : Prop where
  found : (c.tryReadCached ord addr size).1 ≠ none ↔ ∃ k, c.payload? k ≠ none ∧ CoversBytes k addr size
  slice : ∀ buf, (c.tryReadCached ord addr size).1 = some buf →
    ∃ k p, c.payload? k = some p ∧ CoversBytes k addr size ∧ (c.payload? ⟨addr, size⟩ ≠ none → k = ⟨addr, size⟩) ∧
      buf = p.slice (addr.offset.toNat - k.addr.offset.toNat) size ∧
      ∀ i < size.toNat, addr.offset.toNat - k.addr.offset.toNat + i < p.data.length
  kept : ∀ k, (c.tryReadCached ord addr size).2.payload? k = c.payload? k
  bytes : (c.tryReadCached ord addr size).2.cachedBytes = c.cachedBytes

/-- The scan passes over every entry whose end wraps. -/
theorem covers_of_wraps (wraps : Wraps k.addr k.size) (inside : ¬ Wraps addr size) : covers k addr size = false := by
  cases covered : covers k addr size with
  | false => rfl
  | true =>
    obtain ⟨-, -, start, stop⟩ := covers_iff.mp covered
    have length := k.size.toNat_lt
    have origin := k.addr.offset.toNat_lt
    unfold Wraps at wraps
    rw [UInt64.le_iff_toNat_le] at start stop
    rw [toNat_end inside, UInt64.toNat_add] at stop
    omega

theorem covers_eq (within : ¬ Wraps k.addr k.size) (inside : ¬ Wraps addr size) :
    covers k addr size = true ↔ CoversBytes k addr size := by
  rw [covers_iff, UInt64.le_iff_toNat_le, UInt64.le_iff_toNat_le, toNat_end within, toNat_end inside]
  exact Iff.rfl

/-- What passes the test of the scan covers the request. -/
theorem coversBytes_of_covers (inside : ¬ Wraps addr size) (covered : covers k addr size = true) :
    ¬ Wraps k.addr k.size ∧ CoversBytes k addr size := by
  by_cases wraps : Wraps k.addr k.size
  · rw [covers_of_wraps wraps inside] at covered
    cases covered
  · exact ⟨wraps, (covers_eq wraps inside).mp covered⟩

/-- The slice of a hit is in bounds. -/
theorem Linked.slice_of_hit (linked : c.Linked) (inside : ¬ Wraps addr size) {ord : IterOrder} {buf : Bytes}
    (hit : (c.tryReadCached ord addr size).1 = some buf) :
    ∃ k p, c.payload? k = some p ∧ CoversBytes k addr size ∧ (c.payload? ⟨addr, size⟩ ≠ none → k = ⟨addr, size⟩) ∧
      buf = p.slice (addr.offset.toNat - k.addr.offset.toNat) size ∧
      ∀ i < size.toNat, addr.offset.toNat - k.addr.offset.toNat + i < p.data.length := by
  rcases tryReadCached_used ord c addr size with ⟨missed, -⟩ | ⟨k, v, -, resident, covered, exactly, read⟩
  · rw [missed] at hit
    cases hit
  · obtain ⟨-, bytes⟩ := coversBytes_of_covers inside covered
    have start := bytes.2.2.1
    have stop := bytes.2.2.2
    have length : v.payload.data.length = k.size.toNat := by
      rw [← Bytes.toNat_size, (linked.payload k v resident).1]
    have distance : (addr.offset - k.addr.offset).toNat = addr.offset.toNat - k.addr.offset.toNat :=
      UInt64.toNat_sub_of_le _ _ (UInt64.le_iff_toNat_le.mpr start)
    rw [read, distance] at hit
    refine ⟨k, v.payload, by simp [payload?, resident], bytes, fun present => ?_, (Option.some.inj hit).symm, ?_⟩
    · rcases exactly with same | absent
      · exact same
      · exact absurd (by simp [payload?, absent]) present
    · intro i below
      omega

/-- **Lookup is exact** in every linked cache, exactly where no entry whose end wraps is the only
one to cover the request. -/
theorem Linked.looks_up_exactly_iff (linked : c.Linked) (ord : IterOrder) (filled : size ≠ 0)
    (inside : ¬ Wraps addr size) :
    LooksUpExactly ord c addr size ↔
      (∀ k, c.payload? k ≠ none → k.addr.homeNode = addr.homeNode → k.addr.regionId = addr.regionId →
          Wraps k.addr k.size → addr.offset < k.addr.offset) ∨
        ∃ k, c.payload? k ≠ none ∧ ¬ Wraps k.addr k.size ∧ CoversBytes k addr size := by
  constructor
  · intro looked
    by_cases hit : (c.tryReadCached ord addr size).1 = none
    · refine Or.inl fun k held home region wraps => ?_
      by_contra before
      have start := UInt64.le_iff_toNat_le.mp (UInt64.not_lt.mp before)
      unfold Wraps at wraps inside
      exact looked.found.mpr ⟨k, held, home, region, start, by omega⟩ hit
    · obtain ⟨k, held, covered⟩ := covers_of_hit hit
      exact Or.inr ⟨k, held, coversBytes_of_covers inside covered⟩
  · intro seen
    have answered : ∀ k, c.payload? k ≠ none → ¬ Wraps k.addr k.size → CoversBytes k addr size →
        (c.tryReadCached ord addr size).1 ≠ none := fun k held within bytes =>
      tryReadCached_ne_none filled held ((covers_eq within inside).mpr bytes) ord
    refine ⟨⟨fun hit => ?_, ?_⟩, fun buf hit => linked.slice_of_hit inside hit,
      payload?_tryReadCached ord c addr size, ?_⟩
    · obtain ⟨k, held, covered⟩ := covers_of_hit hit
      exact ⟨k, held, (coversBytes_of_covers inside covered).2⟩
    · rintro ⟨k, held, bytes⟩
      by_cases wraps : Wraps k.addr k.size
      · rcases seen with after | ⟨other, held, within, bytes⟩
        · have start := UInt64.lt_iff_toNat_lt.mp (after k held bytes.1 bytes.2.1 wraps)
          exact absurd bytes.2.2.1 (Nat.not_le.mpr start)
        · exact answered other held within bytes
      · exact answered k held wraps bytes
    · rcases tryReadCached_used ord c addr size with ⟨missed, -⟩ | ⟨k, v, -, -, -, -, read⟩
      · rw [missed]
      · rw [read, ReadCache.touchLocked]
        split
        · rfl
        · rfl

end
end ReadCache

/-! ## Reachable caches -/

/-- **Range invalidation is exact and sufficient** in every reachable cache, for every range whose end
does not wrap and every request, exactly where no wrapped end is misjudged. -/
theorem range_invalidation_exact_iff (cfg : Config) (calls : List CacheCall) (ord : IterOrder) (addr : GlobalAddr)
    (size : UInt64) (filled : size ≠ 0) (inside : ¬ Wraps addr size) (reqAddr : GlobalAddr) (reqSize : UInt64) :
    ReadCache.InvalidatesExactly cfg ord (run (cacheStep cfg) {} calls).2 addr size reqAddr reqSize ↔
      (run (cacheStep cfg) {} calls).2.WrappedSeen addr size ∧
        (run (cacheStep cfg) {} calls).2.RequestSeen addr size reqAddr reqSize :=
  (cache_linked cfg calls).invalidates_exactly_iff cfg ord filled inside reqAddr reqSize

/-- Two touching entries and one of another home. -/
def touchingCalls : List CacheCall :=
  [.insertCached ⟨1, 0, 0⟩ (.ofList [1, 2]), .insertCached ⟨1, 0, 2⟩ (.ofList [3, 4]),
    .insertCached ⟨2, 0, 0⟩ (.ofList [5, 6])]

theorem touchingCalls_inside {k : CacheKey} (held : (run (cacheStep {}) {} touchingCalls).2.payload? k ≠ none) :
    ¬ Wraps k.addr k.size := by
  obtain ⟨p, found⟩ := Option.ne_none_iff_exists'.mp held
  have member := (cache_linked {} touchingCalls).mem_recency.mpr found
  have all : ∀ e ∈ (run (cacheStep {}) {} touchingCalls).2.recency, ¬ Wraps e.1.addr e.1.size := by decide +kernel
  exact all (k, p) member

theorem touchingCalls_invalidated :
    ReadCache.InvalidatesExactly {} .stored (run (cacheStep {}) {} touchingCalls).2 ⟨1, 0, 2⟩ 2 ⟨1, 0, 1⟩ 1 := by
  refine (range_invalidation_exact_iff {} touchingCalls .stored ⟨1, 0, 2⟩ 2 (by decide) (by decide) ⟨1, 0, 1⟩ 1).mpr ⟨?_, ?_⟩
  · exact fun k held _ _ wraps => absurd wraps (touchingCalls_inside held)
  · exact fun wraps => absurd wraps (by decide)

/-- An entry of eight bytes that starts four bytes below 2^64. -/
def wrappedCalls : List CacheCall :=
  [.insertCached ⟨1, 0, 0xfffffffffffffffc⟩ (.ofList [1, 2, 3, 4, 5, 6, 7, 8])]

/-- Its first two bytes are invalidated, and it stays. -/
theorem wrappedEntry_not_invalidated :
    (2 : UInt64) ≠ 0 ∧ ¬ Wraps ⟨1, 0, 0xfffffffffffffffc⟩ 2 ∧
      ¬ ReadCache.InvalidatesExactly {} .stored (run (cacheStep {}) {} wrappedCalls).2 ⟨1, 0, 0xfffffffffffffffc⟩ 2
        ⟨1, 0, 0xfffffffffffffffc⟩ 8 := by
  refine ⟨by decide, by decide, fun invalidated => ?_⟩
  have stays : ((run (cacheStep {}) {} wrappedCalls).2.invalidateRange .stored ⟨1, 0, 0xfffffffffffffffc⟩ 2).2.recency ≠
      (run (cacheStep {}) {} wrappedCalls).2.recency.filter
        fun e => ¬ SharesByte e.1.addr e.1.size ⟨1, 0, 0xfffffffffffffffc⟩ 2 := by
    decide +kernel
  exact stays invalidated.left

/-- **Lookup is complete and in bounds** in every reachable cache, for every request whose end does
not wrap, exactly where no entry whose end wraps is the only one to cover it. -/
theorem cache_lookup_exact_iff (cfg : Config) (calls : List CacheCall) (ord : IterOrder) (addr : GlobalAddr)
    (size : UInt64) (filled : size ≠ 0) (inside : ¬ Wraps addr size) :
    ReadCache.LooksUpExactly ord (run (cacheStep cfg) {} calls).2 addr size ↔
      (∀ k, (run (cacheStep cfg) {} calls).2.payload? k ≠ none → k.addr.homeNode = addr.homeNode →
          k.addr.regionId = addr.regionId → Wraps k.addr k.size → addr.offset < k.addr.offset) ∨
        ∃ k, (run (cacheStep cfg) {} calls).2.payload? k ≠ none ∧ ¬ Wraps k.addr k.size ∧
          ReadCache.CoversBytes k addr size :=
  (cache_linked cfg calls).looks_up_exactly_iff ord filled inside

theorem touchingCalls_looked_up :
    ReadCache.LooksUpExactly .stored (run (cacheStep {}) {} touchingCalls).2 ⟨1, 0, 1⟩ 1 := by
  refine (cache_lookup_exact_iff {} touchingCalls .stored ⟨1, 0, 1⟩ 1 (by decide) (by decide)).mpr (Or.inl ?_)
  exact fun k held _ _ wraps => absurd wraps (touchingCalls_inside held)

/-- The entry that wraps covers the request for its first two bytes, and the lookup misses it. -/
theorem wrappedEntry_not_found :
    (2 : UInt64) ≠ 0 ∧ ¬ Wraps ⟨1, 0, 0xfffffffffffffffc⟩ 2 ∧
      ¬ ReadCache.LooksUpExactly .stored (run (cacheStep {}) {} wrappedCalls).2 ⟨1, 0, 0xfffffffffffffffc⟩ 2 := by
  refine ⟨by decide, by decide, fun looked => ?_⟩
  have missed : ((run (cacheStep {}) {} wrappedCalls).2.tryReadCached .stored ⟨1, 0, 0xfffffffffffffffc⟩ 2).1 = none := by
    decide +kernel
  have held : (run (cacheStep {}) {} wrappedCalls).2.payload? ⟨⟨1, 0, 0xfffffffffffffffc⟩, 8⟩ ≠ none := by
    decide +kernel
  exact looked.found.mpr ⟨_, held, by decide⟩ missed

end LeoMem
