import LeoMem.Api.Frame

/-!
# What `lm_read` does

One lemma for each function on the read path. A read moves no data: it keeps the
queues and whatever part `obs` of the transport's state reads keep, and adds at
most its own answer to the cache. The answer is a slice of a cached entry, or what
the transport read at the recorded owner, or what it read at home.
-/

namespace LeoMem
open Lib RuntimeContext

/-- The recorded owner `TryOwnerAwareRead` reads from instead of the home: every block of
the range names it, and is validated. -/
structure Redirects (cfg : Config) (t : BlockTable) (addr : GlobalAddr) (metas : List BlockId) (owner : NodeId) :
    Prop where
  blocks : metas ≠ []
  recorded : ∀ b ∈ metas, (t.get b).ownerNode = owner
  validated : ∀ b ∈ metas, (t.get b).version ≤ (t.get b).lastValidatedVersion
  valid : owner ≠ kInvalidNodeId
  other : owner ≠ cfg.nodeId
  away : owner ≠ addr.homeNode

theorem allMetasValidated_iff (t : BlockTable) (metas : List BlockId) :
    allMetasValidated t metas = true ↔ ∀ b ∈ metas, (t.get b).version ≤ (t.get b).lastValidatedVersion := by
  simp [allMetasValidated]

variable {cfg : Config} {metas : List BlockId} {t : BlockTable}

theorem dominantOwnerNode_eq_iff {fallback owner : NodeId} (valid : owner ≠ kInvalidNodeId) (away : owner ≠ fallback) :
    dominantOwnerNode t metas fallback = owner ↔ metas ≠ [] ∧ ∀ b ∈ metas, (t.get b).ownerNode = owner := by
  cases metas with
  | nil => simp [dominantOwnerNode, Ne.symm away]
  | cons bid bids =>
    simp only [dominantOwnerNode, ne_eq, reduceCtorEq, not_false_eq_true, true_and, List.mem_cons, forall_eq_or_imp]
    by_cases first : (t.get bid).ownerNode = owner
    · rw [first, if_neg valid]
      by_cases rest : ∀ b ∈ bids, (t.get b).ownerNode = owner
      · rw [if_pos (by simpa using rest)]
        exact ⟨fun _ => ⟨rfl, rest⟩, fun _ => rfl⟩
      · rw [if_neg (by simpa using rest)]
        exact ⟨fun home => absurd home.symm away, fun all => absurd all.2 rest⟩
    · simp only [first, false_and, iff_false]
      split
      · exact Ne.symm away
      · split
        · exact first
        · exact Ne.symm away

theorem redirects_iff {addr : GlobalAddr} {owner : NodeId} :
    Redirects cfg t addr metas owner ↔
      dominantOwnerNode t metas addr.homeNode = owner ∧ allMetasValidated t metas = true ∧
        owner ≠ cfg.nodeId ∧ owner ≠ kInvalidNodeId ∧ owner ≠ addr.homeNode := by
  constructor
  · intro h
    exact ⟨(dominantOwnerNode_eq_iff h.valid h.away).mpr ⟨h.blocks, h.recorded⟩,
      (allMetasValidated_iff t metas).mpr h.validated, h.other, h.valid, h.away⟩
  · rintro ⟨dominant, validated, other, valid, away⟩
    obtain ⟨blocks, recorded⟩ := (dominantOwnerNode_eq_iff valid away).mp dominant
    exact ⟨blocks, recorded, (allMetasValidated_iff t metas).mp validated, valid, other, away⟩

/-- Only one owner can be redirected to. -/
theorem Redirects.unique {addr : GlobalAddr} {owner owner' : NodeId} (h : Redirects cfg t addr metas owner)
    (h' : Redirects cfg t addr metas owner') : owner = owner' :=
  (redirects_iff.mp h).1.symm.trans (redirects_iff.mp h').1

/-- Where a read is redirected to is a matter of the ownership fields alone. -/
theorem redirects_congr {t t' : BlockTable} (same : ∀ b, (t.get b).SameOwnership (t'.get b)) (addr : GlobalAddr)
    (metas : List BlockId) (owner : NodeId) : Redirects cfg t' addr metas owner ↔ Redirects cfg t addr metas owner := by
  constructor
  · rintro ⟨blocks, recorded, validated, valid, other, away⟩
    refine ⟨blocks, fun b member => (same b).ownerNode ▸ recorded b member, fun b member => ?_, valid, other, away⟩
    rw [← (same b).version, ← (same b).lastValidatedVersion]
    exact validated b member
  · rintro ⟨blocks, recorded, validated, valid, other, away⟩
    refine ⟨blocks, fun b member => (same b).ownerNode.trans (recorded b member), fun b member => ?_, valid, other, away⟩
    rw [(same b).version, (same b).lastValidatedVersion]
    exact validated b member

/-! ## The records an access touches -/

theorem observeMetas_ownership (cfg : Config) (type : AccessType) (isLocal : Bool) (bids : List BlockId)
    (o : Observation) (b : BlockId) :
    (o.table.get b).SameOwnership ((observeMetas cfg type isLocal bids o).2.table.get b) := by
  induction bids generalizing o with
  | nil => exact .refl _
  | cons bid bids ih =>
    have here : (o.table.get b).SameOwnership ((o.table.modify bid fun _ =>
        (observeAccess cfg o.accessEpoch (o.table.get bid) type isLocal).2.2).get b) := by
      rw [BlockTable.get_modify]
      split
      · rename_i same
        rw [same]
        exact observeAccess_ownership cfg o.accessEpoch _ type isLocal
      · exact .refl _
    exact here.trans (ih ⟨_, _, _⟩)

theorem observeMetas_override (cfg : Config) (lower : 0 ≤ cfg.coherenceModeOverride)
    (upper : cfg.coherenceModeOverride ≤ 2) (type : AccessType) (isLocal : Bool) (bids : List BlockId)
    (o : Observation) :
    (observeMetas cfg type isLocal bids o).1 = bids.map fun _ => CoherenceMode.ofInt cfg.coherenceModeOverride := by
  induction bids generalizing o with
  | nil => rfl
  | cons bid bids ih =>
    simp only [observeMetas, List.map_cons, ih, observeAccess_override lower upper]

section
variable {ω α : Type}

variable (ctx : RuntimeContext ω)

/-- The record of a block after `PrepareMetadata` and `ObserveMetas`. -/
theorem touchMetadata_ownership (addr : GlobalAddr) (range : BlockRange) (type : AccessType) (b : BlockId) :
    (if b ∈ range.ids addr.regionId then prepareMeta ctx.config addr type (ctx.blockTable.get b)
      else ctx.blockTable.get b).SameOwnership ((touchMetadata ctx addr range type).2.blockTable.get b) := by
  have prepared := BlockTable.get_modifyAll ctx.blockTable (range.nodup_ids addr.regionId)
    (prepareMeta ctx.config addr type) b
  rw [← prepared]
  exact observeMetas_ownership ctx.config type _ _ ⟨_, _, _⟩ b

/-- `PrepareMetadata` of a remote read does not change where it is redirected to. -/
theorem redirects_touchMetadata {addr : GlobalAddr} {range : BlockRange} (remote : addr.homeNode ≠ ctx.config.nodeId)
    (owner : NodeId) :
    Redirects ctx.config (touchMetadata ctx addr range .kRead).2.blockTable addr (range.ids addr.regionId) owner ↔
      Redirects ctx.config ctx.blockTable addr (range.ids addr.regionId) owner := by
  have touched : ∀ b ∈ range.ids addr.regionId,
      (prepareMeta ctx.config addr .kRead (ctx.blockTable.get b)).SameOwnership
        ((touchMetadata ctx addr range .kRead).2.blockTable.get b) := by
    intro b member
    simpa only [if_pos member] using touchMetadata_ownership ctx addr range .kRead b
  have version : ∀ b ∈ range.ids addr.regionId,
      ((touchMetadata ctx addr range .kRead).2.blockTable.get b).version ≤
          ((touchMetadata ctx addr range .kRead).2.blockTable.get b).lastValidatedVersion ↔
        (ctx.blockTable.get b).version ≤ (ctx.blockTable.get b).lastValidatedVersion := by
    intro b member
    rw [(touched b member).version, (touched b member).lastValidatedVersion]
    simp [prepareMeta, remote]
  constructor
  · rintro ⟨blocks, recorded, validated, valid, other, away⟩
    refine ⟨blocks, fun b member => ?_, fun b member => (version b member).mp (validated b member), valid, other, away⟩
    have owned := (touched b member).ownerNode
    rw [recorded b member] at owned
    simp only [prepareMeta, if_neg remote] at owned
    split at owned
    · exact absurd owned away
    · exact owned.symm
  · rintro ⟨blocks, recorded, validated, valid, other, away⟩
    refine ⟨blocks, fun b member => ?_, fun b member => (version b member).mpr (validated b member), valid, other, away⟩
    rw [(touched b member).ownerNode, prepareMeta, if_neg remote]
    simp [recorded b member, valid]

/-! ## The read path -/

/-- What every step of a read leaves alone. -/
structure ReadFrame (obs : ω → α) (ctx ctx' : RuntimeContext ω) : Prop where
  initialized : ctx'.initialized = ctx.initialized
  config : ctx'.config = ctx.config
  allocator : ctx'.allocator = ctx.allocator
  queues : ctx'.queues = ctx.queues
  acks : ctx'.pendingControlAcks = ctx.pendingControlAcks
  transport : obs ctx'.transport = obs ctx.transport

theorem ReadFrame.refl (obs : ω → α) (ctx : RuntimeContext ω) : ReadFrame obs ctx ctx := ⟨rfl, rfl, rfl, rfl, rfl, rfl⟩

theorem ReadFrame.trans {obs : ω → α} {a b c : RuntimeContext ω} (first : ReadFrame obs a b)
    (second : ReadFrame obs b c) : ReadFrame obs a c :=
  ⟨second.initialized.trans first.initialized, second.config.trans first.config,
    second.allocator.trans first.allocator, second.queues.trans first.queues, second.acks.trans first.acks,
    second.transport.trans first.transport⟩

theorem admitRead_frame (obs : ω → α) (ctx : RuntimeContext ω) (addr : GlobalAddr) (buf : Bytes) (metas : List BlockId)
    (modes : List CoherenceMode) (redirected : Bool) :
    ReadFrame obs ctx (admitRead ctx addr buf metas modes redirected) := ⟨rfl, rfl, rfl, rfl, rfl, rfl⟩

theorem admitRead_cache (addr : GlobalAddr) (buf : Bytes) (metas : List BlockId) (modes : List CoherenceMode)
    (redirected : Bool) :
    (admitRead ctx addr buf metas modes redirected).cache = ctx.cache ∨
      hasMode modes .kWI = false ∧
        (admitRead ctx addr buf metas modes redirected).cache = ctx.cache.insertCached ctx.config addr buf := by
  by_cases wi : hasMode modes .kWI = true
  · exact Or.inl (by simp [admitRead, setCache, wi])
  · cases admitted : (shouldAdmitCached ctx.config (recordOwnerRead ctx.blockTable metas redirected) metas).1
    · exact Or.inl (by simp [admitRead, setCache, wi, admitted])
    · exact Or.inr ⟨by simpa using wi, by simp [admitRead, setCache, wi, admitted]⟩

theorem countMiss_ownership (metas : List BlockId) (b : BlockId) :
    (ctx.blockTable.get b).SameOwnership ((countMiss ctx metas).blockTable.get b) :=
  BlockTable.modifyAll_rel .refl .trans _ _ _ fun _ _ => ⟨rfl, rfl, rfl, rfl⟩

variable [Transport ω]

/-- Reads of the transport keep `obs`. -/
def ReadKeeps (cfg : Config) (obs : ω → α) : Prop :=
  ∀ d addr size w, obs (Transport.read cfg d addr size w).2 = obs w

variable {obs : ω → α} {ctx : RuntimeContext ω} {addr : GlobalAddr} {size : UInt64} {metas : List BlockId}

theorem readHome_frame (ctx : RuntimeContext ω) (keeps : ReadKeeps ctx.config obs) (addr : GlobalAddr) (size : UInt64) :
    ReadFrame obs ctx (readHome ctx addr size).2 := ⟨rfl, rfl, rfl, rfl, rfl, keeps _ _ _ _⟩

/-- The transport's answer at `node`, in a state that `obs` does not tell from `ctx`'s. -/
def ReadsAt (obs : ω → α) (ctx : RuntimeContext ω) (addr : GlobalAddr) (size : UInt64) (node : NodeId)
    (answer : Except Status Bytes) : Prop :=
  ∃ w, obs w = obs ctx.transport ∧
    (Transport.read ctx.config ctx.allocator { addr with homeNode := node } size w).1 = answer

theorem ReadFrame.readsAt_iff {ctx' : RuntimeContext ω} (frame : ReadFrame obs ctx ctx') {node : NodeId}
    {answer : Except Status Bytes} :
    ReadsAt obs ctx' addr size node answer ↔ ReadsAt obs ctx addr size node answer := by
  simp only [ReadsAt, frame.config, frame.allocator, frame.transport]

theorem readHome_reads (obs : ω → α) (ctx : RuntimeContext ω) (addr : GlobalAddr) (size : UInt64) :
    ReadsAt obs ctx addr size addr.homeNode (readHome ctx addr size).1 := ⟨ctx.transport, rfl, rfl⟩

/-- What `TryOwnerAwareRead` answers after a cache miss: from the owner it redirects to, or
from the home when there is none to redirect to or that read failed. -/
structure OwnerRead (obs : ω → α) (ctx : RuntimeContext ω) (addr : GlobalAddr) (size : UInt64)
    (metas : List BlockId) (r : (Except Status Bytes × Bool) × RuntimeContext ω) : Prop where
  frame : ReadFrame obs ctx r.2
  cache : ∀ k, r.2.cache.payload? k = ctx.cache.payload? k
  redirected : r.1.2 = true →
    ∃ owner buf, Redirects ctx.config ctx.blockTable addr metas owner ∧ r.1.1 = .ok buf ∧
      ReadsAt obs ctx addr size owner (.ok buf)
  direct : r.1.2 = false →
    ReadsAt obs ctx addr size addr.homeNode r.1.1 ∧
      ∀ owner, Redirects ctx.config ctx.blockTable addr metas owner →
        ∃ s, ReadsAt obs ctx addr size owner (.error s)

theorem readHomeValidating_ownerRead (keeps : ReadKeeps ctx.config obs)
    (noOwner : ∀ owner, Redirects ctx.config ctx.blockTable addr metas owner →
      ∃ s, ReadsAt obs ctx addr size owner (.error s)) :
    OwnerRead obs ctx addr size metas (readHomeValidating ctx addr size metas) := by
  have frame := readHome_frame ctx keeps addr size
  have reads := readHome_reads obs ctx addr size
  have cache : (readHome ctx addr size).2.cache = ctx.cache := rfl
  unfold readHomeValidating
  generalize readHome ctx addr size = r at frame reads cache
  obtain ⟨answer, ctx'⟩ := r
  have kept : ∀ k, ctx'.cache.payload? k = ctx.cache.payload? k := fun k => congrArg (·.payload? k) cache
  cases answer with
  | ok buf => exact ⟨frame.trans ⟨rfl, rfl, rfl, rfl, rfl, rfl⟩, kept, by simp, fun _ => ⟨reads, noOwner⟩⟩
  | error s => exact ⟨frame, kept, by simp, fun _ => ⟨reads, noOwner⟩⟩

/-- An owner read in a later state of the same call. -/
theorem OwnerRead.of_frame {ctx' : RuntimeContext ω} {r : (Except Status Bytes × Bool) × RuntimeContext ω}
    (frame : ReadFrame obs ctx ctx') (cache : ∀ k, ctx'.cache.payload? k = ctx.cache.payload? k)
    (table : ∀ owner, Redirects ctx.config ctx'.blockTable addr metas owner ↔
      Redirects ctx.config ctx.blockTable addr metas owner)
    (read : OwnerRead obs ctx' addr size metas r) : OwnerRead obs ctx addr size metas r := by
  refine ⟨frame.trans read.frame, fun k => (read.cache k).trans (cache k), fun redirected => ?_, fun direct => ?_⟩
  · obtain ⟨owner, buf, redirects, answer, reads⟩ := read.redirected redirected
    rw [frame.config] at redirects
    exact ⟨owner, buf, (table owner).mp redirects, answer, frame.readsAt_iff.mp reads⟩
  · obtain ⟨reads, noOwner⟩ := read.direct direct
    rw [frame.config] at noOwner
    refine ⟨frame.readsAt_iff.mp reads, fun owner redirects => ?_⟩
    obtain ⟨s, failed⟩ := noOwner owner ((table owner).mpr redirects)
    exact ⟨s, frame.readsAt_iff.mp failed⟩

/-- **The rule for an owner-aware read**. A node that is the recorded owner itself looks into its
cache once more and then reads the home; another reads the owner, and the home after that failed
or where there is no owner to redirect to. -/
theorem tryOwnerAwareRead_rule {ord : IterOrder} {J : (Except Status Bytes × Bool) × RuntimeContext ω → Prop}
    (cached : ∀ buf, (ctx.cache.tryReadCached ord addr size).1 = some buf →
      J ((.ok buf, true), ctx.setCache (ctx.cache.tryReadCached ord addr size).2))
    (served : ∀ c, (∀ k, c.payload? k = ctx.cache.payload? k) →
      (∀ owner, ¬Redirects ctx.config ctx.blockTable addr metas owner) →
      ∀ buf ctx', readHome (ctx.setCache c) addr size = (.ok buf, ctx') →
        J ((.ok buf, false), { ctx' with blockTable := markReadValidated ctx'.blockTable metas }))
    (failed : ∀ c, (∀ k, c.payload? k = ctx.cache.payload? k) →
      (∀ owner, ¬Redirects ctx.config ctx.blockTable addr metas owner) →
      ∀ s ctx', readHome (ctx.setCache c) addr size = (.error s, ctx') → J ((.error s, false), ctx'))
    (redirected : ∀ owner, Redirects ctx.config ctx.blockTable addr metas owner →
      ∀ buf ctx', readHome ctx { addr with homeNode := owner } size = (.ok buf, ctx') →
        J ((.ok buf, true), { ctx' with blockTable := markReadValidated ctx'.blockTable metas }))
    (refused : ∀ owner, Redirects ctx.config ctx.blockTable addr metas owner →
      ∀ s ctx', readHome ctx { addr with homeNode := owner } size = (.error s, ctx') →
        J (readHomeValidating ctx' addr size metas))
    (direct : (∀ owner, ¬Redirects ctx.config ctx.blockTable addr metas owner) →
      J (readHomeValidating ctx addr size metas)) :
    J (tryOwnerAwareRead ord ctx addr size metas) := by
  unfold tryOwnerAwareRead
  simp only
  split
  · rename_i recorded
    have noOwner : ∀ owner, ¬Redirects ctx.config ctx.blockTable addr metas owner := by
      intro owner redirects
      exact redirects.other ((redirects_iff.mp redirects).1.symm.trans recorded)
    by_cases validated : allMetasValidated ctx.blockTable metas = true
    · rw [if_pos validated]
      cases looked : (ctx.cache.tryReadCached ord addr size).1 with
      | some buf => exact cached buf looked
      | none =>
        have kept := ReadCache.payload?_tryReadCached ord ctx.cache addr size
        rcases read : readHome (ctx.setCache (ctx.cache.tryReadCached ord addr size).2) addr size with ⟨s | buf, ctx'⟩
        · exact failed _ kept noOwner s ctx' read
        · exact served _ kept noOwner buf ctx' read
    · rw [if_neg validated]
      rcases read : readHome (ctx.setCache ctx.cache) addr size with ⟨s | buf, ctx'⟩
      · exact failed ctx.cache (fun _ => rfl) noOwner s ctx' read
      · exact served ctx.cache (fun _ => rfl) noOwner buf ctx' read
  · rename_i other
    split
    · rename_i redirect
      have redirects : Redirects ctx.config ctx.blockTable addr metas
          (dominantOwnerNode ctx.blockTable metas addr.homeNode) :=
        redirects_iff.mpr ⟨rfl, redirect.1, other, redirect.2.1, redirect.2.2⟩
      rcases read : readHome ctx { addr with homeNode := dominantOwnerNode ctx.blockTable metas addr.homeNode } size with
        ⟨s | buf, ctx'⟩
      · exact refused _ redirects s ctx' read
      · exact redirected _ redirects buf ctx' read
    · rename_i home
      refine direct fun owner redirects => home ?_
      obtain ⟨rfl, validated, -, valid, away⟩ := redirects_iff.mp redirects
      exact ⟨validated, valid, away⟩

theorem tryOwnerAwareRead_ownerRead (ctx : RuntimeContext ω) (metas : List BlockId) (keeps : ReadKeeps ctx.config obs)
    (ord : IterOrder) (miss : (ctx.cache.tryReadCached ord addr size).1 = none) :
    OwnerRead obs ctx addr size metas (tryOwnerAwareRead ord ctx addr size metas) := by
  have own {c : ReadCache} (kept : ∀ k, c.payload? k = ctx.cache.payload? k) {answer : Except Status Bytes}
      {ctx' : RuntimeContext ω} (read : readHome (ctx.setCache c) addr size = (answer, ctx')) :
      ReadFrame obs ctx ctx' ∧ (∀ k, ctx'.cache.payload? k = ctx.cache.payload? k) ∧
        ReadsAt obs ctx addr size addr.homeNode answer := by
    have frame : ReadFrame obs ctx (ctx.setCache c) := ⟨rfl, rfl, rfl, rfl, rfl, rfl⟩
    have later := frame.trans (readHome_frame (ctx.setCache c) keeps addr size)
    have reads := frame.readsAt_iff.mp (readHome_reads obs (ctx.setCache c) addr size)
    have cache : ctx'.cache = c := congrArg (fun r => r.2.cache) read.symm
    rw [read] at later reads
    exact ⟨later, fun k => (congrArg (·.payload? k) cache).trans (kept k), reads⟩
  refine tryOwnerAwareRead_rule (J := OwnerRead obs ctx addr size metas) (fun buf hit => ?_)
    (fun c kept noOwner buf ctx' read => ?_) (fun c kept noOwner s ctx' read => ?_)
    (fun owner redirects buf ctx' read => ?_) (fun owner redirects s ctx' read => ?_) (fun noOwner => ?_)
  · rw [miss] at hit
    cases hit
  · obtain ⟨frame, same, reads⟩ := own kept read
    exact ⟨frame.trans ⟨rfl, rfl, rfl, rfl, rfl, rfl⟩, same, by simp,
      fun _ => ⟨reads, fun owner redirects => absurd redirects (noOwner owner)⟩⟩
  · obtain ⟨frame, same, reads⟩ := own kept read
    exact ⟨frame, same, by simp, fun _ => ⟨reads, fun owner redirects => absurd redirects (noOwner owner)⟩⟩
  · have frame := readHome_frame ctx keeps { addr with homeNode := owner } size
    have reads : ReadsAt obs ctx addr size owner (readHome ctx { addr with homeNode := owner } size).1 :=
      readHome_reads obs ctx { addr with homeNode := owner } size
    have cache : ctx'.cache = ctx.cache := congrArg (fun r => r.2.cache) read.symm
    rw [read] at frame reads
    exact ⟨frame.trans ⟨rfl, rfl, rfl, rfl, rfl, rfl⟩, fun k => congrArg (·.payload? k) cache,
      fun _ => ⟨owner, buf, redirects, rfl, reads⟩, by simp⟩
  · have frame := readHome_frame ctx keeps { addr with homeNode := owner } size
    have reads : ReadsAt obs ctx addr size owner (readHome ctx { addr with homeNode := owner } size).1 :=
      readHome_reads obs ctx { addr with homeNode := owner } size
    have cache : ctx'.cache = ctx.cache := congrArg (fun r => r.2.cache) read.symm
    have table : ctx'.blockTable = ctx.blockTable := congrArg (fun r => r.2.blockTable) read.symm
    rw [read] at frame reads
    refine OwnerRead.of_frame frame (fun k => congrArg (·.payload? k) cache) (fun _ => by rw [table])
      (readHomeValidating_ownerRead (frame.config ▸ keeps) ?_)
    intro owner' redirects'
    rw [frame.config, table] at redirects'
    obtain rfl := redirects.unique redirects'
    exact ⟨s, frame.readsAt_iff.mpr reads⟩
  · exact readHomeValidating_ownerRead keeps fun owner redirects => absurd redirects (noOwner owner)

/-- What `lm_read` of a remote home answers, past the metadata. -/
inductive ReadOutcome (obs : ω → α) (ctx : RuntimeContext ω) (addr : GlobalAddr) (size : UInt64)
    (metas : List BlockId) (ord : IterOrder) : Except Status Bytes → Prop where
  | cached {buf : Bytes} : (ctx.cache.tryReadCached ord addr size).1 = some buf →
      ReadOutcome obs ctx addr size metas ord (.ok buf)
  | owner {owner : NodeId} {buf : Bytes} : (ctx.cache.tryReadCached ord addr size).1 = none →
      Redirects ctx.config ctx.blockTable addr metas owner → ReadsAt obs ctx addr size owner (.ok buf) →
      ReadOutcome obs ctx addr size metas ord (.ok buf)
  | home {answer : Except Status Bytes} : (ctx.cache.tryReadCached ord addr size).1 = none →
      (∀ owner, Redirects ctx.config ctx.blockTable addr metas owner →
        ∃ s, ReadsAt obs ctx addr size owner (.error s)) →
      ReadsAt obs ctx addr size addr.homeNode answer → ReadOutcome obs ctx addr size metas ord answer

theorem readRemote_hit {ord : IterOrder} {buf : Bytes} (hit : (ctx.cache.tryReadCached ord addr size).1 = some buf)
    (metas : List BlockId) (modes : List CoherenceMode) :
    readRemote ord ctx addr size metas modes =
      (.ok buf,
        { ctx.setCache (ctx.cache.tryReadCached ord addr size).2 with
          stats := ctx.stats.incCacheHit.incRead false }) := by
  simp only [readRemote, hit]
  rfl

theorem readRemote_miss {ord : IterOrder} (miss : (ctx.cache.tryReadCached ord addr size).1 = none)
    (metas : List BlockId) (modes : List CoherenceMode) :
    readRemote ord ctx addr size metas modes =
      match tryOwnerAwareRead ord (countMiss ctx metas) addr size metas with
      | ((.ok buf, redirected), ctx) => (.ok buf, admitRead ctx addr buf metas modes redirected)
      | ((.error s, _), ctx) => (.error s, ctx) := by
  have same := ReadCache.tryReadCached_miss miss
  unfold readRemote
  generalize ctx.cache.tryReadCached ord addr size = looked at miss same
  obtain ⟨found, cache⟩ := looked
  cases miss
  cases same
  rfl

theorem countMiss_ownerRead (metas : List BlockId) (keeps : ReadKeeps ctx.config obs) (ord : IterOrder)
    (miss : (ctx.cache.tryReadCached ord addr size).1 = none) :
    OwnerRead obs ctx addr size metas (tryOwnerAwareRead ord (countMiss ctx metas) addr size metas) := by
  have frame : ReadFrame obs ctx (countMiss ctx metas) := ⟨rfl, rfl, rfl, rfl, rfl, rfl⟩
  have read := tryOwnerAwareRead_ownerRead (countMiss ctx metas) metas keeps ord miss
  exact read.of_frame frame (fun _ => rfl) (redirects_congr (countMiss_ownership ctx metas) addr metas)

theorem readRemote_frame (ctx : RuntimeContext ω) (keeps : ReadKeeps ctx.config obs) (ord : IterOrder)
    (addr : GlobalAddr) (size : UInt64) (metas : List BlockId) (modes : List CoherenceMode) :
    ReadFrame obs ctx (readRemote ord ctx addr size metas modes).2 := by
  cases looked : (ctx.cache.tryReadCached ord addr size).1 with
  | some buf =>
    rw [readRemote_hit looked]
    exact ⟨rfl, rfl, rfl, rfl, rfl, rfl⟩
  | none =>
    have read := countMiss_ownerRead metas keeps ord looked
    rw [readRemote_miss looked]
    generalize tryOwnerAwareRead ord (countMiss ctx metas) addr size metas = r at read
    obtain ⟨⟨answer, redirected⟩, ctx'⟩ := r
    cases answer with
    | ok buf => exact read.frame.trans (admitRead_frame obs ctx' addr buf metas modes redirected)
    | error s => exact read.frame

theorem readRemote_outcome (ctx : RuntimeContext ω) (keeps : ReadKeeps ctx.config obs) (ord : IterOrder)
    (addr : GlobalAddr) (size : UInt64) (metas : List BlockId) (modes : List CoherenceMode) :
    ReadOutcome obs ctx addr size metas ord (readRemote ord ctx addr size metas modes).1 := by
  cases looked : (ctx.cache.tryReadCached ord addr size).1 with
  | some buf =>
    rw [readRemote_hit looked]
    exact .cached looked
  | none =>
    have read := countMiss_ownerRead metas keeps ord looked
    rw [readRemote_miss looked]
    generalize tryOwnerAwareRead ord (countMiss ctx metas) addr size metas = r at read
    obtain ⟨⟨answer, redirected⟩, ctx'⟩ := r
    have outcome : ReadOutcome obs ctx addr size metas ord answer := by
      cases redirected with
      | true =>
        obtain ⟨owner, buf, redirects, rfl, reads⟩ := read.redirected rfl
        exact .owner looked redirects reads
      | false =>
        obtain ⟨reads, noOwner⟩ := read.direct rfl
        exact .home looked noOwner reads
    cases answer <;> exact outcome

/-- The cache after a remote read: nothing new, or the answer itself where caching is on and
no block of the range is in WI mode. -/
theorem readRemote_cache (ctx : RuntimeContext ω) (keeps : ReadKeeps ctx.config obs) (ord : IterOrder)
    (addr : GlobalAddr) (size : UInt64) (metas : List BlockId) (modes : List CoherenceMode) {k : CacheKey} {p : Bytes}
    (held : (readRemote ord ctx addr size metas modes).2.cache.payload? k = some p) :
    ctx.cache.payload? k = some p ∨
      (k = ⟨addr, p.size⟩ ∧ (readRemote ord ctx addr size metas modes).1 = .ok p ∧
        hasMode modes .kWI = false ∧ ctx.config.enableCache = true) := by
  cases looked : (ctx.cache.tryReadCached ord addr size).1 with
  | some buf =>
    rw [readRemote_hit looked] at held
    exact Or.inl ((ReadCache.payload?_tryReadCached ord ctx.cache addr size k).symm.trans held)
  | none =>
    have read := countMiss_ownerRead metas keeps ord looked
    rw [readRemote_miss looked] at held ⊢
    generalize tryOwnerAwareRead ord (countMiss ctx metas) addr size metas = r at read held
    obtain ⟨⟨answer, redirected⟩, ctx'⟩ := r
    have kept : ctx'.cache.payload? k = ctx.cache.payload? k := read.cache k
    cases answer with
    | error s => exact Or.inl (kept.symm.trans held)
    | ok buf =>
      rcases admitRead_cache ctx' addr buf metas modes redirected with same | ⟨noWI, inserted⟩
      · exact Or.inl (kept.symm.trans (same ▸ held))
      · cases enabled : ctx.config.enableCache with
        | false =>
          rw [ReadCache.insertCached_disabled (by rw [read.frame.config, enabled])] at inserted
          exact Or.inl (kept.symm.trans (inserted ▸ held))
        | true =>
          have held' : (ctx'.cache.insertCached ctx'.config addr buf).payload? k = some p := inserted ▸ held
          rcases ReadCache.insertCached_within _ _ _ _ k p held' with ⟨rfl, rfl⟩ | old
          · exact Or.inr ⟨rfl, rfl, noWI, rfl⟩
          · exact Or.inl (kept.symm.trans old)

/-! ## `lm_read` by its branches -/

variable {ord : IterOrder} {range : BlockRange} {mid : RuntimeContext ω}

theorem lmRead_rejected {s : Status} (opened : openAccess ord ctx addr size = (.error s, mid)) :
    lmRead ord ctx addr size = (.error s, mid) := by
  simp [lmRead, opened]

theorem lmRead_remote (opened : openAccess ord ctx addr size = (.ok range, mid))
    (remote : addr.homeNode ≠ mid.config.nodeId) :
    lmRead ord ctx addr size =
      readRemote ord (touchMetadata mid addr range .kRead).2 addr size (range.ids addr.regionId)
        (touchMetadata mid addr range .kRead).1 := by
  simp [lmRead, opened, remote]

theorem lmRead_local (opened : openAccess ord ctx addr size = (.ok range, mid))
    (home : addr.homeNode = mid.config.nodeId) :
    lmRead ord ctx addr size = readLocal (touchMetadata mid addr range .kRead).2 addr size := by
  simp [lmRead, opened, home]

theorem readLocal_spec (ctx : RuntimeContext ω) (keeps : ReadKeeps ctx.config obs) (addr : GlobalAddr) (size : UInt64) :
    ReadFrame obs ctx (readLocal ctx addr size).2 ∧ (readLocal ctx addr size).2.cache = ctx.cache ∧
      (readLocal ctx addr size).2.blockTable = ctx.blockTable ∧
      ReadsAt obs ctx addr size addr.homeNode (readLocal ctx addr size).1 := by
  have frame := readHome_frame ctx keeps addr size
  have reads := readHome_reads obs ctx addr size
  have cache : (readHome ctx addr size).2.cache = ctx.cache := rfl
  have table : (readHome ctx addr size).2.blockTable = ctx.blockTable := rfl
  unfold readLocal
  generalize readHome ctx addr size = r at frame reads cache table
  obtain ⟨answer, ctx'⟩ := r
  cases answer with
  | ok buf => exact ⟨frame.trans ⟨rfl, rfl, rfl, rfl, rfl, rfl⟩, cache, table, reads⟩
  | error s => exact ⟨frame, cache, table, reads⟩

/-! ### Reads of the transport draw no request ids and count nothing -/

theorem readHomeValidating_books (ctx : RuntimeContext ω) (addr : GlobalAddr) (size : UInt64) (metas : List BlockId) :
    (readHomeValidating ctx addr size metas).2.books = ctx.books := by
  have same : (readHome ctx addr size).2.books = ctx.books := rfl
  unfold readHomeValidating
  generalize readHome ctx addr size = r at same
  obtain ⟨_ | _, ctx'⟩ := r
  · exact same
  · exact same

theorem tryOwnerAwareRead_books (ord : IterOrder) (ctx : RuntimeContext ω) (addr : GlobalAddr) (size : UInt64)
    (metas : List BlockId) : (tryOwnerAwareRead ord ctx addr size metas).2.books = ctx.books := by
  refine tryOwnerAwareRead_rule (J := fun r => r.2.books = ctx.books) (fun _ _ => rfl) (fun c _ _ buf ctx' read => ?_)
    (fun c _ _ s ctx' read => ?_) (fun owner _ buf ctx' read => ?_) (fun owner _ s ctx' read => ?_) (fun _ => ?_)
  · exact congrArg (fun r => r.2.books) read.symm
  · exact congrArg (fun r => r.2.books) read.symm
  · exact congrArg (fun r => r.2.books) read.symm
  · have same : ctx'.books = ctx.books := congrArg (fun r => r.2.books) read.symm
    exact (readHomeValidating_books ctx' addr size metas).trans same
  · exact readHomeValidating_books ctx addr size metas

theorem readRemote_nextId (ord : IterOrder) (ctx : RuntimeContext ω) (addr : GlobalAddr) (size : UInt64)
    (metas : List BlockId) (modes : List CoherenceMode) :
    (readRemote ord ctx addr size metas modes).2.nextControlRequestId = ctx.nextControlRequestId := by
  unfold readRemote
  simp only
  split
  · rfl
  · have same := congrArg Prod.fst (tryOwnerAwareRead_books ord
      (countMiss (ctx.setCache (ctx.cache.tryReadCached ord addr size).2) metas) addr size metas)
    generalize tryOwnerAwareRead ord (countMiss (ctx.setCache (ctx.cache.tryReadCached ord addr size).2) metas) addr size
      metas = r at same
    obtain ⟨⟨_ | _, redirected⟩, ctx'⟩ := r
    · exact same
    · exact same

theorem readLocal_nextId (ctx : RuntimeContext ω) (addr : GlobalAddr) (size : UInt64) :
    (readLocal ctx addr size).2.nextControlRequestId = ctx.nextControlRequestId := by
  have same : (readHome ctx addr size).2.nextControlRequestId = ctx.nextControlRequestId := rfl
  unfold readLocal
  generalize readHome ctx addr size = r at same
  obtain ⟨_ | _, ctx'⟩ := r
  · exact same
  · exact same

variable {I : RuntimeContext ω → Prop}

/-- **The rule for a read**: what holds once its messages are handled, and what each of its
ends makes of that. -/
theorem lmRead_rule {J : Except Status Bytes × RuntimeContext ω → Prop} (after : I (openAccess ord ctx addr size).2)
    (rejected : ∀ s c, openAccess ord ctx addr size = (.error s, c) → I c → J (.error s, c))
    (own : ∀ c range, openAccess ord ctx addr size = (.ok range, c) → addr.homeNode = c.config.nodeId → I c →
      J (readLocal (touchMetadata c addr range .kRead).2 addr size))
    (remote : ∀ c range, openAccess ord ctx addr size = (.ok range, c) → addr.homeNode ≠ c.config.nodeId → I c →
      J (readRemote ord (touchMetadata c addr range .kRead).2 addr size (range.ids addr.regionId)
        (touchMetadata c addr range .kRead).1)) : J (lmRead ord ctx addr size) := by
  apply openAccess_rule after
  · intro s mid opened held
    rw [lmRead_rejected opened]
    exact rejected s mid opened held
  · intro mid range opened home held
    rw [lmRead_local opened home]
    exact own mid range opened home held
  · intro mid range opened home held
    rw [lmRead_remote opened home]
    exact remote mid range opened home held

/-- A read draws no request ids. -/
theorem lmRead_nextId (ord : IterOrder) (ctx : RuntimeContext ω) (addr : GlobalAddr) (size : UInt64) :
    (lmRead ord ctx addr size).2.nextControlRequestId = ctx.nextControlRequestId :=
  lmRead_rule (I := fun c => c.nextControlRequestId = ctx.nextControlRequestId)
    (J := fun r => r.2.nextControlRequestId = ctx.nextControlRequestId) (openAccess_nextId ord ctx addr size)
    (fun _ _ _ same => same) (fun _ _ _ _ same => (readLocal_nextId _ addr size).trans same)
    (fun _ _ _ _ same => (readRemote_nextId ord _ addr size _ _).trans same)

/-- A read keeps what its frame keeps of what its messages leave. -/
theorem lmRead_framed (reads : ∀ cfg, ReadKeeps cfg obs)
    (framed : ∀ c range c', ReadFrame obs (touchMetadata c addr range .kRead).2 c' →
      c'.nextControlRequestId = c.nextControlRequestId → I c → I c') (after : I (openAccess ord ctx addr size).2) :
    I (lmRead ord ctx addr size).2 := by
  refine lmRead_rule (J := fun r => I r.2) after (fun _ _ _ held => held) (fun c range _ _ held => ?_)
    (fun c range _ _ held => ?_)
  · have frame := (readLocal_spec (touchMetadata c addr range .kRead).2 (reads _) addr size).1
    exact framed c range _ frame (readLocal_nextId _ addr size) held
  · have frame := readRemote_frame (touchMetadata c addr range .kRead).2 (reads _) ord addr size
      (range.ids addr.regionId) (touchMetadata c addr range .kRead).1
    exact framed c range _ frame (readRemote_nextId ord _ addr size _ _) held

/-- A read keeps what its messages leave of the control plane. -/
theorem lmRead_keeps (reads : ∀ cfg, ReadKeeps cfg obs) (control : OfControl obs I)
    (after : I (openAccess ord ctx addr size).2) : I (lmRead ord ctx addr size).2 :=
  lmRead_framed reads
    (fun c _ c' frame _ held => control c c' frame.config frame.acks frame.transport held) after

/-- **The frame of a read**: control steps, then reads of the transport. -/
theorem lmRead_frame (control : ControlKeeps obs) (ctx : RuntimeContext ω) (reads : ReadKeeps ctx.config obs)
    (ord : IterOrder) (addr : GlobalAddr) (size : UInt64) :
    ∃ mid, ControlStep obs ctx mid ∧ ReadFrame obs mid (lmRead ord ctx addr size).2 := by
  refine lmRead_rule (J := fun r => ∃ mid, ControlStep obs ctx mid ∧ ReadFrame obs mid r.2)
    (controlStep_openAccess control ctx ord addr size) (fun s c _ step => ⟨c, step, .refl obs c⟩)
    (fun c range _ _ step => ?_) (fun c range _ _ step => ?_)
  · have touched := step.trans (controlStep_touchMetadata obs c addr range .kRead)
    exact ⟨_, touched, (readLocal_spec _ (touched.config ▸ reads) addr size).1⟩
  · have touched := step.trans (controlStep_touchMetadata obs c addr range .kRead)
    exact ⟨_, touched, readRemote_frame _ (touched.config ▸ reads) ord addr size _ _⟩

end
end LeoMem
