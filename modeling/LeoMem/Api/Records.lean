import LeoMem.Api.ReadEffect
import LeoMem.Api.WriteEffect

/-!
# How a block's record changes

Reads, writes and the two message handlers each store into block records by their
own rules. The lemmas below walk every path once: a preorder on records that each
single store respects holds between a block's record before and after the whole
call.
-/

namespace LeoMem
open Lib RuntimeContext

/-- The fields that say where a block stands: its owner, version and state. -/
structure BlockMeta.SameStanding (m m' : BlockMeta) : Prop where
  ownerNode : m'.ownerNode = m.ownerNode
  version : m'.version = m.version
  state : m'.state = m.state

theorem BlockMeta.SameOwnership.standing {m m' : BlockMeta} (same : m.SameOwnership m') : m.SameStanding m' :=
  ⟨same.ownerNode, same.version, same.state⟩

theorem BlockMeta.SameStanding.trans {a b c : BlockMeta} (h : a.SameStanding b) (h' : b.SameStanding c) :
    a.SameStanding c :=
  ⟨h'.ownerNode.trans h.ownerNode, h'.version.trans h.version, h'.state.trans h.state⟩

/-- A preorder on records that looks at their standing only. -/
structure StandingRel (rel : BlockMeta → BlockMeta → Prop) : Prop where
  standing : ∀ {m m'}, m.SameStanding m' → rel m m'
  trans : ∀ {a b c}, rel a b → rel b c → rel a c

variable {rel : BlockMeta → BlockMeta → Prop} {b : BlockId}

theorem standingRel_standing : StandingRel BlockMeta.SameStanding := ⟨id, .trans⟩

theorem StandingRel.refl (rule : StandingRel rel) (m : BlockMeta) : rel m m := rule.standing ⟨rfl, rfl, rfl⟩

theorem StandingRel.modifyAll (rule : StandingRel rel) {f : BlockMeta → BlockMeta} (t : BlockTable)
    (bids : List BlockId) (store : b ∈ bids → ∀ m, rel m (f m)) : rel (t.get b) ((t.modifyAll bids f).get b) :=
  BlockTable.modifyAll_rel rule.refl rule.trans t bids b store

/-- Stores that leave the standing alone. -/
theorem StandingRel.modifyAll_standing (rule : StandingRel rel) {f : BlockMeta → BlockMeta}
    (keeps : ∀ m : BlockMeta, m.SameStanding (f m)) (t : BlockTable) (bids : List BlockId) :
    rel (t.get b) ((t.modifyAll bids f).get b) :=
  rule.modifyAll t bids fun _ m => rule.standing (keeps m)

theorem le_foldl_max (f : BlockId → Version) (bids : List BlockId) (v : Version) :
    v ≤ bids.foldl (fun version bid => max version (f bid)) v ∧
      ∀ bid ∈ bids, f bid ≤ bids.foldl (fun version bid => max version (f bid)) v := by
  induction bids generalizing v with
  | nil => exact ⟨UInt64.le_refl _, by simp⟩
  | cons bid bids ih =>
    obtain ⟨start, rest⟩ := ih (max v (f bid))
    simp only [UInt64.le_iff_toNat_le, toNat_max] at start
    simp only [List.foldl_cons, List.mem_cons, forall_eq_or_imp]
    refine ⟨?_, ?_, rest⟩ <;> rw [UInt64.le_iff_toNat_le] <;> omega

theorem le_maxObservedVersion (t : BlockTable) {metas : List BlockId} {b : BlockId} (member : b ∈ metas) :
    (t.get b).version ≤ maxObservedVersion t metas :=
  (le_foldl_max (fun bid => (t.get bid).version) metas 0).2 b member

section
variable {ω : Type}

theorem touchMetadata_rel (rule : StandingRel rel) (ctx : RuntimeContext ω) (addr : GlobalAddr) (range : BlockRange)
    (type : AccessType)
    (prepare : b ∈ range.ids addr.regionId →
      rel (ctx.blockTable.get b) (prepareMeta ctx.config addr type (ctx.blockTable.get b))) :
    rel (ctx.blockTable.get b) ((touchMetadata ctx addr range type).2.blockTable.get b) := by
  have touched := rule.standing (touchMetadata_ownership ctx addr range type b).standing
  split at touched
  · rename_i member
    exact rule.trans (prepare member) touched
  · exact touched

theorem lmMalloc_rel (rule : StandingRel rel) (ctx : RuntimeContext ω) (size : UInt64)
    (store : ∀ m, rel m { m with state := .kHome, ownerNode := ctx.config.nodeId }) :
    rel (ctx.blockTable.get b) ((lmMalloc ctx size).2.blockTable.get b) := by
  unfold lmMalloc
  split
  · exact rule.refl _
  · simp only
    split
    · split
      · exact rule.refl _
      · exact rule.modifyAll ctx.blockTable _ fun _ => store
    · exact rule.refl _

theorem shouldAdmitCached_rel (rule : StandingRel rel) (cfg : Config) (t : BlockTable) (metas : List BlockId) :
    rel (t.get b) ((shouldAdmitCached cfg t metas).2.get b) := by
  unfold shouldAdmitCached
  split
  · exact rule.refl _
  · split
    · refine rule.modifyAll_standing ?_ t metas
      exact fun _ => ⟨rfl, rfl, rfl⟩
    · exact rule.refl _

theorem markReadValidated_rel (rule : StandingRel rel) (t : BlockTable) (metas : List BlockId) :
    rel (t.get b) ((markReadValidated t metas).get b) := by
  refine rule.modifyAll_standing ?_ t metas
  exact fun _ => ⟨rfl, rfl, rfl⟩

/-- The stores of `lm_read` into a record, past the metadata of the access. -/
structure ReadStores (rel : BlockMeta → BlockMeta → Prop) (cfg : Config) (addr : GlobalAddr) (metas : List BlockId)
    (b : BlockId) : Prop where
  /-- An invalid block becomes a shared copy of the home's. -/
  share : b ∈ metas → ∀ m, rel m { m with state := .kShared, ownerNode := addr.homeNode }
  /-- A block read from its recorded owner takes the newest version among its range. -/
  adopt : ∀ (t : BlockTable) (owner : NodeId), owner ≠ cfg.nodeId → (∀ c ∈ metas, (t.get c).ownerNode = owner) →
    b ∈ metas → rel (t.get b) { t.get b with state := .kOwner, version := maxObservedVersion t metas }

theorem admitRead_rel (rule : StandingRel rel) (ctx : RuntimeContext ω) (addr : GlobalAddr) (buf : Bytes)
    {metas : List BlockId} (distinct : metas.Nodup) (modes : List CoherenceMode) (redirected : Bool)
    (adopt : redirected = true → b ∈ metas →
      rel (ctx.blockTable.get b)
        { ctx.blockTable.get b with state := .kOwner, version := maxObservedVersion ctx.blockTable metas }) :
    rel (ctx.blockTable.get b) ((admitRead ctx addr buf metas modes redirected).blockTable.get b) := by
  have recorded : rel (ctx.blockTable.get b) ((recordOwnerRead ctx.blockTable metas redirected).get b) := by
    cases redirected with
    | false => exact rule.refl _
    | true =>
      simp only [recordOwnerRead, if_true]
      rw [BlockTable.get_modifyAll _ distinct]
      split
      · rename_i member
        exact adopt rfl member
      · exact rule.refl _
  refine rule.trans recorded ?_
  change rel _ ((if hasMode modes .kWI then (false, recordOwnerRead ctx.blockTable metas redirected)
    else shouldAdmitCached ctx.config (recordOwnerRead ctx.blockTable metas redirected) metas).2.get b)
  split
  · exact rule.refl _
  · exact shouldAdmitCached_rel rule _ _ _

variable [Transport ω]

theorem readHomeValidating_rel (rule : StandingRel rel) (ctx : RuntimeContext ω) (addr : GlobalAddr) (size : UInt64)
    (metas : List BlockId)
    (share : b ∈ metas → ∀ m, rel m { m with state := .kShared, ownerNode := addr.homeNode }) :
    rel (ctx.blockTable.get b) ((readHomeValidating ctx addr size metas).2.blockTable.get b) := by
  have table : (readHome ctx addr size).2.blockTable = ctx.blockTable := rfl
  unfold readHomeValidating
  generalize readHome ctx addr size = r at table
  obtain ⟨answer, ctx'⟩ := r
  simp only at table
  cases answer with
  | error s => exact table ▸ rule.refl _
  | ok buf =>
    rw [← table]
    refine rule.trans (markReadValidated_rel rule ctx'.blockTable metas) (rule.modifyAll _ metas fun member m => ?_)
    split
    · exact share member m
    · exact rule.refl m

theorem readHomeValidating_direct (ctx : RuntimeContext ω) (addr : GlobalAddr) (size : UInt64)
    (metas : List BlockId) : (readHomeValidating ctx addr size metas).1.2 = false := by
  unfold readHomeValidating
  generalize readHome ctx addr size = r
  obtain ⟨answer, ctx'⟩ := r
  cases answer <;> rfl

/-- What an owner-aware read after a cache miss stores; a redirected one leaves the whole
range recorded under one other node. -/
theorem tryOwnerAwareRead_rel (rule : StandingRel rel) {ord : IterOrder} (ctx : RuntimeContext ω) {addr : GlobalAddr}
    {size : UInt64} (miss : (ctx.cache.tryReadCached ord addr size).1 = none) (metas : List BlockId)
    (share : b ∈ metas → ∀ m, rel m { m with state := .kShared, ownerNode := addr.homeNode }) :
    rel (ctx.blockTable.get b) ((tryOwnerAwareRead ord ctx addr size metas).2.blockTable.get b) ∧
      ((tryOwnerAwareRead ord ctx addr size metas).1.2 = true →
        ∃ owner, owner ≠ ctx.config.nodeId ∧
          ∀ c ∈ metas, ((tryOwnerAwareRead ord ctx addr size metas).2.blockTable.get c).ownerNode = owner) := by
  refine tryOwnerAwareRead_rule
    (J := fun r => rel (ctx.blockTable.get b) (r.2.blockTable.get b) ∧
      (r.1.2 = true → ∃ owner, owner ≠ ctx.config.nodeId ∧ ∀ c ∈ metas, (r.2.blockTable.get c).ownerNode = owner))
    (fun buf hit => ?_) (fun c _ _ buf ctx' read => ?_) (fun c _ _ s ctx' read => ?_)
    (fun owner redirects buf ctx' read => ?_) (fun owner _ s ctx' read => ?_) (fun _ => ?_)
  · rw [miss] at hit
    cases hit
  · have table : ctx'.blockTable = ctx.blockTable := congrArg (fun r => r.2.blockTable) read.symm
    exact ⟨table ▸ markReadValidated_rel rule ctx'.blockTable metas, by simp⟩
  · have table : ctx'.blockTable = ctx.blockTable := congrArg (fun r => r.2.blockTable) read.symm
    exact ⟨table ▸ rule.refl _, by simp⟩
  · have table : ctx'.blockTable = ctx.blockTable := congrArg (fun r => r.2.blockTable) read.symm
    refine ⟨table ▸ markReadValidated_rel rule ctx'.blockTable metas, fun _ => ⟨owner, redirects.other, ?_⟩⟩
    intro c member
    have marked := markReadValidated_rel (b := c) standingRel_standing ctx'.blockTable metas
    rw [marked.ownerNode, table]
    exact redirects.recorded c member
  · have table : ctx'.blockTable = ctx.blockTable := congrArg (fun r => r.2.blockTable) read.symm
    refine ⟨table ▸ readHomeValidating_rel rule ctx' addr size metas share, fun redirected => ?_⟩
    exact absurd redirected (by rw [readHomeValidating_direct]; simp)
  · refine ⟨readHomeValidating_rel rule ctx addr size metas share, fun redirected => ?_⟩
    exact absurd redirected (by rw [readHomeValidating_direct]; simp)

/-- **The records of a remote read**, past the metadata of the access. -/
theorem readRemote_rel (rule : StandingRel rel) (ord : IterOrder) (ctx : RuntimeContext ω) (addr : GlobalAddr)
    (size : UInt64) {metas : List BlockId} (distinct : metas.Nodup) (modes : List CoherenceMode)
    (stores : ReadStores rel ctx.config addr metas b) :
    rel (ctx.blockTable.get b) ((readRemote ord ctx addr size metas modes).2.blockTable.get b) := by
  cases looked : (ctx.cache.tryReadCached ord addr size).1 with
  | some buf =>
    rw [readRemote_hit looked]
    exact rule.refl _
  | none =>
    have counted := rule.standing (countMiss_ownership ctx metas b).standing
    obtain ⟨read, redirected⟩ :=
      tryOwnerAwareRead_rel (b := b) rule (countMiss ctx metas) looked metas stores.share
    rw [readRemote_miss looked]
    generalize tryOwnerAwareRead ord (countMiss ctx metas) addr size metas = r at read redirected
    obtain ⟨⟨answer, flag⟩, ctx'⟩ := r
    cases answer with
    | error s => exact rule.trans counted read
    | ok buf =>
      refine rule.trans counted (rule.trans read (admitRead_rel rule ctx' addr buf distinct modes flag ?_))
      intro adopted member
      obtain ⟨owner, other, recorded⟩ := redirected adopted
      exact stores.adopt ctx'.blockTable owner other recorded member

/-! ## Writes -/

omit [Transport ω] in
theorem nodup_map_fst_zip {bids : List BlockId} (distinct : bids.Nodup) (modes : List CoherenceMode) :
    ((bids.zip modes).map Prod.fst).Nodup := by
  induction bids generalizing modes with
  | nil => simp
  | cons bid bids ih =>
    obtain ⟨fresh, distinct⟩ := List.nodup_cons.mp distinct
    cases modes with
    | nil => simp
    | cons mode modes =>
      refine List.nodup_cons.mpr ⟨fun member => ?_, ih distinct modes⟩
      obtain ⟨pair, found, same⟩ := List.mem_map.mp member
      have here : pair.1 = bid := same
      exact fresh (here ▸ (List.of_mem_zip found).1)

omit [Transport ω] in
/-- `ApplyWriteMetadata` stores once into each block of the range, by the block's mode. -/
theorem applyWriteMetadata_get (cfg : Config) (addr : GlobalAddr) {pairs : List (BlockId × CoherenceMode)}
    (distinct : (pairs.map Prod.fst).Nodup) (acc : WriteMetadata) (b : BlockId) :
    (b ∉ pairs.map Prod.fst ∧ (applyWriteMetadata cfg addr pairs acc).table.get b = acc.table.get b) ∨
      ∃ mode, (b, mode) ∈ pairs ∧
        (applyWriteMetadata cfg addr pairs acc).table.get b = applyWriteMeta cfg addr mode (acc.table.get b) := by
  induction pairs generalizing acc with
  | nil => exact Or.inl ⟨by simp, rfl⟩
  | cons pair pairs ih =>
    obtain ⟨bid, mode⟩ := pair
    obtain ⟨fresh, distinct⟩ := List.nodup_cons.mp distinct
    rcases ih distinct _ with ⟨absent, rest⟩ | ⟨later, member, rest⟩
    · by_cases here : b = bid
      · refine Or.inr ⟨mode, by simp [here], rest.trans ?_⟩
        rw [BlockTable.get_modify, if_pos here, here]
      · refine Or.inl ⟨by simp only [List.map_cons, List.mem_cons, not_or]; exact ⟨here, absent⟩, rest.trans ?_⟩
        rw [BlockTable.get_modify, if_neg here]
    · have other : b ≠ bid := by
        rintro rfl
        exact fresh (List.mem_map.mpr ⟨(b, later), member, rfl⟩)
      refine Or.inr ⟨later, List.mem_cons_of_mem _ member, rest.trans ?_⟩
      rw [BlockTable.get_modify, if_neg other]

theorem postRequest_table (ctx : RuntimeContext ω) (addr : GlobalAddr) (range : BlockRange) (mode : CoherenceMode)
    (opcode : ControlOpcode) (version : Version) :
    (postRequest ctx addr range mode opcode version).2.blockTable = ctx.blockTable := by
  unfold postRequest trackPosted
  simp only
  split <;> rfl

theorem postWriteMessages_table (ctx : RuntimeContext ω) (addr : GlobalAddr) (range : BlockRange)
    (modes : List CoherenceMode) (ownerHandoff : Bool) (maxVersion : Version) :
    (postWriteMessages ctx addr range modes ownerHandoff maxVersion).2.blockTable = ctx.blockTable :=
  postWriteMessages_rule (J := fun c => c.blockTable = ctx.blockTable) rfl (postRequest_table ctx addr range _ _ _)
    (postRequest_table ctx addr range _ _ _)
    ((postRequest_table _ addr range _ _ _).trans (postRequest_table ctx addr range _ _ _))

/-- Past `ApplyWriteMetadata` a remote write stores into no record. -/
theorem writeRemote_table (ord : IterOrder) (ctx : RuntimeContext ω) (addr : GlobalAddr) {buf : Bytes}
    (filled : buf.size ≠ 0) (range : BlockRange) (modes : List CoherenceMode) :
    (writeRemote ord ctx addr buf range modes).2.blockTable =
      (applyWriteMetadata ctx.config addr ((range.ids addr.regionId).zip modes) { table := ctx.blockTable }).table := by
  unfold writeRemote
  simp only
  split
  · exact postWriteMessages_table _ addr range modes _ _
  · exact (writeData_wrote ord _ addr filled modes _ _).same.table.trans
      (postWriteMessages_table _ addr range modes _ _)

/-- **The record of a block after a remote write**, past the metadata of the access. -/
theorem writeRemote_record (ord : IterOrder) (ctx : RuntimeContext ω) (addr : GlobalAddr) {buf : Bytes}
    (filled : buf.size ≠ 0) (range : BlockRange) (modes : List CoherenceMode) (b : BlockId) :
    (writeRemote ord ctx addr buf range modes).2.blockTable.get b = ctx.blockTable.get b ∨
      ∃ mode, (b, mode) ∈ (range.ids addr.regionId).zip modes ∧
        (writeRemote ord ctx addr buf range modes).2.blockTable.get b =
          applyWriteMeta ctx.config addr mode (ctx.blockTable.get b) := by
  have distinct := nodup_map_fst_zip (range.nodup_ids addr.regionId) modes
  rw [writeRemote_table ord ctx addr filled range modes]
  rcases applyWriteMetadata_get ctx.config addr distinct { table := ctx.blockTable } b with
    ⟨-, same⟩ | ⟨mode, member, stored⟩
  · exact Or.inl same
  · exact Or.inr ⟨mode, member, stored⟩

/-! ## Control messages -/

/-- What the two handlers store into a record for one request. -/
structure HandlerStores (rel : BlockMeta → BlockMeta → Prop) (msg : ControlMessage) (b : BlockId) : Prop where
  invalidate : msg.opcode = .kInvalidateRange → b ∈ msg.blocks → ∀ m, rel m (invalidateMeta msg m)
  transfer : msg.opcode = .kOwnerTransfer → b ∈ msg.blocks → ∀ m, rel m (transferMeta msg m)
  drainTransfer : msg.opcode = .kOwnerTransfer → b ∈ msg.blocks → ∀ m, rel m (drainTransferMeta msg m)

theorem Handled.record_rel (rule : StandingRel rel) {ctx : RuntimeContext ω} {msg : ControlMessage}
    {r : Status × RuntimeContext ω} (handled : Handled ctx msg r) (stores : HandlerStores rel msg b) :
    rel (ctx.blockTable.get b) (r.2.blockTable.get b) := by
  cases handled with
  | completed => exact rule.refl _
  | acknowledged request within recorded =>
    cases recorded with
    | nothing => exact rule.refl _
    | invalidation opcode => exact rule.modifyAll ctx.blockTable msg.blocks (stores.invalidate opcode)
    | transfer opcode => exact rule.modifyAll ctx.blockTable msg.blocks (stores.transfer opcode)
    | drainTransfer opcode => exact rule.modifyAll ctx.blockTable msg.blocks (stores.drainTransfer opcode)
  | ignored => exact rule.refl _

theorem postAll_table (ctx : RuntimeContext ω) (msgs : List ControlMessage) :
    (ctx.postAll msgs).2.blockTable = ctx.blockTable :=
  postAll_keeps (I := fun c => c.blockTable = ctx.blockTable) (fun _ _ _ same => same) rfl

theorem drivePendingControlAcks_table (ord : IterOrder) (ctx : RuntimeContext ω) :
    (drivePendingControlAcks ord ctx).2.blockTable = ctx.blockTable := by
  unfold drivePendingControlAcks
  simp only
  split
  · rfl
  · exact postAll_table _ _

theorem openAccess_rel (rule : StandingRel rel) (ord : IterOrder) (ctx : RuntimeContext ω) (addr : GlobalAddr)
    (size : UInt64) (stores : ∀ msg ∈ takenMessages ctx, HandlerStores rel msg b) :
    rel (ctx.blockTable.get b) ((openAccess ord ctx addr size).2.blockTable.get b) :=
  openAccess_keeps (I := fun c => rel (ctx.blockTable.get b) (c.blockTable.get b)) (rule.refl _) (rule.refl _)
    (fun c msg member held => rule.trans held ((handled_processMessage ord c msg).record_rel rule (stores msg member)))
    (fun c held => (drivePendingControlAcks_table ord c).symm ▸ held) addr size

end

/-! ## What every call keeps -/

section
variable {ω : Type} [Transport ω]

omit [Transport ω] in
theorem lmMalloc_allocator (ctx : RuntimeContext ω) (size : UInt64) :
    (lmMalloc ctx size).2.allocator = ctx.allocator ∨
      (lmMalloc ctx size).2.allocator = (ctx.allocator.allocate ctx.config size).2 := by
  cases ready : ctx.initialized with
  | false => exact Or.inl (by simp [lmMalloc, ready])
  | true => exact Or.inr (lmMalloc_spec ready size rfl).2.1

/-- What `lm_init` sets up: no later call changes it, but for what `lm_malloc` allocates. -/
theorem exec_setup (ctx : RuntimeContext ω) (i : Invocation) :
    (exec ctx i).2.config = ctx.config ∧ (exec ctx i).2.initialized = ctx.initialized ∧
      ((exec ctx i).2.allocator = ctx.allocator ∨
        ∃ size, i.call = .malloc size ∧ (exec ctx i).2.allocator = (ctx.allocator.allocate ctx.config size).2) := by
  obtain ⟨ord, call⟩ := i
  cases call with
  | malloc size =>
    obtain ⟨allocator, table, stats, same⟩ := lmMalloc_eq ctx size
    have kept : (lmMalloc ctx size).2.config = ctx.config ∧ (lmMalloc ctx size).2.initialized = ctx.initialized := by
      rw [same]
      exact ⟨rfl, rfl⟩
    exact ⟨kept.1, kept.2, (lmMalloc_allocator ctx size).imp_right fun grown => ⟨size, rfl, grown⟩⟩
  | free addr => exact ⟨rfl, rfl, Or.inl rfl⟩
  | read addr size =>
    obtain ⟨mid, step, frame⟩ := lmRead_frame controlKeeps_noObs ctx (fun _ _ _ _ => rfl) ord addr size
    exact ⟨frame.config.trans step.config, frame.initialized.trans step.initialized,
      Or.inl (frame.allocator.trans step.allocator)⟩
  | write addr buf =>
    cases lmWrite_outcome controlKeeps_noObs ord ctx addr buf with
    | stopped _ step => exact ⟨step.config, step.initialized, Or.inl step.allocator⟩
    | own opened step _ same _ _ =>
      exact ⟨same.config.trans step.config, same.initialized.trans step.initialized,
        Or.inl (same.allocator.trans step.allocator)⟩
    | remote posted _ _ step _ _ wrote =>
      exact ⟨wrote.same.config.trans step.config, wrote.same.initialized.trans step.initialized,
        Or.inl (wrote.same.allocator.trans step.allocator)⟩
  | fence =>
    have kept : (lmFence ord ctx).2.config = ctx.config ∧ (lmFence ord ctx).2.initialized = ctx.initialized ∧
        (lmFence ord ctx).2.allocator = ctx.allocator := by
      refine lmFence_induct
        (P := fun c => c.config = ctx.config ∧ c.initialized = ctx.initialized ∧ c.allocator = ctx.allocator)
        controlKeeps_noObs (fun _ _ step held => ?_) (fun c node held => ?_) ord ⟨rfl, rfl, rfl⟩
      · exact ⟨step.config.trans held.1, step.initialized.trans held.2.1, step.allocator.trans held.2.2⟩
      · have same := (flushDestination_flushed c node).same
        exact ⟨same.config.trans held.1, same.initialized.trans held.2.1, same.allocator.trans held.2.2⟩
    exact ⟨kept.1, kept.2.1, Or.inl kept.2.2⟩

theorem exec_config (ctx : RuntimeContext ω) (i : Invocation) : (exec ctx i).2.config = ctx.config := (exec_setup ctx i).1

/-- What the control path, reads and writes of the transport all keep, every call keeps. -/
theorem exec_keeps_obs {α : Type} {obs : ω → α} (control : ControlKeeps obs) (reads : ∀ cfg, ReadKeeps cfg obs)
    (writes : WriteKeeps obs) (ctx : RuntimeContext ω) (i : Invocation) :
    obs (exec ctx i).2.transport = obs ctx.transport := by
  obtain ⟨ord, call⟩ := i
  cases call with
  | malloc size => exact congrArg obs (lmMalloc_keeps ctx size).2.2.2
  | free addr => rfl
  | read addr size =>
    obtain ⟨mid, step, frame⟩ := lmRead_frame control ctx (reads _) ord addr size
    exact frame.transport.trans step.transport
  | write addr buf =>
    cases lmWrite_outcome control ord ctx addr buf with
    | stopped _ step => exact step.transport
    | own opened step _ _ _ written =>
      refine Eq.trans ?_ step.transport
      exact (congrArg (fun w => obs w.2) written).trans (writes.write _ _ _ _ _)
    | remote posted _ _ step _ _ wrote => exact (wrote.moved.keeps writes).trans step.transport
  | fence =>
    refine lmFence_induct (P := fun c => obs c.transport = obs ctx.transport) control
      (fun _ _ step held => step.transport.trans held) (fun c node held => ?_) ord rfl
    exact ((flushDestination_flushed c node).keeps writes).trans held

end

end LeoMem
