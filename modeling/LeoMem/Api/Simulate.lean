import LeoMem.Api.Drains
import LeoMem.Control.Pass

/-!
# One node over two networks

Two transports answer a node alike as long as their states are related. The relation
is indexed by what the call may still do: `d` drains are to come, and `p` more messages
may be posted. `TransportSim` asks of each operation that it keeps the relation and
answers the same; then a whole call does (`exec_alike`), at the price of the drains it
makes and of `callPosts` posts. Every post is of a message that `Mine` holds of, as it
does of the node's own.
-/

namespace LeoMem
open Lib RuntimeContext

/-- The operations of two transports keep `R` and answer the node of `cfg` alike. -/
structure TransportSim {ω ω' : Type} [Transport ω] [Transport ω'] (cfg : Config) (Mine : ControlMessage → Prop)
    (R : Nat → Nat → ω → ω' → Prop) : Prop where
  own : ∀ msg, msg.sourceNode = cfg.nodeId → Mine msg
  fewer : ∀ d p w w', R d (p + 1) w w' → R d p w w'
  read : ∀ d p a addr size w w', R d p w w' →
    (Transport.read cfg a addr size w').1 = (Transport.read cfg a addr size w).1 ∧
      R d p (Transport.read cfg a addr size w).2 (Transport.read cfg a addr size w').2
  write : ∀ d p a addr buf w w', R d p w w' →
    (Transport.write cfg a addr buf w').1 = (Transport.write cfg a addr buf w).1 ∧
      R d p (Transport.write cfg a addr buf w).2 (Transport.write cfg a addr buf w').2
  batchWrite : ∀ d p a requests w w', R d p w w' →
    (Transport.batchWrite cfg a requests w').1 = (Transport.batchWrite cfg a requests w).1 ∧
      R d p (Transport.batchWrite cfg a requests w).2 (Transport.batchWrite cfg a requests w').2
  fence : ∀ d p w w', R d p w w' →
    (Transport.fence cfg w').1 = (Transport.fence cfg w).1 ∧
      R d p (Transport.fence cfg w).2 (Transport.fence cfg w').2
  post : ∀ d p msg w w', Mine msg → R d (p + 1) w w' →
    (Transport.postControlMessage cfg msg w').1 = (Transport.postControlMessage cfg msg w).1 ∧
      R d p (Transport.postControlMessage cfg msg w).2 (Transport.postControlMessage cfg msg w').2
  /-- What a drain hands over may be acknowledged. -/
  drain : ∀ d p w w', R (d + 1) (p + 64) w w' →
    (Transport.drainControlMessages cfg 64 w').1 = (Transport.drainControlMessages cfg 64 w).1 ∧
      R d (p + (Transport.drainControlMessages cfg 64 w).1.2.length) (Transport.drainControlMessages cfg 64 w).2
        (Transport.drainControlMessages cfg 64 w').2

/-- The requests a node waits for. -/
def RuntimeContext.waiting {ω : Type} (c : RuntimeContext ω) : Nat := c.pendingControlAcks.entries.length

/-- The posts that taking messages in costs at most: an acknowledgement of each, then the
retries. -/
def takeInPosts {ω : Type} (c : RuntimeContext ω) : Nat := 64 + c.waiting

/-- The posts a call costs at most. -/
def callPosts {ω : Type} (c : RuntimeContext ω) : Nat := 2 * takeInPosts c + 2

section
variable {ω ω' ρ : Type} {cfg : Config} {Mine : ControlMessage → Prop} {R : Nat → Nat → ω → ω' → Prop} {d p : Nat}
  {c : RuntimeContext ω} {w' : ω'}

/-- The node `c` may go on over `w'` as well. -/
structure Alike (cfg : Config) (Mine : ControlMessage → Prop) (R : Nat → Nat → ω → ω' → Prop) (d p : Nat)
    (c : RuntimeContext ω) (w' : ω') : Prop where
  config : c.config = cfg
  made : c.pendingControlAcks.Each fun _ msg => Mine msg
  rel : R d p c.transport w'

/-- Both networks gave the same answer and left the node in the same state. -/
def AlikeResult (cfg : Config) (Mine : ControlMessage → Prop) (R : Nat → Nat → ω → ω' → Prop) (d p : Nat)
    (r : ρ × RuntimeContext ω) (r' : ρ × RuntimeContext ω') : Prop :=
  ∃ w', r' = (r.1, r.2.withTransport w') ∧ Alike cfg Mine R d p r.2 w'

theorem Alike.result (alike : Alike cfg Mine R d p c w') (answer : ρ) :
    AlikeResult cfg Mine R d p (answer, c) (answer, c.withTransport w') := ⟨w', rfl, alike⟩

/-- The same node but for what the network does not see. -/
theorem Alike.congr {c' : RuntimeContext ω} (alike : Alike cfg Mine R d p c w') (config : c'.config = c.config)
    (acks : c'.pendingControlAcks = c.pendingControlAcks) (transport : c'.transport = c.transport) :
    Alike cfg Mine R d p c' w' :=
  ⟨config.trans alike.config, acks ▸ alike.made, transport ▸ alike.rel⟩

/-- Both take the same branch. -/
theorem alike_ite {cond : Prop} [Decidable cond] {a b : ρ × RuntimeContext ω} {a' b' : ρ × RuntimeContext ω'}
    (yes : cond → AlikeResult cfg Mine R d p a a') (no : ¬cond → AlikeResult cfg Mine R d p b b') :
    AlikeResult cfg Mine R d p (if cond then a else b) (if cond then a' else b') := by
  by_cases holds : cond
  · rw [if_pos holds, if_pos holds]
    exact yes holds
  · rw [if_neg holds, if_neg holds]
    exact no holds

theorem alike_lmMalloc (size : UInt64) (alike : Alike cfg Mine R d p c w') :
    AlikeResult cfg Mine R d p (lmMalloc c size) (lmMalloc (c.withTransport w') size) := by
  let allocated := { c with allocator := (DsmAllocator.allocate c.config c.allocator size).2 }
  have alike' : Alike cfg Mine R d p allocated w' := alike.congr rfl rfl rfl
  unfold lmMalloc
  refine alike_ite (fun _ => alike.result _) fun _ => alike_ite (fun _ => ?_) fun _ => alike'.result _
  simp only [withTransport]
  split
  · exact alike'.result _
  · exact ⟨w', rfl, alike'.congr rfl rfl rfl⟩

end

/-! ### The pending requests -/

/-- A map has at least the entries of one whose keys it has. -/
theorem entries_length_le {κ ν : Type} [DecidableEq κ] {m m' : HashMap κ ν}
    (keys : ∀ k, (m.lookup k).isSome → (m'.lookup k).isSome) : m.entries.length ≤ m'.entries.length := by
  have sub : m.keys ⊆ m'.keys := fun k member =>
    AList.mem_keys.mp (AList.lookup_isSome.mp (keys k (AList.lookup_isSome.mpr (AList.mem_keys.mpr member))))
  have length := (List.subperm_of_subset m.keys_nodup sub).length_le
  simpa [AList.keys, List.keys] using length

theorem retries_length_le (ord : IterOrder) (cfg : Config) (acks : PendingControlAcks) :
    (acks.advance ord cfg).2.1.length ≤ acks.entries.length := by
  rw [PendingControlAcks.advance_eq, PendingControlAcks.retriesOf, List.length_map]
  calc ((PendingControlAcks.passed (ord.arrange acks.entries)).filter fun e => e.2.due).length
    _ ≤ (PendingControlAcks.passed (ord.arrange acks.entries)).length := List.length_filter_le _ _
    _ ≤ (ord.arrange acks.entries).length := (List.takeWhile_sublist _).length_le
    _ = acks.entries.length := (ord.perm _).length_eq

theorem waiting_complete (acks : PendingControlAcks) (id : UInt64) :
    (acks.complete id).entries.length ≤ acks.entries.length := by
  refine entries_length_le fun k held => ?_
  rw [PendingControlAcks.lookup_complete] at held
  split at held
  · cases held
  · exact held

theorem waiting_advance (ord : IterOrder) (cfg : Config) (acks : PendingControlAcks) :
    (acks.advance ord cfg).2.2.entries.length ≤ acks.entries.length := by
  refine entries_length_le fun k held => ?_
  rw [PendingControlAcks.lookup_advance] at held
  split at held
  · simpa using held
  · exact held

section
variable {ω : Type} [Transport ω] {c : RuntimeContext ω}

theorem Handled.waiting {msg : ControlMessage} {r : Status × RuntimeContext ω} (handled : Handled c msg r) :
    r.2.waiting ≤ c.waiting := by
  cases handled with
  | completed => exact waiting_complete _ _
  | acknowledged _ _ _ => exact le_refl _
  | ignored => exact le_refl _

theorem drive_waiting (ord : IterOrder) (c : RuntimeContext ω) : (drivePendingControlAcks ord c).2.waiting ≤ c.waiting := by
  let advanced := { c with pendingControlAcks := (c.pendingControlAcks.advance ord c.config).2.2 }
  have less : advanced.waiting ≤ c.waiting := waiting_advance ord c.config c.pendingControlAcks
  unfold drivePendingControlAcks
  simp only
  split
  · exact less
  · exact postAll_keeps (I := fun c' => c'.waiting ≤ c.waiting) (fun _ _ _ held => held) less

/-- Taking messages in adds no request. -/
theorem handleAll_waiting {handle : Handler ω} (handles : ∀ c msg, Handled c msg (handle c msg)) (c : RuntimeContext ω)
    (msgs : List ControlMessage) : (handleAll handle c msgs).2.waiting ≤ c.waiting :=
  handleAll_keeps (I := fun c' => c'.waiting ≤ c.waiting) (W := fun _ => True)
    (fun c' msg _ _ held => (handles c' msg).waiting.trans held) (fun _ _ => trivial) (le_refl _)

theorem takeIn_waiting {handle : Handler ω} (handles : ∀ c msg, Handled c msg (handle c msg)) (ord : IterOrder)
    (c : RuntimeContext ω) : (takeIn handle ord c).2.waiting ≤ c.waiting :=
  takeIn_keeps (I := fun c' => c'.waiting ≤ c.waiting) (W := fun _ => True) (le_refl _)
    (fun c' msg _ _ held => (handles c' msg).waiting.trans held) (fun _ _ => trivial)
    fun c' held => (drive_waiting ord c').trans held

theorem flushFence_waiting (ord : IterOrder) (c : RuntimeContext ω) : (flushFence ord c).2.waiting = c.waiting := by
  have flushed : (flushDestinations c (c.queues.pendingDestinations ord)).2.waiting = c.waiting :=
    flushDestinations_induct (P := fun c' => c'.waiting = c.waiting)
      (fun c' node same => (congrArg (fun acks => acks.entries.length) (flushDestination_flushed c' node).same.acks).trans same)
      _ rfl
  unfold flushFence
  simp only
  split
  · exact flushed
  · exact flushed

end

/-! ## Every function of the API -/

section
variable {ω ω' : Type} [Transport ω] [Transport ω'] {cfg : Config} {Mine : ControlMessage → Prop}
  {R : Nat → Nat → ω → ω' → Prop} {d p : Nat} {c : RuntimeContext ω} {w' : ω'} (sim : TransportSim cfg Mine R)
include sim

theorem Alike.fewer {q : Nat} (alike : Alike cfg Mine R d q c w') (le : p ≤ q) : Alike cfg Mine R d p c w' := by
  induction q, le using Nat.le_induction with
  | base => exact alike
  | succ q _ ih => exact ih ⟨alike.config, alike.made, sim.fewer _ _ _ _ alike.rel⟩

/-! ### Control messages -/

theorem alike_post (alike : Alike cfg Mine R d (p + 1) c w') {msg : ControlMessage} (own : Mine msg) :
    AlikeResult cfg Mine R d p (c.post msg) ((c.withTransport w').post msg) := by
  obtain ⟨rfl, made, rel⟩ := alike
  obtain ⟨answer, rel⟩ := sim.post d p msg c.transport w' own rel
  exact ⟨_, Prod.ext answer rfl, rfl, made, rel⟩

theorem alike_postAll {msgs : List ControlMessage} (alike : Alike cfg Mine R d (p + msgs.length) c w')
    (own : ∀ msg ∈ msgs, Mine msg) :
    AlikeResult cfg Mine R d p (c.postAll msgs) ((c.withTransport w').postAll msgs) := by
  induction msgs generalizing c w' with
  | nil => exact alike.result _
  | cons msg msgs ih =>
    obtain ⟨next, posted, after⟩ := alike_post sim alike (own msg List.mem_cons_self)
    rw [postAll, postAll, posted]
    refine alike_ite (fun _ => ⟨next, rfl, after.fewer sim (Nat.le_add_right _ _)⟩) fun _ => ?_
    exact ih after fun msg member => own msg (List.mem_cons_of_mem _ member)

variable (ord : IterOrder) (addr : GlobalAddr) (buf : Bytes) (range : BlockRange) (modes : List CoherenceMode)
  (size : UInt64)

theorem alike_drive (alike : Alike cfg Mine R d (p + c.waiting) c w') :
    AlikeResult cfg Mine R d p (drivePendingControlAcks ord c) (drivePendingControlAcks ord (c.withTransport w')) := by
  obtain ⟨retries, made⟩ := alike.made.advance ord c.config
  let advanced := { c with pendingControlAcks := (c.pendingControlAcks.advance ord c.config).2.2 }
  have advance : Alike cfg Mine R d (p + (c.pendingControlAcks.advance ord c.config).2.1.length) advanced w' :=
    Alike.fewer sim ⟨alike.config, made, alike.rel⟩ (Nat.add_le_add_left (retries_length_le ord c.config c.pendingControlAcks) p)
  exact alike_ite (fun _ => (advance.fewer sim (Nat.le_add_right _ _)).result _) fun _ =>
    alike_postAll sim advance fun msg member => (retries msg member).elim fun _ mine => mine

/-- Both handlers, over both networks. -/
abbrev AlikeHandlers (cfg : Config) (Mine : ControlMessage → Prop) (R : Nat → Nat → ω → ω' → Prop) (handle : Handler ω)
    (handle' : Handler ω') : Prop :=
  ∀ d p c w' msg, Alike cfg Mine R d (p + 1) c w' →
    AlikeResult cfg Mine R d p (handle c msg) (handle' (c.withTransport w') msg)

theorem alike_processMessage : AlikeHandlers cfg Mine R (processMessage ord) (processMessage ord) := by
  intro d p c w' msg alike
  have own : Mine (msg.ack c.config) := sim.own _ (congrArg Config.nodeId alike.config)
  unfold processMessage
  refine alike_ite (fun _ => Alike.result ?_ _) fun _ => ?_
  · exact (Alike.fewer sim ⟨alike.config, alike.made.complete _, alike.rel⟩ (Nat.le_succ p))
  · cases msg.opcode with
    | kInvalidateRange =>
      refine alike_post sim ?_ own
      exact alike.congr rfl rfl rfl
    | kOwnerTransfer =>
      refine alike_post sim ?_ own
      exact alike.congr rfl rfl rfl
    | kInvalidateAck => exact (alike.fewer sim (Nat.le_succ p)).result _
    | kOwnerTransferAck => exact (alike.fewer sim (Nat.le_succ p)).result _

theorem alike_drainMessage : AlikeHandlers cfg Mine R (drainMessage ord) (drainMessage ord) := by
  intro d p c w' msg alike
  have own : Mine (msg.ack c.config) := sim.own _ (congrArg Config.nodeId alike.config)
  unfold drainMessage
  refine alike_ite (fun _ => Alike.result ?_ _) fun _ => alike_ite (fun _ => ?_) fun _ => ?_
  · exact (Alike.fewer sim ⟨alike.config, alike.made.complete _, alike.rel⟩ (Nat.le_succ p))
  all_goals
    refine alike_post sim ?_ own
    exact alike.congr rfl rfl rfl

theorem alike_handleAll {handle : Handler ω} {handle' : Handler ω'} (handlers : AlikeHandlers cfg Mine R handle handle')
    {msgs : List ControlMessage} (alike : Alike cfg Mine R d (p + msgs.length) c w') :
    AlikeResult cfg Mine R d p (handleAll handle c msgs) (handleAll handle' (c.withTransport w') msgs) := by
  induction msgs generalizing c w' with
  | nil => exact alike.result _
  | cons msg msgs ih =>
    obtain ⟨next, handled, after⟩ := handlers d (p + msgs.length) c w' msg alike
    rw [handleAll, handleAll, handled]
    exact alike_ite (fun _ => ⟨next, rfl, after.fewer sim (Nat.le_add_right _ _)⟩) fun _ => ih after

theorem alike_takeMessages (alike : Alike cfg Mine R (d + 1) (p + 64) c w') :
    (Transport.drainControlMessages c.config 64 w').1 = (Transport.drainControlMessages c.config 64 c.transport).1 ∧
      Alike cfg Mine R d (p + (takenMessages c).length) (takeMessages c) (Transport.drainControlMessages c.config 64 w').2 := by
  obtain ⟨rfl, made, rel⟩ := alike
  obtain ⟨answer, rel⟩ := sim.drain d p c.transport w' rel
  exact ⟨answer, rfl, made, rel⟩

theorem alike_takeIn {handle : Handler ω} {handle' : Handler ω'} (handlers : AlikeHandlers cfg Mine R handle handle')
    (handles : ∀ c msg, Handled c msg (handle c msg)) (ord : IterOrder)
    (alike : Alike cfg Mine R (d + 1) (p + takeInPosts c) c w') :
    AlikeResult cfg Mine R d p (takeIn handle ord c) (takeIn handle' ord (c.withTransport w')) := by
  have room : p + c.waiting + 64 ≤ p + takeInPosts c := by
    unfold takeInPosts
    omega
  obtain ⟨answer, taken⟩ := alike_takeMessages sim (alike.fewer sim room)
  have messages : takenMessages (c.withTransport w') = takenMessages c := congrArg Prod.snd answer
  obtain ⟨next, handled, after⟩ := alike_handleAll sim handlers taken
  have fewer := handleAll_waiting handles (takeMessages c) (takenMessages c)
  have drive := alike_drive sim ord (after.fewer sim (Nat.add_le_add_left fewer p))
  have all : handleAll handle' (takeMessages (c.withTransport w')) (takenMessages (c.withTransport w')) = _ :=
    (congrArg (handleAll handle' _) messages).trans handled
  unfold takeIn
  simp only [all]
  have status : (Transport.drainControlMessages (c.withTransport w').config 64 (c.withTransport w').transport).1.1 =
      (Transport.drainControlMessages c.config 64 c.transport).1.1 := congrArg Prod.fst answer
  rw [status]
  refine alike_ite (fun _ => (taken.fewer sim (by omega)).result _) fun _ => ?_
  exact alike_ite (fun _ => ⟨next, rfl, after.fewer sim (Nat.le_add_right _ _)⟩) fun _ => drive

theorem alike_drainControl (alike : Alike cfg Mine R (d + 1) (p + takeInPosts c) c w') :
    AlikeResult cfg Mine R d p (drainControl ord c) (drainControl ord (c.withTransport w')) := by
  rw [drainControl_eq, drainControl_eq]
  exact alike_takeIn sim (alike_drainMessage sim ord) (handled_drainMessage ord) ord alike

theorem alike_processPendingControlMessages (alike : Alike cfg Mine R (d + 1) (p + takeInPosts c) c w') :
    AlikeResult cfg Mine R d p (processPendingControlMessages ord c) (processPendingControlMessages ord (c.withTransport w')) := by
  rw [processPendingControlMessages_eq, processPendingControlMessages_eq]
  exact alike_takeIn sim (alike_processMessage sim ord) (handled_processMessage ord) ord alike

theorem alike_openAccess (alike : Alike cfg Mine R (d + (accessDrains ord c addr size).length) (p + takeInPosts c) c w') :
    AlikeResult cfg Mine R d p (openAccess ord c addr size) (openAccess ord (c.withTransport w') addr size) := by
  unfold accessDrains at alike
  unfold openAccess
  refine alike_ite (fun off => ?_) fun on => alike_ite (fun refused => ?_) fun taken => ?_
  · rw [if_pos off] at alike
    exact (alike.fewer sim (Nat.le_add_right _ _)).result _
  · rw [if_neg on, if_pos refused] at alike
    exact (alike.fewer sim (Nat.le_add_right _ _)).result _
  · rw [if_neg on, if_neg taken] at alike
    obtain ⟨next, processed, after⟩ := alike_processPendingControlMessages sim ord alike
    simp only [processed]
    exact alike_ite (fun _ => after.result _) fun _ => after.result _

/-! ### Reads -/

theorem alike_readHome (alike : Alike cfg Mine R d p c w') :
    AlikeResult cfg Mine R d p (readHome c addr size) (readHome (c.withTransport w') addr size) := by
  obtain ⟨rfl, made, rel⟩ := alike
  obtain ⟨answer, rel⟩ := sim.read d p c.allocator addr size c.transport w' rel
  exact ⟨_, Prod.ext answer rfl, rfl, made, rel⟩

theorem alike_readHomeValidating (metas : List BlockId) (alike : Alike cfg Mine R d p c w') :
    AlikeResult cfg Mine R d p (readHomeValidating c addr size metas) (readHomeValidating (c.withTransport w') addr size metas) := by
  obtain ⟨next, read, after⟩ := alike_readHome sim addr size alike
  unfold readHomeValidating
  rw [read]
  generalize readHome c addr size = r at after
  obtain ⟨_ | buf, c'⟩ := r
  · exact after.result _
  · exact ⟨next, rfl, after.congr rfl rfl rfl⟩

/-- The answer of `TryOwnerAwareRead` that this node's own copy gives, or else the home. -/
theorem alike_ownCopy (cached : Option Bytes × ReadCache) (addr : GlobalAddr) (size : UInt64) (metas : List BlockId)
    (alike : Alike cfg Mine R d p c w') :
    AlikeResult (ρ := Except Status Bytes × Bool) cfg Mine R d p
      (match cached.1 with
        | some buf => ((.ok buf, true), c.setCache cached.2)
        | none =>
          match readHome (c.setCache cached.2) addr size with
          | (.ok buf, ctx) => ((.ok buf, false), { ctx with blockTable := markReadValidated ctx.blockTable metas })
          | (.error s, ctx) => ((.error s, false), ctx))
      (match cached.1 with
        | some buf => ((.ok buf, true), (c.withTransport w').setCache cached.2)
        | none =>
          match readHome ((c.withTransport w').setCache cached.2) addr size with
          | (.ok buf, ctx) => ((.ok buf, false), { ctx with blockTable := markReadValidated ctx.blockTable metas })
          | (.error s, ctx) => ((.error s, false), ctx)) := by
  obtain ⟨_ | buf, cache⟩ := cached
  · obtain ⟨next, read, after⟩ := alike_readHome sim addr size (c := c.setCache cache) (alike.congr rfl rfl rfl)
    have read : readHome ((c.withTransport w').setCache cache) addr size = _ := read
    simp only [read]
    generalize readHome (c.setCache cache) addr size = r at after
    obtain ⟨_ | buf, c'⟩ := r
    · exact after.result _
    · exact ⟨next, rfl, after.congr rfl rfl rfl⟩
  · exact Alike.result (c := c.setCache cache) (alike.congr rfl rfl rfl) _

theorem alike_tryOwnerAwareRead (metas : List BlockId) (alike : Alike cfg Mine R d p c w') :
    AlikeResult cfg Mine R d p (tryOwnerAwareRead ord c addr size metas)
      (tryOwnerAwareRead ord (c.withTransport w') addr size metas) := by
  unfold tryOwnerAwareRead
  refine alike_ite (fun _ => alike_ownCopy sim _ addr size metas alike) fun _ => alike_ite (fun _ => ?_) fun _ =>
    alike_readHomeValidating sim addr size metas alike
  obtain ⟨next, read, after⟩ :=
    alike_readHome sim { addr with homeNode := dominantOwnerNode c.blockTable metas addr.homeNode } size alike
  have read : readHome (c.withTransport w')
      { addr with homeNode := dominantOwnerNode (c.withTransport w').blockTable metas addr.homeNode } size = _ := read
  rw [read]
  change AlikeResult cfg Mine R d p
    (match readHome c { addr with homeNode := dominantOwnerNode c.blockTable metas addr.homeNode } size with
      | (.ok buf, ctx) => _ | (.error _, ctx) => _) _
  generalize readHome c { addr with homeNode := dominantOwnerNode c.blockTable metas addr.homeNode } size = r at after
  obtain ⟨_ | buf, c'⟩ := r
  · exact alike_readHomeValidating sim addr size metas after
  · exact ⟨next, rfl, after.congr rfl rfl rfl⟩

theorem alike_readRemote (metas : List BlockId) (modes : List CoherenceMode) (alike : Alike cfg Mine R d p c w') :
    AlikeResult cfg Mine R d p (readRemote ord c addr size metas modes)
      (readRemote ord (c.withTransport w') addr size metas modes) := by
  have cached : ((c.withTransport w').cache.tryReadCached ord addr size) = c.cache.tryReadCached ord addr size := rfl
  simp only [readRemote, cached]
  rcases c.cache.tryReadCached ord addr size with ⟨_ | buf, cache⟩
  · obtain ⟨next, read, after⟩ := alike_tryOwnerAwareRead sim ord addr size metas
      (c := countMiss (c.setCache cache) metas) (alike.congr rfl rfl rfl)
    have read : tryOwnerAwareRead ord (countMiss ((c.withTransport w').setCache cache) metas) addr size metas = _ := read
    simp only [read]
    generalize tryOwnerAwareRead ord (countMiss (c.setCache cache) metas) addr size metas = r at after
    obtain ⟨⟨_ | buf, redirected⟩, c'⟩ := r
    · exact after.result _
    · exact Alike.result (c := admitRead c' addr buf metas modes redirected) (after.congr rfl rfl rfl) _
  · exact Alike.result (c := { c.setCache cache with stats := (c.setCache cache).stats.incCacheHit.incRead false })
      (alike.congr rfl rfl rfl) _

theorem alike_readLocal (alike : Alike cfg Mine R d p c w') :
    AlikeResult cfg Mine R d p (readLocal c addr size) (readLocal (c.withTransport w') addr size) := by
  obtain ⟨next, read, after⟩ := alike_readHome sim addr size alike
  unfold readLocal
  rw [read]
  generalize readHome c addr size = r at after
  obtain ⟨_ | buf, c'⟩ := r
  · exact after.result _
  · exact ⟨next, rfl, after.congr rfl rfl rfl⟩

theorem alike_lmRead (alike : Alike cfg Mine R (d + (accessDrains ord c addr size).length) (p + takeInPosts c) c w') :
    AlikeResult cfg Mine R d p (lmRead ord c addr size) (lmRead ord (c.withTransport w') addr size) := by
  obtain ⟨next, opened, after⟩ := alike_openAccess sim ord addr size alike
  unfold lmRead
  rw [opened]
  generalize openAccess ord c addr size = r at after
  obtain ⟨_ | range, c'⟩ := r
  · exact after.result _
  · have touched : Alike cfg Mine R d p (touchMetadata c' addr range .kRead).2 next := after.congr rfl rfl rfl
    exact alike_ite (fun _ => alike_readLocal sim addr size touched) fun _ => alike_readRemote sim ord addr size _ _ touched

/-! ### Writes -/

theorem alike_postRequest (mode : CoherenceMode) (opcode : ControlOpcode) (version : Version)
    (alike : Alike cfg Mine R d (p + 1) c w') :
    AlikeResult cfg Mine R d p (postRequest c addr range mode opcode version)
      (postRequest (c.withTransport w') addr range mode opcode version) := by
  have own : Mine (makeControlMessage c.config c.nextControlRequestId addr range mode opcode version) :=
    sim.own _ (congrArg Config.nodeId alike.config)
  obtain ⟨next, posted, after⟩ :=
    alike_post sim (c := { c with nextControlRequestId := c.nextControlRequestId + 1 }) (alike.congr rfl rfl rfl) own
  change AlikeResult cfg Mine R d p (trackPosted _ _) (trackPosted _
    (RuntimeContext.post ({ c with nextControlRequestId := c.nextControlRequestId + 1 }.withTransport w')
      (makeControlMessage c.config c.nextControlRequestId addr range mode opcode version)))
  rw [posted]
  refine alike_ite (fun _ => Alike.result ?_ _) fun _ => ⟨next, rfl, after⟩
  exact ⟨after.config, after.made.track _ own, after.rel⟩

theorem alike_postWriteMessages (ownerHandoff : Bool) (maxVersion : Version) (alike : Alike cfg Mine R d (p + 2) c w') :
    AlikeResult cfg Mine R d p (postWriteMessages c addr range modes ownerHandoff maxVersion)
      (postWriteMessages (c.withTransport w') addr range modes ownerHandoff maxVersion) := by
  have invalidation : AlikeResult cfg Mine R d (p + 1)
      (if hasMode modes .kWI then postRequest c addr range .kWI .kInvalidateRange maxVersion else (.kOk, c))
      (if hasMode modes .kWI then postRequest (c.withTransport w') addr range .kWI .kInvalidateRange maxVersion
        else (.kOk, c.withTransport w')) :=
    alike_ite (fun _ => alike_postRequest sim _ _ _ _ _ alike) fun _ => (alike.fewer sim (Nat.le_succ _)).result _
  obtain ⟨next, posted, after⟩ := invalidation
  simp only [postWriteMessages, posted]
  refine alike_ite (fun _ => ⟨next, rfl, after.fewer sim (Nat.le_succ p)⟩) fun _ => alike_ite (fun _ => ?_) fun _ => ?_
  · exact alike_postRequest sim _ _ _ _ _ after
  · exact (after.fewer sim (Nat.le_succ p)).result _

theorem alike_flushDestination (node : NodeId) (alike : Alike cfg Mine R d p c w') :
    AlikeResult cfg Mine R d p (flushDestination c node) (flushDestination (c.withTransport w') node) := by
  obtain ⟨rfl, made, rel⟩ := alike
  let drained := c.queues.drainRemoteWrites node
  let emptied := (c.setQueues drained.2).withTransport w'
  let requests := drained.1.writes.map PendingRemoteWrite.request
  let send {ω : Type} [Transport ω] (w : ω) : Status × ω :=
    if requests.isEmpty then (.kOk, w) else Transport.batchWrite c.config c.allocator requests w
  have sent : (send w').1 = (send c.transport).1 ∧ R d p (send c.transport).2 (send w').2 := by
    simp only [send]
    split
    · exact ⟨rfl, rel⟩
    · exact sim.batchWrite d p c.allocator requests c.transport w' rel
  obtain ⟨answer, rel⟩ := sent
  have outcome := congrArg (fun r : Status × ω' =>
    if r.1 ≠ .kOk then (r.1, { emptied with transport := r.2 })
    else (.kOk, { emptied with transport := r.2, stats := recordFlush emptied.stats drained.1 }))
    (Prod.ext answer rfl : send w' = ((send c.transport).1, (send w').2))
  have flushed : flushDestination (c.withTransport w') node = _ := outcome
  rw [flushed]
  exact alike_ite (fun _ => ⟨_, rfl, rfl, made, rel⟩) fun _ => ⟨_, rfl, rfl, made, rel⟩

theorem alike_writeThrough (isLocal : Bool) (alike : Alike cfg Mine R d p c w') :
    AlikeResult cfg Mine R d p (writeThrough c addr buf isLocal) (writeThrough (c.withTransport w') addr buf isLocal) := by
  obtain ⟨rfl, made, rel⟩ := alike
  obtain ⟨answer, rel⟩ := sim.write d p c.allocator addr buf c.transport w' rel
  have written : Transport.write (c.withTransport w').config (c.withTransport w').allocator addr buf
      (c.withTransport w').transport = (_, (Transport.write c.config c.allocator addr buf w').2) := Prod.ext answer rfl
  simp only [writeThrough, written]
  exact alike_ite (fun _ => ⟨_, rfl, rfl, made, rel⟩) fun _ => ⟨_, rfl, rfl, made, rel⟩

theorem alike_writeBatched (ownerBiased ownerHandoff : Bool) (alike : Alike cfg Mine R d p c w') :
    AlikeResult cfg Mine R d p (writeBatched c addr buf modes ownerBiased ownerHandoff)
      (writeBatched (c.withTransport w') addr buf modes ownerBiased ownerHandoff) := by
  let staged := stageWrite c addr buf modes ownerBiased ownerHandoff
  let full := hasMode modes .kWI ||
    staged.queues.shouldFlushDestination addr.homeNode (mostAggressiveBatchThreshold staged.config modes)
  have alike : Alike cfg Mine R d p staged w' := alike.congr rfl rfl rfl
  obtain ⟨next, flushed, after⟩ : AlikeResult cfg Mine R d p
      (if full then flushDestination staged addr.homeNode else (.kOk, staged))
      (if full then flushDestination (staged.withTransport w') addr.homeNode else (.kOk, staged.withTransport w')) :=
    alike_ite (fun _ => alike_flushDestination sim addr.homeNode alike) fun _ => alike.result _
  have outcome := congrArg (fun r : Status × RuntimeContext ω' =>
    if r.1 ≠ .kOk then r else (.kOk, { r.2 with stats := r.2.stats.incWrite false })) flushed
  have written : writeBatched (c.withTransport w') addr buf modes ownerBiased ownerHandoff = _ := outcome
  rw [written]
  exact alike_ite (fun _ => ⟨next, rfl, after⟩) fun _ => ⟨next, rfl, after.congr rfl rfl rfl⟩

theorem alike_writeData (ownerBiased ownerHandoff : Bool) (alike : Alike cfg Mine R d p c w') :
    AlikeResult cfg Mine R d p (writeData ord c addr buf modes ownerBiased ownerHandoff)
      (writeData ord (c.withTransport w') addr buf modes ownerBiased ownerHandoff) := by
  have dropped : Alike cfg Mine R d p (dropCopies ord c addr buf.size modes) w' := alike.congr rfl rfl rfl
  exact alike_ite (fun _ => alike_writeThrough sim addr buf false dropped)
    fun _ => alike_writeBatched sim addr buf modes ownerBiased ownerHandoff dropped

theorem alike_writeRemote (alike : Alike cfg Mine R d (p + 2) c w') :
    AlikeResult cfg Mine R d p (writeRemote ord c addr buf range modes)
      (writeRemote ord (c.withTransport w') addr buf range modes) := by
  let metas := range.ids addr.regionId
  let applied := applyWriteMetadata c.config addr (metas.zip modes) { table := c.blockTable }
  obtain ⟨next, posted, after⟩ := alike_postWriteMessages sim addr range modes applied.ownerHandoff
    (maxObservedVersion applied.table metas) (c := { c with blockTable := applied.table }) (alike.congr rfl rfl rfl)
  have outcome := congrArg (fun r : Status × RuntimeContext ω' =>
    if postFailed r.1 then r else writeData ord r.2 addr buf modes applied.ownerBiased applied.ownerHandoff) posted
  have written : writeRemote ord (c.withTransport w') addr buf range modes = _ := outcome
  rw [written]
  exact alike_ite (fun _ => ⟨next, rfl, after⟩) fun _ => alike_writeData sim ord addr buf modes _ _ after

theorem alike_lmWrite (alike : Alike cfg Mine R (d + (accessDrains ord c addr buf.size).length) (p + 2 + takeInPosts c) c w') :
    AlikeResult cfg Mine R d p (lmWrite ord c addr buf) (lmWrite ord (c.withTransport w') addr buf) := by
  obtain ⟨next, opened, after⟩ := alike_openAccess sim ord addr buf.size alike
  unfold lmWrite
  rw [opened]
  generalize openAccess ord c addr buf.size = r at after
  obtain ⟨_ | range, c'⟩ := r
  · exact (after.fewer sim (Nat.le_add_right p 2)).result _
  · have touched : Alike cfg Mine R d (p + 2) (touchMetadata c' addr range .kWrite).2 next := after.congr rfl rfl rfl
    refine alike_ite (fun _ => ?_) fun _ => alike_writeRemote sim ord addr buf range _ touched
    exact alike_writeThrough sim addr buf true (touched.fewer sim (Nat.le_add_right p 2))

/-! ### Fences and calls -/

theorem alike_flushDestinations (nodes : List NodeId) (alike : Alike cfg Mine R d p c w') :
    AlikeResult cfg Mine R d p (flushDestinations c nodes) (flushDestinations (c.withTransport w') nodes) := by
  induction nodes generalizing c w' with
  | nil => exact alike.result _
  | cons node nodes ih =>
    obtain ⟨next, flushed, after⟩ := alike_flushDestination sim node alike
    rw [flushDestinations, flushDestinations, flushed]
    exact alike_ite (fun _ => ⟨next, rfl, after⟩) fun _ => ih after

theorem alike_fence (alike : Alike cfg Mine R d p c w') :
    AlikeResult cfg Mine R d p
      ((Transport.fence c.config c.transport).1, { c with transport := (Transport.fence c.config c.transport).2 })
      ((Transport.fence c.config w').1, { c.withTransport w' with transport := (Transport.fence c.config w').2 }) := by
  obtain ⟨rfl, made, rel⟩ := alike
  obtain ⟨answer, rel⟩ := sim.fence d p c.transport w' rel
  exact ⟨_, Prod.ext answer rfl, rfl, made, rel⟩

theorem alike_flushFence (alike : Alike cfg Mine R d p c w') :
    AlikeResult cfg Mine R d p (flushFence ord c) (flushFence ord (c.withTransport w')) := by
  obtain ⟨next, flushed, after⟩ := alike_flushDestinations sim (c.queues.pendingDestinations ord) alike
  have outcome := congrArg (fun r : Status × RuntimeContext ω' =>
    if r.1 ≠ .kOk then r
    else ((Transport.fence r.2.config r.2.transport).1,
      { r.2 with transport := (Transport.fence r.2.config r.2.transport).2 })) flushed
  have fenced : flushFence ord (c.withTransport w') = _ := outcome
  rw [fenced]
  exact alike_ite (fun _ => ⟨next, rfl, after⟩) fun _ => alike_fence sim after

theorem alike_lmFence (alike : Alike cfg Mine R (d + (fenceDrains ord c).length) (p + 2 * takeInPosts c) c w') :
    AlikeResult cfg Mine R d p (lmFence ord c) (lmFence ord (c.withTransport w')) := by
  rw [lmFence_eq, lmFence_eq]
  unfold fenceDrains at alike
  refine alike_ite (fun off => ?_) fun on => ?_
  · rw [if_pos off] at alike
    exact (alike.fewer sim (Nat.le_add_right _ _)).result _
  · have less : takeInPosts (flushFence ord (drainControl ord c).2).2 ≤ takeInPosts c := by
      unfold takeInPosts
      rw [flushFence_waiting, drainControl_eq]
      exact Nat.add_le_add_left (takeIn_waiting (handled_drainMessage ord) ord c) 64
    rw [if_neg on] at alike
    simp only at alike ⊢
    by_cases stopped : (drainControl ord c).1 ≠ .kOk ∨ (flushFence ord (drainControl ord c).2).1 ≠ .kOk
    · rw [if_pos stopped] at alike
      obtain ⟨next, drained, after⟩ := alike_drainControl sim ord (alike.fewer sim (q := p + 2 * takeInPosts c)
        (p := p + takeInPosts c) (by omega))
      obtain ⟨final, flushed, last⟩ := alike_flushFence sim ord after
      simp only [drained, flushed]
      refine alike_ite (fun _ => ⟨next, rfl, after⟩) fun passed => alike_ite (fun _ => ⟨final, rfl, last⟩) fun ok => ?_
      exact absurd stopped (by simp [not_not.mp passed, not_not.mp ok])
    · rw [if_neg stopped] at alike
      have room : p + takeInPosts (flushFence ord (drainControl ord c).2).2 + takeInPosts c ≤ p + 2 * takeInPosts c := by
        omega
      obtain ⟨next, drained, after⟩ := alike_drainControl sim (d := d + 1) ord (alike.fewer sim room)
      obtain ⟨final, flushed, last⟩ := alike_flushFence sim ord after
      simp only [drained, flushed]
      refine alike_ite (fun failed => absurd (Or.inl failed) stopped) fun _ => alike_ite
        (fun failed => absurd (Or.inr failed) stopped) fun _ => alike_drainControl sim ord last

/-- **A whole call**: with as many drains to come as it makes, it answers the same over both networks
and leaves the node in the same state. -/
theorem exec_alike (i : Invocation) (alike : Alike cfg Mine R (d + (drains c i).length) (p + callPosts c) c w') :
    AlikeResult cfg Mine R d p (exec c i) (exec (c.withTransport w') i) := by
  obtain ⟨ord, call⟩ := i
  have one : p + 2 + takeInPosts c ≤ p + callPosts c := by unfold callPosts; omega
  have two : p + 2 * takeInPosts c ≤ p + callPosts c := by unfold callPosts; omega
  cases call with
  | malloc size =>
    obtain ⟨next, same, after⟩ := alike_lmMalloc size (alike.fewer sim (Nat.le_add_right p _))
    exact ⟨next, congrArg (Prod.map Response.addr id) same, after⟩
  | free addr => exact (alike.fewer sim (Nat.le_add_right p _)).result _
  | read addr size =>
    obtain ⟨next, same, after⟩ := alike_lmRead sim ord addr size (p := p + 2) (alike.fewer sim one)
    exact ⟨next, congrArg (Prod.map Response.ofRead id) same, after.fewer sim (Nat.le_add_right p 2)⟩
  | write addr buf =>
    obtain ⟨next, same, after⟩ := alike_lmWrite sim ord addr buf (alike.fewer sim one)
    exact ⟨next, congrArg (Prod.map Response.status id) same, after⟩
  | fence =>
    obtain ⟨next, same, after⟩ := alike_lmFence sim ord (alike.fewer sim two)
    exact ⟨next, congrArg (Prod.map Response.status id) same, after⟩

end
end LeoMem
