import LeoMem.Api.Queued
import LeoMem.Batching.Fits
import LeoMem.Cluster.Model

/-!
# Bytes on their way to a home

`w` is a set of bytes for one home's memory, such as those of one write. As long as
every write to the home agrees with `w`, no node's call takes a byte of `w` out of
that memory (`exec_sound`), and a node whose writes are in bounds loses none that
it has pending (`exec_carries`).
-/

namespace LeoMem
open Lib RuntimeContext

namespace PeerTransport

theorem controlKeeps_memory : ControlKeeps memory where
  post cfg msg t := by
    change (postControlMessage cfg msg t).2.memory = _
    unfold postControlMessage
    split
    · rfl
    · split <;> rfl
  drain cfg n t := by
    change (drainControlMessages cfg n t).2.memory = _
    unfold drainControlMessages
    split <;> rfl
  fence _ _ := rfl

/-- What a node takes from its mailbox in one go was in front. -/
theorem mem_drained {cfg : Config} {t : PeerTransport} {msg : ControlMessage}
    (drained : msg ∈ (t.drainControlMessages cfg 64).1.2) : msg ∈ (t.mailbox cfg.nodeId).take 64 := by
  unfold drainControlMessages at drained
  split at drained
  · cases drained
  · exact drained

variable (cfg : Config)

theorem drain_inFlight (limit : Nat) (t : PeerTransport) : (t.drainControlMessages cfg limit).2.inFlight = t.inFlight := by
  unfold drainControlMessages
  split <;> rfl

/-- A drain puts nothing into a mailbox. -/
theorem drain_mailbox (limit : Nat) (t : PeerTransport) (m : NodeId) :
    (t.drainControlMessages cfg limit).2.mailbox m ⊆ t.mailbox m := by
  unfold drainControlMessages
  split
  · exact List.Subset.refl _
  · simp only
    by_cases here : m = cfg.nodeId
    · rw [here, Function.update_self]
      exact List.drop_subset _ _
    · rw [Function.update_of_ne here]
      exact List.Subset.refl _

/-- Reads change nothing. -/
theorem read_same (addr : GlobalAddr) (size : UInt64) (t : PeerTransport) : (read cfg addr size t).2 = t := by
  unfold read
  split
  · rfl
  · split
    · rfl
    · split <;> rfl

theorem readKeeps_memory : ReadKeeps cfg memory :=
  fun _ addr size t => congrArg memory (read_same cfg addr size t)

/-- What a read returns is what the memory holds. -/
theorem read_ok {cfg : Config} {addr : GlobalAddr} {size : UInt64} {t : PeerTransport} {buf : Bytes}
    (ok : (read cfg addr size t).1 = .ok buf) : buf = (t.memory addr.homeNode).slice addr.offset.toNat size := by
  unfold read at ok
  split at ok
  · cases ok
  · split at ok
    · cases ok
    · split at ok
      · cases ok
      · exact (Except.ok.inj ok).symm

/-- A write leaves the memory alone or overlays its home's. -/
theorem write_memory (addr : GlobalAddr) (buf : Bytes) (t : PeerTransport) :
    ((write cfg addr buf t).2.memory = t.memory ∧ (write cfg addr buf t).1 ≠ .kOk) ∨
      ((write cfg addr buf t).1 = .kOk ∧ (write cfg addr buf t).2.memory =
        Function.update t.memory addr.homeNode ((t.memory addr.homeNode).blit addr.offset.toNat buf)) := by
  unfold write
  split
  · exact Or.inl ⟨rfl, by simp⟩
  · split
    · exact Or.inl ⟨rfl, by simp⟩
    · split
      · exact Or.inl ⟨rfl, by simp⟩
      · exact Or.inr ⟨rfl, rfl⟩

end PeerTransport

/-! ## Memory that keeps `w` -/

/-- No region changes its size, and the home keeps the bytes of `w` it has. -/
structure MemoryKeeps (home : NodeId) (w : Patch Nat UInt8) (before after : NodeId → Bytes) : Prop where
  sizes : ∀ n, (after n).size = (before n).size
  bytes : ∀ x b, w x = some b → (before home).byte x = b → (after home).byte x = b

section
variable {home : NodeId} {w : Patch Nat UInt8}

theorem MemoryKeeps.refl (m : NodeId → Bytes) : MemoryKeeps home w m m := ⟨fun _ => rfl, fun _ _ _ held => held⟩

theorem MemoryKeeps.trans {a b c : NodeId → Bytes} (first : MemoryKeeps home w a b) (second : MemoryKeeps home w b c) :
    MemoryKeeps home w a c :=
  ⟨fun n => (second.sizes n).trans (first.sizes n),
    fun x v at_w held => second.bytes x v at_w (first.bytes x v at_w held)⟩

theorem memoryKeeps_blit {addr : GlobalAddr} {buf : Bytes}
    (agrees : addr.homeNode = home → (buf.patch addr.offset.toNat).Agrees w) (m : NodeId → Bytes) :
    MemoryKeeps home w m (Function.update m addr.homeNode ((m addr.homeNode).blit addr.offset.toNat buf)) := by
  refine ⟨fun n => ?_, fun x b at_w held => ?_⟩
  · by_cases same : n = addr.homeNode
    · rw [same, Function.update_self, Bytes.size_blit]
    · rw [Function.update_of_ne same]
  · by_cases same : addr.homeNode = home
    · rw [same, Function.update_self]
      by_cases inside : x < (m home).data.length
      · rw [Bytes.byte_blit _ _ _ inside]
        cases at_buf : buf.patch addr.offset.toNat x with
        | none => exact held
        | some c => exact agrees same x b c at_w at_buf
      · rw [Bytes.byte_of_length_le (by simpa using inside)]
        rwa [Bytes.byte_of_length_le (by simpa using inside)] at held
    · rwa [Function.update_of_ne (Ne.symm same)]

theorem write_keeps (cfg : Config) {addr : GlobalAddr} {buf : Bytes}
    (agrees : addr.homeNode = home → (buf.patch addr.offset.toNat).Agrees w) (t : PeerTransport) :
    MemoryKeeps home w t.memory (t.write cfg addr buf).2.memory := by
  rcases PeerTransport.write_memory cfg addr buf t with ⟨same, -⟩ | ⟨-, next⟩
  · rw [same]
    exact .refl _
  · rw [next]
    exact memoryKeeps_blit agrees t.memory

theorem batchWrite_keeps (cfg : Config) {reqs : List RemoteWriteRequest}
    (agrees : ∀ req ∈ reqs, req.addr.homeNode = home → (req.buf.patch req.addr.offset.toNat).Agrees w)
    (t : PeerTransport) :
    MemoryKeeps home w t.memory (batchWriteWith (PeerTransport.write cfg) reqs t).2.memory :=
  batchWriteWith_keeps (I := fun t' => MemoryKeeps home w t.memory t'.memory)
    (fun req member t' kept => kept.trans (write_keeps cfg (agrees req member) t')) (.refl _)

end

/-! ## A node whose writes agree with `w` -/

/-- A pending write for `home` that agrees with `w`. -/
structure EntrySound (w : Patch Nat UInt8) (e : PendingRemoteWrite) : Prop where
  noWrap : e.NoWrap
  agrees : e.patch.Agrees w

/-- Every pending write is queued for its home, and those for `home` agree with `w`. -/
def NodeSound (home : NodeId) (w : Patch Nat UInt8) (q : WriteQueues) : Prop :=
  ∀ n, ∀ e ∈ q.of n, e.addr.homeNode = n ∧ (n = home → EntrySound w e)

/-- A call that writes nothing to `home` that wraps or disagrees with `w`. -/
def ApiCall.Agrees (home : NodeId) (w : Patch Nat UInt8) : ApiCall → Prop
  | .write addr buf => addr.homeNode = home → EntrySound w { addr := addr, payload := buf }
  | _ => True

section
variable {home : NodeId} {w : Patch Nat UInt8} {ctx : RuntimeContext PeerTransport}

theorem EntrySound.congr {e f : PendingRemoteWrite} (sound : EntrySound w e) (addr : f.addr = e.addr)
    (payload : f.payload = e.payload) : EntrySound w f := by
  obtain ⟨noWrap, agrees⟩ := sound
  unfold PendingRemoteWrite.NoWrap at noWrap
  unfold PendingRemoteWrite.patch at agrees
  refine ⟨?_, ?_⟩
  · unfold PendingRemoteWrite.NoWrap
    rwa [addr, payload]
  · unfold PendingRemoteWrite.patch
    rwa [addr, payload]

theorem EntrySound.absorb {e f : PendingRemoteWrite} (soundE : EntrySound w e) (soundF : EntrySound w f)
    (merges : canMergeWrites e f = true) : EntrySound w (absorbWrite e f) :=
  ⟨noWrap_absorbWrite soundE.noWrap soundF.noWrap, by
    rw [patch_absorbWrite soundE.noWrap soundF.noWrap merges]
    exact soundF.agrees.overlay soundE.agrees⟩

/-- What a call of this node leaves: queues in order and a memory that keeps `w`. -/
structure Undisturbed (home : NodeId) (w : Patch Nat UInt8) (before after : RuntimeContext PeerTransport) : Prop where
  queues : NodeSound home w after.queues
  memory : MemoryKeeps home w before.transport.memory after.transport.memory

theorem Undisturbed.same {a b c : RuntimeContext PeerTransport} (undisturbed : Undisturbed home w a b)
    (queues : c.queues = b.queues) (memory : c.transport.memory = b.transport.memory) : Undisturbed home w a c :=
  ⟨queues ▸ undisturbed.queues, memory ▸ undisturbed.memory⟩

theorem Undisturbed.control {a b c : RuntimeContext PeerTransport} (undisturbed : Undisturbed home w a b)
    (step : ControlStep PeerTransport.memory b c) : Undisturbed home w a c :=
  undisturbed.same step.queues step.transport

variable {a b : RuntimeContext PeerTransport}

/-- What is pending, as a rule for the node's queues: a batch agrees with `w`. -/
theorem queueRule_sound (home : NodeId) (w : Patch Nat UInt8) (cfg : Config) (m : NodeId → Bytes) :
    QueueRule PeerTransport.memory cfg (fun n e => e.addr.homeNode = n ∧ (n = home → EntrySound w e))
      fun t => MemoryKeeps home w m t.memory where
  absorb _ _ _ old new merges := ⟨old.1, fun here => (old.2 here).absorb (new.2 here) merges⟩
  batch _ _ entries t queued kept := by
    refine kept.trans (batchWrite_keeps cfg (fun req member here => ?_) t)
    obtain ⟨e, among, rfl⟩ := List.mem_map.mp member
    obtain ⟨at_node, sound⟩ := queued e among
    exact (sound (at_node.symm.trans here)).agrees
  congr _ _ same kept := same ▸ kept

theorem Undisturbed.queued (undisturbed : Undisturbed home w a b) :
    Queued b.config (fun n e => e.addr.homeNode = n ∧ (n = home → EntrySound w e))
      (fun t => MemoryKeeps home w a.transport.memory t.memory) b :=
  ⟨rfl, undisturbed.queues, undisturbed.memory⟩

theorem Undisturbed.flush (undisturbed : Undisturbed home w a b) (node : NodeId) :
    Undisturbed home w a (flushDestination b node).2 := by
  obtain ⟨-, queues, memory⟩ := undisturbed.queued.flush (queueRule_sound home w _ _) node
  exact ⟨queues, memory⟩

theorem Undisturbed.wrote (undisturbed : Undisturbed home w a b) {addr : GlobalAddr} {buf : Bytes}
    (agrees : addr.homeNode = home → EntrySound w { addr := addr, payload := buf }) {modes : List CoherenceMode}
    {ownerBiased : Bool} {r : Status × RuntimeContext PeerTransport} (wrote : Wrote b addr buf modes ownerBiased r) :
    Undisturbed home w a r.2 := by
  obtain ⟨-, queues, memory⟩ := undisturbed.queued.wrote (queueRule_sound home w _ _)
    (fun e at_addr payload => ⟨congrArg _ at_addr, fun here => (agrees here).congr at_addr payload⟩)
    (fun _ t kept => kept.trans (write_keeps _ (fun here => (agrees here).agrees) t)) wrote
  exact ⟨queues, memory⟩

/-- **No call disturbs `w`** while the writes to its home agree with it. -/
theorem exec_sound (sound : NodeSound home w ctx.queues) {i : Invocation} (agrees : i.call.Agrees home w) :
    Undisturbed home w ctx (exec ctx i).2 := by
  have start : Undisturbed home w ctx ctx := ⟨sound, .refl _⟩
  have new addr buf (called : i.call = .write addr buf) (here : addr.homeNode = home) :
      EntrySound w { addr := addr, payload := buf } := by
    rw [called] at agrees
    exact agrees here
  obtain ⟨-, queues, memory⟩ := start.queued.exec (queueRule_sound home w _ _) PeerTransport.controlKeeps_memory
    (PeerTransport.readKeeps_memory _) i
    (fun addr buf called _ e at_addr payload =>
      ⟨congrArg _ at_addr, fun here => (new addr buf called here).congr at_addr payload⟩)
    fun addr buf called _ t kept => kept.trans (write_keeps _ (fun here => (new addr buf called here).agrees) t)
  exact ⟨queues, memory⟩

end

/-! ## A node whose writes to `home` are in bounds -/

namespace PeerTransport
variable {cfg target : Config} {t : PeerTransport}

/-- A node that reaches `node`'s memory, its own or a connected peer's. -/
def Reaches (cfg : Config) (node : NodeId) : Prop := node = cfg.nodeId ∨ connected cfg node = true

theorem write_inBounds {addr : GlobalAddr} {buf : Bytes} (region : (t.memory addr.homeNode).size = target.localRegionSize)
    (reaches : Reaches cfg addr.homeNode) (filled : buf.size ≠ 0) (inside : InBounds target addr buf.size) :
    (write cfg addr buf t).1 = .kOk ∧ (write cfg addr buf t).2.memory =
      Function.update t.memory addr.homeNode ((t.memory addr.homeNode).blit addr.offset.toNat buf) := by
  have reached : ¬ (addr.homeNode ≠ cfg.nodeId ∧ connected cfg addr.homeNode = false) := by
    rintro ⟨away, cut⟩
    rcases reaches with own | peer
    · exact away own
    · simp [peer] at cut
  unfold write
  rw [if_neg filled, if_neg reached, region, if_neg inside.accepted]
  exact ⟨rfl, rfl⟩

theorem byte_blit_inBounds {addr : GlobalAddr} {buf region : Bytes} (size : region.size = target.localRegionSize)
    (inside : InBounds target addr buf.size) :
    (region.blit addr.offset.toNat buf).byte = (buf.patch addr.offset.toNat).apply region.byte := by
  apply Bytes.byte_blit_of_le
  have length := congrArg UInt64.toNat size
  unfold InBounds at inside
  rw [Bytes.toNat_size] at length inside
  omega

/-- **A batch in bounds** succeeds and applies its requests in order. -/
theorem batchWrite_inBounds {node : NodeId} (region : (t.memory node).size = target.localRegionSize)
    (reaches : Reaches cfg node) {reqs : List RemoteWriteRequest} (fits : ∀ req ∈ reqs, RequestFits target node req) :
    (batchWriteWith (write cfg) reqs t).1 = .kOk ∧
      ((batchWriteWith (write cfg) reqs t).2.memory node).byte =
        Patch.applyAll (requestPatches reqs) (t.memory node).byte := by
  induction reqs generalizing t with
  | nil => exact ⟨rfl, rfl⟩
  | cons req reqs ih =>
    have fit := fits req List.mem_cons_self
    obtain rfl := fit.home
    obtain ⟨ok, next⟩ := write_inBounds region reaches fit.filled fit.inside
    have size : ((write cfg req.addr req.buf t).2.memory req.addr.homeNode).size = target.localRegionSize := by
      rw [next, Function.update_self, Bytes.size_blit, region]
    obtain ⟨ok', bytes⟩ := ih size fun later member => fits later (List.mem_cons_of_mem _ member)
    simp only [batchWriteWith, ok, ne_eq, not_true_eq_false, if_false]
    refine ⟨ok', ?_⟩
    rw [bytes, next, Function.update_self, byte_blit_inBounds region fit.inside]
    rfl

end PeerTransport

section
variable {home : NodeId} {w : Patch Nat UInt8} {target : Config} {ctx : RuntimeContext PeerTransport}

/-- A byte that the home has or that this node has pending for it. -/
def Covered (home : NodeId) (ctx : RuntimeContext PeerTransport) (x : Nat) (b : UInt8) : Prop :=
  (ctx.transport.memory home).byte x = b ∨ ∃ e ∈ ctx.queues.of home, e.patch x = some b

/-- A node that can flush whatever it has pending for `home`, whose options are `target`. -/
structure Ready (target : Config) (home : NodeId) (ctx : RuntimeContext PeerTransport) : Prop where
  region : (ctx.transport.memory home).size = target.localRegionSize
  reaches : PeerTransport.Reaches ctx.config home
  fits : ∀ e ∈ ctx.queues.of home, WriteFits target home e

/-- What a call of this node leaves besides: nothing pending that a flush would fail on, and
no byte of `w` lost. -/
structure Carries (target : Config) (home : NodeId) (w : Patch Nat UInt8) (before after : RuntimeContext PeerTransport) :
    Prop where
  undisturbed : Undisturbed home w before after
  ready : Ready target home after
  covered : ∀ x b, w x = some b → Covered home before x b → Covered home after x b

theorem Carries.refl (sound : NodeSound home w ctx.queues) (ready : Ready target home ctx) :
    Carries target home w ctx ctx :=
  ⟨⟨sound, .refl _⟩, ready, fun _ _ _ held => held⟩

theorem Carries.same {a b c : RuntimeContext PeerTransport} (carries : Carries target home w a b)
    (config : c.config = b.config) (queues : c.queues = b.queues) (memory : c.transport.memory = b.transport.memory) :
    Carries target home w a c := by
  refine ⟨carries.undisturbed.same queues memory, ⟨memory ▸ carries.ready.region, config ▸ carries.ready.reaches,
    queues ▸ carries.ready.fits⟩, fun x v at_w held => ?_⟩
  have before := carries.covered x v at_w held
  unfold Covered at before ⊢
  rwa [queues, memory]

theorem Carries.control {a b c : RuntimeContext PeerTransport} (carries : Carries target home w a b)
    (step : ControlStep PeerTransport.memory b c) : Carries target home w a c :=
  carries.same step.config step.queues step.transport

variable {a b : RuntimeContext PeerTransport}

/-- Pending bytes of `w` are in the home's memory after a batch of them. -/
theorem Carries.batch (carries : Carries target home w a b) {queue : List PendingRemoteWrite}
    (fits : ∀ e ∈ queue, WriteFits target home e) (agrees : ∀ e ∈ queue, e.patch.Agrees w) :
    let r := batchWriteWith (PeerTransport.write b.config) (queue.map PendingRemoteWrite.request) b.transport
    r.1 = .kOk ∧ ∀ x v, w x = some v → ((b.transport.memory home).byte x = v ∨ ∃ e ∈ queue, e.patch x = some v) →
      (r.2.memory home).byte x = v := by
  have requests : ∀ req ∈ queue.map PendingRemoteWrite.request, RequestFits target home req := by
    intro req member
    obtain ⟨e, queued, rfl⟩ := List.mem_map.mp member
    exact (fits e queued).request
  obtain ⟨ok, bytes⟩ := PeerTransport.batchWrite_inBounds carries.ready.region carries.ready.reaches requests
  refine ⟨ok, fun x v at_w held => ?_⟩
  rw [bytes, requestPatches_map_request]
  refine Patch.applyAll_of_agrees (fun p member => ?_) at_w (held.imp_right ?_)
  · obtain ⟨e, queued, rfl⟩ := List.mem_map.mp member
    exact agrees e queued
  · rintro ⟨e, queued, at_x⟩
    exact ⟨e.patch, List.mem_map_of_mem queued, at_x⟩

theorem Carries.flush (carries : Carries target home w a b) (node : NodeId) :
    Carries target home w a (flushDestination b node).2 := by
  have flushed := flushDestination_flushed b node
  have after := carries.undisturbed.flush node
  have kept : MemoryKeeps home w b.transport.memory (flushDestination b node).2.transport.memory :=
    (Undisturbed.flush ⟨carries.undisturbed.queues, .refl _⟩ node).memory
  refine ⟨after, ⟨(kept.sizes home).trans carries.ready.region, flushed.same.config ▸ carries.ready.reaches, ?_⟩,
    fun x v at_w held => ?_⟩
  · rw [flushed.queues]
    split
    · simp
    · exact carries.ready.fits
  · have before := carries.covered x v at_w held
    unfold Covered at before ⊢
    rw [flushed.queues]
    by_cases here : home = node
    · subst here
      left
      have sent := congrArg Prod.snd flushed.written
      simp only at sent
      rw [sent]
      split
      · rename_i none
        rcases before with memory | ⟨e, member, -⟩
        · exact memory
        · rw [none] at member
          cases member
      · have agrees : ∀ e ∈ b.queues.of home, e.patch.Agrees w :=
          fun e member => ((carries.undisturbed.queues home e member).2 rfl).agrees
        exact (carries.batch carries.ready.fits agrees).2 x v at_w before
    · rw [if_neg here]
      exact before.imp_left (kept.bytes x v at_w)

/-- The queue for `home` with a write in bounds added to it. -/
theorem Carries.enqueue (carries : Carries target home w a b) {e : PendingRemoteWrite} (fitsE : WriteFits target home e)
    (soundE : EntrySound w e) :
    (∀ f ∈ (enqueue (b.queues.of home) e).2, WriteFits target home f ∧ f.patch.Agrees w) ∧
      ∀ x v, w x = some v → ((∃ f ∈ b.queues.of home, f.patch x = some v) ∨ e.patch x = some v) →
        ∃ f ∈ (enqueue (b.queues.of home) e).2, f.patch x = some v := by
  have entries : ∀ f ∈ (LeoMem.enqueue (b.queues.of home) e).2, WriteFits target home f ∧ EntrySound w f := by
    refine enqueue_forall (fun f both bothE merges => ⟨both.1.absorb bothE.1, both.2.absorb bothE.2 merges⟩)
      (fun f member => ⟨carries.ready.fits f member, ?_⟩) ⟨fitsE, soundE⟩
    exact (carries.undisturbed.queues home f member).2 rfl
  refine ⟨fun f member => ⟨(entries f member).1, (entries f member).2.agrees⟩, fun x v at_w held => ?_⟩
  have covers := enqueue_covers (x := x) (fun f member => (carries.ready.fits f member).noWrap) fitsE.noWrap (by
    rcases held with ⟨f, member, at_x⟩ | at_x
    · exact Or.inl ⟨f, member, by simp [at_x]⟩
    · exact Or.inr (by simp [at_x]))
  obtain ⟨f, member, filled⟩ := covers
  obtain ⟨c, at_f⟩ := Option.ne_none_iff_exists'.mp filled
  exact ⟨f, member, at_f.trans (congrArg some ((entries f member).2.agrees x v c at_w at_f))⟩

/-- What a write of the node does to the bytes of `w`: it loses none, and puts its own there. -/
structure Writes (target : Config) (home : NodeId) (w : Patch Nat UInt8) (before : RuntimeContext PeerTransport)
    (addr : GlobalAddr) (buf : Bytes) (r : Status × RuntimeContext PeerTransport) : Prop where
  carries : Carries target home w before r.2
  written : r.1 = .kOk → addr.homeNode = home →
    ∀ x v, w x = some v → buf.patch addr.offset.toNat x = some v → Covered home r.2 x v

theorem Carries.wrote (carries : Carries target home w a b) {addr : GlobalAddr} {buf : Bytes} (filled : buf.size ≠ 0)
    (agrees : addr.homeNode = home → EntrySound w { addr := addr, payload := buf })
    (inside : addr.homeNode = home → InBounds target addr buf.size) {modes : List CoherenceMode} {ownerBiased : Bool}
    {r : Status × RuntimeContext PeerTransport} (wrote : Wrote b addr buf modes ownerBiased r) :
    Writes target home w a addr buf r := by
  have after := carries.undisturbed.wrote agrees wrote
  have kept : MemoryKeeps home w b.transport.memory r.2.transport.memory :=
    (Undisturbed.wrote ⟨carries.undisturbed.queues, .refl _⟩ agrees wrote).memory
  have region := (kept.sizes home).trans carries.ready.region
  have reaches : PeerTransport.Reaches r.2.config home := wrote.same.config ▸ carries.ready.reaches
  by_cases here : addr.homeNode = home
  · subst here
    have fitsW : WriteFits target addr.homeNode { addr := addr, payload := buf } := ⟨rfl, filled, inside rfl⟩
    cases wrote.moved with
    | through _ written queues =>
      obtain ⟨-, next⟩ := PeerTransport.write_inBounds carries.ready.region carries.ready.reaches filled (inside rfl)
      have transport : r.2.transport = (PeerTransport.write b.config addr buf b.transport).2 := congrArg Prod.snd written
      refine ⟨⟨after, ⟨region, reaches, queues ▸ carries.ready.fits⟩, fun x v at_w held => ?_⟩,
        fun _ _ x v _ at_buf => Or.inl ?_⟩
      · have before := carries.covered x v at_w held
        unfold Covered at before ⊢
        rw [queues]
        exact before.imp_left (kept.bytes x v at_w)
      · rw [transport, next, Function.update_self,
          PeerTransport.byte_blit_inBounds carries.ready.region (inside rfl), Patch.apply, at_buf]
        rfl
    | queued e _ at_addr payload _ transport queues _ _ =>
      subst at_addr payload
      obtain ⟨entries, covers⟩ := carries.enqueue ⟨rfl, fitsW.filled, fitsW.inside⟩ ((agrees rfl).congr rfl rfl)
      have queue : r.2.queues.of e.addr.homeNode = _ := (queues e.addr.homeNode).trans (if_pos rfl)
      refine ⟨⟨after, ⟨region, reaches, fun f member => (entries f (queue ▸ member)).1⟩, fun x v at_w held => ?_⟩,
        fun _ _ x v at_w at_buf => Or.inr ?_⟩
      · rcases carries.covered x v at_w held with memory | pending
        · exact Or.inl (kept.bytes x v at_w memory)
        · exact Or.inr (queue ▸ covers x v at_w (Or.inl pending))
      · exact queue ▸ covers x v at_w (Or.inr at_buf)
    | flushed e _ at_addr payload written queues =>
      subst at_addr payload
      obtain ⟨entries, covers⟩ := carries.enqueue ⟨rfl, fitsW.filled, fitsW.inside⟩ ((agrees rfl).congr rfl rfl)
      obtain ⟨-, bytes⟩ := carries.batch (fun f member => (entries f member).1) fun f member => (entries f member).2
      have transport : r.2.transport = _ := congrArg Prod.snd written
      have queue : r.2.queues.of e.addr.homeNode = [] := (queues e.addr.homeNode).trans (if_pos rfl)
      refine ⟨⟨after, ⟨region, reaches, fun f member => ?_⟩, fun x v at_w held => Or.inl ?_⟩,
        fun _ _ x v at_w at_buf => Or.inl ?_⟩
      · rw [queue] at member
        cases member
      · rw [transport]
        exact bytes x v at_w ((carries.covered x v at_w held).imp_right fun pending => covers x v at_w (Or.inl pending))
      · rw [transport]
        exact bytes x v at_w (Or.inr (covers x v at_w (Or.inr at_buf)))
  · -- another home's write: the queue and the memory of `home` are not its business
    have queue : r.2.queues.of home = b.queues.of home := by
      cases wrote.moved with
      | through _ _ same => rw [same]
      | queued _ _ _ _ _ _ queues _ _ => rw [queues, if_neg (Ne.symm here)]
      | flushed _ _ _ _ _ queues => rw [queues, if_neg (Ne.symm here)]
    refine ⟨⟨after, ⟨region, reaches, queue ▸ carries.ready.fits⟩, fun x v at_w held => ?_⟩,
      fun _ same => absurd same here⟩
    have before := carries.covered x v at_w held
    unfold Covered at before ⊢
    rw [queue]
    exact before.imp_left (kept.bytes x v at_w)

/-- **A write in bounds**, whatever becomes of it. -/
theorem lmWrite_writes (sound : NodeSound home w ctx.queues) (ready : Ready target home ctx) (ord : IterOrder)
    {addr : GlobalAddr} {buf : Bytes} (agrees : addr.homeNode = home → EntrySound w { addr := addr, payload := buf })
    (inside : addr.homeNode = home → InBounds target addr buf.size) :
    Writes target home w ctx addr buf (lmWrite ord ctx addr buf) := by
  have start := Carries.refl sound ready
  cases lmWrite_outcome PeerTransport.controlKeeps_memory ord ctx addr buf with
  | stopped failed step => exact ⟨start.control step, fun ok => absurd ok failed⟩
  | remote posted modes ownerBiased step _ filled wrote => exact (start.control step).wrote filled agrees inside wrote
  | own opened step at_home same manager written =>
    have mid := start.control step
    have after := exec_sound sound (i := ⟨ord, .write addr buf⟩) agrees
    have transport : (lmWrite ord ctx addr buf).2.transport =
      (PeerTransport.write opened.config addr buf opened.transport).2 := congrArg Prod.snd written
    have kept := write_keeps opened.config (fun here => (agrees here).agrees) opened.transport
    rw [← transport] at kept
    have queues : (lmWrite ord ctx addr buf).2.queues = opened.queues := congrArg CacheManager.writeQueues manager
    refine ⟨⟨after, ⟨(kept.sizes home).trans mid.ready.region, same.config ▸ mid.ready.reaches,
      queues ▸ mid.ready.fits⟩, fun x v at_w held => ?_⟩, fun ok here x v _ at_buf => Or.inl ?_⟩
    · have before := mid.covered x v at_w held
      unfold Covered at before ⊢
      rw [queues]
      exact before.imp_left (kept.bytes x v at_w)
    · subst here
      have ok' : (PeerTransport.write opened.config addr buf opened.transport).1 = .kOk :=
        (congrArg Prod.fst written).symm.trans ok
      rcases PeerTransport.write_memory opened.config addr buf opened.transport with ⟨-, failed⟩ | ⟨-, next⟩
      · exact absurd ok' failed
      · rw [transport, next, Function.update_self, PeerTransport.byte_blit_inBounds mid.ready.region (inside rfl),
          Patch.apply, at_buf]
        rfl

/-- A call that writes to `home` in bounds only. -/
def ApiCall.Inside (target : Config) (home : NodeId) : ApiCall → Prop
  | .write addr buf => addr.homeNode = home → InBounds target addr buf.size
  | _ => True

/-- **No call loses a byte of `w`** that the node has pending for `home`. -/
theorem exec_carries (sound : NodeSound home w ctx.queues) (ready : Ready target home ctx) {i : Invocation}
    (agrees : i.call.Agrees home w) (inside : i.call.Inside target home) : Carries target home w ctx (exec ctx i).2 := by
  obtain ⟨ord, call⟩ := i
  have start := Carries.refl sound ready
  have control := PeerTransport.controlKeeps_memory
  cases call with
  | malloc size =>
    obtain ⟨config, manager, -, transport⟩ := lmMalloc_keeps ctx size
    exact start.same config (congrArg CacheManager.writeQueues manager) (congrArg PeerTransport.memory transport)
  | free addr => exact start
  | read addr size =>
    obtain ⟨mid, step, frame⟩ := lmRead_frame control ctx (PeerTransport.readKeeps_memory _) ord addr size
    exact (start.control step).same frame.config frame.queues frame.transport
  | write addr buf => exact (lmWrite_writes sound ready ord agrees inside).carries
  | fence =>
    exact lmFence_induct (P := Carries target home w ctx) control (fun _ _ step held => held.control step)
      (fun _ node held => held.flush node) ord start

end
end LeoMem
