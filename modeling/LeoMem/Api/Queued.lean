import LeoMem.Api.ReadEffect
import LeoMem.Api.WriteEffect

/-!
# What a node keeps of its pending writes

`P n e` is a property of the entries in the queue for node `n`, and `I` one of the state of
the transport. Where merging keeps `P` and a batch of entries with `P` keeps `I`, every call
keeps both, as long as what it writes has `P` and keeps `I` (`Queued.exec`).
-/

namespace LeoMem
open Lib RuntimeContext

section
variable {ω α : Type}

/-- Every pending write has `P`, and the transport has `I`. -/
structure Queued (cfg : Config) (P : NodeId → PendingRemoteWrite → Prop) (I : ω → Prop) (ctx : RuntimeContext ω) : Prop where
  config : ctx.config = cfg
  queues : ∀ n, ∀ e ∈ ctx.queues.of n, P n e
  transport : I ctx.transport

variable [Transport ω]

/-- What merging and batches keep; of the transport only `obs` counts. -/
structure QueueRule (obs : ω → α) (cfg : Config) (P : NodeId → PendingRemoteWrite → Prop) (I : ω → Prop) : Prop where
  absorb : ∀ n e f, P n e → P n f → canMergeWrites e f = true → P n (absorbWrite e f)
  batch : ∀ n d (entries : List PendingRemoteWrite) w, (∀ e ∈ entries, P n e) → I w →
    I (Transport.batchWrite cfg d (entries.map PendingRemoteWrite.request) w).2
  congr : ∀ w w', obs w' = obs w → I w → I w'

namespace Queued
variable {obs : ω → α} {cfg : Config} {P : NodeId → PendingRemoteWrite → Prop} {I : ω → Prop} {ctx ctx' : RuntimeContext ω}
  (held : Queued cfg P I ctx) (rule : QueueRule obs cfg P I)
include held rule

theorem congr (config : ctx'.config = ctx.config) (queues : ctx'.queues = ctx.queues)
    (transport : obs ctx'.transport = obs ctx.transport) : Queued cfg P I ctx' :=
  ⟨config.trans held.config, queues ▸ held.queues, rule.congr _ _ transport held.transport⟩

theorem control (step : ControlStep obs ctx ctx') : Queued cfg P I ctx' :=
  held.congr rule step.config step.queues step.transport

theorem flush (node : NodeId) : Queued cfg P I (flushDestination ctx node).2 := by
  have flushed := flushDestination_flushed ctx node
  refine ⟨flushed.same.config.trans held.config, fun n e member => ?_, ?_⟩
  · rw [flushed.queues] at member
    split at member
    · cases member
    · exact held.queues n e member
  · have sent := congrArg Prod.snd flushed.written
    simp only at sent
    rw [sent]
    split
    · exact held.transport
    · exact held.config ▸ rule.batch node _ _ _ (held.queues node) held.transport

/-- A write to another node goes to the transport or into the queue. -/
theorem wrote {addr : GlobalAddr} {buf : Bytes} (new : ∀ e : PendingRemoteWrite, e.addr = addr → e.payload = buf → P addr.homeNode e)
    (writes : ∀ d w, I w → I (Transport.write cfg d addr buf w).2) {modes : List CoherenceMode} {ownerBiased : Bool}
    {r : Status × RuntimeContext ω} (wrote : Wrote ctx addr buf modes ownerBiased r) : Queued cfg P I r.2 := by
  have config := wrote.same.config.trans held.config
  have entries {e : PendingRemoteWrite} (at_addr : e.addr = addr) (payload : e.payload = buf) :
      ∀ f ∈ (enqueue (ctx.queues.of addr.homeNode) e).2, P addr.homeNode f :=
    enqueue_forall (fun f old new merges => rule.absorb _ f e old new merges) (held.queues addr.homeNode)
      (new e at_addr payload)
  cases wrote.moved with
  | through _ written queues =>
    have transport : r.2.transport = _ := congrArg Prod.snd written
    rw [held.config] at transport
    exact ⟨config, queues ▸ held.queues, transport ▸ writes _ _ held.transport⟩
  | queued e _ at_addr payload _ transport queues _ _ =>
    refine ⟨config, fun n f member => ?_, transport ▸ held.transport⟩
    rw [queues] at member
    split at member
    · rename_i here
      exact here ▸ entries at_addr payload f member
    · exact held.queues n f member
  | flushed e _ at_addr payload written queues =>
    have transport : r.2.transport = _ := congrArg Prod.snd written
    rw [held.config] at transport
    refine ⟨config, fun n f member => ?_, transport ▸ rule.batch _ _ _ _ (entries at_addr payload) held.transport⟩
    rw [queues] at member
    split at member
    · cases member
    · exact held.queues n f member

/-- **One call** keeps the pending writes in order. -/
theorem exec (control : ControlKeeps obs) (reads : ReadKeeps cfg obs) (i : Invocation)
    (new : ∀ addr buf, i.call = .write addr buf → addr.homeNode ≠ cfg.nodeId →
      ∀ e : PendingRemoteWrite, e.addr = addr → e.payload = buf → P addr.homeNode e)
    (writes : ∀ addr buf, i.call = .write addr buf → ∀ d w, I w → I (Transport.write cfg d addr buf w).2) :
    Queued cfg P I (exec ctx i).2 := by
  obtain ⟨ord, call⟩ := i
  cases call with
  | malloc size =>
    obtain ⟨config, manager, -, transport⟩ := lmMalloc_keeps ctx size
    exact held.congr rule config (congrArg CacheManager.writeQueues manager) (congrArg obs transport)
  | free addr => exact held
  | read addr size =>
    obtain ⟨mid, step, frame⟩ := lmRead_frame control ctx (held.config ▸ reads) ord addr size
    exact (held.control rule step).congr rule frame.config frame.queues frame.transport
  | write addr buf =>
    have writes := writes addr buf rfl
    cases lmWrite_outcome control ord ctx addr buf with
    | stopped _ step => exact held.control rule step
    | own opened step _ same manager written =>
      have mid := held.control rule step
      have transport : (lmWrite ord ctx addr buf).2.transport = _ := congrArg Prod.snd written
      have queues : (lmWrite ord ctx addr buf).2.queues = opened.queues := congrArg CacheManager.writeQueues manager
      rw [mid.config] at transport
      exact ⟨same.config.trans mid.config, queues ▸ mid.queues, transport ▸ writes _ _ mid.transport⟩
    | remote posted modes ownerBiased step away _ wrote =>
      exact (held.control rule step).wrote rule (new addr buf rfl (held.config ▸ away)) writes wrote
  | fence =>
    exact lmFence_induct control (fun _ _ step held => held.control rule step) (fun _ node held => held.flush rule node) ord held

end Queued
end
end LeoMem
