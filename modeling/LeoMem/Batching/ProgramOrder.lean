import LeoMem.Batching.Merge
import LeoMem.Lib.Run
import Mathlib.Data.List.Induction

/-!
# Program order through the write queues

Every write sent to `QueueRemoteWrite` goes into the first queued entry it
touches, so that entry can come to overlap entries queued behind it, and a drain
applies those later. Draining still has the effect of the writes in program order
exactly as long as no merged write is overtaken in this way (`NotOvertaken`).
-/

namespace LeoMem
open Lib

/-- A destination's queue takes `w` without letting older bytes overtake it: where the
entries behind the one that takes `w` in would leave a byte that `w` also writes, it is
`w`'s own. -/
def NotOvertaken : List PendingRemoteWrite → PendingRemoteWrite → Prop
  | [], _ => True
  | e :: queue, w =>
    if canMergeWrites e w then
      ∀ x b c, w.patch x = some b → Patch.last (queue.map PendingRemoteWrite.patch) x = some c → c = b
    else NotOvertaken queue w

/-- Only where a write goes and what it carries matters. -/
theorem notOvertaken_congr {w w' : PendingRemoteWrite} (addr : w'.addr = w.addr) (payload : w'.payload = w.payload)
    (queue : List PendingRemoteWrite) : NotOvertaken queue w' ↔ NotOvertaken queue w := by
  have merges : ∀ e, canMergeWrites e w' = canMergeWrites e w := by
    intro e
    simp only [canMergeWrites, addr, payload]
  have patch : w'.patch = w.patch := by rw [PendingRemoteWrite.patch, PendingRemoteWrite.patch, addr, payload]
  induction queue with
  | nil => rfl
  | cons e queue ih =>
    unfold NotOvertaken
    rw [merges, patch]
    split
    · rfl
    · exact ih

variable {queue : List PendingRemoteWrite} {w : PendingRemoteWrite}

theorem notOvertaken_of_apart (apart : ∀ e ∈ queue, canMergeWrites e w = false) : NotOvertaken queue w := by
  induction queue with
  | nil => trivial
  | cons e queue ih =>
    unfold NotOvertaken
    rw [if_neg (by simp [apart e])]
    exact ih fun f member => apart f (List.mem_cons_of_mem _ member)

theorem notOvertaken_of_patch_none (none : w.patch = fun _ => none) : NotOvertaken queue w := by
  induction queue with
  | nil => trivial
  | cons e queue ih =>
    unfold NotOvertaken
    split
    · intro x b c new
      simp [none] at new
    · exact ih

theorem notOvertaken_split {front back : List PendingRemoteWrite} {e w : PendingRemoteWrite}
    (before : ∀ f ∈ front, canMergeWrites f w = false) (merges : canMergeWrites e w = true) :
    NotOvertaken (front ++ e :: back) w ↔
      ∀ x b c, w.patch x = some b → Patch.last (back.map PendingRemoteWrite.patch) x = some c → c = b := by
  induction front with
  | nil =>
    change NotOvertaken (e :: back) w ↔ _
    unfold NotOvertaken
    rw [if_pos merges]
  | cons f front ih =>
    change NotOvertaken (f :: (front ++ e :: back)) w ↔ _
    unfold NotOvertaken
    rw [if_neg (by simp [before f]), ih fun g member => before g (List.mem_cons_of_mem _ member)]

/-- **One queued write**: the queue with the write in it drains like the old queue followed
by the write exactly when the write is not overtaken. -/
theorem enqueue_appends_iff (fits : ∀ e ∈ queue, e.NoWrap) (fitsW : w.NoWrap) :
    (∀ m, Patch.applyAll ((enqueue queue w).2.map PendingRemoteWrite.patch) m =
      Patch.applyAll (queue.map PendingRemoteWrite.patch ++ [w.patch]) m) ↔ NotOvertaken queue w := by
  rcases enqueue_cases queue w with ⟨front, e, back, rfl, result, merges, before⟩ | ⟨result, apart⟩
  · have fitsE : e.NoWrap := fits e (by simp)
    rw [notOvertaken_split before merges, result]
    simp only [List.map_append, List.map_cons, patch_absorbWrite fitsE fitsW merges]
    exact Patch.absorb_eq_append_iff _ _ _ _
  · simp [result, notOvertaken_of_apart apart]

/-- What a queue holds once a write that is not overtaken has gone in. -/
theorem applyAll_enqueue (fits : ∀ e ∈ queue, e.NoWrap) (fitsW : w.NoWrap) (kept : NotOvertaken queue w)
    (memory : Nat → UInt8) :
    Patch.applyAll ((enqueue queue w).2.map PendingRemoteWrite.patch) memory =
      w.patch.apply (Patch.applyAll (queue.map PendingRemoteWrite.patch) memory) := by
  rw [(enqueue_appends_iff fits fitsW).mpr kept, Patch.applyAll_append]
  rfl

/-! ## Runs -/

/-- One `QueueRemoteWrite`, with the write's own arguments. -/
def queueStep (cfg : Config) (q : WriteQueues) (w : PendingRemoteWrite) : Bool × WriteQueues :=
  q.queueRemoteWrite cfg w.addr w.payload w.mode w.ownerBiased w.ownerHandoff

/-- The queues after the writes `ws`, from empty ones. -/
def queueAll (cfg : Config) (ws : List PendingRemoteWrite) : WriteQueues := (run (queueStep cfg) ∅ ws).2

/-- Applying what `DrainRemoteWrites(node)` returns, in order, has on every memory of
`node` the effect of the writes sent there, one by one. -/
def KeepsProgramOrder (cfg : Config) (node : NodeId) (ws : List PendingRemoteWrite) : Prop :=
  ∀ memory : Nat → UInt8,
    Patch.applyAll (((queueAll cfg ws).drainRemoteWrites node).1.writes.map PendingRemoteWrite.patch) memory =
      Patch.applyAll ((ws.filter fun w => w.addr.homeNode = node).map PendingRemoteWrite.patch) memory

section
variable {cfg : Config} {node : NodeId}

/-- The queue of `node` after one more write. -/
theorem of_queueStep (batching : cfg.enableWriteBatching = true) (q : WriteQueues) (w : PendingRemoteWrite) :
    WriteQueues.of (queueStep cfg q w).2 node =
      if w.payload.size ≠ 0 ∧ w.addr.homeNode = node then (enqueue (WriteQueues.of q node) w).2
      else WriteQueues.of q node := by
  unfold queueStep WriteQueues.queueRemoteWrite
  by_cases blank : w.payload.size = 0
  · simp [blank]
  · simp only [blank, batching, or_self, if_false, Bool.true_eq_false, WriteQueues.of_insert]
    by_cases here : w.addr.homeNode = node
    · simp [here, blank]
    · simp [here, Ne.symm here]

theorem queueStep_noWrap (batching : cfg.enableWriteBatching = true) {q : WriteQueues}
    (fits : ∀ e ∈ WriteQueues.of q node, e.NoWrap) (fitsW : w.NoWrap) :
    ∀ e ∈ WriteQueues.of (queueStep cfg q w).2 node, e.NoWrap := by
  rw [of_queueStep batching]
  split
  · exact enqueue_forall (fun e fitsE fitsW _ => noWrap_absorbWrite fitsE fitsW) fits fitsW
  · exact fits

theorem queueAll_snoc (ws : List PendingRemoteWrite) (w : PendingRemoteWrite) :
    queueAll cfg (ws ++ [w]) = (queueStep cfg (queueAll cfg ws) w).2 := by
  simp [queueAll, run_append]

theorem queueAll_noWrap (batching : cfg.enableWriteBatching = true) {ws : List PendingRemoteWrite}
    (fits : ∀ w ∈ ws, w.NoWrap) : ∀ e ∈ WriteQueues.of (queueAll cfg ws) node, e.NoWrap := by
  induction ws using List.reverseRecOn with
  | nil => simp [queueAll]
  | append_singleton ws w ih =>
    rw [queueAll_snoc]
    exact queueStep_noWrap batching (ih fun v member => fits v (by simp [member])) (fits w (by simp))

theorem patch_of_size_zero (blank : w.payload.size = 0) : w.patch = fun _ => none := by
  have length : w.payload.data.length = 0 := by
    rw [← Bytes.toNat_size, blank]
    rfl
  funext x
  exact Bytes.patch_eq_none.mpr (by omega)

/-- A queue in program order stays so over one more write exactly when that write, if it
goes to this queue at all, is not overtaken. -/
theorem keepsProgramOrder_snoc_iff (batching : cfg.enableWriteBatching = true) {ws : List PendingRemoteWrite}
    (fits : ∀ v ∈ ws ++ [w], v.NoWrap) (sofar : KeepsProgramOrder cfg node ws) :
    KeepsProgramOrder cfg node (ws ++ [w]) ↔
      (w.addr.homeNode = node → NotOvertaken (WriteQueues.of (queueAll cfg ws) node) w) := by
  have fitsW : w.NoWrap := fits w (by simp)
  have fitsQ : ∀ e ∈ WriteQueues.of (queueAll cfg ws) node, e.NoWrap :=
    queueAll_noWrap batching fun v member => fits v (by simp [member])
  unfold KeepsProgramOrder at sofar ⊢
  simp only [WriteQueues.drainRemoteWrites_writes, queueAll_snoc, of_queueStep batching] at sofar ⊢
  by_cases here : w.addr.homeNode = node
  · have sequential : ∀ m, Patch.applyAll (((ws ++ [w]).filter fun w => w.addr.homeNode = node).map
        PendingRemoteWrite.patch) m =
          Patch.applyAll ((WriteQueues.of (queueAll cfg ws) node).map PendingRemoteWrite.patch ++ [w.patch]) m := by
      intro m
      simp [here, Patch.applyAll_append, sofar]
    simp only [sequential, here, true_implies]
    by_cases blank : w.payload.size = 0
    · -- an empty write changes neither side, and overtakes nothing
      have none := patch_of_size_zero blank
      simp only [blank, ne_eq, not_true_eq_false, false_and, if_false, notOvertaken_of_patch_none none, iff_true]
      intro m
      funext x
      simp [Patch.applyAll_eq, Patch.last_append, none]
    · simp only [ne_eq, blank, not_false_eq_true, true_and, if_true]
      exact enqueue_appends_iff fitsQ fitsW
  · simp only [here, and_false, if_false, false_implies, iff_true]
    intro m
    simpa [here] using sofar m

/-- **Batching and program order.** Whatever writes are queued, with any overlaps and to any
nodes: draining `node` after each of them reproduces program order exactly when every write
to `node` that merges is, when it is queued, not overtaken by the entries behind. -/
theorem keepsProgramOrder_iff (batching : cfg.enableWriteBatching = true) (node : NodeId)
    (ws : List PendingRemoteWrite) (fits : ∀ w ∈ ws, w.NoWrap) :
    (∀ k, KeepsProgramOrder cfg node (ws.take k)) ↔
      Along (queueStep cfg) (fun q w => w.addr.homeNode = node → NotOvertaken (q.of node) w) ∅ ws := by
  induction ws using List.reverseRecOn with
  | nil => simp [KeepsProgramOrder, queueAll, WriteQueues.drainRemoteWrites_writes]
  | append_singleton ws w ih =>
    have earlier := ih fun v member => fits v (by simp [member])
    rw [along_append, along_cons, ← earlier]
    have stages : (∀ k, KeepsProgramOrder cfg node ((ws ++ [w]).take k)) ↔
        (∀ k, KeepsProgramOrder cfg node (ws.take k)) ∧ KeepsProgramOrder cfg node (ws ++ [w]) := by
      constructor
      · intro all
        refine ⟨fun k => ?_, ?_⟩
        · by_cases short : k ≤ ws.length
          · simpa [List.take_append_of_le_length short] using all k
          · have := all ws.length
            rw [List.take_append_of_le_length (le_refl _)] at this
            rwa [List.take_of_length_le (by omega), ← List.take_length (l := ws)]
        · have := all (ws ++ [w]).length
          rwa [List.take_length] at this
      · rintro ⟨all, last⟩ k
        by_cases short : k ≤ ws.length
        · rw [List.take_append_of_le_length short]
          exact all k
        · rwa [List.take_of_length_le (by simp; omega)]
    rw [stages]
    refine and_congr_right fun all => ?_
    have sofar := all ws.length
    rw [List.take_length] at sofar
    rw [keepsProgramOrder_snoc_iff batching fits sofar]
    simp [queueAll]

end

/-- Two adjacent writes and one apart from them, as in the smoke test. -/
def adjacentWrites : List PendingRemoteWrite :=
  [{ addr := ⟨1, 0, 8192⟩, payload := .ofList [99, 0] },
    { addr := ⟨1, 0, 8194⟩, payload := .ofList [123, 0], mode := .kAdaptive },
    { addr := ⟨1, 0, 8256⟩, payload := .ofList [99, 0] }]

theorem adjacentWrites_keepProgramOrder :
    (∀ w ∈ adjacentWrites, w.NoWrap) ∧ ∀ k, KeepsProgramOrder {} 1 (adjacentWrites.take k) := by
  refine ⟨by decide, (keepsProgramOrder_iff rfl 1 adjacentWrites (by decide)).mpr ?_⟩
  refine ⟨fun _ => trivial, fun _ => ?_, fun _ => ?_, trivial⟩
  · exact (@notOvertaken_split [] _ _ _ (by simp) (by decide +kernel)).mpr (by simp)
  · exact notOvertaken_of_apart (by decide +kernel)

/-- Two writes apart from each other, and a third that bridges them. -/
def bridgingWrites : List PendingRemoteWrite :=
  [{ addr := ⟨1, 0, 0⟩, payload := .ofList [1, 1] },
    { addr := ⟨1, 0, 4⟩, payload := .ofList [2, 2] },
    { addr := ⟨1, 0, 1⟩, payload := .ofList [3, 3, 3, 3] }]

/-- The bridging write goes into the first entry, and the second one then overwrites its
last byte with an older one. -/
theorem bridgingWrites_overtaken :
    (∀ w ∈ bridgingWrites, w.NoWrap) ∧ ¬ KeepsProgramOrder {} 1 bridgingWrites := by
  refine ⟨by decide, fun keeps => ?_⟩
  have atFour := congrFun (keeps fun _ => 0) 4
  revert atFour
  decide +kernel

end LeoMem
