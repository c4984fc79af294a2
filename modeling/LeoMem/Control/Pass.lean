import LeoMem.Control
import Mathlib.Data.List.TakeWhile

/-!
# One pass over the pending requests

`AdvanceControlAckTimeouts` visits the pending requests in the map's order and stops
at the first that has no polls and no retries left. `advance_eq` says what a pass
returns and `lookup_advance` what it makes of each request: those it goes past are
advanced, those that are due among them are sent again, the others stay.
-/

namespace LeoMem
open Lib

namespace PendingControlAck

/-- The request's polls have run out. -/
def due (e : PendingControlAck) : Bool := e.pollsRemaining = 0

/-- Its retries have, too: the pass stops here. -/
def expired (e : PendingControlAck) : Bool := e.due && e.retriesRemaining = 0

/-- A request that the pass goes past. -/
def tick (cfg : Config) (e : PendingControlAck) : PendingControlAck :=
  if e.pollsRemaining > 0 then { e with pollsRemaining := e.pollsRemaining - 1 }
  else { e with retriesRemaining := e.retriesRemaining - 1, pollsRemaining := cfg.controlAckTimeoutPolls }

theorem tick_message (cfg : Config) (e : PendingControlAck) : (e.tick cfg).message = e.message := by
  unfold tick
  split
  · rfl
  · rfl

end PendingControlAck

namespace PendingControlAcks

/-- The entries a pass goes past: those before the first that has expired. -/
def passed (es : List (Sigma fun _ : UInt64 => PendingControlAck)) : List (Sigma fun _ : UInt64 => PendingControlAck) :=
  es.takeWhile fun e => !e.2.expired

/-- The entries of a pass advanced. -/
def tickAll (cfg : Config) (es : List (Sigma fun _ : UInt64 => PendingControlAck)) (acks : PendingControlAcks) :
    PendingControlAcks :=
  es.foldl (fun acks e => acks.insert e.1 (e.2.tick cfg)) acks

/-- **One pass**: it times out where an entry has expired, and the entries before the first such one
are advanced and sent again where they are due. -/
theorem advanceLoop_eq (cfg : Config) (es : List (Sigma fun _ : UInt64 => PendingControlAck))
    (retries : List ControlMessage) (acks : PendingControlAcks) :
    advanceLoop cfg es retries acks =
      (if es.any fun e => e.2.expired then .kTimedOut else .kOk,
        retries ++ ((passed es).filter fun e => e.2.due).map fun e => e.2.message, tickAll cfg (passed es) acks) := by
  induction es generalizing retries acks with
  | nil => simp [advanceLoop, passed, tickAll]
  | cons e es ih =>
    unfold advanceLoop
    by_cases waits : e.2.pollsRemaining > 0
    · have later : e.2.due = false := decide_eq_false (UInt64.pos_iff_ne_zero.mp waits)
      have goes : e.2.expired = false := by rw [PendingControlAck.expired, later, Bool.false_and]
      have ticked : e.2.tick cfg = { e.2 with pollsRemaining := e.2.pollsRemaining - 1 } := if_pos waits
      rw [if_pos waits, ih, List.any_cons, goes, Bool.false_or]
      simp [passed, tickAll, goes, later, ticked]
    · have now : e.2.due = true := decide_eq_true (by simpa [UInt64.pos_iff_ne_zero] using waits)
      have stops : e.2.expired = decide (e.2.retriesRemaining = 0) := by
        rw [PendingControlAck.expired, now, Bool.true_and]
      rw [if_neg waits]
      by_cases last : e.2.retriesRemaining = 0
      · rw [decide_eq_true last] at stops
        rw [if_pos last]
        simp [passed, tickAll, stops]
      · rw [decide_eq_false last] at stops
        rw [if_neg last, ih, List.any_cons, stops, Bool.false_or]
        simp [passed, tickAll, stops, now, PendingControlAck.tick, waits]

theorem lookup_tickAll (cfg : Config) {es : List (Sigma fun _ : UInt64 => PendingControlAck)} {acks : PendingControlAcks}
    (distinct : (es.map Sigma.fst).Nodup) (present : ∀ e ∈ es, acks.lookup e.1 = some e.2) (id : UInt64) :
    (tickAll cfg es acks).lookup id =
      if id ∈ es.map Sigma.fst then (acks.lookup id).map (PendingControlAck.tick cfg) else acks.lookup id := by
  induction es generalizing acks with
  | nil => simp [tickAll]
  | cons e es ih =>
    obtain ⟨fresh, distinct⟩ := List.nodup_cons.mp distinct
    have still : ∀ other ∈ es, (acks.insert e.1 (e.2.tick cfg)).lookup other.1 = some other.2 := by
      intro other member
      have different : other.1 ≠ e.1 := fun same => fresh (same ▸ List.mem_map_of_mem member)
      rw [HashMap.lookup_insert_if, if_neg different]
      exact present other (List.mem_cons_of_mem _ member)
    have rest := ih distinct still
    rw [HashMap.lookup_insert_if] at rest
    change (tickAll cfg es (acks.insert e.1 (e.2.tick cfg))).lookup id = _
    rw [rest]
    by_cases here : id = e.1
    · subst here
      simp only [if_neg fresh, if_pos, List.map_cons, List.mem_cons_self, present e List.mem_cons_self, Option.map_some]
    · simp only [List.map_cons, List.mem_cons, here, false_or, if_false]

/-- The messages that a pass over `es` sends again. -/
def retriesOf (es : List (Sigma fun _ : UInt64 => PendingControlAck)) : List ControlMessage :=
  ((passed es).filter fun e => e.2.due).map fun e => e.2.message

theorem mem_retriesOf {es : List (Sigma fun _ : UInt64 => PendingControlAck)} {m : ControlMessage} :
    m ∈ retriesOf es ↔ ∃ e ∈ passed es, e.2.due = true ∧ e.2.message = m := by
  simp only [retriesOf, List.mem_map, List.mem_filter, and_assoc]

variable (ord : IterOrder) (cfg : Config) {acks : PendingControlAcks}

/-- `AdvanceControlAckTimeouts` by its pass. -/
theorem advance_eq (acks : PendingControlAcks) :
    acks.advance ord cfg =
      (if (ord.arrange acks.entries).any fun e => e.2.expired then .kTimedOut else .kOk,
        retriesOf (ord.arrange acks.entries), tickAll cfg (passed (ord.arrange acks.entries)) acks) := by
  rw [advance, advanceLoop_eq, List.nil_append]
  rfl

theorem lookup_of_passed {e : Sigma fun _ : UInt64 => PendingControlAck} (member : e ∈ passed (ord.arrange acks.entries)) :
    acks.lookup e.1 = some e.2 :=
  HashMap.lookup_of_mem_arrange ((List.takeWhile_sublist _).subset member)

theorem mem_arrange_of_lookup {id : UInt64} {e : PendingControlAck} (found : acks.lookup id = some e) :
    (⟨id, e⟩ : Sigma fun _ : UInt64 => PendingControlAck) ∈ ord.arrange acks.entries :=
  ord.mem_arrange.mpr (HashMap.mem_entries.mpr found)

/-- The entries a pass goes past have distinct ids. -/
theorem nodup_passed (acks : PendingControlAcks) : ((passed (ord.arrange acks.entries)).map Sigma.fst).Nodup := by
  have all : ((ord.arrange acks.entries).map Sigma.fst).Nodup := ((ord.perm _).map Sigma.fst).nodup_iff.mpr acks.keys_nodup
  exact ((List.takeWhile_sublist _).map Sigma.fst).nodup all

theorem lookup_advance (acks : PendingControlAcks) (id : UInt64) :
    (acks.advance ord cfg).2.2.lookup id =
      if id ∈ (passed (ord.arrange acks.entries)).map Sigma.fst then (acks.lookup id).map (PendingControlAck.tick cfg)
      else acks.lookup id := by
  rw [advance_eq]
  exact lookup_tickAll cfg (nodup_passed ord acks) (fun e => lookup_of_passed ord) id

/-- Requests stored under their own ids are sent again at most once. -/
theorem nodup_retriesOf (named : acks.Each fun id m => m.requestId = id) : (retriesOf (ord.arrange acks.entries)).Nodup := by
  refine List.Nodup.of_map ControlMessage.requestId ?_
  have ids : (retriesOf (ord.arrange acks.entries)).map ControlMessage.requestId =
      ((passed (ord.arrange acks.entries)).filter fun e => e.2.due).map Sigma.fst := by
    rw [retriesOf, List.map_map]
    refine List.map_congr_left fun e member => named e.1 e.2 ?_
    exact lookup_of_passed ord (List.mem_of_mem_filter member)
  rw [ids]
  exact (List.filter_sublist.map Sigma.fst).nodup (nodup_passed ord acks)

/-- No two pending requests have one message. -/
theorem eq_of_message_eq (named : acks.Each fun id m => m.requestId = id) {id id' : UInt64} {e e' : PendingControlAck}
    (found : acks.lookup id = some e) (found' : acks.lookup id' = some e') (same : e.message = e'.message) :
    id = id' ∧ e = e' := by
  have ids : id = id' := by rw [← named id e found, ← named id' e' found', same]
  subst ids
  exact ⟨rfl, Option.some.inj (found.symm.trans found')⟩

/-- **What a pass charges**: each request one retry for each time it is sent again. -/
theorem lookup_advance_charged (named : acks.Each fun id m => m.requestId = id) {id : UInt64} {e : PendingControlAck}
    (found : acks.lookup id = some e) :
    ∃ e', (acks.advance ord cfg).2.2.lookup id = some e' ∧ e'.message = e.message ∧
      e.retriesRemaining.toNat =
        e'.retriesRemaining.toNat + (retriesOf (ord.arrange acks.entries)).count e.message := by
  have once := nodup_retriesOf ord named
  have due_of_mem : e.message ∈ retriesOf (ord.arrange acks.entries) →
      (⟨id, e⟩ : Sigma fun _ : UInt64 => PendingControlAck) ∈ passed (ord.arrange acks.entries) ∧ e.due = true := by
    intro member
    obtain ⟨⟨id', f⟩, visited, due, same⟩ := mem_retriesOf.mp member
    obtain ⟨rfl, rfl⟩ := eq_of_message_eq named (lookup_of_passed ord visited) found same
    exact ⟨visited, due⟩
  rw [lookup_advance, found]
  split
  · rename_i visited
    obtain ⟨⟨id', f⟩, member, same⟩ := List.mem_map.mp visited
    have here : id' = id := same
    subst here
    have entry : f = e := Option.some.inj ((lookup_of_passed ord member).symm.trans found)
    subst entry
    refine ⟨f.tick cfg, rfl, f.tick_message cfg, ?_⟩
    cases due : f.due with
    | false =>
      have waits : f.pollsRemaining > 0 := UInt64.pos_iff_ne_zero.mpr (of_decide_eq_false due)
      have unsent : f.message ∉ retriesOf (ord.arrange acks.entries) :=
        fun sent => absurd (due_of_mem sent).2 (by simp [due])
      rw [List.count_eq_zero_of_not_mem unsent]
      simp [PendingControlAck.tick, waits]
    | true =>
      have goes : f.expired = false := by simpa using List.mem_takeWhile_imp member
      have waited : ¬f.pollsRemaining > 0 := by simpa [UInt64.pos_iff_ne_zero] using of_decide_eq_true due
      have left : f.retriesRemaining ≠ 0 := by simpa [PendingControlAck.expired, due] using goes
      have positive : 0 < f.retriesRemaining.toNat := UInt64.lt_iff_toNat_lt.mp (UInt64.pos_iff_ne_zero.mpr left)
      have enough : 1 ≤ f.retriesRemaining := UInt64.le_iff_toNat_le.mpr positive
      rw [List.count_eq_one_of_mem once (mem_retriesOf.mpr ⟨_, member, due, rfl⟩), PendingControlAck.tick, if_neg waited,
        UInt64.toNat_sub_of_le _ _ enough, UInt64.toNat_one, Nat.sub_add_cancel positive]
  · rename_i passedBy
    refine ⟨e, rfl, rfl, ?_⟩
    rw [List.count_eq_zero_of_not_mem fun sent => passedBy (List.mem_map.mpr ⟨_, (due_of_mem sent).1, rfl⟩)]
    rfl

/-- What a request is after the pass tells what it was before. -/
theorem charged_of_lookup_advance (named : acks.Each fun id m => m.requestId = id) {id : UInt64} {e' : PendingControlAck}
    (found : (acks.advance ord cfg).2.2.lookup id = some e') :
    ∃ e, acks.lookup id = some e ∧ e'.message = e.message ∧
      e.retriesRemaining.toNat =
        e'.retriesRemaining.toNat + (retriesOf (ord.arrange acks.entries)).count e.message := by
  cases before : acks.lookup id with
  | none =>
    rw [lookup_advance, before] at found
    simp at found
  | some e =>
    obtain ⟨after, held, message, charge⟩ := lookup_advance_charged ord cfg named before
    cases Option.some.inj (held.symm.trans found)
    exact ⟨e, rfl, message, charge⟩

theorem lookup_of_mem_retriesOf {m : ControlMessage} (member : m ∈ retriesOf (ord.arrange acks.entries)) :
    ∃ id e, acks.lookup id = some e ∧ e.message = m := by
  obtain ⟨e, visited, -, message⟩ := mem_retriesOf.mp member
  exact ⟨e.1, e.2, lookup_of_passed ord visited, message⟩

/-! ### A pass that nothing stops -/

theorem passed_eq {es : List (Sigma fun _ : UInt64 => PendingControlAck)} (none : ∀ e ∈ es, e.2.expired = false) :
    passed es = es := by
  refine List.takeWhile_eq_self_iff.mpr fun e member => ?_
  rw [none e member]
  rfl

theorem passed_arrange (none : ∀ id e, acks.lookup id = some e → e.expired = false) :
    passed (ord.arrange acks.entries) = ord.arrange acks.entries :=
  passed_eq fun e member => none e.1 e.2 (HashMap.lookup_of_mem_arrange member)

/-- It advances every request. -/
theorem lookup_advance_all (none : ∀ id e, acks.lookup id = some e → e.expired = false) (id : UInt64) :
    (acks.advance ord cfg).2.2.lookup id = (acks.lookup id).map (PendingControlAck.tick cfg) := by
  rw [lookup_advance, passed_arrange ord none]
  split
  · rfl
  · rename_i absent
    cases found : acks.lookup id with
    | none => rfl
    | some e => exact absurd (List.mem_map.mpr ⟨_, mem_arrange_of_lookup ord found, rfl⟩) absent

theorem advance_timedOut_iff (acks : PendingControlAcks) :
    (acks.advance ord cfg).1 = .kTimedOut ↔ ∃ id e, acks.lookup id = some e ∧ e.expired = true := by
  rw [advance_eq]
  simp only [ite_eq_left_iff, reduceCtorEq, imp_false, not_not, List.any_eq_true]
  constructor
  · rintro ⟨e, member, expired⟩
    exact ⟨e.1, e.2, HashMap.lookup_of_mem_arrange member, expired⟩
  · rintro ⟨id, e, found, expired⟩
    exact ⟨⟨id, e⟩, mem_arrange_of_lookup ord found, expired⟩

theorem advance_ok (none : ∀ id e, acks.lookup id = some e → e.expired = false) : (acks.advance ord cfg).1 = .kOk := by
  have quiet : ¬(acks.advance ord cfg).1 = .kTimedOut := by
    rw [advance_timedOut_iff]
    rintro ⟨id, e, found, expired⟩
    simp [none id e found] at expired
  rw [advance_eq] at quiet ⊢
  split
  · rename_i any
    simp [any] at quiet
  · rfl

end PendingControlAcks

end LeoMem
