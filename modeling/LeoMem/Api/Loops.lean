import LeoMem.Api.Resolve
import LeoMem.Api.Sync
import LeoMem.Lib.Loop

/-!
# The per-block loops

`ProcessPendingControlMessages`, `DrainControl` and `PrepareMetadata` go over the blocks
of a range with `for (index = first; index <= last; ++index)`, on 64-bit indices that
wrap. The functions of `Api.Access` and `Api.Sync` take such a loop as having visited
`[first, last]`; here it runs round by round. It does end with each block visited once,
and with the records those functions give, unless `last` is the largest index: then the
test holds of every index and the loop never ends (`blockLoop_visits_once_iff`).
-/

namespace LeoMem
open Lib RuntimeContext

/-- The per-block loops, each with what it reads of the call it is in. -/
inductive BlockLoop where
  /-- `kInvalidateRange` in `ProcessPendingControlMessages`. -/
  | invalidateRange (msg : ControlMessage)
  /-- `kOwnerTransfer` in `ProcessPendingControlMessages`. -/
  | ownerTransfer (msg : ControlMessage)
  /-- `DrainControl`. -/
  | drainControl (msg : ControlMessage)
  | prepareMetadata (range : BlockRange) (addr : GlobalAddr) (type : AccessType)

namespace BlockLoop

def first : BlockLoop → BlockIndex
  | invalidateRange msg => msg.range.first.blockIndex
  | ownerTransfer msg => msg.range.first.blockIndex
  | drainControl msg => msg.firstBlock.blockIndex
  | prepareMetadata range _ _ => range.first.blockIndex

def last : BlockLoop → BlockIndex
  | invalidateRange msg => msg.range.last.blockIndex
  | ownerTransfer msg => msg.range.last.blockIndex
  | drainControl msg => msg.lastBlock.blockIndex
  | prepareMetadata range _ _ => range.last.blockIndex

/-- The record of the block at `index`. -/
def block (l : BlockLoop) (index : BlockIndex) : BlockId :=
  match l with
  | invalidateRange msg => ⟨msg.range.first.regionId, index⟩
  | ownerTransfer msg => ⟨msg.range.first.regionId, index⟩
  | drainControl msg => ⟨msg.firstBlock.regionId, index⟩
  | prepareMetadata _ addr _ => ⟨addr.regionId, index⟩

/-- The stores of one round into that record. -/
def store (cfg : Config) : BlockLoop → BlockMeta → BlockMeta
  | invalidateRange msg => invalidateMeta msg
  | ownerTransfer msg => transferMeta msg
  | drainControl msg => drainTransferMeta msg
  | prepareMetadata _ addr type => prepareMeta cfg addr type

/-- A loop between two rounds, with the indices it has visited. -/
structure State where
  index : BlockIndex
  visited : List BlockIndex := []
  table : BlockTable

def start (l : BlockLoop) (t : BlockTable) : State := { index := l.first, table := t }

/-- `index <= last`. -/
def test (l : BlockLoop) (s : State) : Bool := decide (s.index ≤ l.last)

/-- The body, then `++index`. -/
def step (cfg : Config) (l : BlockLoop) (s : State) : State where
  index := s.index + 1
  visited := s.visited ++ [s.index]
  table := s.table.modify (l.block s.index) (l.store cfg)

section
variable {ω : Type} [Transport ω]

/-- The block table after the function a loop is in. -/
def modelled (ord : IterOrder) (ctx : RuntimeContext ω) : BlockLoop → BlockTable
  | invalidateRange msg => (processMessage ord ctx { msg with opcode := .kInvalidateRange }).2.blockTable
  | ownerTransfer msg => (processMessage ord ctx { msg with opcode := .kOwnerTransfer }).2.blockTable
  | drainControl msg => (drainMessage ord ctx { msg with opcode := .kOwnerTransfer }).2.blockTable
  | prepareMetadata range addr type => LeoMem.prepareMetadata ctx.config ctx.blockTable range addr type

/-- The loop ends in `r`, with each index of `[first, last]` visited once and no other, and
with the table of the function it is in. -/
structure VisitsOnce (ord : IterOrder) (ctx : RuntimeContext ω) (l : BlockLoop) (r : State) : Prop where
  ends : EndsIn l.test (l.step ctx.config) (l.start ctx.blockTable) r
  once : ∀ index, r.visited.count index = if l.first ≤ index ∧ index ≤ l.last then 1 else 0
  table : r.table = l.modelled ord ctx

theorem modelled_eq (ord : IterOrder) (ctx : RuntimeContext ω) (l : BlockLoop) :
    l.modelled ord ctx = ctx.blockTable.modifyAll ((blockIndices l.first l.last).map l.block) (l.store ctx.config) := by
  cases l <;> rfl

/-- What is left to do from `s` completes the whole loop: the indices still to come follow the
visited ones, and their stores lead from the table of `s` to that of the function. -/
structure Underway (ord : IterOrder) (ctx : RuntimeContext ω) (l : BlockLoop) (s : State) : Prop where
  indices : s.visited ++ blockIndices s.index l.last = blockIndices l.first l.last
  table : s.table.modifyAll ((blockIndices s.index l.last).map l.block) (l.store ctx.config) = l.modelled ord ctx

variable {ord : IterOrder} {ctx : RuntimeContext ω} {l : BlockLoop} {s : State}

theorem underway_start : Underway ord ctx l (l.start ctx.blockTable) := ⟨rfl, (modelled_eq ord ctx l).symm⟩

theorem Underway.step (underway : Underway ord ctx l s) (goes : s.index ≤ l.last) (room : s.index.toNat + 1 < 2 ^ 64) :
    Underway ord ctx l (l.step ctx.config s) := by
  obtain ⟨indices, table⟩ := underway
  rw [blockIndices_cons goes room] at indices table
  constructor
  · rw [← indices]
    exact List.append_assoc _ _ _
  · exact table

theorem Underway.done (underway : Underway ord ctx l s) (passed : l.last < s.index) :
    s.visited = blockIndices l.first l.last ∧ s.table = l.modelled ord ctx := by
  obtain ⟨indices, table⟩ := underway
  rw [blockIndices_of_lt passed] at indices table
  rw [List.append_nil] at indices
  exact ⟨indices, table⟩

theorem visitsOnce_of_room (ord : IterOrder) (ctx : RuntimeContext ω) (room : l.last.toNat + 1 < 2 ^ 64) :
    ∃ r, l.VisitsOnce ord ctx r := by
  have round : ∀ s, Underway ord ctx l s → l.test s = true → Underway ord ctx l (l.step ctx.config s) ∧
      l.last.toNat + 1 - (l.step ctx.config s).index.toNat < l.last.toNat + 1 - s.index.toNat := by
    intro s underway goes
    have le : s.index ≤ l.last := of_decide_eq_true goes
    have bound := UInt64.le_iff_toNat_le.mp le
    refine ⟨underway.step le (by omega), ?_⟩
    change l.last.toNat + 1 - (s.index + 1).toNat < _
    rw [toNat_succ (by omega)]
    omega
  obtain ⟨r, ends, underway, stop⟩ :=
    endsIn_of_measure (fun s : State => l.last.toNat + 1 - s.index.toNat) round underway_start
  have passed : l.last < r.index := UInt64.not_le.mp (of_decide_eq_false stop)
  obtain ⟨visited, table⟩ := underway.done passed
  refine ⟨r, ends, ?_, table⟩
  intro index
  rw [visited, List.Nodup.count (nodup_blockIndices _ _)]
  exact if_congr mem_blockIndices rfl rfl

/-- With the largest index for its bound the test holds of every index. -/
theorem whileLoop_top (cfg : Config) (top : l.last = 0xffffffffffffffff) (s : State) (fuel : Nat) :
    whileLoop l.test (l.step cfg) fuel s = none := by
  refine whileLoop_of_invariant (I := fun _ => True) ?_ (fun _ _ => trivial) trivial fuel
  intro s _
  have bound := s.index.toNat_lt
  apply decide_eq_true
  rw [top, UInt64.le_iff_toNat_le]
  change s.index.toNat ≤ 2 ^ 64 - 1
  omega

end
end BlockLoop

/-- **The per-block loops end** with every index of `[first, last]` visited once, and none when
`last < first`, exactly when `last` is not the largest 64-bit index. -/
theorem blockLoop_visits_once_iff {ω : Type} [Transport ω] (ord : IterOrder) (ctx : RuntimeContext ω) (l : BlockLoop) :
    (∃ r, l.VisitsOnce ord ctx r) ↔ l.last ≠ 0xffffffffffffffff := by
  constructor
  · rintro ⟨r, visits⟩ top
    obtain ⟨fuel, ended⟩ := visits.ends
    rw [BlockLoop.whileLoop_top ctx.config top] at ended
    cases ended
  · intro notTop
    have bound := l.last.toNat_lt
    have room : l.last.toNat ≠ 2 ^ 64 - 1 := fun top => notTop (UInt64.toNat_inj.mp top)
    exact BlockLoop.visitsOnce_of_room ord ctx (by omega)

/-- A request for the last block of a region. -/
def topRequest : ControlMessage where
  opcode := .kOwnerTransfer
  sourceNode := 1
  targetNode := 0
  requestId := 1
  firstBlock := { regionId := 0, blockIndex := 0xffffffffffffffff }
  lastBlock := { regionId := 0, blockIndex := 0xffffffffffffffff }
  version := 1

/-- The text of a control message and an access to a peer's last byte both carry the largest
index, and none of the loops over it ends. -/
theorem top_block_loops_never_end :
    let cfg : Config := { nodeId := 0, blockSize := 1 }
    let addr : GlobalAddr := { homeNode := 1, regionId := 0, offset := 0xffffffffffffffff }
    let range : BlockRange := ⟨⟨0, 0xffffffffffffffff⟩, ⟨0, 0xffffffffffffffff⟩, 1⟩
    (∀ d, validateAndResolveRange cfg d addr 1 = .ok range) ∧
    parseControlMessage (formatControlMessage topRequest) = .ok (some topRequest) ∧
    ∀ l ∈ [.prepareMetadata range addr .kRead, .invalidateRange topRequest, .ownerTransfer topRequest,
        .drainControl topRequest],
      ∀ t fuel, whileLoop (BlockLoop.test l) (BlockLoop.step cfg l) fuel (BlockLoop.start l t) = none := by
  refine ⟨fun _ => rfl, parseControlMessage_format ⟨by decide, by decide⟩, ?_⟩
  intro l member t fuel
  apply BlockLoop.whileLoop_top
  simp only [List.mem_cons, List.not_mem_nil, or_false] at member
  rcases member with rfl | rfl | rfl | rfl <;> rfl

end LeoMem
