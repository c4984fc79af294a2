import LeoMem.Types
import Mathlib.Logic.Function.Basic

/-!
# Block metadata

`metadata/block_meta.h` and `metadata/block_table.{h,cc}`. The table is keyed by
region and block index alone. A `shared_ptr<BlockMeta>` is the block's id: the
table is read and written at that id, so two holders of one pointer see one
record.
-/

namespace LeoMem

structure BlockMeta where
  bid : BlockId := {}
  ownerNode : NodeId := kInvalidNodeId
  version : Version := 0
  state : BlockState := .kHome
  mode : CoherenceMode := .kWI
  accessEpoch : UInt64 := 0
  lastAccessEpoch : UInt64 := 0
  readCount : UInt64 := 0
  writeCount : UInt64 := 0
  remoteMissCount : UInt64 := 0
  invalidationCost : UInt64 := 0
  sharerCount : UInt32 := 0
  windowId : UInt64 := 0
  windowReads : UInt64 := 0
  windowWrites : UInt64 := 0
  phaseChangeCount : UInt64 := 0
  lastReuseDistance : UInt64 := 0
  lastAccessType : AccessType := .kRead
  coherenceSwitchCount : UInt64 := 0
  ownerEpoch : UInt64 := 0
  lastValidatedVersion : UInt64 := 0
  cacheAdmitted : Bool := false
  deriving DecidableEq, Repr

structure BlockTable where
  table : BlockId → Option BlockMeta

namespace BlockTable

def empty : BlockTable := ⟨fun _ => none⟩

def find (t : BlockTable) (bid : BlockId) : Option BlockMeta := t.table bid

def set (t : BlockTable) (bid : BlockId) (m : BlockMeta) : BlockTable := ⟨Function.update t.table bid (some m)⟩

def getOrCreate (t : BlockTable) (bid : BlockId) : BlockMeta × BlockTable :=
  match t.find bid with
  | some m => (m, t)
  | none => ({ bid := bid }, t.set bid { bid := bid })

/-- The record a holder of the block's pointer reads. -/
def get (t : BlockTable) (bid : BlockId) : BlockMeta := (t.find bid).getD { bid := bid }

/-- `auto meta = GetOrCreate(bid)` followed by the stores `f` into it. -/
def modify (t : BlockTable) (bid : BlockId) (f : BlockMeta → BlockMeta) : BlockTable :=
  let r := t.getOrCreate bid
  r.2.set bid (f r.1)

/-- The stores `f` into each of the records `bids`, in order. -/
def modifyAll (t : BlockTable) (bids : List BlockId) (f : BlockMeta → BlockMeta) : BlockTable :=
  bids.foldl (fun t bid => t.modify bid f) t

@[simp] theorem get_empty (bid : BlockId) : empty.get bid = { bid := bid } := rfl

theorem getOrCreate_fst (t : BlockTable) (bid : BlockId) : (t.getOrCreate bid).1 = t.get bid := by
  unfold getOrCreate get
  cases t.find bid <;> rfl

@[simp] theorem get_modify (t : BlockTable) (bid b : BlockId) (f : BlockMeta → BlockMeta) :
    (t.modify bid f).get b = if b = bid then f (t.get bid) else t.get b := by
  simp only [modify, getOrCreate_fst]
  by_cases same : b = bid
  · simp [same, get, set, find]
  · unfold getOrCreate
    cases t.find bid <;> simp [same, get, set, find]

/-- Stores at distinct records reach each of them once. -/
theorem get_modifyAll (t : BlockTable) {bids : List BlockId} (distinct : bids.Nodup) (f : BlockMeta → BlockMeta)
    (b : BlockId) : (t.modifyAll bids f).get b = if b ∈ bids then f (t.get b) else t.get b := by
  induction bids generalizing t with
  | nil => simp [modifyAll]
  | cons bid bids ih =>
    obtain ⟨fresh, distinct⟩ := List.nodup_cons.mp distinct
    change ((t.modify bid f).modifyAll bids f).get b = _
    rw [ih _ distinct, get_modify]
    by_cases here : b = bid
    · subst here
      simp [fresh]
    · simp [here]

/-- A preorder that relates a record to what the stores make of it relates the tables at
that block, however often the stores reach it. -/
theorem modifyAll_rel {rel : BlockMeta → BlockMeta → Prop} {f : BlockMeta → BlockMeta} (refl : ∀ m, rel m m)
    (trans : ∀ {a b c}, rel a b → rel b c → rel a c) (t : BlockTable) (bids : List BlockId) (b : BlockId)
    (store : b ∈ bids → ∀ m, rel m (f m)) : rel (t.get b) ((t.modifyAll bids f).get b) := by
  induction bids generalizing t with
  | nil => exact refl _
  | cons bid bids ih =>
    refine trans ?_ (ih (t.modify bid f) fun member => store (List.mem_cons_of_mem _ member))
    rw [get_modify]
    split
    · rename_i same
      rw [← same]
      exact store (same ▸ List.mem_cons_self) _
    · exact refl _

end BlockTable

/-- The ids of the blocks of `range`, in the order the per-block loops visit them. -/
def BlockRange.ids (range : BlockRange) (regionId : RegionId) : List BlockId :=
  (blockIndices range.first.blockIndex range.last.blockIndex).map fun index => ⟨regionId, index⟩

theorem BlockRange.nodup_ids (range : BlockRange) (regionId : RegionId) : (range.ids regionId).Nodup := by
  apply (nodup_blockIndices _ _).map
  intro a b same
  exact congrArg BlockId.blockIndex same

theorem BlockRange.mem_ids {range : BlockRange} {regionId : RegionId} {b : BlockId} :
    b ∈ range.ids regionId ↔
      b.regionId = regionId ∧ range.first.blockIndex ≤ b.blockIndex ∧ b.blockIndex ≤ range.last.blockIndex := by
  simp only [BlockRange.ids, List.mem_map, mem_blockIndices]
  constructor
  · rintro ⟨index, bounds, rfl⟩
    exact ⟨rfl, bounds⟩
  · rintro ⟨rfl, bounds⟩
    exact ⟨b.blockIndex, bounds, rfl⟩

end LeoMem
