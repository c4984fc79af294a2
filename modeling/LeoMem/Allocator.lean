import LeoMem.Metadata

/-!
# The home region's allocator

`memory/global/dsm_allocator.cc` and `AlignUp` of `common/utils.cc`. The region's
bytes live with the transport they are registered with; the allocator keeps their
number. `allocations_` is the list of its entries in key order.
-/

namespace LeoMem

def alignUp (value alignment : UInt64) : UInt64 :=
  if alignment = 0 then value else ((value + alignment - 1) / alignment) * alignment

structure AllocationMeta where
  offset : UInt64
  size : UInt64
  deriving DecidableEq, Repr

structure DsmAllocator where
  /-- `region_.size()` -/
  regionSize : UInt64
  nextOffset : UInt64 := 0
  /-- `allocations_`: the entries of a `std::map`, by increasing key. -/
  allocations : List (UInt64 × AllocationMeta) := []
  deriving DecidableEq, Repr

namespace DsmAllocator

/-- `Init`. Where `region_.resize` finds no memory for the region it throws, and there is no node. -/
def init (cfg : Config) : DsmAllocator := { regionSize := cfg.localRegionSize }

/-- `std::map::emplace`: an entry already under the key is kept. -/
def emplace (key : UInt64) (a : AllocationMeta) : List (UInt64 × AllocationMeta) → List (UInt64 × AllocationMeta)
  | [] => [(key, a)]
  | e :: es =>
    if key < e.1 then (key, a) :: e :: es
    else if key = e.1 then e :: es
    else e :: emplace key a es

def allocate (cfg : Config) (d : DsmAllocator) (size : UInt64) : GlobalAddr × DsmAllocator :=
  if size = 0 ∨ cfg.blockSize = 0 then (invalidGlobalAddr, d)
  else
    let alignedSize := alignUp size cfg.blockSize
    if d.nextOffset + alignedSize > d.regionSize then (invalidGlobalAddr, d)
    else
      ({ homeNode := cfg.nodeId, regionId := kDefaultRegionId, offset := d.nextOffset },
        { d with
          allocations := emplace d.nextOffset ⟨d.nextOffset, alignedSize⟩ d.allocations
          nextOffset := d.nextOffset + alignedSize })

def free (cfg : Config) (d : DsmAllocator) (addr : GlobalAddr) : Status :=
  if addr.isValid = false then .kInvalidArg
  else if addr.homeNode ≠ cfg.nodeId then .kInvalidArg
  else if (d.allocations.find? fun e => e.1 = addr.offset).isNone then .kNotFound
  else .kOk

/-- `--allocations_.upper_bound(offset)`: the entry with the greatest key at most `offset`. -/
def lookupFloor (d : DsmAllocator) (offset : UInt64) : Option AllocationMeta :=
  ((d.allocations.takeWhile fun e => e.1 ≤ offset).getLast?).map Prod.snd

def validateRangeUnlocked (cfg : Config) (d : DsmAllocator) (addr : GlobalAddr) (size : UInt64) : Bool :=
  if addr.isValid = false ∨ size = 0 then false
  else if addr.homeNode ≠ cfg.nodeId then false
  else if cfg.blockSize = 0 then false
  else match d.lookupFloor addr.offset with
    | none => false
    | some alloc =>
      if addr.offset < alloc.offset then false
      else
        let relative := addr.offset - alloc.offset
        if relative + size > alloc.size then false
        else if addr.offset + size > d.regionSize then false
        else true

/-- `TranslateLocal`; the pointer is its offset into the region. -/
def translateLocal (cfg : Config) (d : DsmAllocator) (addr : GlobalAddr) (size : UInt64) : Option UInt64 :=
  if d.validateRangeUnlocked cfg addr size then some addr.offset else none

def resolveBlockRange (cfg : Config) (d : DsmAllocator) (addr : GlobalAddr) (size : UInt64) : Option BlockRange :=
  if d.validateRangeUnlocked cfg addr size then
    let firstIndex := addr.offset / cfg.blockSize
    let lastIndex := (addr.offset + size - 1) / cfg.blockSize
    some
      { first := ⟨addr.regionId, firstIndex⟩
        last := ⟨addr.regionId, lastIndex⟩
        count := lastIndex - firstIndex + 1 }
  else none

end DsmAllocator
end LeoMem
