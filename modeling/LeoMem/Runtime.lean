import LeoMem.Cache.Profile
import LeoMem.Cache.ReadCache
import LeoMem.Transport
import LeoMem.Stats

/-!
# The runtime context

`runtime/context.{h,cc}`: one node's allocator, cache manager, block table,
statistics and pending acknowledgements, over the state `ω` of its transport.
-/

namespace LeoMem
open Lib

/-- `CacheManager`: the access epoch, the cached reads and the write queues. -/
structure CacheManager where
  accessEpoch : UInt64 := 0
  cache : ReadCache := {}
  writeQueues : WriteQueues := ∅

structure RuntimeContext (ω : Type) where
  initialized : Bool := true
  config : Config
  allocator : DsmAllocator
  cacheManager : CacheManager := {}
  blockTable : BlockTable := .empty
  stats : StatsCollector := {}
  nextControlRequestId : UInt64 := 1
  pendingControlAcks : PendingControlAcks := ∅
  transport : ω

namespace RuntimeContext
variable {ω : Type}

/-- A node right after `RuntimeContext::Init` on a transport in state `w`. -/
def init (cfg : Config) (w : ω) : RuntimeContext ω :=
  { config := cfg, allocator := .init cfg, transport := w }

/-- The same node over another transport state. -/
def withTransport {ω' : Type} (ctx : RuntimeContext ω) (w : ω') : RuntimeContext ω' :=
  { initialized := ctx.initialized
    config := ctx.config
    allocator := ctx.allocator
    cacheManager := ctx.cacheManager
    blockTable := ctx.blockTable
    stats := ctx.stats
    nextControlRequestId := ctx.nextControlRequestId
    pendingControlAcks := ctx.pendingControlAcks
    transport := w }

abbrev cache (ctx : RuntimeContext ω) : ReadCache := ctx.cacheManager.cache

abbrev queues (ctx : RuntimeContext ω) : WriteQueues := ctx.cacheManager.writeQueues

def setCache (ctx : RuntimeContext ω) (c : ReadCache) : RuntimeContext ω :=
  { ctx with cacheManager := { ctx.cacheManager with cache := c } }

def setQueues (ctx : RuntimeContext ω) (q : WriteQueues) : RuntimeContext ω :=
  { ctx with cacheManager := { ctx.cacheManager with writeQueues := q } }

variable [Transport ω]

/-- `transport()->PostControlMessage`. -/
def post (ctx : RuntimeContext ω) (msg : ControlMessage) : Status × RuntimeContext ω :=
  let r := Transport.postControlMessage ctx.config msg ctx.transport
  (r.1, { ctx with transport := r.2 })

/-- The status after which the callers of `PostControlMessage` give up; an unimplemented
control path is no failure. -/
def postFailed (s : Status) : Bool := s ≠ .kOk && s ≠ .kUnimplemented

/-- The messages of a retry list, in order, until a post fails. -/
def postAll (ctx : RuntimeContext ω) : List ControlMessage → Status × RuntimeContext ω
  | [] => (.kOk, ctx)
  | msg :: msgs =>
    let r := ctx.post msg
    if postFailed r.1 then r else postAll r.2 msgs

end RuntimeContext
end LeoMem
