import LeoMem.Api.Sync

/-!
# Allocation, and a node taking one call after another

`api/alloc_api.cc`, and the calls a run of one node is made of.
-/

namespace LeoMem
open Lib

section
variable {ω : Type}

def lmMalloc (ctx : RuntimeContext ω) (size : UInt64) : GlobalAddr × RuntimeContext ω :=
  if ctx.initialized = false then (invalidGlobalAddr, ctx)
  else
    let r := ctx.allocator.allocate ctx.config size
    let ctx := { ctx with allocator := r.2 }
    if r.1.isValid then
      match ctx.allocator.resolveBlockRange ctx.config r.1 size with
      | none => (invalidGlobalAddr, ctx)
      | some range =>
        (r.1,
          { ctx with
            blockTable := ctx.blockTable.modifyAll (range.ids r.1.regionId) fun m =>
              { m with state := .kHome, ownerNode := ctx.config.nodeId }
            stats := ctx.stats.incAlloc })
    else (r.1, ctx)

def lmFree (ctx : RuntimeContext ω) (addr : GlobalAddr) : Status :=
  if ctx.initialized = false then .kNotInitialized else ctx.allocator.free ctx.config addr

end

/-- A call of the public API. -/
inductive ApiCall where
  | malloc (size : UInt64)
  | free (addr : GlobalAddr)
  | read (addr : GlobalAddr) (size : UInt64)
  | write (addr : GlobalAddr) (buf : Bytes)
  | fence
  deriving DecidableEq, Repr

/-- The range of a read or a write ends below `2 ^ 64`. -/
def ApiCall.InRange : ApiCall → Prop
  | .read addr size => addr.offset.toNat + size.toNat < 2 ^ 64
  | .write addr buf => addr.offset.toNat + buf.data.length < 2 ^ 64
  | _ => True

instance : DecidablePred ApiCall.InRange
  | .read addr size => inferInstanceAs (Decidable (addr.offset.toNat + size.toNat < 2 ^ 64))
  | .write addr buf => inferInstanceAs (Decidable (addr.offset.toNat + buf.data.length < 2 ^ 64))
  | .malloc _ | .free _ | .fence => inferInstanceAs (Decidable True)

/-- What a call gives back: an address, the bytes of a read that succeeded, or a status. -/
inductive Response where
  | addr (addr : GlobalAddr)
  | bytes (buf : Bytes)
  | status (s : Status)
  deriving DecidableEq, Repr

def Response.ofRead : Except Status Bytes → Response
  | .ok buf => .bytes buf
  | .error s => .status s

/-- One call, with the iteration order the hash maps show during it. -/
structure Invocation where
  ord : IterOrder
  call : ApiCall

def exec {ω : Type} [Transport ω] (ctx : RuntimeContext ω) (i : Invocation) : Response × RuntimeContext ω :=
  match i.call with
  | .malloc size => let r := lmMalloc ctx size; (.addr r.1, r.2)
  | .free addr => (.status (lmFree ctx addr), ctx)
  | .read addr size => let r := lmRead i.ord ctx addr size; (.ofRead r.1, r.2)
  | .write addr buf => let r := lmWrite i.ord ctx addr buf; (.status r.1, r.2)
  | .fence => let r := lmFence i.ord ctx; (.status r.1, r.2)

/-- A node on the stub transport, fresh from `lm_init`. -/
def stubNode (cfg : Config) : RuntimeContext StubTransport := .init cfg (.init cfg)

end LeoMem
