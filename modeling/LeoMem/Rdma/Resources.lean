import LeoMem.Lib.Handles
import LeoMem.Rdma.Completions

/-!
# The verbs objects of a process

`RuntimeContext::Init` makes a transport, opens a device and creates a protection domain, a
completion queue, a queue pair for each peer and a registration of the node's region;
`RuntimeContext::Shutdown` destroys them. Reads, writes and batches register their buffers
while they run. A verb that creates an object may fail, at any place.

No verb is called on a handle that is null or has been given back, and a handle is given back
in use only by a `Shutdown` that finds buffers registered (`handles_never_misused`). What is
left behind when the runtime is down comes from an `Init` that failed after it had opened the
device, which nothing tears down, or from a batch that was refused after it had registered
buffers (`teardown_complete_iff`).
-/

namespace LeoMem
open Lib

inductive RdmaObject where
  | context
  | pd
  | cq
  | qp
  /-- A registration of the node's region with this number, or of a buffer. -/
  | mr (region : Option Nat)
  deriving DecidableEq

abbrev VerbsTable := Handles RdmaObject

/-- The members of `RdmaTransport`; `peers_` is split into the queue pairs and the lengths of
the regions of the peers that are ready. -/
structure RdmaResources where
  initialized : Bool := false
  context : Option Nat := none
  pd : Option Nat := none
  cq : Option Nat := none
  localMr : Option Nat := none
  qps : List (Option Nat) := []
  ready : NodeId → Option UInt64 := fun _ => none
  localLength : Option UInt64 := none
  sends : SendQueue := {}

/-- How `ExchangeAndConnect` ends, and the peers that are ready then. -/
structure ExchangeEnd where
  outcome : Outcome := .returned .kOk
  ready : NodeId → Option UInt64 := fun _ => none

/-- What the device answers to `Init` and `RegisterMemoryRegion`. -/
structure InitAnswers where
  /-- A device of the configured name is listed. -/
  listed : Bool := true
  opens : Bool := true
  queriesPort : Bool := true
  allocatesPd : Bool := true
  createsCq : Bool := true
  createsQp : NodeId → Bool := fun _ => true
  modifiesQp : NodeId → Bool := fun _ => true
  registers : Bool := true
  exchange : ExchangeEnd := {}

namespace RdmaResources

/-- `peers_[node].qp`. -/
def qp (r : RdmaResources) (node : NodeId) : Option Nat := r.qps[node.toNat]?.join

/-- The loop of `Init` over the peers from `node` on, where `left` are to come. -/
def createQueuePairs (cfg : Config) (a : InitAnswers) :
    (left : Nat) → NodeId → RdmaResources → VerbsTable → Status × RdmaResources × VerbsTable
  | 0, _, r, t => (.kOk, r, t)
  | left + 1, node, r, t =>
    if node = cfg.nodeId then createQueuePairs cfg a left (node + 1) { r with qps := r.qps ++ [none] } t
    else if a.createsQp node = false then (.kInternalError, r, t)
    else
      let qp := t.create .qp [r.pd, r.cq]
      let r := { r with qps := r.qps ++ [some qp.1] }
      -- `ibv_modify_qp`
      let t := qp.2.use [some qp.1]
      if a.modifiesQp node = false then (.kInternalError, r, t)
      else createQueuePairs cfg a left (node + 1) r t

/-- `RdmaTransport::Init`. -/
def init (cfg : Config) (a : InitAnswers) (r : RdmaResources) (t : VerbsTable) : Status × RdmaResources × VerbsTable :=
  if r.initialized then (.kAlreadyInitialized, r, t)
  else if a.listed = false then (.kNotFound, r, t)
  else if a.opens = false then (.kInternalError, { r with context := none }, t)
  else
    let context := t.create .context []
    let r := { r with context := some context.1 }
    -- `ibv_query_port` and `ibv_query_gid`
    let t := context.2.use [r.context]
    if a.queriesPort = false then (.kInternalError, r, t)
    else if a.allocatesPd = false then (.kInternalError, { r with pd := none }, t)
    else
      let pd := t.create .pd [r.context]
      let r := { r with pd := some pd.1 }
      let t := pd.2
      if a.createsCq = false then (.kInternalError, { r with cq := none }, t)
      else
        let cq := t.create .cq [r.context]
        let r := { r with cq := some cq.1, qps := [] }
        match createQueuePairs cfg a cfg.nrNodes.toNat 0 r cq.2 with
        | (.kOk, r, t) => (.kOk, { r with initialized := true }, t)
        | failed => failed

/-- Gives a handle back, if there is one. -/
def release (h : Option Nat) (t : VerbsTable) : VerbsTable :=
  match h with
  | none => t
  | some h => t.destroy h

/-- `RdmaTransport::RegisterMemoryRegion` for the region `base` of `length` bytes. -/
def registerMemoryRegion (a : InitAnswers) (base : Option Nat) (length : UInt64) (r : RdmaResources) (t : VerbsTable) :
    Outcome × RdmaResources × VerbsTable :=
  if r.initialized = false then (.returned .kNotInitialized, r, t)
  else if base = none ∨ length = 0 then (.returned .kInvalidArg, r, t)
  else
    let t := release r.localMr t
    if a.registers = false then (.returned .kInternalError, { r with localMr := none }, t)
    else
      let mr := t.create (.mr base) [r.pd]
      -- `ExchangeAndConnect` passes over the peers without a queue pair and modifies those of the others
      let ready := fun n => if r.qp n = none then none else a.exchange.ready n
      (a.exchange.outcome, { r with localMr := some mr.1, localLength := some length, ready := ready },
        mr.2.use (r.qps.filter Option.isSome))

/-- `RdmaTransport::Shutdown`. -/
def shutdown (r : RdmaResources) (t : VerbsTable) : RdmaResources × VerbsTable :=
  let t := release r.localMr t
  let t := r.qps.foldl (fun t qp => release qp t) t
  let t := release r.cq t
  let t := release r.pd t
  let t := match r.context with
    | none => t
    | some context => t.close context
  ({ qps := r.qps.map fun _ => none }, t)

/-- What the calls of `LeoMem.Rdma.Completions` know of the transport. -/
def port (cfg : Config) (r : RdmaResources) : RdmaPort where
  config := cfg
  initialized := r.initialized
  peers := r.ready
  localLength := r.localLength

/-- The verbs of `WaitForCompletions`: every poll is one of the same queue. -/
def waitForCompletions (target : Nat) (r : RdmaResources) (t : VerbsTable) : VerbsTable :=
  if target = 0 then t else t.use [r.cq]

/-- `ibv_post_send` to the queue pair of `peer`, of a buffer that is registered as `mr`. -/
def postSend (peer : NodeId) (mr : Nat) (r : RdmaResources) (t : VerbsTable) : VerbsTable := t.use [r.qp peer, some mr]

/-- The verbs of `PostOneSided`. -/
def postOneSided (verbs : Verbs) (peer : NodeId) (mr : Nat) (r : RdmaResources) (t : VerbsTable) : VerbsTable :=
  if verbs.sends 0 = false then r.postSend peer mr t else r.waitForCompletions 1 (r.postSend peer mr t)

/-- `Read` and `Write`. -/
def oneSided (cfg : Config) (verbs : Verbs) (addr : GlobalAddr) (size : UInt64) (r : RdmaResources) (t : VerbsTable) :
    Outcome × RdmaResources × VerbsTable :=
  if r.initialized = false then (.returned .kNotInitialized, r, t)
  else if size = 0 then (.returned .kInvalidArg, r, t)
  else if addr.homeNode = cfg.nodeId then (.returned ((r.port cfg).copyLocal addr.offset size), r, t)
  else
    match r.ready addr.homeNode with
    | none => (.returned .kNotFound, r, t)
    | some length =>
      if addr.offset + size > length then (.returned .kOutOfRange, r, t)
      else if verbs.registers 0 = false then (.returned .kInternalError, r, t)
      else
        let mr := t.create (.mr none) [r.pd]
        let t := r.postOneSided verbs addr.homeNode mr.1 mr.2
        match (r.port cfg).postOneSided verbs addr.homeNode r.sends with
        | (.returned s, st) => (.returned s, { r with sends := st }, t.destroy mr.1)
        | (outcome, st) => (outcome, { r with sends := st }, t)

/-- How the loop of `BatchWrite` ends, and the buffers that are registered then. -/
structure BatchEnd where
  posted : Except Status Nat
  regs : List Nat
  sends : SendQueue
  verbs : VerbsTable

/-- `for (auto& reg : regs) ibv_dereg_mr(reg.mr)`. -/
def deregister (regs : List Nat) (t : VerbsTable) : VerbsTable := Handles.destroyAll regs t

/-- The loop of `BatchWrite`. Only a failed `ibv_post_send` deregisters what is registered
before it returns. -/
def postBatch (cfg : Config) (verbs : Verbs) (r : RdmaResources) :
    List RemoteWriteRequest → Nat → List Nat → SendQueue → VerbsTable → BatchEnd
  | [], posted, regs, st, t => ⟨.ok posted, regs, st, t⟩
  | req :: requests, posted, regs, st, t =>
    if req.buf.size = 0 then ⟨.error .kInvalidArg, regs, st, t⟩
    else if req.addr.homeNode = cfg.nodeId then
      match (r.port cfg).copyLocal req.addr.offset req.buf.size with
      | .kOk => postBatch cfg verbs r requests posted regs st t
      | s => ⟨.error s, regs, st, t⟩
    else
      match r.ready req.addr.homeNode with
      | none => ⟨.error .kNotFound, regs, st, t⟩
      | some length =>
        if req.addr.offset + req.buf.size > length then ⟨.error .kOutOfRange, regs, st, t⟩
        else if verbs.registers posted = false then ⟨.error .kInternalError, regs, st, t⟩
        else
          let mr := t.create (.mr none) [r.pd]
          let regs := regs ++ [mr.1]
          let t := r.postSend req.addr.homeNode mr.1 mr.2
          if verbs.sends posted = false then ⟨.error .kInternalError, [], st, deregister regs t⟩
          else postBatch cfg verbs r requests (posted + 1) regs (RdmaPort.postSend req.addr.homeNode st) t

def batchWrite (cfg : Config) (verbs : Verbs) (requests : List RemoteWriteRequest) (r : RdmaResources) (t : VerbsTable) :
    Outcome × RdmaResources × VerbsTable :=
  if r.initialized = false then (.returned .kNotInitialized, r, t)
  else if requests.isEmpty then (.returned .kOk, r, t)
  else
    let b := postBatch cfg verbs r requests 0 [] r.sends t
    match b.posted with
    | .error s => (.returned s, { r with sends := b.sends }, b.verbs)
    | .ok posted =>
      let t := r.waitForCompletions posted b.verbs
      match (r.port cfg).waitForCompletions posted verbs.polls b.sends with
      | (.returned s, st) => (.returned s, { r with sends := st }, deregister b.regs t)
      | (outcome, st) => (outcome, { r with sends := st }, t)

def fence (cfg : Config) (verbs : Verbs) (r : RdmaResources) (t : VerbsTable) : Outcome × RdmaResources × VerbsTable :=
  if r.initialized = false then (.returned .kNotInitialized, r, t)
  else
    let waited := (r.port cfg).waitForCompletions r.sends.outstandingSends.toNat verbs.polls r.sends
    (waited.1, { r with sends := waited.2 }, r.waitForCompletions r.sends.outstandingSends.toNat t)

def transfer (cfg : Config) (verbs : Verbs) (r : RdmaResources) (t : VerbsTable) :
    RdmaCall → Outcome × RdmaResources × VerbsTable
  | .read addr size => oneSided cfg verbs addr size r t
  | .write addr buf => oneSided cfg verbs addr buf.size r t
  | .batchWrite requests => batchWrite cfg verbs requests r t
  | .fence => fence cfg verbs r t

end RdmaResources

/-! ## The process -/

/-- The members of `RuntimeContext` that own something outside its own objects, and the objects
of the device. -/
structure Lifecycle where
  initialized : Bool := false
  config : Config := {}
  transport : Option RdmaResources := none
  /-- The region of the allocator, where it has one. -/
  region : Option Nat := none
  nextRegion : Nat := 0
  verbs : VerbsTable := {}

inductive LifecycleInput where
  | init (cfg : Config) (answers : InitAnswers)
  | shutdown
  /-- A call of the API comes to the transport. -/
  | transfer (call : RdmaCall) (verbs : Verbs)

namespace Lifecycle

/-- `allocator_` is replaced, which frees the old region, and `allocator_->Init()`. -/
def newAllocator (cfg : Config) (s : Lifecycle) : Lifecycle :=
  if cfg.localRegionSize = 0 then { s with config := cfg, region := none }
  else { s with config := cfg, region := some s.nextRegion, nextRegion := s.nextRegion + 1 }

/-- `RuntimeContext::Init` with `enable_rdma`. The transport it replaces closes nothing. -/
def init (cfg : Config) (a : InitAnswers) (s : Lifecycle) : Outcome × Lifecycle :=
  if s.initialized then (.returned .kAlreadyInitialized, s)
  else
    let s := newAllocator cfg s
    match RdmaResources.init cfg a {} s.verbs with
    | (.kOk, r, t) =>
      match r.registerMemoryRegion a s.region cfg.localRegionSize t with
      | (.returned .kOk, r, t) => (.returned .kOk, { s with transport := some r, verbs := t, initialized := true })
      | (outcome, r, t) => (outcome, { s with transport := some r, verbs := t })
    | (status, r, t) => (.returned status, { s with transport := some r, verbs := t })

/-- `RuntimeContext::Shutdown`. -/
def shutdown (s : Lifecycle) : Outcome × Lifecycle :=
  if s.initialized = false then (.returned .kNotInitialized, s)
  else
    let verbs := match s.transport with
      | none => s.verbs
      | some r => (r.shutdown s.verbs).2
    (.returned .kOk, { s with verbs := verbs, transport := none, region := none, initialized := false })

def step (s : Lifecycle) : LifecycleInput → Outcome × Lifecycle
  | .init cfg a => init cfg a s
  | .shutdown => shutdown s
  | .transfer call verbs =>
    match s.initialized, s.transport with
    | true, some r =>
      let o := r.transfer s.config verbs s.verbs call
      (o.1, { s with transport := some o.2.1, verbs := o.2.2 })
    | _, _ => (.returned .kNotInitialized, s)

def after (inputs : List LifecycleInput) : Lifecycle := (run step {} inputs).2

end Lifecycle

/-! ## What stays behind -/

def Outcome.returns : Outcome → Bool
  | .returned _ => true
  | _ => false

/-- The batch is refused when some of its requests have been posted, and not because one
could not be sent. -/
def RdmaPort.Strands (port : RdmaPort) (verbs : Verbs) (requests : List RemoteWriteRequest) (st : SendQueue) : Prop :=
  port.initialized = true ∧
    ∃ s k, (port.postBatch verbs requests 0 st).1 = .error s ∧
      (port.postBatch verbs requests 0 st).2.nextRequest = st.nextRequest + k ∧ 0 < k ∧
      (s = .kInternalError → verbs.registers k = false)

/-- The call comes back, and no buffer stays registered. -/
def RdmaCall.Tidy (cfg : Config) (verbs : Verbs) (r : RdmaResources) (t : VerbsTable) : RdmaCall → Prop
  | .batchWrite requests => (r.transfer cfg verbs t (.batchWrite requests)).1.returns = true ∧
      ¬(r.port cfg).Strands verbs requests r.sends
  | .fence => True
  | call => (r.transfer cfg verbs t call).1.returns = true

/-! ## What a transport holds -/

def RdmaObject.isMr : RdmaObject → Bool
  | .mr _ => true
  | _ => false

namespace RdmaResources

/-- What other objects of a transport use. -/
def trunk (r : RdmaResources) : List Nat := r.cq.toList ++ (r.pd.toList ++ r.context.toList)

/-- Its handles but for the registration. -/
def body (r : RdmaResources) : List Nat := r.qps.filterMap id ++ r.trunk

/-- All its handles, in the order in which `Shutdown` gives them back. -/
def held (r : RdmaResources) : List Nat := r.localMr.toList ++ r.body

theorem body_subset_held (r : RdmaResources) : r.body ⊆ r.held := fun _ member => List.mem_append_right _ member

theorem trunk_subset_body (r : RdmaResources) : r.trunk ⊆ r.body := fun _ member => List.mem_append_right _ member

theorem trunk_subset_held (r : RdmaResources) : r.trunk ⊆ r.held :=
  fun _ member => r.body_subset_held (r.trunk_subset_body member)

/-- The handles of a transport in the table, and how they use each other. An object of another
transport uses none of them; a buffer that has been left registered uses the protection domain. -/
structure Wired (t : VerbsTable) (r : RdmaResources) : Prop where
  leaf : ∀ o ∈ t.live, o.id ∈ r.held → o.uses ⊆ r.trunk
  trunk : ∀ o ∈ t.live, o.id ∈ r.trunk → o.uses ⊆ r.context.toList
  plain : ∀ o ∈ t.live, o.id ∈ r.body → o.kind.isMr = false
  own : ∀ o ∈ t.live, o.id ∈ r.held → o.kind ≠ .mr none
  stray : ∀ o ∈ t.live, o.id ∉ r.held → ∀ u ∈ o.uses, u ∈ r.held → o.kind = .mr none ∧ u ∈ r.pd.toList

variable {h : Nat} {r : RdmaResources}

theorem Wired.subset {t t' : VerbsTable} (wired : r.Wired t) (subset : t'.live ⊆ t.live) : r.Wired t' where
  leaf o member := wired.leaf o (subset member)
  trunk o member := wired.trunk o (subset member)
  plain o member := wired.plain o (subset member)
  own o member := wired.own o (subset member)
  stray o member := wired.stray o (subset member)

/-- What the calls of a transport rely on: an initialized one has its protection domain and its
completion queue, and a peer that is ready has a queue pair. -/
structure Complete (r : RdmaResources) : Prop where
  pd : r.initialized = true → ∃ h, r.pd = some h
  cq : r.initialized = true → ∃ h, r.cq = some h
  peers : ∀ n, r.ready n ≠ none → ∃ h, r.qp n = some h

theorem mem_trunk_pd (domain : r.pd = some h) : h ∈ r.trunk := by
  simp [RdmaResources.trunk, domain]

theorem mem_trunk_cq (queue : r.cq = some h) : h ∈ r.trunk := by
  simp [RdmaResources.trunk, queue]

theorem mem_body_qps (pair : some h ∈ r.qps) : h ∈ r.body :=
  List.mem_append_left _ (List.mem_filterMap.mpr ⟨some h, pair, rfl⟩)

theorem mem_body_qp {n : NodeId} (pair : r.qp n = some h) : h ∈ r.body :=
  mem_body_qps (List.mem_of_getElem? (Option.join_eq_some_iff.mp pair))

end RdmaResources

/-- No object uses a registration. -/
def MrsUnused (t : VerbsTable) : Prop := ∀ o ∈ t.live, ∀ m ∈ t.live, m.kind.isMr = true → m.id ∉ o.uses

/-- A transport whose handles are accounted for. -/
structure Owns (t : VerbsTable) (r : RdmaResources) (lost : List Nat) (undercut : Bool) : Prop where
  ledger : t.Ledger r.held lost undercut
  wired : r.Wired t
  mrs : MrsUnused t

section
variable {t : VerbsTable} {r r' : RdmaResources} {lost : List Nat} {undercut : Bool} {args : List (Option Nat)}

theorem MrsUnused.subset {t' : VerbsTable} (mrs : MrsUnused t) (subset : t'.live ⊆ t.live) : MrsUnused t' :=
  fun o member m among => mrs o (subset member) m (subset among)

/-- An object that uses only what is no registration. -/
theorem MrsUnused.create {held : List Nat} (mrs : MrsUnused t) (ledger : t.Ledger held lost undercut) (kind : RdmaObject)
    (known : Handles.Among args held) (plain : ∀ m ∈ t.live, m.id ∈ args.filterMap id → m.kind.isMr = false) :
    MrsUnused (t.create kind args).2 := by
  intro o member m among isMr
  rcases List.mem_cons.mp member with rfl | old
  · rcases List.mem_cons.mp among with rfl | before
    · exact fun used => ledger.next_notMem_ids (ledger.mem (known.uses used))
    · intro used
      simp [plain m before used] at isMr
  · rcases List.mem_cons.mp among with rfl | before
    · exact ledger.next_unused o old
    · exact mrs o old m before isMr

/-- **A verb is called** with handles of the transport. -/
theorem Owns.use (owns : Owns t r lost undercut) (known : Handles.Among args r.held) : Owns (t.use args) r lost undercut :=
  ⟨owns.ledger.use known, owns.wired.subset (List.Subset.refl _), owns.mrs⟩

/-- **A transport creates an object.** -/
theorem Owns.create (owns : Owns t r lost undercut) (kind : RdmaObject) (old : Handles.Among args r.trunk)
    (held : r'.held.Perm (t.next :: r.held)) (body : r'.body ⊆ t.next :: r.body) (trunk : r'.trunk ⊆ t.next :: r.trunk)
    (grown : r.trunk ⊆ r'.trunk) (context : r.context.toList ⊆ r'.context.toList) (domain : r.pd.toList ⊆ r'.pd.toList)
    (base : t.next ∈ r'.trunk → args.filterMap id ⊆ r'.context.toList) (plain : t.next ∈ r'.body → kind.isMr = false)
    (own : kind ≠ .mr none) : Owns (t.create kind args).2 r' lost undercut where
  ledger := (owns.ledger.create kind (old.mono r.trunk_subset_held)).perm held.symm
  wired := by
    have other (o : Object RdmaObject) (before : o ∈ t.live) : o.id ≠ t.next := fun same =>
      owns.ledger.next_notMem_ids (same ▸ Handles.mem_ids.mpr ⟨o, before, rfl⟩)
    have known {h : Nat} (among : h ∈ r'.held) (apart : h ≠ t.next) : h ∈ r.held :=
      (List.mem_cons.mp (held.mem_iff.mp among)).resolve_left apart
    refine ⟨fun o member among => ?_, fun o member among => ?_, fun o member among => ?_, fun o member among => ?_,
      fun o member apart u used among => ?_⟩
    · rcases List.mem_cons.mp member with rfl | before
      · exact fun _ used => grown (old.uses used)
      · exact fun _ used => grown (owns.wired.leaf o before (known among (other o before)) used)
    · rcases List.mem_cons.mp member with rfl | before
      · exact base among
      · have known := (List.mem_cons.mp (trunk among)).resolve_left (other o before)
        exact fun _ used => context (owns.wired.trunk o before known used)
    · rcases List.mem_cons.mp member with rfl | before
      · exact plain among
      · exact owns.wired.plain o before ((List.mem_cons.mp (body among)).resolve_left (other o before))
    · rcases List.mem_cons.mp member with rfl | before
      · exact own
      · exact owns.wired.own o before (known among (other o before))
    · have grown : t.next :: r.held ⊆ r'.held := held.symm.subset
      rcases List.mem_cons.mp member with rfl | before
      · exact absurd (grown List.mem_cons_self) apart
      · have new : u ≠ t.next := fun same => owns.ledger.next_unused o before (same ▸ used)
        obtain ⟨buffer, uses⟩ := owns.wired.stray o before (fun mine => apart (grown (List.mem_cons_of_mem _ mine))) u used
          (known among new)
        exact ⟨buffer, domain uses⟩
  mrs := owns.mrs.create owns.ledger kind (old.mono r.trunk_subset_held) fun m among used =>
    owns.wired.plain m among (r.trunk_subset_body (old.uses used))

/-- An object that is no part of the trunk. -/
theorem Owns.create_leaf (owns : Owns t r lost undercut) (kind : RdmaObject) (old : Handles.Among args r.trunk)
    (held : r'.held.Perm (t.next :: r.held)) (body : r'.body ⊆ t.next :: r.body) (trunk : r'.trunk = r.trunk)
    (context : r'.context = r.context) (domain : r'.pd = r.pd) (plain : t.next ∈ r'.body → kind.isMr = false)
    (own : kind ≠ .mr none) : Owns (t.create kind args).2 r' lost undercut :=
  owns.create kind old held body (by rw [trunk]; exact List.subset_cons_self _ _) (by rw [trunk]; exact List.Subset.refl _)
    (by rw [context]; exact List.Subset.refl _) (by rw [domain]; exact List.Subset.refl _) (fun among => by
      rw [trunk] at among
      exact absurd (owns.ledger.mem (r.trunk_subset_held among)) owns.ledger.next_notMem_ids) plain own

end

/-! ### `Init` -/

namespace RdmaResources
variable {t : VerbsTable} {lost : List Nat} {undercut : Bool}

variable {r : RdmaResources} (cfg : Config) (a : InitAnswers)

/-- The loop of `Init` changes the queue pairs only. -/
theorem createQueuePairs_keeps (left : Nat) (node : NodeId) (r : RdmaResources) (t : VerbsTable) :
    ∃ qps, (createQueuePairs cfg a left node r t).2.1 = { r with qps := qps } := by
  induction left generalizing node r t with
  | zero => exact ⟨r.qps, rfl⟩
  | succ left ih =>
    unfold createQueuePairs
    split
    · exact ih _ _ _
    · split
      · exact ⟨r.qps, rfl⟩
      · dsimp only
        split
        · exact ⟨_, rfl⟩
        · exact ih _ _ _

theorem createQueuePairs_owns (left : Nat) (node : NodeId) (owns : Owns t r lost undercut) (unregistered : r.localMr = none)
    {pd cq : Nat} (domain : r.pd = some pd) (queue : r.cq = some cq) :
    Owns (createQueuePairs cfg a left node r t).2.2 (createQueuePairs cfg a left node r t).2.1 lost undercut := by
  induction left generalizing node r t with
  | zero => exact owns
  | succ left ih =>
    unfold createQueuePairs
    split
    · have same : ({ r with qps := r.qps ++ [none] } : RdmaResources).held = r.held := by
        simp [held, body, trunk]
      have body_same : ({ r with qps := r.qps ++ [none] } : RdmaResources).body = r.body := by simp [body, trunk]
      refine ih (node + 1) (r := { r with qps := r.qps ++ [none] })
        ⟨same ▸ owns.ledger, ⟨?_, owns.wired.trunk, ?_, ?_, ?_⟩, owns.mrs⟩ unregistered domain queue
      · rw [same]
        exact owns.wired.leaf
      · rw [body_same]
        exact owns.wired.plain
      · rw [same]
        exact owns.wired.own
      · rw [same]
        exact owns.wired.stray
    · split
      · exact owns
      · have made : Owns (t.create .qp [r.pd, r.cq]).2 { r with qps := r.qps ++ [some t.next] } lost undercut := by
          have grown : ({ r with qps := r.qps ++ [some t.next] } : RdmaResources).body.Perm (t.next :: r.body) := by
            simp only [body, trunk, List.filterMap_append, id, List.append_assoc]
            exact List.perm_middle
          refine owns.create_leaf .qp ?_ ?_ grown.subset rfl rfl rfl (fun _ => rfl) (by simp)
          · simp [domain, queue, mem_trunk_pd domain, mem_trunk_cq queue]
          · simpa only [held, unregistered, Option.toList_none, List.nil_append] using grown
        have modified : Owns ((t.create .qp [r.pd, r.cq]).2.use [some t.next]) { r with qps := r.qps ++ [some t.next] } lost
            undercut := made.use (by
          simpa using body_subset_held _ (mem_body_qps (List.mem_append_right r.qps (List.mem_singleton_self _))))
        dsimp only
        split
        · exact modified
        · exact ih (node + 1) modified unregistered domain queue

theorem held_ne_nil (some : r.trunk ≠ []) : r.held ≠ [] :=
  fun none => some (List.eq_nil_of_subset_nil (none ▸ r.trunk_subset_held))

theorem owns_none (ledger : t.Ledger [] lost undercut) (mrs : MrsUnused t) : Owns t {} lost undercut :=
  ⟨ledger, ⟨by simp [held, body, trunk], by simp [trunk], by simp [body, trunk], by simp [held, body, trunk],
    by simp [held, body, trunk]⟩, mrs⟩

/-- **`Init` of the transport**, however far it comes. -/
theorem init_owns (ledger : t.Ledger [] lost undercut) (mrs : MrsUnused t) :
    Owns (init cfg a {} t).2.2 (init cfg a {} t).2.1 lost undercut ∧ (init cfg a {} t).2.1.localMr = none ∧
      ((init cfg a {} t).2.1.held = [] ↔ a.listed = false ∨ a.opens = false) ∧
      ((init cfg a {} t).1 = .kOk → (init cfg a {} t).2.1.trunk ≠ []) ∧ (init cfg a {} t).2.1.Complete := by
  have start := owns_none ledger mrs
  have incomplete (r : RdmaResources) (down : r.initialized = false) (unready : ∀ n, r.ready n = none) : r.Complete :=
    ⟨by simp [down], by simp [down], by simp [unready]⟩
  unfold init
  simp only [Bool.false_eq_true, if_false]
  split
  · rename_i unlisted
    exact ⟨start, rfl, by simp [unlisted, held, body, trunk], by simp, incomplete _ rfl fun _ => rfl⟩
  rename_i listed
  split
  · rename_i shut
    exact ⟨start, rfl, by simp [shut, held, body, trunk], by simp, incomplete _ rfl fun _ => rfl⟩
  rename_i opens
  have opened (r : RdmaResources) (some : r.trunk ≠ []) : r.held = [] ↔ a.listed = false ∨ a.opens = false := by
    simp [held_ne_nil some, listed, opens]
  have context : Owns ((t.create .context []).2.use [some t.next]) { context := some t.next } lost undercut := by
    have made : Owns (t.create .context []).2 { context := some t.next } lost undercut :=
      start.create .context (Handles.among_nil _) (.refl _) (List.Subset.refl _) (List.Subset.refl _) (List.nil_subset _)
        (List.nil_subset _) (List.nil_subset _) (fun _ => List.nil_subset _) (fun _ => rfl) (by simp)
    exact made.use (by simp [held, body, trunk])
  generalize made : t.create .context [] = m at context
  obtain ⟨c, t₀⟩ := m
  obtain rfl : t.next = c := congrArg Prod.fst made
  dsimp only at context ⊢
  generalize t₀.use [some t.next] = t₁ at context
  split
  · exact ⟨context, rfl, opened _ (by simp [trunk]), by simp, incomplete _ rfl fun _ => rfl⟩
  split
  · exact ⟨context, rfl, opened _ (by simp [trunk]), by simp, incomplete _ rfl fun _ => rfl⟩
  have pd : Owns (t₁.create .pd [some t.next]).2 { context := some t.next, pd := some t₁.next } lost undercut :=
    context.create .pd (by simp [trunk]) (.refl _) (List.Subset.refl _) (List.Subset.refl _) (List.subset_cons_self _ _)
      (List.Subset.refl _) (List.nil_subset _) (fun _ => List.Subset.refl _) (fun _ => rfl) (by simp)
  generalize allocated : t₁.create .pd [some t.next] = m at pd
  obtain ⟨p, t₂⟩ := m
  obtain rfl : t₁.next = p := congrArg Prod.fst allocated
  dsimp only
  split
  · exact ⟨pd, rfl, opened _ (by simp [trunk]), by simp, incomplete _ rfl fun _ => rfl⟩
  have cq : Owns (t₂.create .cq [some t.next]).2 { context := some t.next, pd := some t₁.next, cq := some t₂.next } lost
      undercut :=
    pd.create .cq (by simp [trunk]) (.refl _) (List.Subset.refl _) (List.Subset.refl _) (List.subset_cons_self _ _)
      (List.Subset.refl _) (List.Subset.refl _) (fun _ => List.Subset.refl _) (fun _ => rfl) (by simp)
  have owns := createQueuePairs_owns cfg a cfg.nrNodes.toNat 0 cq rfl rfl rfl
  obtain ⟨qps, kept⟩ := createQueuePairs_keeps cfg a cfg.nrNodes.toNat 0
    { context := some t.next, pd := some t₁.next, cq := some t₂.next } (t₂.create .cq [some t.next]).2
  simp only [Handles.create] at owns kept ⊢
  split
  · rename_i r t' ended
    rw [ended] at owns kept
    obtain rfl := kept
    exact ⟨⟨owns.ledger, ⟨owns.wired.leaf, owns.wired.trunk, owns.wired.plain, owns.wired.own, owns.wired.stray⟩, owns.mrs⟩,
      rfl, opened _ (by simp [trunk]), fun _ => by simp [trunk], fun _ => ⟨_, rfl⟩, fun _ => ⟨_, rfl⟩, fun _ => absurd rfl⟩
  · rename_i ended
    refine ⟨owns, ?_⟩
    rw [kept]
    exact ⟨rfl, opened _ (by simp [trunk]), fun _ => by simp [trunk], incomplete _ rfl fun _ => rfl⟩

/-- **`RegisterMemoryRegion`** after `Init`. -/
theorem registerMemoryRegion_owns (base : Option Nat) (length : UInt64) (owns : Owns t r lost undercut)
    (unregistered : r.localMr = none) (complete : r.Complete) :
    Owns (r.registerMemoryRegion a base length t).2.2 (r.registerMemoryRegion a base length t).2.1 lost undercut ∧
      (r.registerMemoryRegion a base length t).2.1.trunk = r.trunk ∧
      (r.registerMemoryRegion a base length t).2.1.Complete := by
  unfold registerMemoryRegion
  split
  · exact ⟨owns, rfl, complete⟩
  rename_i up
  split
  · exact ⟨owns, rfl, complete⟩
  rename_i given
  simp only [unregistered, release]
  split
  · have same : ({ r with localMr := none } : RdmaResources) = r := by rw [← unregistered]
    rw [same]
    exact ⟨owns, rfl, complete⟩
  · obtain ⟨pd, domain⟩ := complete.pd (by simpa using up)
    refine ⟨Owns.use (owns.create_leaf _ ?_ ?_ (List.subset_cons_self _ _) rfl rfl rfl (fun among => ?_) ?_) ?_, rfl,
      complete.pd, complete.cq, fun n ready => ?_⟩
    · simp [domain, mem_trunk_pd domain]
    · simp only [held, unregistered, Option.toList_some, Option.toList_none, List.nil_append]
      exact .refl _
    · exact absurd (owns.ledger.mem (r.body_subset_held among)) owns.ledger.next_notMem_ids
    · simp only [ne_eq, RdmaObject.mr.injEq]
      exact fun none => given (Or.inl none)
    · intro pair member
      obtain ⟨among, some⟩ := List.mem_filter.mp member
      obtain ⟨h, rfl⟩ := Option.isSome_iff_exists.mp some
      exact ⟨h, body_subset_held _ (mem_body_qps among), rfl⟩
    · refine Option.ne_none_iff_exists'.mp fun none => ready ?_
      exact if_pos none

/-! ### `Shutdown` -/

/-- The queue pairs and registrations first, then what they used. -/
theorem shutdown_verbs (r : RdmaResources) (t : VerbsTable) :
    (r.shutdown t).2 = r.context.toList.foldl Handles.close (Handles.destroyAll r.pd.toList
      (Handles.destroyAll r.cq.toList (Handles.destroyAll (r.localMr.toList ++ r.qps.filterMap id) t))) := by
  have release_eq (h : Option Nat) (t : VerbsTable) : release h t = Handles.destroyAll h.toList t := by cases h <;> rfl
  have loop (qps : List (Option Nat)) (t : VerbsTable) :
      qps.foldl (fun t qp => release qp t) t = Handles.destroyAll (qps.filterMap id) t := by
    induction qps generalizing t with
    | nil => rfl
    | cons qp qps ih => cases qp <;> exact ih _
  have both (a b : List Nat) (t : VerbsTable) :
      Handles.destroyAll (a ++ b) t = Handles.destroyAll b (Handles.destroyAll a t) := List.foldl_append
  dsimp only [shutdown]
  rw [loop, both, ← release_eq, ← release_eq, ← release_eq]
  cases r.context <;> rfl

/-- No buffer is registered with the protection domain of the transport. -/
def Unburdened (r : RdmaResources) (t : VerbsTable) : Prop :=
  ∀ o ∈ t.live, o.kind = .mr none → ∀ pd, r.pd = some pd → pd ∉ o.uses

/-- What uses a handle of the transport once its queue pairs and its registration are gone: its device
is used by its other objects, and its protection domain by buffers. -/
theorem used_cases (owns : Owns t r lost undercut) {t' : VerbsTable} (within : t'.live ⊆ t.live) {left : List Nat}
    (ledger : t'.Ledger left lost undercut) (low : left ⊆ r.trunk) {o : Object RdmaObject} (live : o ∈ t'.live) {h : Nat}
    (used : h ∈ o.uses) (mine : h ∈ r.held) :
    o.id ∈ left ∧ h ∈ r.context.toList ∨ o.id ∈ lost ∧ o.kind = .mr none ∧ h ∈ r.pd.toList := by
  rcases List.mem_append.mp (ledger.account.mem_iff.mp (Handles.mem_ids.mpr ⟨o, live, rfl⟩)) with here | gone
  · exact Or.inl ⟨here, owns.wired.trunk o (within live) (low here) used⟩
  · exact Or.inr ⟨gone, owns.wired.stray o (within live) (owns.ledger.notMem_held gone) h used mine⟩

/-- The device is closed last. -/
theorem closes_device {context : Option Nat} (ledger : t.Ledger context.toList lost undercut) :
    (context.toList.foldl Handles.close t).Ledger [] lost (undercut || context.any t.inUse) ∧
      (context.toList.foldl Handles.close t).live ⊆ t.live := by
  cases context with
  | none =>
    rw [Option.any_none, Bool.or_false]
    exact ⟨ledger, List.Subset.refl _⟩
  | some c => exact ⟨ledger.close, Handles.live_close_subset t c⟩

/-- **The first half of `Shutdown`**: the registration, the queue pairs and the completion queue are
destroyed, and every buffer stays registered. -/
theorem shutdown_queues (owns : Owns t r lost undercut) :
    ∃ t', t' = Handles.destroyAll r.cq.toList (Handles.destroyAll (r.localMr.toList ++ r.qps.filterMap id) t) ∧
      t'.Ledger (r.pd.toList ++ r.context.toList) lost undercut ∧ t'.live ⊆ t.live ∧
      ∀ o ∈ t.live, o.kind = .mr none → o ∈ t'.live := by
  have ledger := owns.ledger
  have nodup := ledger.held_nodup
  unfold held body at ledger nodup
  rw [← List.append_assoc] at ledger nodup
  obtain ⟨-, trunkNodup, leavesApart⟩ := List.nodup_append.mp nodup
  have pairs := ledger.destroyAll_unused fun o member h leaf used => by
    have mine : h ∈ r.held := by
      unfold held body
      rw [← List.append_assoc]
      exact List.mem_append_left _ leaf
    have low : h ∈ r.trunk := by
      by_cases own : o.id ∈ r.held
      · exact owns.wired.leaf o member own used
      · exact mem_trunk_pd (Option.mem_toList.mp (owns.wired.stray o member own h used mine).2)
    exact leavesApart h leaf h low rfl
  have within := Handles.live_destroyAll_subset (r.localMr.toList ++ r.qps.filterMap id) t
  have queue := pairs.destroyAll_unused fun o member h (queue : h ∈ r.cq.toList) used => by
    have mine : h ∈ r.held := r.trunk_subset_held (mem_trunk_cq (Option.mem_toList.mp queue))
    have apart := (List.nodup_append.mp trunkNodup).2.2 h queue h
    rcases used_cases owns within pairs (List.Subset.refl _) member used mine with ⟨-, device⟩ | ⟨-, -, domain⟩
    · exact apart (List.mem_append_right _ device) rfl
    · exact apart (List.mem_append_left _ domain) rfl
  refine ⟨_, rfl, queue, fun o member => within (Handles.live_destroyAll_subset r.cq.toList _ member), fun o member buffer => ?_⟩
  have stray : o.id ∉ r.held := fun own => owns.wired.own o member own buffer
  unfold held body at stray
  rw [← List.append_assoc] at stray
  refine Handles.mem_live_destroyAll (Handles.mem_live_destroyAll member fun leaf => stray (List.mem_append_left _ leaf))
    fun queue => stray (List.mem_append_right _ (mem_trunk_cq (Option.mem_toList.mp queue)))

/-- **`Shutdown`** gives back all that the transport holds. Only buffers can be in the way. -/
theorem shutdown_gives_back (owns : Owns t r lost undercut) :
    ∃ lost' undercut', (r.shutdown t).2.Ledger [] lost' undercut' ∧ (lost' = [] ↔ lost = []) ∧
      (undercut' = false ↔ undercut = false ∧ r.Unburdened t) ∧ (r.shutdown t).2.live ⊆ t.live := by
  obtain ⟨t', destroyed, ledger, within, buffers⟩ := shutdown_queues owns
  rw [shutdown_verbs, ← destroyed]
  have nodup := ledger.held_nodup
  have low : r.pd.toList ++ r.context.toList ⊆ r.trunk := List.subset_append_right _ _
  -- the device is free once the protection domain is gone
  have closes {t₂ : VerbsTable} (ledger : t₂.Ledger r.context.toList lost undercut) (within : t₂.live ⊆ t.live) :
      r.context.any t₂.inUse = false := by
    cases device : r.context with
    | none => rfl
    | some c =>
      refine Handles.inUse_eq_false fun o member used => ?_
      have mine : c ∈ r.held := r.trunk_subset_held (by simp [trunk, device])
      rcases used_cases owns within ledger (fun _ here => low (List.mem_append_right _ here)) member used mine with
        ⟨same, -⟩ | ⟨-, -, domain⟩
      · rw [device, Option.toList_some, List.mem_singleton] at same
        exact absurd (ledger.usesOlder o member c used) (by omega)
      · exact (List.nodup_append.mp nodup).2.2 c domain c (by simp [device]) rfl
  cases domain : r.pd with
  | none =>
    rw [domain] at ledger
    obtain ⟨last, fewer⟩ := closes_device ledger
    rw [closes ledger within, Bool.or_false] at last
    refine ⟨lost, undercut, last, Iff.rfl, ?_, fun o member => within (fewer member)⟩
    simp [Unburdened, domain]
  | some p =>
    have mine : p ∈ r.held := r.trunk_subset_held (mem_trunk_pd domain)
    rw [domain] at ledger nodup
    have apart : p ∉ r.context.toList := fun device => (List.nodup_append.mp nodup).2.2 p (by simp) p device rfl
    have subset := Handles.live_destroy_subset t' p
    cases used : t'.inUse p with
    | true =>
      obtain ⟨last, fewer⟩ := closes_device (ledger.destroy_used used)
      refine ⟨p :: lost, true, last, ?_, ?_, fun o member => within (subset (fewer member))⟩
      all_goals
        obtain ⟨o, member, uses⟩ := List.any_eq_true.mp used
        have burden := (used_cases owns within ledger (by rwa [domain] at low) member (of_decide_eq_true uses) mine).resolve_left
          fun device => apart device.2
      · exact ⟨by simp, fun none => by simp [none] at burden⟩
      · refine ⟨by simp, fun unburdened => ?_⟩
        exact absurd (of_decide_eq_true uses) (unburdened.2 o (within member) burden.2.1 p domain)
    | false =>
      have free : ∀ o ∈ t'.live, p ∉ o.uses := by simpa [Handles.inUse] using used
      have rest := ledger.destroy_unused free
      obtain ⟨last, fewer⟩ := closes_device rest
      rw [closes rest fun o member => within (subset member), Bool.or_false] at last
      refine ⟨lost, undercut, last, Iff.rfl, ?_, fun o member => within (subset (fewer member))⟩
      refine (and_iff_left fun o member buffer pd same => ?_).symm
      obtain rfl : p = pd := Option.some.inj (domain.symm.trans same)
      exact free o (buffers o member buffer)

/-! ### Registered buffers -/

/-- A transport during a call that has registered the buffers `regs`. -/
structure Registered (t : VerbsTable) (r : RdmaResources) (regs lost : List Nat) (undercut : Bool) : Prop where
  ledger : t.Ledger (regs ++ r.held) lost undercut
  wired : r.Wired t
  mrs : MrsUnused t
  buffers : ∀ m ∈ t.live, m.id ∈ regs → m.kind = .mr none

variable {r : RdmaResources} {regs : List Nat}

theorem registered_nil (owns : Owns t r lost undercut) : Registered t r [] lost undercut :=
  ⟨owns.ledger, owns.wired, owns.mrs, fun _ _ among => (by cases among)⟩

theorem Registered.owns (registered : Registered t r [] lost undercut) : Owns t r lost undercut :=
  ⟨registered.ledger, registered.wired, registered.mrs⟩

theorem Registered.use (registered : Registered t r regs lost undercut) {args : List (Option Nat)}
    (known : Handles.Among args (regs ++ r.held)) : Registered (t.use args) r regs lost undercut :=
  ⟨registered.ledger.use known, registered.wired.subset (List.Subset.refl _), registered.mrs, registered.buffers⟩

theorem Registered.add (registered : Registered t r regs lost undercut) {pd : Nat} (domain : r.pd = some pd) :
    Registered (t.create (.mr none) [r.pd]).2 r (regs ++ [t.next]) lost undercut := by
  have fresh := registered.ledger.next_notMem_ids
  have base : Handles.Among [r.pd] r.trunk := by simp [domain, mem_trunk_pd domain]
  have known : Handles.Among [r.pd] (regs ++ r.held) :=
    base.mono fun _ used => List.mem_append_right _ (r.trunk_subset_held used)
  have other : ∀ o ∈ t.live, o.id ≠ t.next := fun o member same => fresh (same ▸ Handles.mem_ids.mpr ⟨o, member, rfl⟩)
  have unheld : t.next ∉ r.held := fun among => fresh (registered.ledger.mem (List.mem_append_right _ among))
  refine ⟨?_, ⟨fun o member among => ?_, fun o member among => ?_, fun o member among => ?_, fun o member among => ?_,
    fun o member apart u used among => ?_⟩, ?_, fun m member among => ?_⟩
  · refine (registered.ledger.create (.mr none) known).perm ?_
    rw [List.append_assoc]
    exact List.perm_middle.symm
  · rcases List.mem_cons.mp member with rfl | old
    · exact absurd among unheld
    · exact registered.wired.leaf o old among
  · rcases List.mem_cons.mp member with rfl | old
    · exact absurd (r.trunk_subset_held among) unheld
    · exact registered.wired.trunk o old among
  · rcases List.mem_cons.mp member with rfl | old
    · exact absurd (r.body_subset_held among) unheld
    · exact registered.wired.plain o old among
  · rcases List.mem_cons.mp member with rfl | old
    · exact absurd among unheld
    · exact registered.wired.own o old among
  · rcases List.mem_cons.mp member with rfl | old
    · exact ⟨rfl, by simpa [domain] using used⟩
    · exact registered.wired.stray o old apart u used among
  · exact registered.mrs.create registered.ledger _ known fun m member used =>
      registered.wired.plain m member (r.trunk_subset_body (base.uses used))
  · rcases List.mem_cons.mp member with rfl | old
    · rfl
    · refine registered.buffers m old ((List.mem_append.mp among).resolve_right fun new => ?_)
      exact other m old (List.mem_singleton.mp new)

/-- **A buffer is registered and sent** to a peer that is ready. -/
theorem Registered.post (registered : Registered t r regs lost undercut) (complete : r.Complete) (up : r.initialized = true)
    {peer : NodeId} {length : UInt64} (ready : r.ready peer = some length) :
    Registered (r.postSend peer t.next (t.create (.mr none) [r.pd]).2) r (regs ++ [t.next]) lost undercut := by
  obtain ⟨pd, domain⟩ := complete.pd up
  obtain ⟨qp, pair⟩ := complete.peers peer (by simp [ready])
  refine (registered.add domain).use ?_
  simp [pair, r.body_subset_held (mem_body_qp pair)]

/-- The completion queue is polled. -/
theorem Registered.wait (registered : Registered t r regs lost undercut) (complete : r.Complete) (up : r.initialized = true)
    (target : Nat) : Registered (r.waitForCompletions target t) r regs lost undercut := by
  obtain ⟨cq, queue⟩ := complete.cq up
  unfold waitForCompletions
  split
  · exact registered
  · refine registered.use ?_
    simp [queue, r.trunk_subset_held (mem_trunk_cq queue)]

/-- The buffers are deregistered. -/
theorem Registered.deregister (registered : Registered t r regs lost undercut) :
    Owns (RdmaResources.deregister regs t) r lost undercut := by
  have within : (Handles.destroyAll regs t).live ⊆ t.live := Handles.live_destroyAll_subset regs t
  refine ⟨registered.ledger.destroyAll_unused fun o member h among => ?_, registered.wired.subset within,
    registered.mrs.subset within⟩
  obtain ⟨m, live, rfl⟩ := Handles.mem_ids.mp (registered.ledger.mem (List.mem_append_left _ among))
  exact registered.mrs o member m live (by rw [registered.buffers m live among]; rfl)

/-- The call ends and leaves them registered. -/
theorem Registered.strand (registered : Registered t r regs lost undercut) : Owns t r (regs ++ lost) undercut where
  ledger :=
    { registered.ledger with
      account := registered.ledger.account.trans (by
        rw [← List.append_assoc]
        exact List.perm_append_comm.append_right lost) }
  wired := registered.wired
  mrs := registered.mrs

/-! ### Transfers -/

theorem copyLocal_ne (port : RdmaPort) (offset size : UInt64) : port.copyLocal offset size ≠ .kInternalError := by
  unfold RdmaPort.copyLocal
  split
  · decide
  · split <;> decide

/-- How many buffers the loop of a batch leaves registered, by its status and the number of
requests it has posted. -/
def LeavesRegistered (verbs : Verbs) (regs : List Nat) (k : Nat) : Except Status Nat → Prop
  | .ok n => n = k ∧ regs.length = k
  | .error s => regs = [] ↔ ¬(0 < k ∧ (s = .kInternalError → verbs.registers k = false))

theorem leavesRegistered_early {verbs : Verbs} {s : Status} (refused : s = .kInternalError → verbs.registers regs.length = false) :
    LeavesRegistered verbs regs regs.length (.error s) := by
  change regs = [] ↔ ¬(0 < regs.length ∧ (s = .kInternalError → verbs.registers regs.length = false))
  rw [not_and', List.length_pos_iff]
  exact ⟨fun none _ some => some none, fun none => by simpa using none refused⟩

variable (verbs : Verbs) (call : RdmaCall)

/-- **The loop of a batch** posts what it does without counting its buffers. -/
theorem postBatch_registered (requests : List RemoteWriteRequest) (st : SendQueue) {base : Nat}
    (registered : Registered t r regs lost undercut) (complete : r.Complete) (up : r.initialized = true)
    (numbered : st.nextRequest = base + regs.length) :
    (postBatch cfg verbs r requests regs.length regs st t).posted =
        ((r.port cfg).postBatch verbs requests regs.length st).1 ∧
      (postBatch cfg verbs r requests regs.length regs st t).sends =
        ((r.port cfg).postBatch verbs requests regs.length st).2 ∧
      Registered (postBatch cfg verbs r requests regs.length regs st t).verbs r
        (postBatch cfg verbs r requests regs.length regs st t).regs lost undercut ∧
      ∃ k, ((r.port cfg).postBatch verbs requests regs.length st).2.nextRequest = base + k ∧
        LeavesRegistered verbs (postBatch cfg verbs r requests regs.length regs st t).regs k
          ((r.port cfg).postBatch verbs requests regs.length st).1 := by
  induction requests generalizing regs st t with
  | nil => exact ⟨rfl, rfl, registered, regs.length, numbered, rfl, rfl⟩
  | cons req requests ih =>
    unfold postBatch RdmaPort.postBatch
    by_cases empty : req.buf.size = 0
    · simp only [if_pos empty]
      exact ⟨trivial, trivial, registered, _, numbered, leavesRegistered_early (by simp)⟩
    simp only [if_neg empty]
    by_cases own : req.addr.homeNode = cfg.nodeId
    · have here : req.addr.homeNode = (r.port cfg).config.nodeId := own
      simp only [if_pos own, if_pos here]
      have plain := copyLocal_ne (r.port cfg) req.addr.offset req.buf.size
      generalize (r.port cfg).copyLocal req.addr.offset req.buf.size = s at plain ⊢
      cases s
      case kOk => exact ih st registered numbered
      all_goals exact ⟨rfl, rfl, registered, _, numbered, leavesRegistered_early fun same => absurd same plain⟩
    have peers : (r.port cfg).peers req.addr.homeNode = r.ready req.addr.homeNode := rfl
    have away : ¬req.addr.homeNode = (r.port cfg).config.nodeId := own
    simp only [if_neg own, if_neg away, peers]
    cases ready : r.ready req.addr.homeNode with
    | none => exact ⟨rfl, rfl, registered, _, numbered, leavesRegistered_early (by simp)⟩
    | some length =>
      dsimp only
      have sent := registered.post complete up ready
      by_cases outside : req.addr.offset + req.buf.size > length
      · simp only [if_pos outside]
        exact ⟨trivial, trivial, registered, _, numbered, leavesRegistered_early (by simp)⟩
      simp only [if_neg outside]
      by_cases refused : verbs.registers regs.length = false
      · simp only [if_pos refused]
        exact ⟨trivial, trivial, registered, _, numbered, leavesRegistered_early fun _ => refused⟩
      simp only [if_neg refused]
      by_cases unsent : verbs.sends regs.length = false
      · simp only [if_pos unsent]
        refine ⟨trivial, trivial, registered_nil sent.deregister, _, numbered, ?_⟩
        change [] = [] ↔ ¬(0 < regs.length ∧ (Status.kInternalError = .kInternalError → verbs.registers regs.length = false))
        simp [refused]
      simp only [if_neg unsent]
      have next := ih (RdmaPort.postSend req.addr.homeNode st) sent (by
        rw [List.length_append, List.length_singleton, ← Nat.add_assoc, ← numbered]
        rfl)
      rw [List.length_append, List.length_singleton] at next
      exact next

theorem Owns.withSends (owns : Owns t r lost undercut) (st : SendQueue) : Owns t { r with sends := st } lost undercut :=
  ⟨owns.ledger, ⟨owns.wired.leaf, owns.wired.trunk, owns.wired.plain, owns.wired.own, owns.wired.stray⟩, owns.mrs⟩

/-- The one buffer of a read or a write, when it has been sent. -/
theorem registered_oneSided (owns : Owns t r lost undercut) (complete : r.Complete) (up : r.initialized = true)
    {peer : NodeId} {length : UInt64} (ready : r.ready peer = some length) (verbs : Verbs) :
    Registered (r.postOneSided verbs peer t.next (t.create (.mr none) [r.pd]).2) r [t.next] lost undercut := by
  have sent := (registered_nil owns).post complete up ready
  unfold postOneSided
  split
  · exact sent
  · exact sent.wait complete up 1

theorem oneSided_owns (addr : GlobalAddr) (size : UInt64) (owns : Owns t r lost undercut) (complete : r.Complete) :
    ∃ more, Owns (oneSided cfg verbs addr size r t).2.2 (oneSided cfg verbs addr size r t).2.1 (more ++ lost) undercut ∧
      (more = [] ↔ (oneSided cfg verbs addr size r t).1.returns = true) := by
  unfold oneSided
  split
  · exact ⟨[], owns, by simp [Outcome.returns]⟩
  rename_i up
  split
  · exact ⟨[], owns, by simp [Outcome.returns]⟩
  split
  · exact ⟨[], owns, by simp [Outcome.returns]⟩
  split
  · exact ⟨[], owns, by simp [Outcome.returns]⟩
  rename_i length ready
  split
  · exact ⟨[], owns, by simp [Outcome.returns]⟩
  split
  · exact ⟨[], owns, by simp [Outcome.returns]⟩
  have registered := registered_oneSided owns complete (by simpa using up) ready verbs
  dsimp only
  split
  · exact ⟨[], Owns.withSends registered.deregister _, by simp [Outcome.returns]⟩
  · rename_i outcome st other posted
    refine ⟨[t.next], Owns.withSends registered.strand st, ?_⟩
    cases outcome with
    | returned s => exact absurd rfl (other s)
    | thrown | waiting => simp [Outcome.returns]

theorem batchWrite_owns (requests : List RemoteWriteRequest) (owns : Owns t r lost undercut) (complete : r.Complete) :
    ∃ more, Owns (batchWrite cfg verbs requests r t).2.2 (batchWrite cfg verbs requests r t).2.1 (more ++ lost) undercut ∧
      (more = [] ↔ (batchWrite cfg verbs requests r t).1.returns = true ∧
        ¬(r.port cfg).Strands verbs requests r.sends) := by
  unfold batchWrite
  split
  · rename_i down
    exact ⟨[], owns, by simp [Outcome.returns, RdmaPort.Strands, port, down]⟩
  rename_i up
  have up : r.initialized = true := by simpa using up
  split
  · rename_i empty
    obtain rfl : requests = [] := by simpa using empty
    exact ⟨[], owns, by simp [Outcome.returns, RdmaPort.Strands, RdmaPort.postBatch]⟩
  obtain ⟨posted, sends, registered, k, count, left⟩ :=
    postBatch_registered cfg verbs requests r.sends (registered_nil owns) complete up rfl
  rw [List.length_nil] at posted sends registered count left
  generalize postBatch cfg verbs r requests 0 [] r.sends t = b at posted sends registered left
  dsimp only
  cases ended : b.posted with
  | error s =>
    rw [posted] at ended
    rw [ended] at left
    have strands : (r.port cfg).Strands verbs requests r.sends ↔
        0 < k ∧ (s = .kInternalError → verbs.registers k = false) := by
      constructor
      · rintro ⟨-, s', k', stopped, count', stays⟩
        obtain rfl : s = s' := Except.error.inj (ended.symm.trans stopped)
        obtain rfl : k = k' := Nat.add_left_cancel (count.symm.trans count')
        exact stays
      · exact fun stays => ⟨up, s, k, ended, count, stays⟩
    refine ⟨b.regs, Owns.withSends registered.strand b.sends, left.trans ?_⟩
    rw [strands]
    simp [Outcome.returns]
  | ok n =>
    rw [posted] at ended
    rw [ended] at left
    obtain ⟨rfl, length⟩ := left
    have smooth : ¬(r.port cfg).Strands verbs requests r.sends := by
      rintro ⟨-, s, j, stopped, -⟩
      simp [ended] at stopped
    have polled := registered.wait complete up n
    dsimp only
    split
    · exact ⟨[], Owns.withSends polled.deregister _, by simp [Outcome.returns, smooth]⟩
    · rename_i outcome st other waited
      have pending : n ≠ 0 := by
        rintro rfl
        rw [RdmaPort.waitForCompletions, if_pos rfl] at waited
        obtain ⟨rfl, -⟩ := Prod.mk.inj waited
        exact other _ rfl
      have some : b.regs ≠ [] := fun none => pending (by rw [← length, none, List.length_nil])
      refine ⟨b.regs, Owns.withSends polled.strand st, fun none => absurd none some, fun tidy => ?_⟩
      cases outcome with
      | returned s => exact absurd rfl (other s)
      | thrown | waiting => exact absurd tidy.1 (by simp [Outcome.returns])

/-- **A call of the transport** keeps what the transport holds. -/
theorem transfer_owns (owns : Owns t r lost undercut) (complete : r.Complete) :
    ∃ more, Owns (transfer cfg verbs r t call).2.2 (transfer cfg verbs r t call).2.1 (more ++ lost) undercut ∧
      (more = [] ↔ call.Tidy cfg verbs r t) := by
  cases call with
  | read addr size => exact oneSided_owns cfg verbs addr size owns complete
  | write addr buf => exact oneSided_owns cfg verbs addr buf.size owns complete
  | batchWrite requests => exact batchWrite_owns cfg verbs requests owns complete
  | fence =>
    refine ⟨[], ?_, by simp [RdmaCall.Tidy]⟩
    simp only [transfer, fence]
    split
    · exact owns
    · rename_i up
      exact Owns.withSends ((registered_nil owns).wait complete (by simpa using up) _).owns _

/-- It changes nothing else of the transport than what is in flight. -/
theorem transfer_keeps (r : RdmaResources) (t : VerbsTable) :
    ∃ st, (transfer cfg verbs r t call).2.1 = { r with sends := st } := by
  have access (addr : GlobalAddr) (size : UInt64) : ∃ st, (oneSided cfg verbs addr size r t).2.1 = { r with sends := st } := by
    unfold oneSided
    split
    · exact ⟨_, rfl⟩
    split
    · exact ⟨_, rfl⟩
    split
    · exact ⟨_, rfl⟩
    split
    · exact ⟨_, rfl⟩
    split
    · exact ⟨_, rfl⟩
    split
    · exact ⟨_, rfl⟩
    dsimp only
    split <;> exact ⟨_, rfl⟩
  cases call with
  | read addr size => exact access addr size
  | write addr buf => exact access addr buf.size
  | batchWrite requests =>
    simp only [transfer, batchWrite]
    split
    · exact ⟨_, rfl⟩
    split
    · exact ⟨_, rfl⟩
    split
    · exact ⟨_, rfl⟩
    split <;> exact ⟨_, rfl⟩
  | fence =>
    simp only [transfer, fence]
    split <;> exact ⟨_, rfl⟩

theorem Complete.transfer (complete : r.Complete) (cfg : Config) (verbs : Verbs) (call : RdmaCall) (t : VerbsTable) :
    (r.transfer cfg verbs t call).2.1.Complete := by
  obtain ⟨st, kept⟩ := transfer_keeps cfg verbs call r t
  rw [kept]
  exact ⟨complete.pd, complete.cq, complete.peers⟩

/-- A call answers and counts as it does in `LeoMem.Rdma.Completions`. -/
theorem transfer_step (owns : Owns t r lost undercut) (complete : r.Complete) :
    ((transfer cfg verbs r t call).1, (transfer cfg verbs r t call).2.1.sends) =
      (r.port cfg).step r.sends (call, verbs) := by
  have access (addr : GlobalAddr) (size : UInt64) :
      ((oneSided cfg verbs addr size r t).1, (oneSided cfg verbs addr size r t).2.1.sends) =
        (r.port cfg).oneSided verbs addr size r.sends := by
    have peers : (r.port cfg).peers addr.homeNode = r.ready addr.homeNode := rfl
    have home : (r.port cfg).config.nodeId = cfg.nodeId := rfl
    have started : (r.port cfg).initialized = r.initialized := rfl
    unfold oneSided RdmaPort.oneSided
    rw [peers, home, started]
    split
    · rfl
    split
    · rfl
    split
    · rfl
    cases r.ready addr.homeNode with
    | none => rfl
    | some length =>
      dsimp only
      split
      · rfl
      split
      · rfl
      split
      · rename_i posted
        exact posted.symm
      · rename_i posted
        exact posted.symm
  cases call with
  | read addr size => exact access addr size
  | write addr buf => exact access addr buf.size
  | batchWrite requests =>
    have started : (r.port cfg).initialized = r.initialized := rfl
    simp only [transfer, RdmaPort.step]
    unfold batchWrite RdmaPort.batchWrite
    rw [started]
    split
    · rfl
    rename_i up
    split
    · rfl
    obtain ⟨posted, sends, -⟩ :=
      postBatch_registered cfg verbs requests r.sends (registered_nil owns) complete (by simpa using up) rfl
    rw [List.length_nil] at posted sends
    generalize (r.port cfg).postBatch verbs requests 0 r.sends = p at posted sends ⊢
    obtain ⟨ended, st⟩ := p
    dsimp only at posted sends ⊢
    rw [posted, sends]
    cases ended with
    | error s => rfl
    | ok n =>
      dsimp only
      split
      · rename_i waited
        exact waited.symm
      · rename_i waited
        exact waited.symm
  | fence =>
    have started : (r.port cfg).initialized = r.initialized := rfl
    simp only [transfer, fence, RdmaPort.step, RdmaPort.fence, started]
    split <;> rfl

end RdmaResources

/-! ## Every run -/

namespace Lifecycle

/-- Where the handles of a process are: with the transport of a runtime that is up, or lost. -/
structure Accounted (s : Lifecycle) (lost : List Nat) : Prop where
  up : s.initialized = true → ∃ r, s.transport = some r ∧ Owns s.verbs r lost s.verbs.undercut ∧ r.Complete
  down : s.initialized = false → s.verbs.Ledger [] lost s.verbs.undercut ∧ MrsUnused s.verbs

/-- Nothing is left behind: `Init` succeeds or fails before the device is open, and calls are tidy. -/
def Tidy (s : Lifecycle) : LifecycleInput → Prop
  | .init cfg a => s.initialized = true ∨ a.listed = false ∨ a.opens = false ∨ (init cfg a s).1 = .returned .kOk
  | .shutdown => True
  | .transfer call verbs =>
    ∀ r, s.initialized = true → s.transport = some r → call.Tidy s.config verbs r s.verbs

/-- A `Shutdown` finds no buffer registered with the protection domain of the transport. -/
def Unburdened (s : Lifecycle) : LifecycleInput → Prop
  | .shutdown => ∀ r, s.initialized = true → s.transport = some r → r.Unburdened s.verbs
  | _ => True

variable {s : Lifecycle} {lost : List Nat} {undercut : Bool}

theorem newAllocator_verbs (cfg : Config) (s : Lifecycle) : (newAllocator cfg s).verbs = s.verbs := by
  unfold newAllocator
  split <;> rfl

theorem newAllocator_initialized (cfg : Config) (s : Lifecycle) : (newAllocator cfg s).initialized = s.initialized := by
  unfold newAllocator
  split <;> rfl

/-- **`Init`** of a runtime that is down. -/
theorem Accounted.init (accounted : s.Accounted lost) (down : s.initialized = false) (cfg : Config) (a : InitAnswers) :
    ∃ more, (init cfg a s).2.Accounted (more ++ lost) ∧
      (more = [] ↔ a.listed = false ∨ a.opens = false ∨ (Lifecycle.init cfg a s).1 = .returned .kOk) ∧
      (Lifecycle.init cfg a s).2.verbs.undercut = s.verbs.undercut := by
  obtain ⟨ledger, mrs⟩ := accounted.down down
  rw [← newAllocator_verbs cfg] at ledger mrs
  obtain ⟨owns, unregistered, none, some, complete⟩ := RdmaResources.init_owns cfg a ledger mrs
  have still : (newAllocator cfg s).initialized = false := (newAllocator_initialized cfg s).trans down
  unfold Lifecycle.init
  rw [if_neg (by simp [down]), ← newAllocator_verbs cfg s]
  dsimp only
  split
  · rename_i r t opened
    rw [opened] at owns unregistered none some complete
    obtain ⟨registered, same, connected⟩ := RdmaResources.registerMemoryRegion_owns a (newAllocator cfg s).region
      cfg.localRegionSize owns unregistered complete
    split
    · rename_i r' t' ended
      rw [ended] at registered connected
      have noted := registered.ledger.noted
      exact ⟨[], ⟨fun _ => ⟨r', rfl, noted ▸ registered, connected⟩, by simp⟩, by simp, noted⟩
    · rename_i outcome r' t' other ended
      rw [ended] at registered same
      have noted := registered.ledger.noted
      have filled : r'.held ≠ [] := RdmaResources.held_ne_nil (same.trans_ne (some rfl))
      refine ⟨r'.held, ⟨fun up => ?_, fun _ => ⟨noted ▸ registered.ledger.lose, registered.mrs⟩⟩,
        ⟨fun empty => absurd empty filled, ?_⟩, noted⟩
      · simp [still] at up
      · rintro (unlisted | shut | ok)
        · exact absurd (none.mpr (Or.inl unlisted)) (RdmaResources.held_ne_nil (some rfl))
        · exact absurd (none.mpr (Or.inr shut)) (RdmaResources.held_ne_nil (some rfl))
        · exact absurd ok other
  · rename_i status r t other opened
    rw [opened] at owns none
    have noted := owns.ledger.noted
    refine ⟨r.held, ⟨fun up => ?_, fun _ => ⟨noted ▸ owns.ledger.lose, owns.mrs⟩⟩, ?_, noted⟩
    · simp [still] at up
    · refine none.trans ⟨fun early => early.imp_right Or.inl, ?_⟩
      rintro (unlisted | shut | ok)
      · exact Or.inl unlisted
      · exact Or.inr shut
      · exact absurd (Outcome.returned.inj ok) other

/-- **One step**: what is lost stays lost, and only an untidy step loses something; only a `Shutdown`
over registered buffers gives a handle back in use. -/
theorem Accounted.step (accounted : s.Accounted lost) (input : LifecycleInput) :
    ∃ lost', (s.step input).2.Accounted lost' ∧ (lost' = [] ↔ lost = [] ∧ s.Tidy input) ∧
      ((s.step input).2.verbs.undercut = false ↔ s.verbs.undercut = false ∧ s.Unburdened input) := by
  have unchanged (tidy : s.Tidy input) (free : s.Unburdened input) (same : (s.step input).2 = s) :
      ∃ lost', (s.step input).2.Accounted lost' ∧ (lost' = [] ↔ lost = [] ∧ s.Tidy input) ∧
        ((s.step input).2.verbs.undercut = false ↔ s.verbs.undercut = false ∧ s.Unburdened input) :=
    ⟨lost, by rwa [same], by simp [tidy], by simp [same, free]⟩
  cases input with
  | init cfg a =>
    cases up : s.initialized with
    | true => exact unchanged (Or.inl up) trivial (by simp [Lifecycle.step, Lifecycle.init, up])
    | false =>
      obtain ⟨more, next, early, noted⟩ := accounted.init up cfg a
      refine ⟨more ++ lost, next, ?_, ?_⟩
      · rw [List.append_eq_nil_iff, early, and_comm]
        simp [Tidy, up]
      · change (Lifecycle.init cfg a s).2.verbs.undercut = false ↔ _
        rw [noted]
        exact (and_iff_left trivial).symm
  | shutdown =>
    cases up : s.initialized with
    | false => exact unchanged trivial (fun _ up' => by simp [up] at up') (by simp [Lifecycle.step, Lifecycle.shutdown, up])
    | true =>
      obtain ⟨r, held, owns, -⟩ := accounted.up up
      obtain ⟨lost', undercut, ledger, kept, free, within⟩ := RdmaResources.shutdown_gives_back owns
      have down : (s.step .shutdown).2 =
          { s with verbs := (r.shutdown s.verbs).2, transport := none, region := none, initialized := false } := by
        simp only [Lifecycle.step, Lifecycle.shutdown, up, Bool.true_eq_false, if_false, held]
      rw [down]
      refine ⟨lost', ⟨by simp, fun _ => ⟨ledger.noted ▸ ledger, owns.mrs.subset within⟩⟩, ?_, ?_⟩
      · rw [kept]
        exact (and_iff_left trivial).symm
      · change (r.shutdown s.verbs).2.undercut = false ↔ _
        rw [ledger.noted, free]
        simp [Unburdened, up, held]
  | transfer call verbs =>
    cases up : s.initialized with
    | false => exact unchanged (fun _ up' => by simp [up] at up') trivial (by simp [Lifecycle.step, up])
    | true =>
      obtain ⟨r, held, owns, complete⟩ := accounted.up up
      obtain ⟨more, next, tidy⟩ := RdmaResources.transfer_owns s.config verbs call owns complete
      have noted := next.ledger.noted
      refine ⟨more ++ lost, ?_, ?_, ?_⟩
      · simp only [Lifecycle.step, up, held]
        exact ⟨fun _ => ⟨_, rfl, noted ▸ next, complete.transfer s.config verbs call s.verbs⟩, by simp⟩
      · rw [List.append_eq_nil_iff, tidy, and_comm]
        simp [Tidy, up, held]
      · simp only [Lifecycle.step, up, held, noted]
        exact (and_iff_left trivial).symm

end Lifecycle

/-- The second request of a batch is out of range, so that the first one's buffer stays registered
and the protection domain is given back under it. -/
def strandedBuffer : List LifecycleInput :=
  let request (offset : UInt64) : RemoteWriteRequest := { addr := ⟨1, 0, offset⟩, buf := ⟨[7], by decide⟩ }
  [.init { nrNodes := 2, blockSize := 4, localRegionSize := 8 } { exchange := { ready := fun _ => some 8 } },
    .transfer (.batchWrite [request 0, request 8]) {}, .shutdown]

example : (Lifecycle.after strandedBuffer).verbs.undercut = true := by decide +kernel

end LeoMem
