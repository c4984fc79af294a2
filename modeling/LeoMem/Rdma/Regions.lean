import LeoMem.Rdma.Resources

/-!
# Registrations of the node's region

The peers of a node read and write its region through a registration that `Init` makes. An
`Init` that fails leaves it behind, and the next one frees the region under it: from then on
peers that have connected can write to freed memory. `registrations_cover_iff`: this is the
only way to it.
-/

namespace LeoMem
open Lib

/-- The same registrations of regions are live. -/
def SameRegions (t t' : VerbsTable) : Prop := ∀ o g, o.kind = .mr (some g) → (o ∈ t'.live ↔ o ∈ t.live)

section
variable {t t' t'' : VerbsTable}

theorem SameRegions.refl (t : VerbsTable) : SameRegions t t := fun _ _ _ => Iff.rfl

theorem SameRegions.trans (first : SameRegions t t') (second : SameRegions t' t'') : SameRegions t t'' :=
  fun o g covers => (second o g covers).trans (first o g covers)

theorem sameRegions_use (t : VerbsTable) (args : List (Option Nat)) : SameRegions t (t.use args) := fun _ _ _ => Iff.rfl

theorem sameRegions_create (t : VerbsTable) (kind : RdmaObject) (args : List (Option Nat)) (other : ∀ g, kind ≠ .mr (some g)) :
    SameRegions t (t.create kind args).2 := by
  intro o g covers
  refine ⟨fun member => (List.mem_cons.mp member).resolve_left ?_, List.mem_cons_of_mem _⟩
  rintro rfl
  exact other g covers

theorem sameRegions_remove {h : Nat} (other : ∀ o ∈ t.live, ∀ g, o.kind = .mr (some g) → o.id ≠ h) :
    SameRegions t (t.remove h) := by
  intro o g covers
  refine ⟨List.mem_of_mem_filter, fun member => List.mem_filter.mpr ⟨member, ?_⟩⟩
  simpa using other o member g covers

theorem sameRegions_destroy {h : Nat} (other : ∀ o ∈ t.live, ∀ g, o.kind = .mr (some g) → o.id ≠ h) :
    SameRegions t (t.destroy h) := by
  unfold Handles.destroy
  split
  · split
    · exact fun _ _ _ => Iff.rfl
    · exact sameRegions_remove other
  · exact fun _ _ _ => Iff.rfl

theorem sameRegions_close {h : Nat} (other : ∀ o ∈ t.live, ∀ g, o.kind = .mr (some g) → o.id ≠ h) :
    SameRegions t (t.close h) := by
  unfold Handles.close
  split
  · exact sameRegions_remove other
  · exact fun _ _ _ => Iff.rfl

theorem sameRegions_destroyAll {hs : List Nat} (other : ∀ o ∈ t.live, ∀ g, o.kind = .mr (some g) → o.id ∉ hs) :
    SameRegions t (Handles.destroyAll hs t) := by
  induction hs generalizing t with
  | nil => exact .refl t
  | cons h hs ih =>
    have first : SameRegions t (t.destroy h) := sameRegions_destroy fun o member g covers same =>
      other o member g covers (same ▸ List.mem_cons_self)
    refine first.trans (ih fun o member g covers among => ?_)
    exact other o (Handles.live_destroy_subset t h member) g covers (List.mem_cons_of_mem _ among)

end

namespace RdmaResources
variable {t : VerbsTable} {lost regs : List Nat} {undercut : Bool} {r : RdmaResources}

variable (cfg : Config) (a : InitAnswers) (verbs : Verbs)

theorem createQueuePairs_sameRegions (left : Nat) (node : NodeId) (r : RdmaResources) (t : VerbsTable) :
    SameRegions t (createQueuePairs cfg a left node r t).2.2 := by
  induction left generalizing node r t with
  | zero => exact .refl t
  | succ left ih =>
    unfold createQueuePairs
    split
    · exact ih _ _ t
    · split
      · exact .refl t
      · have made := (sameRegions_create t .qp [r.pd, r.cq] (by simp)).trans (sameRegions_use _ [some t.next])
        dsimp only
        split
        · exact made
        · exact made.trans (ih _ _ _)

theorem init_sameRegions (r : RdmaResources) (t : VerbsTable) : SameRegions t (init cfg a r t).2.2 := by
  unfold init
  split
  · exact .refl t
  split
  · exact .refl t
  split
  · exact .refl t
  have context := (sameRegions_create t .context [] (by simp)).trans (sameRegions_use _ [some t.next])
  dsimp only
  split
  · exact context
  split
  · exact context
  have pd := context.trans (sameRegions_create _ .pd [some t.next] (by simp))
  split
  · exact pd
  have cq := pd.trans (sameRegions_create _ .cq [some t.next] (by simp))
  split
  · rename_i ended
    exact (congrArg (fun out => SameRegions t out.2.2) ended).mp (cq.trans (createQueuePairs_sameRegions cfg a _ 0 _ _))
  · exact cq.trans (createQueuePairs_sameRegions cfg a _ 0 _ _)

/-- `RegisterMemoryRegion` registers its region or nothing. -/
theorem registerMemoryRegion_regions (base : Option Nat) (length : UInt64) (unregistered : r.localMr = none) :
    (r.registerMemoryRegion a base length t).2.2 = t ∧ (r.registerMemoryRegion a base length t).2.1.localMr = none ∨
      base ≠ none ∧ (r.registerMemoryRegion a base length t).2.1.localMr = some t.next ∧
        (r.registerMemoryRegion a base length t).2.2.live = (t.create (.mr base) [r.pd]).2.live := by
  unfold registerMemoryRegion
  split
  · exact Or.inl ⟨rfl, unregistered⟩
  split
  · exact Or.inl ⟨rfl, unregistered⟩
  rename_i given
  simp only [unregistered, release]
  split
  · exact Or.inl ⟨rfl, rfl⟩
  · exact Or.inr ⟨fun none => given (Or.inl none), rfl, rfl⟩

theorem Registered.sameRegions_deregister (registered : Registered t r regs lost undercut) :
    SameRegions t (RdmaResources.deregister regs t) := by
  refine sameRegions_destroyAll fun o member g covers among => ?_
  rw [registered.buffers o member among] at covers
  cases covers

theorem postBatch_sameRegions (requests : List RemoteWriteRequest) (st : SendQueue)
    (registered : Registered t r regs lost undercut) (complete : r.Complete) (up : r.initialized = true) (posted : Nat) :
    SameRegions t (postBatch cfg verbs r requests posted regs st t).verbs := by
  induction requests generalizing regs st t posted with
  | nil => exact .refl t
  | cons req requests ih =>
    have made := sameRegions_create t (.mr none) [r.pd] (by simp)
    unfold postBatch
    split
    · exact .refl t
    split
    · split
      · exact ih st registered posted
      · exact .refl t
    split
    · exact .refl t
    rename_i length ready
    split
    · exact .refl t
    split
    · exact .refl t
    have sent := registered.post complete up ready
    dsimp only
    split
    · exact made.trans sent.sameRegions_deregister
    · exact made.trans (ih _ sent (posted + 1))

theorem sameRegions_wait (target : Nat) (r : RdmaResources) (t : VerbsTable) : SameRegions t (r.waitForCompletions target t) := by
  unfold waitForCompletions
  split
  · exact .refl t
  · exact sameRegions_use t _

theorem oneSided_sameRegions (addr : GlobalAddr) (size : UInt64) (owns : Owns t r lost undercut) (complete : r.Complete) :
    SameRegions t (oneSided cfg verbs addr size r t).2.2 := by
  unfold oneSided
  split
  · exact .refl t
  rename_i up
  split
  · exact .refl t
  split
  · exact .refl t
  split
  · exact .refl t
  rename_i length ready
  split
  · exact .refl t
  split
  · exact .refl t
  have registered := registered_oneSided owns complete (by simpa using up) ready verbs
  have made : SameRegions t (r.postOneSided verbs addr.homeNode t.next (t.create (.mr none) [r.pd]).2) := by
    have sent := (sameRegions_create t (.mr none) [r.pd] (by simp)).trans (sameRegions_use _ [r.qp addr.homeNode, some t.next])
    unfold postOneSided
    split
    · exact sent
    · exact sent.trans (sameRegions_wait 1 r _)
  dsimp only
  split
  · exact made.trans registered.sameRegions_deregister
  · exact made

theorem batchWrite_sameRegions (requests : List RemoteWriteRequest) (owns : Owns t r lost undercut) (complete : r.Complete) :
    SameRegions t (batchWrite cfg verbs requests r t).2.2 := by
  unfold batchWrite
  split
  · exact .refl t
  rename_i up
  have up : r.initialized = true := by simpa using up
  split
  · exact .refl t
  have posts := postBatch_sameRegions cfg verbs requests r.sends (registered_nil owns) complete up 0
  obtain ⟨-, -, registered, -⟩ := postBatch_registered cfg verbs requests r.sends (registered_nil owns) complete up rfl
  rw [List.length_nil] at registered
  dsimp only
  split
  · exact posts
  · rename_i n _
    have polled := posts.trans (sameRegions_wait n r _)
    split
    · exact polled.trans (registered.wait complete up n).sameRegions_deregister
    · exact polled

theorem transfer_sameRegions (call : RdmaCall) (owns : Owns t r lost undercut) (complete : r.Complete) :
    SameRegions t (transfer cfg verbs r t call).2.2 := by
  cases call with
  | read addr size => exact oneSided_sameRegions cfg verbs addr size owns complete
  | write addr buf => exact oneSided_sameRegions cfg verbs addr buf.size owns complete
  | batchWrite requests => exact batchWrite_sameRegions cfg verbs requests owns complete
  | fence =>
    simp only [transfer, fence]
    split
    · exact .refl t
    · exact sameRegions_wait _ r t

/-- `Shutdown` takes the transport's own registration away, and no other one of a region. -/
theorem shutdown_regions (owns : Owns t r lost undercut)
    (own : ∀ m, r.localMr = some m → ∃ o ∈ t.live, o.id = m ∧ o.kind.isMr = true) (o : Object RdmaObject) {g : Nat} (covers : o.kind = .mr (some g)) :
    o ∈ (r.shutdown t).2.live ↔ o ∈ t.live ∧ r.localMr ≠ some o.id := by
  have first : o ∈ (Handles.destroyAll r.localMr.toList t).live ↔ o ∈ t.live ∧ r.localMr ≠ some o.id := by
    cases registered : r.localMr with
    | none => simp [Handles.destroyAll]
    | some m =>
      obtain ⟨mr, live, rfl, isMr⟩ := own m registered
      have unused : t.inUse mr.id = false := by
        simpa [Handles.inUse] using fun o member => owns.mrs o member mr live isMr
      change o ∈ (t.destroy mr.id).live ↔ _
      rw [Handles.destroy, if_pos (Handles.mem_ids.mpr ⟨mr, live, rfl⟩), unused, if_neg (by simp)]
      rw [Handles.remove, List.mem_filter, decide_eq_true_iff, Ne, Ne, Option.some_inj, eq_comm (a := mr.id)]
  have other (u : VerbsTable) (within : u.live ⊆ t.live) : ∀ o ∈ u.live, ∀ g, o.kind = .mr (some g) → o.id ∉ r.body := by
    intro o member g covers among
    have plain := owns.wired.plain o (within member) among
    rw [covers] at plain
    cases plain
  have both (a b : List Nat) (t : VerbsTable) :
      Handles.destroyAll (a ++ b) t = Handles.destroyAll b (Handles.destroyAll a t) := List.foldl_append
  have rest : SameRegions (Handles.destroyAll r.localMr.toList t) (r.shutdown t).2 := by
    rw [shutdown_verbs, both r.localMr.toList, ← both r.cq.toList]
    have within := Handles.live_destroyAll_subset r.localMr.toList t
    generalize Handles.destroyAll r.localMr.toList t = t₁ at within ⊢
    have pairs : SameRegions t₁ (Handles.destroyAll (r.qps.filterMap id) t₁) :=
      sameRegions_destroyAll fun o member g covers among =>
        other t₁ within o member g covers (List.mem_append_left _ among)
    have within : (Handles.destroyAll (r.qps.filterMap id) t₁).live ⊆ t.live := fun o member =>
      within (Handles.live_destroyAll_subset _ t₁ member)
    generalize Handles.destroyAll (r.qps.filterMap id) t₁ = t₂ at pairs within ⊢
    have queues : SameRegions t₂ (Handles.destroyAll (r.cq.toList ++ r.pd.toList) t₂) :=
      sameRegions_destroyAll fun o member g covers among => other t₂ within o member g covers (r.trunk_subset_body (by
        rw [trunk, ← List.append_assoc]
        exact List.mem_append_left _ among))
    have within : (Handles.destroyAll (r.cq.toList ++ r.pd.toList) t₂).live ⊆ t.live := fun o member =>
      within (Handles.live_destroyAll_subset _ t₂ member)
    generalize Handles.destroyAll (r.cq.toList ++ r.pd.toList) t₂ = t₃ at queues within ⊢
    refine (pairs.trans queues).trans ?_
    cases opened : r.context with
    | none => exact .refl t₃
    | some c =>
      refine sameRegions_close fun o member g covers same => other t₃ within o member g covers (r.trunk_subset_body ?_)
      simp [trunk, opened, same]
  exact (rest o g covers).trans first

end RdmaResources

namespace Lifecycle

/-- Every registration of a region is one of the region the allocator has now. -/
def RegionsCurrent (s : Lifecycle) : Prop := ∀ o ∈ s.verbs.live, ∀ g, o.kind = .mr (some g) → s.region = some g

/-- No runtime is initialized over a transport that has failed with its region registered. -/
def KeepsRegions (s : Lifecycle) : LifecycleInput → Prop
  | .init _ _ => s.initialized = true ∨ ∀ r, s.transport = some r → r.localMr = none
  | _ => True

/-- The registrations of the current region belong to the transport, and regions are numbered
upwards. -/
structure Numbered (s : Lifecycle) : Prop where
  older : ∀ o ∈ s.verbs.live, ∀ g, o.kind = .mr (some g) → g < s.nextRegion
  region : ∀ g, s.region = some g → g < s.nextRegion
  owned : ∀ o ∈ s.verbs.live, ∀ g, o.kind = .mr (some g) → s.region = some g →
    ∃ r, s.transport = some r ∧ r.localMr = some o.id
  live : ∀ r m, s.transport = some r → r.localMr = some m →
    ∃ o ∈ s.verbs.live, o.id = m ∧ ∃ g, o.kind = .mr (some g) ∧ s.region = some g

variable {s : Lifecycle} {lost : List Nat}

/-- What `Init` does to the registrations: at most one is new, of the new region. -/
theorem init_regions (accounted : s.Accounted lost) (down : s.initialized = false) (cfg : Config) (a : InitAnswers) :
    (init cfg a s).2.region = (newAllocator cfg s).region ∧
      (init cfg a s).2.nextRegion = (newAllocator cfg s).nextRegion ∧
      ∃ r, (init cfg a s).2.transport = some r ∧
        (SameRegions s.verbs (init cfg a s).2.verbs ∧ r.localMr = none ∨
          ∃ t args, SameRegions s.verbs t ∧ (newAllocator cfg s).region ≠ none ∧ r.localMr = some t.next ∧
            (init cfg a s).2.verbs.live = (t.create (.mr (newAllocator cfg s).region) args).2.live) := by
  obtain ⟨ledger, mrs⟩ := accounted.down down
  rw [← newAllocator_verbs cfg] at ledger mrs
  obtain ⟨-, unregistered, -⟩ := RdmaResources.init_owns cfg a ledger mrs
  have same := RdmaResources.init_sameRegions cfg a {} (newAllocator cfg s).verbs
  rw [newAllocator_verbs] at same unregistered
  unfold Lifecycle.init
  rw [if_neg (by simp [down])]
  simp only [newAllocator_verbs]
  split
  · rename_i r t opened
    rw [opened] at same unregistered
    have registered := RdmaResources.registerMemoryRegion_regions (t := t) a (newAllocator cfg s).region
      cfg.localRegionSize unregistered
    have ends (r' : RdmaResources) (t' : VerbsTable)
        (ended : (r.registerMemoryRegion a (newAllocator cfg s).region cfg.localRegionSize t).2 = (r', t')) :
        SameRegions s.verbs t' ∧ r'.localMr = none ∨
          ∃ t args, SameRegions s.verbs t ∧ (newAllocator cfg s).region ≠ none ∧ r'.localMr = some t.next ∧
            t'.live = (t.create (.mr (newAllocator cfg s).region) args).2.live := by
      rw [ended] at registered
      rcases registered with ⟨rfl, none⟩ | ⟨given, some, live⟩
      · exact Or.inl ⟨same, none⟩
      · exact Or.inr ⟨t, _, same, given, some, live⟩
    split
    · rename_i r' t' ended
      exact ⟨rfl, rfl, r', rfl, ends r' t' (congrArg Prod.snd ended)⟩
    · rename_i r' t' _ ended
      exact ⟨rfl, rfl, r', rfl, ends r' t' (congrArg Prod.snd ended)⟩
  · rename_i r t _ opened
    rw [opened] at same unregistered
    exact ⟨rfl, rfl, r, rfl, Or.inl ⟨same, unregistered⟩⟩

/-- A new region has a number that no registration has. -/
theorem newAllocator_fresh (cfg : Config) (s : Lifecycle) :
    s.nextRegion ≤ (newAllocator cfg s).nextRegion ∧
      ∀ g, (newAllocator cfg s).region = some g → s.nextRegion ≤ g ∧ g < (newAllocator cfg s).nextRegion := by
  unfold newAllocator
  split
  · exact ⟨Nat.le_refl _, by simp⟩
  · refine ⟨Nat.le_succ _, fun g same => ?_⟩
    obtain rfl := Option.some.inj same
    exact ⟨Nat.le_refl _, Nat.lt_succ_self _⟩

/-- **`Init`** leaves only registrations of the current region if there were none. -/
theorem Numbered.init (numbered : s.Numbered) (accounted : s.Accounted lost) (down : s.initialized = false) (cfg : Config)
    (a : InitAnswers) :
    (Lifecycle.init cfg a s).2.Numbered ∧
      ((Lifecycle.init cfg a s).2.RegionsCurrent ↔ ∀ o ∈ s.verbs.live, ∀ g, o.kind ≠ .mr (some g)) := by
  obtain ⟨region, next, r, transport, made⟩ := init_regions accounted down cfg a
  obtain ⟨more, fresh⟩ := newAllocator_fresh cfg s
  generalize (Lifecycle.init cfg a s).2 = s' at region next transport made ⊢
  have before (o : Object RdmaObject) (member : o ∈ s.verbs.live) (g : Nat) (covers : o.kind = .mr (some g)) :
      s'.region ≠ some g := fun same => by
    have old := numbered.older o member g covers
    have new := fresh g (region ▸ same)
    omega
  have kept (o : Object RdmaObject) (g : Nat) (covers : o.kind = .mr (some g)) (member : o ∈ s.verbs.live) :
      o ∈ s'.verbs.live := by
    rcases made with ⟨same, -⟩ | ⟨t, args, same, -, -, verbs⟩
    · exact (same o g covers).mpr member
    · rw [verbs]
      exact List.mem_cons_of_mem _ ((same o g covers).mpr member)
  have new (o : Object RdmaObject) (g : Nat) (covers : o.kind = .mr (some g)) (member : o ∈ s'.verbs.live) :
      o ∈ s.verbs.live ∨ s'.region = some g ∧ r.localMr = some o.id := by
    rcases made with ⟨same, -⟩ | ⟨t, args, same, -, registered, verbs⟩
    · exact Or.inl ((same o g covers).mp member)
    · rw [verbs] at member
      rcases List.mem_cons.mp member with rfl | old
      · exact Or.inr ⟨region.trans (RdmaObject.mr.inj covers), registered⟩
      · exact Or.inl ((same o g covers).mp old)
  refine ⟨⟨fun o member g covers => ?_, fun g same => ?_, fun o member g covers same => ?_, fun r' m held registered => ?_⟩,
    fun current o member g covers => before o member g covers (current o (kept o g covers member) g covers),
    fun none o member g covers => ?_⟩
  · rw [next]
    rcases new o g covers member with old | ⟨same, -⟩
    · exact Nat.lt_of_lt_of_le (numbered.older o old g covers) more
    · exact (fresh g (region ▸ same)).2
  · rw [next]
    exact (fresh g (region ▸ same)).2
  · rcases new o g covers member with old | ⟨-, registered⟩
    · exact absurd same (before o old g covers)
    · exact ⟨r, transport, registered⟩
  · obtain rfl := Option.some.inj (transport.symm.trans held)
    rcases made with ⟨-, unregistered⟩ | ⟨t, args, -, given, some, verbs⟩
    · rw [unregistered] at registered
      cases registered
    · obtain ⟨g, number⟩ := Option.ne_none_iff_exists'.mp given
      refine ⟨⟨t.next, .mr (Lifecycle.newAllocator cfg s).region, args.filterMap id⟩, ?_,
        Option.some.inj (some.symm.trans registered), g, ?_⟩
      · rw [verbs]
        exact List.mem_cons_self
      · exact ⟨congrArg RdmaObject.mr number, region.trans number⟩
  · rcases new o g covers member with old | ⟨same, -⟩
    · exact absurd covers (none o old g)
    · exact same

/-- Where only registrations of the current region are live, they are the transport's own. -/
theorem Numbered.none_iff (numbered : s.Numbered) :
    (∀ o ∈ s.verbs.live, ∀ g, o.kind ≠ .mr (some g)) ↔
      s.RegionsCurrent ∧ ∀ r, s.transport = some r → r.localMr = none := by
  constructor
  · intro none
    refine ⟨fun o member g covers => absurd covers (none o member g), fun r held => ?_⟩
    cases registered : r.localMr with
    | none => rfl
    | some m =>
      obtain ⟨o, member, -, g, covers, -⟩ := numbered.live r m held registered
      exact absurd covers (none o member g)
  · rintro ⟨current, unregistered⟩ o member g covers
    obtain ⟨r, held, registered⟩ := numbered.owned o member g covers (current o member g covers)
    rw [unregistered r held] at registered
    cases registered

/-- **One step.** -/
theorem Numbered.step (numbered : s.Numbered) (accounted : s.Accounted lost) (input : LifecycleInput) :
    (s.step input).2.Numbered ∧ ((s.step input).2.RegionsCurrent ↔ s.RegionsCurrent ∧ s.KeepsRegions input) := by
  have unchanged (keeps : s.KeepsRegions input) (same : (s.step input).2 = s) :
      (s.step input).2.Numbered ∧ ((s.step input).2.RegionsCurrent ↔ s.RegionsCurrent ∧ s.KeepsRegions input) := by
    rw [same]
    exact ⟨numbered, by simp [keeps]⟩
  cases input with
  | init cfg a =>
    cases up : s.initialized with
    | true => exact unchanged (Or.inl up) (by simp [Lifecycle.step, Lifecycle.init, up])
    | false =>
      obtain ⟨next, current⟩ := numbered.init accounted up cfg a
      refine ⟨next, current.trans (numbered.none_iff.trans ?_)⟩
      simp [KeepsRegions, up]
  | shutdown =>
    cases up : s.initialized with
    | false => exact unchanged trivial (by simp [Lifecycle.step, Lifecycle.shutdown, up])
    | true =>
      obtain ⟨r, held, owns, -⟩ := accounted.up up
      have regions := RdmaResources.shutdown_regions owns fun m registered => by
        obtain ⟨o, member, same, g, covers, -⟩ := numbered.live r m held registered
        exact ⟨o, member, same, by rw [covers]; rfl⟩
      have result : (s.step .shutdown).2 =
          { s with verbs := (r.shutdown s.verbs).2, transport := none, region := none, initialized := false } := by
        simp only [Lifecycle.step, Lifecycle.shutdown, up, Bool.true_eq_false, if_false, held]
      rw [result]
      refine ⟨⟨fun o member g covers => numbered.older o ((regions o covers).mp member).1 g covers, by simp, by simp, by simp⟩,
        fun current => ⟨fun o member g covers => ?_, trivial⟩,
        fun current o member g covers => ?_⟩
      · by_cases registered : r.localMr = some o.id
        · obtain ⟨o', live, same, g', covers', region⟩ := numbered.live r o.id held registered
          obtain rfl := owns.ledger.eq_of_id live member same
          rw [covers] at covers'
          exact Option.some.inj (RdmaObject.mr.inj covers') ▸ region
        · exact absurd (current o ((regions o covers).mpr ⟨member, registered⟩) g covers) (by simp)
      · obtain ⟨old, other⟩ := (regions o covers).mp member
        obtain ⟨r', held', registered⟩ := numbered.owned o old g covers (current.1 o old g covers)
        obtain rfl := Option.some.inj (held.symm.trans held')
        exact absurd registered other
  | transfer call verbs =>
    cases up : s.initialized with
    | false => exact unchanged trivial (by simp [Lifecycle.step, up])
    | true =>
      obtain ⟨r, held, owns, complete⟩ := accounted.up up
      have same := RdmaResources.transfer_sameRegions s.config verbs call owns complete
      have registered : (r.transfer s.config verbs s.verbs call).2.1.localMr = r.localMr := by
        obtain ⟨st, kept⟩ := RdmaResources.transfer_keeps s.config verbs call r s.verbs
        rw [kept]
      simp only [Lifecycle.step, up, held]
      refine ⟨⟨fun o member g covers => numbered.older o ((same o g covers).mp member) g covers, numbered.region,
        fun o member g covers region => ?_, fun r' m held' registered' => ?_⟩,
        fun current => ⟨fun o member g covers => current o ((same o g covers).mpr member) g covers, trivial⟩,
        fun current o member g covers => current.1 o ((same o g covers).mp member) g covers⟩
      · obtain ⟨r', held', mine⟩ := numbered.owned o ((same o g covers).mp member) g covers region
        obtain rfl := Option.some.inj (held.symm.trans held')
        exact ⟨_, rfl, registered.trans mine⟩
      · obtain rfl := Option.some.inj held'
        obtain ⟨o, member, at_m, g, covers, region⟩ := numbered.live r m held (registered.symm.trans registered')
        exact ⟨o, (same o g covers).mpr member, at_m, g, covers, region⟩

end Lifecycle

end LeoMem
