import Mathlib.Data.List.Nodup
import Mathlib.Data.List.Perm.Basic

/-!
# Handles and who holds them

Objects that are created and destroyed through handles, as a driver hands them out. Calling
a verb on a handle that is null or not live is a misuse, and so is giving one back. An object
may use others; giving back one that is in use undercuts those that use it.

`Ledger` says where the live handles are: some are held by the program, the others are
lost, so that nobody will give them back. The rules below say what creating and destroying
do to it. A program all of whose steps keep a ledger misuses no handle, and it leaves
nothing behind exactly when nothing is held or lost.
-/

namespace LeoMem.Lib

/-- An object that exists, and the handles it uses. -/
structure Object (κ : Type) where
  id : Nat
  kind : κ
  uses : List Nat
  deriving DecidableEq

structure Handles (κ : Type) where
  live : List (Object κ) := []
  next : Nat := 0
  /-- A verb has been called on a handle that is null or not live. -/
  misused : Bool := false
  /-- A handle has been given back while another object used its object. -/
  undercut : Bool := false

namespace Handles
variable {κ : Type}

def ids (t : Handles κ) : List Nat := t.live.map Object.id

/-- A verb is called with these handles. -/
def use (t : Handles κ) (args : List (Option Nat)) : Handles κ :=
  { t with misused := t.misused || !args.all fun a => a.any fun h => decide (h ∈ t.ids) }

/-- A verb that is called with `args` creates an object, which uses them from then on. -/
def create (t : Handles κ) (kind : κ) (args : List (Option Nat)) : Nat × Handles κ :=
  (t.next, { t.use args with live := ⟨t.next, kind, args.filterMap id⟩ :: t.live, next := t.next + 1 })

def remove (t : Handles κ) (h : Nat) : Handles κ := { t with live := t.live.filter fun o => o.id ≠ h }

/-- Some object uses `h`. -/
def inUse (t : Handles κ) (h : Nat) : Bool := t.live.any fun o => decide (h ∈ o.uses)

/-- Destroys an object that no other uses. One in use stays. -/
def destroy (t : Handles κ) (h : Nat) : Handles κ :=
  if h ∈ t.ids then if t.inUse h then { t with undercut := true } else t.remove h else { t with misused := true }

/-- Closes an object whatever uses it. -/
def close (t : Handles κ) (h : Nat) : Handles κ :=
  if h ∈ t.ids then { t.remove h with undercut := t.undercut || t.inUse h } else { t with misused := true }

/-- The live handles are those the program holds and those that are lost; none has been misused, and
`undercut` says whether one has been given back in use. -/
structure Ledger (t : Handles κ) (held lost : List Nat) (undercut : Bool) : Prop where
  account : t.ids.Perm (held ++ lost)
  nodup : t.ids.Nodup
  older : ∀ o ∈ t.live, o.id < t.next
  usesOlder : ∀ o ∈ t.live, ∀ u ∈ o.uses, u < o.id
  proper : t.misused = false
  noted : t.undercut = undercut

/-- A verb is given handles from `held` only. -/
def Among (args : List (Option Nat)) (held : List Nat) : Prop := ∀ a ∈ args, ∃ h ∈ held, a = some h

@[simp] theorem among_nil (held : List Nat) : Among [] held := fun _ member => (by cases member)

@[simp] theorem among_cons (a : Option Nat) (args : List (Option Nat)) (held : List Nat) :
    Among (a :: args) held ↔ (∃ h ∈ held, a = some h) ∧ Among args held := List.forall_mem_cons

theorem Among.mono {args : List (Option Nat)} {held held' : List Nat} (among : Among args held) (subset : held ⊆ held') :
    Among args held' := fun a member => by
  obtain ⟨h, known, same⟩ := among a member
  exact ⟨h, subset known, same⟩

theorem Among.uses {args : List (Option Nat)} {held : List Nat} (among : Among args held) : args.filterMap id ⊆ held := by
  intro u used
  obtain ⟨a, member, same⟩ := List.mem_filterMap.mp used
  obtain ⟨h, known, rfl⟩ := among a member
  exact Option.some.inj same ▸ known

variable {t : Handles κ} {held lost : List Nat} {undercut : Bool} {h : Nat}

theorem mem_ids {h : Nat} : h ∈ t.ids ↔ ∃ o ∈ t.live, o.id = h := List.mem_map

theorem ids_remove (t : Handles κ) (h : Nat) : (t.remove h).ids = t.ids.filter fun i => i ≠ h := by
  unfold ids remove
  rw [List.filter_map]
  rfl

theorem Ledger.mem (ledger : Ledger t held lost undercut) {u : Nat} (among : u ∈ held) : u ∈ t.ids :=
  ledger.account.mem_iff.mpr (List.mem_append_left _ among)

theorem Ledger.next_notMem_ids (ledger : Ledger t held lost undercut) : t.next ∉ t.ids := by
  intro among
  obtain ⟨o, member, same⟩ := mem_ids.mp among
  have older := ledger.older o member
  rw [same] at older
  exact absurd older (Nat.lt_irrefl _)

/-- No object uses a handle that is yet to be given out. -/
theorem Ledger.next_unused (ledger : Ledger t held lost undercut) : ∀ o ∈ t.live, t.next ∉ o.uses :=
  fun o member used => Nat.lt_asymm (ledger.usesOlder o member _ used) (ledger.older o member)

theorem Ledger.eq_of_id (ledger : Ledger t held lost undercut) {o o' : Object κ} (live : o ∈ t.live) (live' : o' ∈ t.live)
    (same : o.id = o'.id) : o = o' := List.inj_on_of_nodup_map ledger.nodup live live' same

theorem Ledger.held_nodup (ledger : Ledger t held lost undercut) : held.Nodup :=
  (List.nodup_append.mp (ledger.account.nodup_iff.mp ledger.nodup)).1

theorem Ledger.notMem_held (ledger : Ledger t held lost undercut) {u : Nat} (gone : u ∈ lost) : u ∉ held :=
  fun mine => (List.nodup_append.mp (ledger.account.nodup_iff.mp ledger.nodup)).2.2 u mine u gone rfl

theorem Ledger.perm (ledger : Ledger t held lost undercut) {held' : List Nat} (same : held.Perm held') :
    Ledger t held' lost undercut :=
  { ledger with account := ledger.account.trans (same.append_right lost) }

/-- What is held is given up. -/
theorem Ledger.lose (ledger : Ledger t held lost undercut) : Ledger t [] (held ++ lost) undercut :=
  { ledger with account := ledger.account }

/-- **A verb is called** with held handles. -/
theorem Ledger.use (ledger : Ledger t held lost undercut) {args : List (Option Nat)} (known : Among args held) :
    Ledger (t.use args) held lost undercut where
  account := ledger.account
  nodup := ledger.nodup
  older := ledger.older
  usesOlder := ledger.usesOlder
  proper := by
    have all : (args.all fun a => a.any fun h => decide (h ∈ t.ids)) = true := by
      refine List.all_eq_true.mpr fun a member => ?_
      obtain ⟨h, among, rfl⟩ := known a member
      exact decide_eq_true (ledger.mem among)
    simp [Handles.use, ledger.proper, all]
  noted := ledger.noted

/-- **A new object**, which uses held ones. -/
theorem Ledger.create (ledger : Ledger t held lost undercut) (kind : κ) {args : List (Option Nat)} (known : Among args held) :
    Ledger (t.create kind args).2 (t.next :: held) lost undercut where
  account := ledger.account.cons t.next
  nodup := List.nodup_cons.mpr ⟨ledger.next_notMem_ids, ledger.nodup⟩
  older o member := by
    rcases List.mem_cons.mp member with rfl | old
    · exact Nat.lt_succ_self _
    · exact Nat.lt_succ_of_lt (ledger.older o old)
  usesOlder o member u used := by
    rcases List.mem_cons.mp member with rfl | old
    · obtain ⟨o, among, rfl⟩ := mem_ids.mp (ledger.mem (known.uses used))
      exact ledger.older o among
    · exact ledger.usesOlder o old u used
  proper := (ledger.use known).proper
  noted := ledger.noted

theorem Ledger.remove (ledger : Ledger t (h :: held) lost undercut) : Ledger (t.remove h) held lost undercut where
  account := by
    have nodup := (ledger.account.nodup_iff.mp ledger.nodup)
    rw [List.cons_append, List.nodup_cons] at nodup
    rw [ids_remove]
    refine (ledger.account.filter _).trans ?_
    rw [List.cons_append, List.filter_cons_of_neg (by simp), List.filter_eq_self.mpr]
    intro i among
    simpa using fun same : i = h => nodup.1 (same ▸ among)
  nodup := by
    rw [ids_remove]
    exact ledger.nodup.filter _
  older o member := ledger.older o (List.mem_of_mem_filter member)
  usesOlder o member := ledger.usesOlder o (List.mem_of_mem_filter member)
  proper := ledger.proper
  noted := ledger.noted

theorem live_close_subset (t : Handles κ) (h : Nat) : (t.close h).live ⊆ t.live := by
  unfold Handles.close
  split
  · exact List.filter_subset_self _
  · exact List.Subset.refl _

/-- **A held object is closed**, whether or not another uses it. -/
theorem Ledger.close (ledger : Ledger t (h :: held) lost undercut) :
    Ledger (t.close h) held lost (undercut || t.inUse h) := by
  unfold Handles.close
  rw [if_pos (ledger.mem List.mem_cons_self)]
  exact { ledger.remove with noted := congrArg (· || t.inUse h) ledger.noted }

theorem live_destroy_subset (t : Handles κ) (h : Nat) : (t.destroy h).live ⊆ t.live := by
  unfold Handles.destroy
  split
  · split
    · exact List.Subset.refl _
    · exact List.filter_subset_self _
  · exact List.Subset.refl _

theorem mem_live_destroy {o : Object κ} (live : o ∈ t.live) (other : o.id ≠ h) : o ∈ (t.destroy h).live := by
  unfold Handles.destroy
  split
  · split
    · exact live
    · exact List.mem_filter.mpr ⟨live, by simpa using other⟩
  · exact live

theorem inUse_eq_false (free : ∀ o ∈ t.live, h ∉ o.uses) : t.inUse h = false := by simpa [inUse] using free

/-- **A held object is given back in use**: it is lost. -/
theorem Ledger.destroy_used (ledger : Ledger t (h :: held) lost undercut) (used : t.inUse h = true) :
    Ledger (t.destroy h) held (h :: lost) true := by
  unfold Handles.destroy
  rw [if_pos (ledger.mem List.mem_cons_self), if_pos used]
  exact { ledger with account := ledger.account.trans List.perm_middle.symm, noted := rfl }

/-- **One that nothing uses is destroyed.** -/
theorem Ledger.destroy_unused (ledger : Ledger t (h :: held) lost undercut) (free : ∀ o ∈ t.live, h ∉ o.uses) :
    Ledger (t.destroy h) held lost undercut := by
  unfold Handles.destroy
  rw [if_pos (ledger.mem List.mem_cons_self), inUse_eq_false free]
  exact ledger.remove

def destroyAll (hs : List Nat) (t : Handles κ) : Handles κ := hs.foldl destroy t

theorem live_destroyAll_subset (hs : List Nat) (t : Handles κ) : (destroyAll hs t).live ⊆ t.live := by
  induction hs generalizing t with
  | nil => exact List.Subset.refl _
  | cons h hs ih => exact fun o member => live_destroy_subset t h (ih (t.destroy h) member)

theorem mem_live_destroyAll {hs : List Nat} {o : Object κ} (live : o ∈ t.live) (other : o.id ∉ hs) :
    o ∈ (destroyAll hs t).live := by
  induction hs generalizing t with
  | nil => exact live
  | cons h hs ih =>
    obtain ⟨first, rest⟩ := List.ne_and_not_mem_of_not_mem_cons other
    exact ih (mem_live_destroy live first) rest

/-- **Held objects that nothing uses are given back** one after the other. -/
theorem Ledger.destroyAll_unused {hs : List Nat} (ledger : Ledger t (hs ++ held) lost undercut)
    (free : ∀ o ∈ t.live, ∀ h ∈ hs, h ∉ o.uses) : Ledger (Handles.destroyAll hs t) held lost undercut := by
  induction hs generalizing t with
  | nil => exact ledger
  | cons h hs ih =>
    exact ih (ledger.destroy_unused fun o member => free o member h List.mem_cons_self) fun o member h' among =>
      free o (live_destroy_subset t h member) h' (List.mem_cons_of_mem _ among)

end Handles
end LeoMem.Lib
