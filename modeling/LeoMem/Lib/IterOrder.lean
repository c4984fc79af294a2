import Mathlib.Algebra.GroupWithZero.Nat
import Mathlib.Data.List.AList

/-!
# Iteration over a hash map

A hash map is an association list with distinct keys. The order in which a loop
meets its entries is not specified: each loop asks an `IterOrder` for one, and it
may be any permutation of the entries.
-/

namespace LeoMem.Lib

/-- The order one pass over a hash map takes its entries in. -/
structure IterOrder where
  arrange : {α : Type} → List α → List α
  perm : ∀ {α : Type} (l : List α), (arrange l).Perm l

namespace IterOrder

/-- The entries as they are stored. -/
def stored : IterOrder := ⟨fun l => l, fun l => List.Perm.refl l⟩

variable {α : Type} (ord : IterOrder)

@[simp] theorem mem_arrange {l : List α} {a : α} : a ∈ ord.arrange l ↔ a ∈ l := (ord.perm l).mem_iff

@[simp] theorem arrange_nil : ord.arrange ([] : List α) = [] := List.perm_nil.mp (ord.perm [])

end IterOrder

variable {κ ν : Type} [DecidableEq κ]

/-- A hash map from keys to values. -/
abbrev HashMap (κ ν : Type) := AList fun _ : κ => ν

theorem HashMap.mem_entries {m : HashMap κ ν} {e : Sigma fun _ : κ => ν} :
    e ∈ m.entries ↔ m.lookup e.1 = some e.2 := AList.mem_lookup_iff.symm

/-- An entry met in any order is the one its key looks up. -/
theorem HashMap.lookup_of_mem_arrange {ord : IterOrder} {m : HashMap κ ν} {e : Sigma fun _ : κ => ν}
    (member : e ∈ ord.arrange m.entries) : m.lookup e.1 = some e.2 :=
  HashMap.mem_entries.mp (ord.mem_arrange.mp member)

theorem HashMap.lookup_insert_if (m : HashMap κ ν) (a k : κ) (v : ν) :
    (m.insert a v).lookup k = if k = a then some v else m.lookup k := by
  split
  · rename_i same
    rw [same, AList.lookup_insert]
  · rename_i other
    exact AList.lookup_insert_ne other

theorem HashMap.lookup_erase_if (m : HashMap κ ν) (a k : κ) :
    (m.erase a).lookup k = if k = a then none else m.lookup k := by
  split
  · rename_i same
    rw [same, AList.lookup_erase]
  · rename_i other
    exact AList.lookup_erase_ne other

theorem HashMap.erase_of_absent {m : HashMap κ ν} {k : κ} (absent : m.lookup k = none) : m.erase k = m :=
  AList.ext (List.kerase_of_notMem_keys (AList.lookup_eq_none.mp absent))

/-- The sum of a measure over the entries. -/
def HashMap.total (f : (Sigma fun _ : κ => ν) → Nat) (m : HashMap κ ν) : Nat := (m.entries.map f).sum

theorem HashMap.total_insert (f : (Sigma fun _ : κ => ν) → Nat) (m : HashMap κ ν) (k : κ) (v : ν) :
    HashMap.total f (m.insert k v) = f ⟨k, v⟩ + HashMap.total f (m.erase k) := rfl

theorem HashMap.total_erase (f : (Sigma fun _ : κ => ν) → Nat) {m : HashMap κ ν} {k : κ} {v : ν}
    (found : m.lookup k = some v) : HashMap.total f (m.erase k) + f ⟨k, v⟩ = HashMap.total f m := by
  obtain ⟨w, front, back, fresh, entries, erased⟩ :=
    List.exists_of_kerase (AList.lookup_isSome.mp (Option.isSome_of_eq_some found))
  have same : w = v := by
    have here : (⟨k, w⟩ : Sigma fun _ : κ => ν) ∈ m.entries := entries ▸ by simp
    exact Option.some.inj ((HashMap.mem_entries.mp here).symm.trans found)
  change ((List.kerase k m.entries).map f).sum + _ = (m.entries.map f).sum
  rw [erased, entries, same]
  simp only [List.map_append, List.map_cons, List.sum_append, List.sum_cons]
  omega

end LeoMem.Lib
