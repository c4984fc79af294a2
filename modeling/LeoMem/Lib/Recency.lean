import Mathlib.Data.List.Infix
import Mathlib.Data.List.Nodup

/-!
# Lists ordered by use

Keyed entries from the most to the least recently used one. An entry that is used
moves to the front and leaves the order of the others (`without`); entries dropped
from the end until a condition holds leave the longest prefix that meets it
(`LongestPrefix`).
-/

namespace LeoMem.Lib

section
variable {α : Type} {P : List α → Prop} {kept l : List α}

/-- `kept` is the longest prefix of `l` that meets `P`. -/
structure LongestPrefix (P : List α → Prop) (kept l : List α) : Prop where
  initial : kept <+: l
  meets : P kept
  longest : ∀ other, other <+: l → P other → other <+: kept

theorem LongestPrefix.whole (meets : P l) : LongestPrefix P l l :=
  ⟨List.prefix_rfl, meets, fun _ initial _ => initial⟩

/-- One more entry at the end changes nothing where the whole list does not meet the condition. -/
theorem LongestPrefix.of_concat {last : α} (rest : LongestPrefix P kept l) (fails : ¬ P (l ++ [last])) :
    LongestPrefix P kept (l ++ [last]) := by
  refine ⟨rest.initial.trans (List.prefix_append l [last]), rest.meets, fun other initial meets => ?_⟩
  rcases List.prefix_concat_iff.mp initial with same | shorter
  · exact absurd (same ▸ meets) fails
  · exact rest.longest other shorter meets

end

section
variable {ι κ ν : Type} {key : ι → κ} {value : κ → Option ν}

/-- The entries that a list of nodes stands for: each node's key with its value. -/
def entriesAt (key : ι → κ) (value : κ → Option ν) (nodes : List ι) : List (κ × ν) :=
  nodes.filterMap fun node => (value (key node)).map fun v => (key node, v)

theorem entriesAt_nil : entriesAt key value [] = [] := rfl

theorem entriesAt_append (front back : List ι) :
    entriesAt key value (front ++ back) = entriesAt key value front ++ entriesAt key value back :=
  List.filterMap_append

theorem entriesAt_cons {node : ι} {v : ν} (found : value (key node) = some v) (nodes : List ι) :
    entriesAt key value (node :: nodes) = (key node, v) :: entriesAt key value nodes := by
  simp [entriesAt, found]

theorem entriesAt_congr {other : κ → Option ν} {nodes : List ι} (same : ∀ node ∈ nodes, value (key node) = other (key node)) :
    entriesAt key value nodes = entriesAt key other nodes :=
  List.filterMap_congr fun node member => by rw [same node member]

/-- Where every node has a value the keys are those of the nodes. -/
theorem map_fst_entriesAt {nodes : List ι} (found : ∀ node ∈ nodes, (value (key node)).isSome) :
    (entriesAt key value nodes).map Prod.fst = nodes.map key := by
  induction nodes with
  | nil => rfl
  | cons node nodes ih =>
    obtain ⟨v, here⟩ := Option.isSome_iff_exists.mp (found node List.mem_cons_self)
    rw [entriesAt_cons here, List.map_cons, List.map_cons, ih fun other member => found other (List.mem_cons_of_mem _ member)]

theorem mem_entriesAt {nodes : List ι} {k : κ} {v : ν} :
    (k, v) ∈ entriesAt key value nodes ↔ (∃ node ∈ nodes, key node = k) ∧ value k = some v := by
  unfold entriesAt
  rw [List.mem_filterMap]
  constructor
  · rintro ⟨node, member, found⟩
    obtain ⟨w, here, same⟩ := Option.map_eq_some_iff.mp found
    obtain ⟨rfl, rfl⟩ := Prod.mk.inj same
    exact ⟨⟨node, member, rfl⟩, here⟩
  · rintro ⟨⟨node, member, rfl⟩, found⟩
    exact ⟨node, member, by simp [found]⟩

theorem entriesAt_filter (p : κ → Bool) (nodes : List ι) :
    entriesAt key value (nodes.filter fun node => p (key node)) = (entriesAt key value nodes).filter fun e => p e.1 := by
  induction nodes with
  | nil => rfl
  | cons node nodes ih =>
    cases found : value (key node) with
    | none =>
      have skip : ∀ rest, entriesAt key value (node :: rest) = entriesAt key value rest := fun rest => by
        simp [entriesAt, found]
      rw [skip, ← ih, List.filter_cons]
      split
      · exact skip _
      · rfl
    | some v =>
      rw [entriesAt_cons found, List.filter_cons, List.filter_cons, ← ih]
      split
      · exact entriesAt_cons found _
      · rfl

/-- The entries of the other keys, in their order. -/
def without [DecidableEq κ] (k : κ) (l : List (κ × ν)) : List (κ × ν) := l.filter fun e => e.1 ≠ k

end
end LeoMem.Lib
