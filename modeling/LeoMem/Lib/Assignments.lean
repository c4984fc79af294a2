import Mathlib.Data.List.Basic
import Mathlib.Data.List.Induction

/-!
# Assignments to slots

A sequence of assignments to slots that do not disturb each other leaves in each slot
what was assigned to it last, whatever the order of the slots.
-/

namespace LeoMem.Lib

section
variable {κ ν σ : Type}

/-- The assignments made one after the other. -/
def assignAll (set : κ → ν → σ → σ) (es : List (κ × ν)) (s : σ) : σ := es.foldl (fun s e => set e.1 e.2 s) s

theorem assignAll_append (set : κ → ν → σ → σ) (es fs : List (κ × ν)) (s : σ) :
    assignAll set (es ++ fs) s = assignAll set fs (assignAll set es s) := List.foldl_append

variable [DecidableEq κ]

/-- What is assigned to `k` last. -/
def lastValue (k : κ) (es : List (κ × ν)) : Option ν :=
  es.foldl (fun found e => if e.1 = k then some e.2 else found) none

theorem lastValue_snoc (k : κ) (es : List (κ × ν)) (e : κ × ν) :
    lastValue k (es ++ [e]) = if e.1 = k then some e.2 else lastValue k es := by
  simp [lastValue, List.foldl_append]

/-- A slot set to what is assigned to it last, if anything is. -/
def setLast (set : κ → ν → σ → σ) (es : List (κ × ν)) (s : σ) (k : κ) : σ :=
  match lastValue k es with
  | none => s
  | some v => set k v s

/-- Each of the slots set once. -/
def settleAll (set : κ → ν → σ → σ) (slots : List κ) (es : List (κ × ν)) (s : σ) : σ := slots.foldl (setLast set es) s

/-- Slots do not disturb each other, and a good value hides the one before it. -/
structure Independent (set : κ → ν → σ → σ) (good : κ → ν → Prop) : Prop where
  apart : ∀ k k' v v' s, k ≠ k' → set k v (set k' v' s) = set k' v' (set k v s)
  hides : ∀ k v v' s, good k v → set k v (set k v' s) = set k v s

variable {set : κ → ν → σ → σ} {good : κ → ν → Prop} {es : List (κ × ν)} {slots : List κ} {k : κ}

theorem Independent.setLast_of_ne (independent : Independent set good) {k' : κ} (ne : k ≠ k') (v : ν) (s : σ) :
    set k v (setLast set es s k') = setLast set es (set k v s) k' := by
  unfold setLast
  split
  · rfl
  · exact independent.apart k k' v _ s ne

/-- An assignment to a slot outside can be made first. -/
theorem Independent.settleAll_of_not_mem (independent : Independent set good) (outside : k ∉ slots) (v : ν) (s : σ) :
    set k v (settleAll set slots es s) = settleAll set slots es (set k v s) := by
  induction slots generalizing s with
  | nil => rfl
  | cons k' slots ih =>
    obtain ⟨ne, rest⟩ := not_or.mp (mt List.mem_cons.mpr outside)
    exact (ih rest _).trans (congrArg (settleAll set slots es) (independent.setLast_of_ne ne v s))

theorem settleAll_nil (slots : List κ) (s : σ) : settleAll set slots [] s = s := by
  induction slots with
  | nil => rfl
  | cons k slots ih => exact ih

/-- Slots that an assignment does not name are set as before. -/
theorem settleAll_snoc_of_not_mem (outside : k ∉ slots) (v : ν) (s : σ) :
    settleAll set slots (es ++ [(k, v)]) s = settleAll set slots es s := by
  refine List.foldl_ext _ _ s fun s k' member => ?_
  have ne : k ≠ k' := fun same => outside (same ▸ member)
  unfold setLast
  rw [lastValue_snoc, if_neg ne]

/-- One more assignment. -/
theorem Independent.settleAll_snoc (independent : Independent set good) (distinct : slots.Nodup) (member : k ∈ slots)
    {v : ν} (accepted : good k v) (s : σ) :
    settleAll set slots (es ++ [(k, v)]) s = set k v (settleAll set slots es s) := by
  induction slots generalizing s with
  | nil => cases member
  | cons k' slots ih =>
    obtain ⟨fresh, distinct⟩ := List.nodup_cons.mp distinct
    change settleAll set slots (es ++ [(k, v)]) (setLast set (es ++ [(k, v)]) s k') =
      set k v (settleAll set slots es (setLast set es s k'))
    have last : setLast set (es ++ [(k, v)]) s k' = if k = k' then set k' v s else setLast set es s k' := by
      unfold setLast
      rw [lastValue_snoc]
      by_cases same : k = k' <;> simp [same]
    by_cases same : k = k'
    · subst same
      rw [last, if_pos rfl, settleAll_snoc_of_not_mem fresh, independent.settleAll_of_not_mem fresh]
      congr 1
      unfold setLast
      split
      · rfl
      · exact (independent.hides k v _ s accepted).symm
    · rw [last, if_neg same]
      rcases List.mem_cons.mp member with here | later
      · exact absurd here same
      · exact ih distinct later _

/-- **Assignments leave in each slot what was assigned to it last.** -/
theorem Independent.assignAll_eq (independent : Independent set good) (distinct : slots.Nodup)
    (named : ∀ e ∈ es, e.1 ∈ slots) (accepted : ∀ e ∈ es, good e.1 e.2) (s : σ) :
    assignAll set es s = settleAll set slots es s := by
  induction es using List.reverseRecOn with
  | nil => exact (settleAll_nil slots s).symm
  | append_singleton es e ih =>
    rw [assignAll_append, ih (fun e member => named e (List.mem_append_left _ member))
      (fun e member => accepted e (List.mem_append_left _ member)),
      independent.settleAll_snoc distinct (named e (by simp)) (accepted e (by simp))]
    rfl

end
end LeoMem.Lib
