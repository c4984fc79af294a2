import Mathlib.Data.List.Basic
import Mathlib.Data.Option.Basic

/-!
# Patches and patch logs

A patch replaces some values of a total map. A log of patches is applied in
order, so at each point the last patch that covers it wins (`last`). Absorbing a
new patch into an entry in the middle of a log is the same as appending it
exactly when the entries behind that one leave the new patch's own values
(`absorb_eq_append_iff`).
-/

namespace LeoMem.Lib

/-- A partial map; where it is defined it replaces the value under it. -/
abbrev Patch (α β : Type) := α → Option β

namespace Patch
variable {α β : Type}

def apply (p : Patch α β) (m : α → β) : α → β := fun x => (p x).getD (m x)

/-- `w` laid over `p`. -/
def overlay (w p : Patch α β) : Patch α β := fun x => (w x).or (p x)

def applyAll (ps : List (Patch α β)) (m : α → β) : α → β := ps.foldl (fun m p => p.apply m) m

/-- The value that the last patch covering `x` puts there. -/
def last : List (Patch α β) → Patch α β
  | [], _ => none
  | p :: ps, x => (last ps x).or (p x)

variable (front back : List (Patch α β)) (p : Patch α β) (ps qs : List (Patch α β)) (w : Patch α β) (x : α)

@[simp] theorem last_nil : last ([] : List (Patch α β)) x = none := rfl

@[simp] theorem last_cons : last (p :: ps) x = (last ps x).or (p x) := rfl

theorem last_append : last (ps ++ qs) x = (last qs x).or (last ps x) := by
  induction ps with
  | nil => simp
  | cons p ps ih => simp [ih, Option.or_assoc]

theorem apply_overlay (w p : Patch α β) (m : α → β) : (overlay w p).apply m = w.apply (p.apply m) := by
  funext x
  unfold apply overlay
  cases w x <;> rfl

theorem applyAll_append (m : α → β) : applyAll (ps ++ qs) m = applyAll qs (applyAll ps m) := List.foldl_append

/-- Applying a log reads its last value, and the map below where it has none. -/
theorem applyAll_eq (m : α → β) (x : α) : applyAll ps m x = (last ps x).getD (m x) := by
  induction ps generalizing m with
  | nil => rfl
  | cons p ps ih =>
    change applyAll ps (p.apply m) x = _
    rw [ih, last_cons]
    cases last ps x <;> rfl

/-- Two logs apply alike from every map exactly when their last values agree. -/
theorem applyAll_eq_iff :
    (∀ m, applyAll ps m = applyAll qs m) ↔
      ∀ (m : α → β) (x : α), (last ps x).getD (m x) = (last qs x).getD (m x) := by
  simp only [funext_iff, applyAll_eq]

theorem last_isSome {ps : List (Patch α β)} {x : α} {b : β} (h : last ps x = some b) :
    ∃ p ∈ ps, p x = some b := by
  induction ps with
  | nil => cases h
  | cons p ps ih =>
    rw [last_cons, Option.or_eq_some_iff] at h
    rcases h with h | ⟨-, h⟩
    · obtain ⟨q, member, value⟩ := ih h
      exact ⟨q, List.mem_cons_of_mem _ member, value⟩
    · exact ⟨p, List.mem_cons_self, h⟩

theorem last_eq_none_iff {ps : List (Patch α β)} {x : α} : last ps x = none ↔ ∀ p ∈ ps, p x = none := by
  induction ps with
  | nil => simp
  | cons p ps ih => simp [ih, and_comm]

/-- Wherever both are defined, `p` has `w`'s value. -/
def Agrees (p w : Patch α β) : Prop := ∀ x b c, w x = some b → p x = some c → c = b

theorem agrees_of_none {p w : Patch α β} (apart : ∀ x b, w x = some b → p x = none) : Agrees p w := by
  intro x b c at_w at_p
  rw [apart x b at_w] at at_p
  cases at_p

theorem agrees_self : Agrees w w := by
  intro x b c at_w at_w'
  exact Option.some.inj (at_w'.symm.trans at_w)

theorem Agrees.overlay {p q w : Patch α β} (agreesQ : Agrees q w) (agreesP : Agrees p w) : Agrees (overlay q p) w := by
  intro x b c at_w at_over
  rcases Option.or_eq_some_iff.mp at_over with at_q | ⟨-, at_p⟩
  · exact agreesQ x b c at_w at_q
  · exact agreesP x b c at_w at_p

/-- Laying agreeing patches over a map keeps `w`'s values in it, and one that covers a point
of `w` puts `w`'s value there. -/
theorem applyAll_of_agrees {ps : List (Patch α β)} {w : Patch α β} (agrees : ∀ p ∈ ps, Agrees p w) {m : α → β}
    {x : α} {b : β} (at_w : w x = some b) (held : m x = b ∨ ∃ p ∈ ps, p x = some b) : applyAll ps m x = b := by
  rw [applyAll_eq]
  cases value : last ps x with
  | some c =>
    obtain ⟨p, member, at_p⟩ := last_isSome value
    exact agrees p member x b c at_w at_p
  | none =>
    rcases held with old | ⟨p, member, at_p⟩
    · exact old
    · rw [last_eq_none_iff.mp value p member] at at_p
      cases at_p

/-- The value a log with `w` absorbed into the entry `p` has at `x`, against the log
with `w` appended. -/
theorem last_absorb : last (front ++ overlay w p :: back) x = (last back x).or ((w x).or ((p x).or (last front x))) := by
  simp [last_append, overlay, Option.or_assoc]

theorem last_snoc : last (front ++ p :: back ++ [w]) x = (w x).or ((last back x).or ((p x).or (last front x))) := by
  simp [last_append, Option.or_assoc]

/-- **Absorbing is appending** exactly when the entries behind the absorbing one leave
`w`'s own value wherever `w` is defined and they are too. -/
theorem absorb_eq_append_iff :
    (∀ m, applyAll (front ++ overlay w p :: back) m = applyAll (front ++ p :: back ++ [w]) m) ↔
      ∀ x b c, w x = some b → last back x = some c → c = b := by
  rw [applyAll_eq_iff]
  constructor
  · intro same x b c new stale
    have value := same (fun _ => b) x
    rw [last_absorb, last_snoc, new, stale] at value
    simpa using value
  · intro agree m x
    rw [last_absorb, last_snoc]
    cases new : w x with
    | none => simp
    | some b =>
      cases stale : last back x with
      | none => simp
      | some c => simp [agree x b c new stale]

end Patch
end LeoMem.Lib
