import Mathlib.Data.Nat.Notation
import Mathlib.Tactic.Common

/-!
# Loops that need not end

`while (test s) s = step s`, run for a number of tests. A loop ends in a state when
some number of tests is enough to get there (`EndsIn`). There is one rule for each
answer: an invariant with a measure that every round lowers ends the loop in the
invariant (`endsIn_of_measure`), and an invariant under which the test always holds
keeps it going for ever (`whileLoop_of_invariant`).
-/

namespace LeoMem.Lib

universe u
variable {σ : Type u}

/-- The state the loop ends in from `s`, if `fuel` tests are enough. -/
def whileLoop (test : σ → Bool) (step : σ → σ) : ℕ → σ → Option σ
  | 0, _ => none
  | fuel + 1, s => if test s then whileLoop test step fuel (step s) else some s

def EndsIn (test : σ → Bool) (step : σ → σ) (s r : σ) : Prop := ∃ fuel, whileLoop test step fuel s = some r

variable {test : σ → Bool} {step : σ → σ} {s r : σ}

theorem EndsIn.done (stop : test s = false) : EndsIn test step s s := ⟨1, by simp [whileLoop, stop]⟩

theorem EndsIn.round (goes : test s = true) (rest : EndsIn test step (step s) r) : EndsIn test step s r := by
  obtain ⟨fuel, result⟩ := rest
  refine ⟨fuel + 1, ?_⟩
  rw [whileLoop, if_pos goes]
  exact result

/-- **The loop rule.** A loop whose rounds keep `I` and lower `μ` ends, in a state of `I`
that fails the test. -/
theorem endsIn_of_measure {I : σ → Prop} (μ : σ → ℕ)
    (round : ∀ s, I s → test s = true → I (step s) ∧ μ (step s) < μ s) (start : I s) :
    ∃ r, EndsIn test step s r ∧ I r ∧ test r = false := by
  generalize size : μ s = n
  induction n using Nat.strongRecOn generalizing s with
  | ind n ih =>
    cases goes : test s with
    | false => exact ⟨s, .done goes, start, goes⟩
    | true =>
      obtain ⟨kept, lower⟩ := round s start goes
      obtain ⟨r, ends, result⟩ := ih (μ (step s)) (size ▸ lower) kept rfl
      exact ⟨r, .round goes ends, result⟩

theorem whileLoop_of_invariant {I : σ → Prop} (goes : ∀ s, I s → test s = true) (round : ∀ s, I s → I (step s))
    (start : I s) (fuel : ℕ) : whileLoop test step fuel s = none := by
  induction fuel generalizing s with
  | zero => rfl
  | succ fuel ih =>
    rw [whileLoop, if_pos (goes s start)]
    exact ih (round s start)

end LeoMem.Lib
