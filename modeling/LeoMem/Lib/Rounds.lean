import LeoMem.Lib.Run

/-!
# Agents that move in rounds

The inputs of a system are moves of agents. A weight is raised by no move and lowered
by the move of an agent that is ready, and an agent stays ready until it moves. Then a
stretch of a run in which a ready agent moves lowers the weight; and if some agent is
ready as long as there is weight, rounds in which every agent moves use it up.
-/

namespace LeoMem.Lib

universe u v w x
variable {σ : Type u} {ι : Type v} {ρ : Type w} {κ : Type x} {step : σ → ι → ρ × σ} {guard : σ → ι → Prop}
  {agent : ι → κ} {Inv : σ → Prop} {μ : σ → Nat} {Ready : σ → κ → Prop}

/-- Guarded moves keep `Inv`, never raise the weight `μ`, and lower it where the agent is ready; an
agent that is ready stays so while others move. -/
structure Progresses (step : σ → ι → ρ × σ) (guard : σ → ι → Prop) (agent : ι → κ) (Inv : σ → Prop) (μ : σ → Nat)
    (Ready : σ → κ → Prop) : Prop where
  keeps : ∀ s i, guard s i → Inv s → Inv (step s i).2
  weight : ∀ s i, guard s i → Inv s → μ (step s i).2 ≤ μ s
  moves : ∀ s i, guard s i → Inv s → Ready s (agent i) → μ (step s i).2 < μ s
  stays : ∀ s i a, guard s i → Inv s → agent i ≠ a → Ready s a → Ready (step s i).2 a

/-- **One stretch of a run**: the weight does not grow, and it falls if an agent that is ready at the
start moves. -/
theorem Progresses.stretch (progresses : Progresses step guard agent Inv μ Ready) {s : σ} {is : List ι}
    (along : Along step guard s is) (inv : Inv s) :
    Inv (run step s is).2 ∧ μ (run step s is).2 ≤ μ s ∧
      ∀ a, Ready s a → a ∈ is.map agent → μ (run step s is).2 < μ s := by
  induction is generalizing s with
  | nil => exact ⟨inv, Nat.le_refl _, fun a _ member => by cases member⟩
  | cons i is ih =>
    obtain ⟨here, later⟩ := along
    obtain ⟨kept, less, strict⟩ := ih later (progresses.keeps s i here inv)
    have first := progresses.weight s i here inv
    refine ⟨kept, Nat.le_trans less first, fun a ready member => ?_⟩
    by_cases this : agent i = a
    · exact Nat.lt_of_le_of_lt less (progresses.moves s i here inv (this ▸ ready))
    · have rest := (List.mem_cons.mp member).resolve_left (Ne.symm this)
      exact Nat.lt_of_lt_of_le (strict a (progresses.stays s i a here inv this ready) rest) first

/-- **Rounds use the weight up**: as long as there is weight some agent is ready, and every round has a
move of every agent. -/
theorem Progresses.rounds (progresses : Progresses step guard agent Inv μ Ready) {agents : List κ}
    (enabled : ∀ s, Inv s → μ s ≠ 0 → ∃ a ∈ agents, Ready s a) {rounds : List (List ι)}
    (full : ∀ round ∈ rounds, ∀ a ∈ agents, a ∈ round.map agent) {s : σ} (along : Along step guard s rounds.flatten)
    (inv : Inv s) :
    Inv (run step s rounds.flatten).2 ∧ μ (run step s rounds.flatten).2 ≤ μ s - rounds.length := by
  induction rounds generalizing s with
  | nil => exact ⟨inv, Nat.le_refl _⟩
  | cons round rounds ih =>
    rw [List.flatten_cons, along_append] at along
    obtain ⟨kept, less, strict⟩ := progresses.stretch along.1 inv
    obtain ⟨after, rest⟩ := ih (fun r member => full r (List.mem_cons_of_mem _ member)) along.2 kept
    rw [List.flatten_cons, run_append]
    refine ⟨after, Nat.le_trans rest ?_⟩
    rw [List.length_cons]
    by_cases none : μ s = 0
    · omega
    · obtain ⟨a, member, ready⟩ := enabled s inv none
      have fell := strict a ready (full round List.mem_cons_self a member)
      omega

end LeoMem.Lib
