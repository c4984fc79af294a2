import Mathlib.Data.List.Basic

/-!
# Runs of a deterministic system

A system takes one input at a time and answers each with an output. `run`
collects the outputs of a list of inputs; `Along` says that every step of the
run meets a guard in the state it starts from. The rules below carry a step
lemma to the whole run: an invariant, an invariant that only guarded steps keep,
and two systems whose outputs agree step by step.
-/

namespace LeoMem.Lib

universe u v w x
variable {σ : Type u} {τ : Type v} {ι : Type w} {ρ : Type x}

/-- Outputs and final state of the inputs `is` from `s`. -/
def run (step : σ → ι → ρ × σ) : σ → List ι → List ρ × σ
  | s, [] => ([], s)
  | s, i :: is =>
    let r := step s i
    let t := run step r.2 is
    (r.1 :: t.1, t.2)

/-- Every step of the run meets `guard` in the state it starts from. -/
def Along (step : σ → ι → ρ × σ) (guard : σ → ι → Prop) : σ → List ι → Prop
  | _, [] => True
  | s, i :: is => guard s i ∧ Along step guard (step s i).2 is

variable {step : σ → ι → ρ × σ} {guard : σ → ι → Prop}

@[simp] theorem run_nil (s : σ) : run step s [] = ([], s) := rfl

@[simp] theorem run_cons (s : σ) (i : ι) (is : List ι) :
    run step s (i :: is) = ((step s i).1 :: (run step (step s i).2 is).1, (run step (step s i).2 is).2) := rfl

@[simp] theorem along_nil (s : σ) : Along step guard s [] := trivial

@[simp] theorem along_cons (s : σ) (i : ι) (is : List ι) :
    Along step guard s (i :: is) ↔ guard s i ∧ Along step guard (step s i).2 is := Iff.rfl

instance decidableAlong [∀ s i, Decidable (guard s i)] : ∀ (s : σ) (is : List ι), Decidable (Along step guard s is)
  | _, [] => .isTrue trivial
  | s, i :: is =>
    have := decidableAlong (step s i).2 is
    inferInstanceAs (Decidable (_ ∧ _))

theorem run_append (s : σ) (is js : List ι) :
    run step s (is ++ js) =
      ((run step s is).1 ++ (run step (run step s is).2 js).1, (run step (run step s is).2 js).2) := by
  induction is generalizing s with
  | nil => simp
  | cons i is ih => simp [ih]

theorem along_append (s : σ) (is js : List ι) :
    Along step guard s (is ++ js) ↔ Along step guard s is ∧ Along step guard (run step s is).2 js := by
  induction is generalizing s with
  | nil => simp
  | cons i is ih => simp [ih, and_assoc]

variable {I : σ → Prop} {R : σ → τ → Prop} {input : ι → Prop} {is : List ι} {other : τ → ι → ρ × τ} {s : σ}

/-- What holds of every input holds along every run on them. -/
theorem along_of_inputs (all : ∀ i ∈ is, input i) (s : σ) : Along step (fun _ i => input i) s is := by
  induction is generalizing s with
  | nil => trivial
  | cons i is ih => exact ⟨all i List.mem_cons_self, ih (fun j member => all j (List.mem_cons_of_mem _ member)) _⟩

theorem Along.mono {other : σ → ι → Prop} (imp : ∀ s i, guard s i → other s i) (along : Along step guard s is) :
    Along step other s is := by
  induction is generalizing s with
  | nil => trivial
  | cons i is ih => exact ⟨imp s i along.1, ih along.2⟩

/-- Two guards met along a run are met together. -/
theorem Along.and {other : σ → ι → Prop} (left : Along step guard s is) (right : Along step other s is) :
    Along step (fun s i => guard s i ∧ other s i) s is := by
  induction is generalizing s with
  | nil => trivial
  | cons i is ih => exact ⟨⟨left.1, right.1⟩, ih left.2 right.2⟩

/-- **The invariant rule**: what every guarded step keeps, every guarded run keeps. -/
theorem run_invariant (keeps : ∀ s i, guard s i → I s → I (step s i).2) (along : Along step guard s is) (initial : I s) :
    I (run step s is).2 := by
  induction is generalizing s with
  | nil => exact initial
  | cons i is ih => exact ih along.2 (keeps s i along.1 initial)

/-- What every step keeps, every run keeps. -/
theorem run_keeps (keeps : ∀ s i, I s → I (step s i).2) (is : List ι) (initial : I s) : I (run step s is).2 := by
  induction is generalizing s with
  | nil => exact initial
  | cons i is ih => exact ih (keeps s i initial)

/-- An invariant of guarded steps strengthens the guard of every step. -/
theorem Along.with_invariant (keeps : ∀ s i, guard s i → I s → I (step s i).2) (along : Along step guard s is)
    (initial : I s) : Along step (fun s i => guard s i ∧ I s) s is := by
  induction is generalizing s with
  | nil => trivial
  | cons i is ih => exact ⟨⟨along.1, initial⟩, ih along.2 (keeps s i along.1 initial)⟩

/-- **The simulation rule**: two systems whose related states answer every guarded
input alike answer every guarded run alike. -/
theorem run_simulation (sim : ∀ s t i, guard s i → R s t → (step s i).1 = (other t i).1 ∧ R (step s i).2 (other t i).2)
    {t : τ} (along : Along step guard s is) (related : R s t) :
    (run step s is).1 = (run other t is).1 ∧ R (run step s is).2 (run other t is).2 := by
  induction is generalizing s t with
  | nil => exact ⟨rfl, related⟩
  | cons i is ih =>
    obtain ⟨same, next⟩ := sim s t i along.1 related
    obtain ⟨rest, final⟩ := ih along.2 next
    exact ⟨by simp [same, rest], final⟩

/-- The simulation rule for two systems on inputs that correspond. -/
theorem run_simulation_inputs {κ : Type w} {other : τ → κ → ρ × τ} {same : ι → κ → Prop}
    (sim : ∀ s t i j, same i j → R s t → (step s i).1 = (other t j).1 ∧ R (step s i).2 (other t j).2) {t : τ} {js : List κ}
    (inputs : List.Forall₂ same is js) (related : R s t) :
    (run step s is).1 = (run other t js).1 ∧ R (run step s is).2 (run other t js).2 := by
  induction inputs generalizing s t with
  | nil => exact ⟨rfl, related⟩
  | @cons i j is js here _ ih =>
    obtain ⟨alike, next⟩ := sim s t i j here related
    obtain ⟨rest, final⟩ := ih next
    exact ⟨by simp [alike, rest], final⟩

/-- **Agreement, step by step**: where related states stay related whatever happens, two
systems answer a run alike exactly when every step of it meets the condition under which
that one step is answered alike. -/
theorem run_agree_iff
    (sim : ∀ s t i, input i → R s t → ((step s i).1 = (other t i).1 ↔ guard s i) ∧ R (step s i).2 (other t i).2) {t : τ}
    (inputs : ∀ i ∈ is, input i) (related : R s t) : (run step s is).1 = (run other t is).1 ↔ Along step guard s is := by
  induction is generalizing s t with
  | nil => simp
  | cons i is ih =>
    obtain ⟨agree, next⟩ := sim s t i (inputs i List.mem_cons_self) related
    have rest := ih (fun j member => inputs j (List.mem_cons_of_mem _ member)) next
    simp only [run_cons, along_cons, List.cons.injEq, agree, rest]

/-- What holds of all answers of a run holds of the answer of each step. -/
theorem along_of_answers {P : ρ → Prop} (all : ∀ r ∈ (run step s is).1, P r) :
    Along step (fun s i => P (step s i).1) s is := by
  induction is generalizing s with
  | nil => trivial
  | cons i is ih =>
    simp only [run_cons, List.mem_cons, forall_eq_or_imp] at all
    exact ⟨all.1, ih all.2⟩

/-- What an invariant says of every answer holds of all answers of a run. -/
theorem run_answers {P : ρ → Prop} (step_answers : ∀ s i, input i → I s → P (step s i).1 ∧ I (step s i).2)
    (inputs : ∀ i ∈ is, input i) (initial : I s) : ∀ r ∈ (run step s is).1, P r := by
  induction is generalizing s with
  | nil => simp
  | cons i is ih =>
    obtain ⟨answer, next⟩ := step_answers s i (inputs i List.mem_cons_self) initial
    simp only [run_cons, List.mem_cons, forall_eq_or_imp]
    exact ⟨answer, ih (fun j member => inputs j (List.mem_cons_of_mem _ member)) next⟩

/-! ### Histories -/

/-- The inputs of a run with their answers. -/
def trace (step : σ → ι → ρ × σ) (s : σ) (is : List ι) : List (ι × ρ) := is.zip (run step s is).1

/-- Every step of the run meets `guard` in the state it starts from and after the steps made
before it, which follow `es`. -/
def AlongTrace (step : σ → ι → ρ × σ) (guard : List (ι × ρ) → σ → ι → Prop) : List (ι × ρ) → σ → List ι → Prop
  | _, _, [] => True
  | es, s, i :: is => guard es s i ∧ AlongTrace step guard (es ++ [(i, (step s i).1)]) (step s i).2 is

/-- A guard that looks at the state alone. -/
theorem Along.traced {other : List (ι × ρ) → σ → ι → Prop} (imp : ∀ es s i, guard s i → other es s i)
    (along : Along step guard s is) (es : List (ι × ρ)) : AlongTrace step other es s is := by
  induction is generalizing es s with
  | nil => trivial
  | cons i is ih => exact ⟨imp es s i along.1, ih along.2 _⟩

theorem AlongTrace.and {guard other : List (ι × ρ) → σ → ι → Prop} {es : List (ι × ρ)}
    (left : AlongTrace step guard es s is) (right : AlongTrace step other es s is) :
    AlongTrace step (fun es s i => guard es s i ∧ other es s i) es s is := by
  induction is generalizing es s with
  | nil => trivial
  | cons i is ih => exact ⟨⟨left.1, right.1⟩, ih left.2 right.2⟩

/-- **The history rule**: a relation between history and state that every guarded step
keeps relates the history of a guarded run to its last state. -/
theorem AlongTrace.invariant {guard : List (ι × ρ) → σ → ι → Prop} {J : List (ι × ρ) → σ → Prop}
    (keeps : ∀ es s i, guard es s i → J es s → J (es ++ [(i, (step s i).1)]) (step s i).2)
    (along : AlongTrace step guard [] s is) (initial : J [] s) : J (trace step s is) (run step s is).2 := by
  -- the history so far goes before what the rest of the run adds
  suffices general : ∀ es s, AlongTrace step guard es s is → J es s → J (es ++ trace step s is) (run step s is).2 by
    simpa using general [] s along initial
  clear along initial
  induction is with
  | nil => intro es s _ held; simpa [trace] using held
  | cons i is ih =>
    intro es s along held
    have next := ih _ _ along.2 (keeps es s i along.1 held)
    simpa [trace] using next

/-- The history rule for a guard that looks at the state alone. -/
theorem trace_invariant {J : List (ι × ρ) → σ → Prop}
    (keeps : ∀ es s i, guard s i → J es s → J (es ++ [(i, (step s i).1)]) (step s i).2) (along : Along step guard s is)
    (initial : J [] s) : J (trace step s is) (run step s is).2 :=
  (along.traced (fun _ _ _ => id) []).invariant keeps initial

/-- The sum of a measure over the steps of a run. -/
def tally (step : σ → ι → ρ × σ) (measure : σ → ι → Nat) : σ → List ι → Nat
  | _, [] => 0
  | s, i :: is => measure s i + tally step measure (step s i).2 is

/-- Related runs have the same sums. -/
theorem tally_simulation {measure : σ → ι → Nat} {measure' : τ → ι → Nat}
    (sim : ∀ s t i, R s t → measure s i = measure' t i ∧ R (step s i).2 (other t i).2) {t : τ} (related : R s t)
    (is : List ι) : tally step measure s is = tally other measure' t is := by
  induction is generalizing s t with
  | nil => rfl
  | cons i is ih =>
    obtain ⟨same, next⟩ := sim s t i related
    rw [tally, tally, same, ih next]

end LeoMem.Lib
