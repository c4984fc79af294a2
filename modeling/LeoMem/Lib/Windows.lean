import Mathlib.Data.List.Basic
import Mathlib.Data.List.Perm.Subperm

/-!
# Numbered events and the window of the latest

Events are numbered from 1, and consecutive windows of `size` numbers divide them up. Of
a list of events with growing numbers this looks at those in the window of the last one:
how many there are, and how many differ from the event before. The rules say what one
more event does to these counts: in the same window it adds to them, in a later one it
starts them over.
-/

namespace LeoMem.Lib

variable {α : Type}

/-- The window of number `n`. -/
def windowOf (size n : Nat) : Nat := (n - 1) / size

theorem windowOf_mono (size : Nat) {m n : Nat} (le : m ≤ n) : windowOf size m ≤ windowOf size n :=
  Nat.div_le_div_right (Nat.sub_le_sub_right le 1)

/-- The numbers grow, and start at 1. -/
structure Ordered (events : List (α × Nat)) : Prop where
  growing : events.Pairwise fun a b => a.2 < b.2
  positive : ∀ e ∈ events, 1 ≤ e.2

/-- The number of the last event, 0 without one. -/
def lastNumber (events : List (α × Nat)) : Nat := (events.getLast?.map Prod.snd).getD 0

@[simp] theorem lastNumber_snoc (events : List (α × Nat)) (e : α × Nat) : lastNumber (events ++ [e]) = e.2 := by
  simp [lastNumber]

/-- The events in the window of the last one. -/
def latestWindow (size : Nat) (events : List (α × Nat)) : List (α × Nat) :=
  events.filter fun e => windowOf size e.2 = windowOf size (lastNumber events)

/-- How many of them differ from the event before. -/
def changes (differ : α → α → Bool) (size : Nat) (events : List (α × Nat)) : Nat :=
  (events.zip events.tail).countP fun p =>
    differ p.1.1 p.2.1 && windowOf size p.2.2 = windowOf size (lastNumber events)

/-- The distance between the last two numbers, 0 without them. -/
def lastDistance (events : List (α × Nat)) : Nat :=
  if events.dropLast = [] then 0 else lastNumber events - lastNumber events.dropLast

section Snoc

variable {events : List (α × Nat)} {e : α × Nat}

theorem Ordered.snoc (ordered : Ordered events) (later : ∀ d ∈ events, d.2 < e.2) (positive : 1 ≤ e.2) :
    Ordered (events ++ [e]) := by
  constructor
  · refine List.pairwise_append.mpr ⟨ordered.growing, List.pairwise_singleton _ _, ?_⟩
    intro d member e' here
    rw [List.mem_singleton.mp here]
    exact later d member
  · intro d member
    rcases List.mem_append.mp member with old | new
    · exact ordered.positive d old
    · rw [List.mem_singleton.mp new]
      exact positive

theorem Ordered.le_last (ordered : Ordered events) {d : α × Nat} (member : d ∈ events) : d.2 ≤ lastNumber events := by
  obtain rfl | ⟨front, last, rfl⟩ := List.eq_nil_or_concat' events
  · exact absurd member List.not_mem_nil
  · rw [lastNumber_snoc]
    rcases List.mem_append.mp member with old | new
    · exact Nat.le_of_lt ((List.pairwise_append.mp ordered.growing).2.2 d old last (List.mem_singleton_self _))
    · exact Nat.le_of_eq (congrArg Prod.snd (List.mem_singleton.mp new))

theorem Ordered.last_le (later : ∀ d ∈ events, d.2 < e.2) : lastNumber events ≤ e.2 := by
  obtain rfl | ⟨front, last, rfl⟩ := List.eq_nil_or_concat' events
  · exact Nat.zero_le _
  · rw [lastNumber_snoc]
    exact Nat.le_of_lt (later last (by simp))

theorem lastNumber_pos (ordered : Ordered events) (some : events ≠ []) : 1 ≤ lastNumber events := by
  obtain rfl | ⟨front, last, rfl⟩ := List.eq_nil_or_concat' events
  · exact absurd rfl some
  · rw [lastNumber_snoc]
    exact ordered.positive last (by simp)

/-- An event in another window than the last one finds no earlier event in its own. -/
theorem Ordered.window_ne (ordered : Ordered events) (later : ∀ d ∈ events, d.2 < e.2) {size : Nat}
    (rolled : windowOf size e.2 ≠ windowOf size (lastNumber events)) {d : α × Nat} (member : d ∈ events) :
    windowOf size d.2 ≠ windowOf size e.2 := by
  have low := windowOf_mono size (ordered.le_last member)
  have high := windowOf_mono size (Ordered.last_le later)
  omega

theorem latestWindow_snoc (ordered : Ordered events) (later : ∀ d ∈ events, d.2 < e.2) (size : Nat) :
    latestWindow size (events ++ [e]) =
      (if windowOf size e.2 = windowOf size (lastNumber events) then latestWindow size events else []) ++ [e] := by
  rw [latestWindow, lastNumber_snoc, List.filter_append]
  congr 1
  · split
    · rename_i same
      rw [latestWindow, same]
    · rename_i rolled
      rw [List.filter_eq_nil_iff]
      intro d member
      simpa using ordered.window_ne later rolled member
  · simp

theorem zip_tail_snoc (events : List (α × Nat)) (e : α × Nat) :
    (events ++ [e]).zip (events ++ [e]).tail =
      events.zip events.tail ++ (events.getLast?.map fun d => (d, e)).toList := by
  induction events with
  | nil => rfl
  | cons d events ih =>
    cases events with
    | nil => rfl
    | cons d' events =>
      rw [List.cons_append, List.tail_cons, List.cons_append, List.zip_cons_cons, List.tail_cons, List.zip_cons_cons,
        List.cons_append, List.getLast?_cons_cons]
      exact congrArg _ ih

theorem changes_snoc (ordered : Ordered events) (later : ∀ d ∈ events, d.2 < e.2) (differ : α → α → Bool) (size : Nat) :
    changes differ size (events ++ [e]) =
      (if windowOf size e.2 = windowOf size (lastNumber events) then changes differ size events else 0) +
        (events.getLast?.map fun d => (differ d.1 e.1).toNat).getD 0 := by
  rw [changes, zip_tail_snoc, List.countP_append, lastNumber_snoc]
  congr 1
  · split
    · rename_i same
      rw [changes, same]
    · rename_i rolled
      rw [List.countP_eq_zero]
      intro p member
      have old : p.2 ∈ events := List.mem_of_mem_tail (List.of_mem_zip member).2
      simpa using fun _ => ordered.window_ne later rolled old
  · cases events.getLast? with
    | none => rfl
    | some d => cases same : differ d.1 e.1 <;> simp [same]

theorem lastDistance_snoc (events : List (α × Nat)) (e : α × Nat) :
    lastDistance (events ++ [e]) = if events = [] then 0 else e.2 - lastNumber events := by
  rw [lastDistance, List.dropLast_concat, lastNumber_snoc]

end Snoc

section Bounds

variable {events : List (α × Nat)}

theorem latestWindow_pos (size : Nat) (some : events ≠ []) : 1 ≤ (latestWindow size events).length := by
  obtain rfl | ⟨front, last, rfl⟩ := List.eq_nil_or_concat' events
  · exact absurd rfl some
  · rw [latestWindow, lastNumber_snoc, List.filter_append]
    simp

/-- A window holds at most `size` events. -/
theorem latestWindow_le (ordered : Ordered events) {size : Nat} (positive : 0 < size) :
    (latestWindow size events).length ≤ size := by
  have numbers : ((latestWindow size events).map Prod.snd).Nodup :=
    List.Pairwise.map _ (fun _ _ lt => Nat.ne_of_lt lt) (ordered.growing.filter _)
  have within : (latestWindow size events).map Prod.snd ⊆
      List.range' (windowOf size (lastNumber events) * size + 1) size := by
    intro n member
    obtain ⟨e, here, rfl⟩ := List.mem_map.mp member
    obtain ⟨old, same⟩ := List.mem_filter.mp here
    have number := ordered.positive e old
    have window : (e.2 - 1) / size = windowOf size (lastNumber events) := of_decide_eq_true same
    have split := Nat.div_add_mod (e.2 - 1) size
    have small := Nat.mod_lt (e.2 - 1) positive
    rw [List.mem_range'_1, ← window, Nat.mul_comm]
    omega
  have bound := (numbers.subperm within).length_le
  rwa [List.length_map, List.length_range'] at bound

theorem changes_le (differ : α → α → Bool) (size : Nat) (events : List (α × Nat)) :
    changes differ size events ≤ (latestWindow size events).length := by
  have second (xs ys : List (α × Nat)) (p : α × Nat → Bool) :
      ((xs.zip ys).countP fun q => differ q.1.1 q.2.1 && p q.2) ≤ ys.countP p := by
    induction xs generalizing ys with
    | nil => simp
    | cons x xs ih =>
      cases ys with
      | nil => simp
      | cons y ys =>
        have rest := ih ys
        rw [List.zip_cons_cons, List.countP_cons, List.countP_cons]
        cases p y <;> cases differ x.1 y.1 <;> simp <;> omega
  rw [latestWindow, ← List.countP_eq_length_filter]
  exact Nat.le_trans (second events events.tail fun e => windowOf size e.2 = windowOf size (lastNumber events))
    (List.tail_sublist events).countP_le

end Bounds

end LeoMem.Lib
