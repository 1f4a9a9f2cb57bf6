import Mathlib.Tactic.Basic

/-! # Runs that leave a record of what they attempt

A run performs operations of type `ω`, one after another, and can stop with an error.
The log lists every operation that the run attempts, also the one that stops it, so what
is not in the log never reached the outside (`Run.exists_ok_of_log_ne`).
-/
namespace EffectLog

/-- A run over a log. -/
def Run (ω ε α : Type) : Type := List ω → Except ε α × List ω

variable {ω ε α β : Type}

instance : Monad (Run ω ε) where
  pure a := fun log => (.ok a, log)
  bind x f := fun log =>
    match x log with
    | (.ok a, log') => f a log'
    | (.error e, log') => (.error e, log')

namespace Run

/-- A step that performs nothing. -/
def ofExcept (x : Except ε α) : Run ω ε α := fun log => (x, log)

/-- Performs one operation, which the outside may refuse behind the operations so far. -/
def perform (refuses : List ω → ω → Option ε) (op : ω) : Run ω ε Unit := fun log =>
  match refuses log op with
  | none => (.ok (), log ++ [op])
  | some e => (.error e, log ++ [op])

/-- Runs a step for every element of a list, in order. -/
def forEach (l : List α) (f : α → Run ω ε Unit) : Run ω ε Unit :=
  match l with
  | [] => pure ()
  | x :: xs => do
    f x
    forEach xs f

theorem pure_eq_ok {a b : α} {log log' : List ω} :
    (pure a : Run ω ε α) log = (.ok b, log') ↔ b = a ∧ log' = log := by
  change ((Except.ok a, log) : Except ε α × List ω) = _ ↔ _
  rw [Prod.mk.injEq, Except.ok.injEq]
  exact and_congr eq_comm eq_comm

theorem bind_eq_ok {x : Run ω ε α} {f : α → Run ω ε β} {log log' : List ω} {b : β} :
    (x >>= f) log = (.ok b, log') ↔
      ∃ a mid, x log = (.ok a, mid) ∧ f a mid = (.ok b, log') := by
  change (match x log with
    | (.ok a, mid) => f a mid
    | (.error e, mid) => (.error e, mid)) = _ ↔ _
  cases hx : x log with
  | mk result mid =>
    cases result with
    | ok a =>
      simp only [Prod.mk.injEq, Except.ok.injEq]
      exact ⟨fun h => ⟨a, mid, ⟨rfl, rfl⟩, h⟩, fun ⟨_, _, ⟨ha, hmid⟩, h⟩ => ha ▸ hmid ▸ h⟩
    | error e => simp

theorem ofExcept_eq_ok {x : Except ε α} {log log' : List ω} {a : α} :
    ofExcept x log = (.ok a, log') ↔ x = .ok a ∧ log' = log := by
  rw [ofExcept, Prod.mk.injEq]
  exact and_congr_right fun _ => eq_comm

theorem perform_eq_ok {refuses : List ω → ω → Option ε} {op : ω} {log log' : List ω} {u : Unit} :
    perform refuses op log = (.ok u, log') ↔ refuses log op = none ∧ log' = log ++ [op] := by
  unfold perform
  split
  · rename_i h
    simp [h, eq_comm]
  · rename_i h
    simp [h]

/-- **A loop that succeeds** ran every step, in order, and each step left what it leaves
when it succeeds. -/
theorem forEach_log {l : List α} {f : α → Run ω ε Unit} (ops : α → List ω)
    (hstep : ∀ x ∈ l, ∀ log log', f x log = (.ok (), log') → log' = log ++ ops x)
    {log log' : List ω} (h : forEach l f log = (.ok (), log')) : log' = log ++ l.flatMap ops := by
  induction l generalizing log with
  | nil =>
    obtain ⟨-, rfl⟩ := pure_eq_ok.mp h
    rw [List.flatMap_nil, List.append_nil]
  | cons x xs ih =>
    rw [List.forall_mem_cons] at hstep
    obtain ⟨_, mid, hx, hrest⟩ := bind_eq_ok.mp h
    rw [ih hstep.2 hrest, hstep.1 log mid hx, List.flatMap_cons, List.append_assoc]

/-- A loop that succeeds ran every step to its end. -/
theorem exists_of_forEach {l : List α} {f : α → Run ω ε Unit} {log log' : List ω}
    (h : forEach l f log = (.ok (), log')) {x : α} (hx : x ∈ l) :
    ∃ mid mid', f x mid = (.ok (), mid') := by
  induction l generalizing log with
  | nil => exact absurd hx List.not_mem_nil
  | cons y ys ih =>
    obtain ⟨_, mid, hy, hrest⟩ := bind_eq_ok.mp h
    rcases List.mem_cons.mp hx with rfl | hx
    · exact ⟨log, mid, hy⟩
    · exact ih hrest hx

/-- A loop ends when every step does. -/
theorem exists_forEach {l : List α} {f : α → Run ω ε Unit}
    (h : ∀ x ∈ l, ∀ log, ∃ log', f x log = (.ok (), log')) (log : List ω) :
    ∃ log', forEach l f log = (.ok (), log') := by
  induction l generalizing log with
  | nil => exact ⟨log, rfl⟩
  | cons x xs ih =>
    rw [List.forall_mem_cons] at h
    obtain ⟨mid, hx⟩ := h.1 log
    obtain ⟨log', hrest⟩ := ih h.2 mid
    exact ⟨log', bind_eq_ok.mpr ⟨(), mid, hx, hrest⟩⟩

theorem exists_perform {refuses : List ω → ω → Option ε} (h : ∀ log op, refuses log op = none)
    (op : ω) (log : List ω) : ∃ log', perform refuses op log = (.ok (), log') :=
  ⟨_, perform_eq_ok.mpr ⟨h log op, rfl⟩⟩

/-- **A check in front guards every operation**: a log that changed means that the check
passed. -/
theorem exists_ok_of_log_ne {x : Except ε α} {f : α → Run ω ε β} {log : List ω}
    (h : ((ofExcept x >>= f) log).2 ≠ log) : ∃ a, x = .ok a := by
  cases x with
  | ok a => exact ⟨a, rfl⟩
  | error e => exact absurd rfl h

end Run
end EffectLog
