import Mathlib.Tactic.Basic

/-! # Transactions

A transaction reads what the caller supplied (`ρ`), reads and writes a state
(`σ`), and either answers a value with the new state or fails (`ε`).  A failure
carries no state, so a failed transaction leaves nothing behind: `commit` keeps
the state it started from.

The lemmas come in two directions.  `*_eq_ok` says exactly when a step succeeds
and with what; `bind_eq_ok` composes them, so that `simp` turns a successful run
of a whole transaction into the conjunction of its guards and the equation of
its final state.  `bind_eq_error` and `*_eq_error` do the same for a failure.
-/
namespace Transaction

/-- A computation over an environment, a state, and failures. -/
def Tx (ρ σ ε α : Type) : Type := ρ → σ → Except ε (α × σ)

variable {ρ σ ε α β : Type}

instance : Monad (Tx ρ σ ε) where
  pure a := fun _ s => .ok (a, s)
  bind x f := fun r s =>
    match x r s with
    | .ok (a, s') => f a r s'
    | .error e => .error e

namespace Tx

/-- Reads a value off the environment and the state. -/
def reads (f : ρ → σ → α) : Tx ρ σ ε α := fun r s => .ok (f r s, s)

/-- Writes the state. -/
def modify (f : σ → σ) : Tx ρ σ ε Unit := fun _ s => .ok ((), f s)

/-- Fails. -/
def fail (e : ε) : Tx ρ σ ε α := fun _ _ => .error e

/-- The early return of a guard: fails when the condition holds. -/
def refuseIf (c : Prop) [Decidable c] (e : ε) : Tx ρ σ ε Unit :=
  if c then fail e else pure ()

/-- The value of an option, or a failure. -/
def orFail (o : Option α) (e : ε) : Tx ρ σ ε α :=
  match o with
  | some a => pure a
  | none => fail e

/-- The value of a pure fallible computation, under a translation of its
failures. -/
def lift {δ : Type} (g : δ → ε) (x : Except δ α) : Tx ρ σ ε α :=
  match x with
  | .ok a => pure a
  | .error d => fail (g d)

/-- Runs a step for every element of a list, in order. -/
def forEach (l : List α) (f : α → Tx ρ σ ε Unit) : Tx ρ σ ε Unit :=
  match l with
  | [] => pure ()
  | a :: l => do
    f a
    forEach l f

variable {r : ρ} {s s' : σ}

@[simp] theorem pure_eq_ok {a b : α} :
    (pure a : Tx ρ σ ε α) r s = .ok (b, s') ↔ a = b ∧ s = s' := by
  simp [pure]

@[simp] theorem pure_eq_error {a : α} {e : ε} :
    (pure a : Tx ρ σ ε α) r s = .error e ↔ False := by
  simp [pure]

@[simp] theorem bind_eq_ok {x : Tx ρ σ ε α} {f : α → Tx ρ σ ε β} {p : β × σ} :
    (x >>= f) r s = .ok p ↔ ∃ a s₁, x r s = .ok (a, s₁) ∧ f a r s₁ = .ok p := by
  change (match x r s with
    | .ok (a, s') => f a r s'
    | .error e => .error e) = .ok p ↔ _
  cases x r s with
  | ok q => exact ⟨fun h => ⟨q.1, q.2, rfl, h⟩, by rintro ⟨a, s₁, h, hf⟩; cases h; exact hf⟩
  | error e => simp

@[simp] theorem bind_eq_error {x : Tx ρ σ ε α} {f : α → Tx ρ σ ε β} {e : ε} :
    (x >>= f) r s = .error e ↔
      x r s = .error e ∨ ∃ a s₁, x r s = .ok (a, s₁) ∧ f a r s₁ = .error e := by
  change (match x r s with
    | .ok (a, s') => f a r s'
    | .error e => .error e) = .error e ↔ _
  cases x r s with
  | ok q =>
    simp only [reduceCtorEq, false_or]
    exact ⟨fun h => ⟨q.1, q.2, rfl, h⟩, by rintro ⟨a, s₁, h, hf⟩; cases h; exact hf⟩
  | error e' => simp

/-- The answer of a transaction, under a function. -/
theorem map_eq {x : Tx ρ σ ε α} {f : α → β} :
    (f <$> x) r s = (x r s).map fun p => (f p.1, p.2) := by
  change (match x r s with
    | .ok (a, s') => Except.ok (f a, s')
    | .error e => Except.error e) = _
  cases x r s <;> rfl

@[simp] theorem reads_eq_ok {f : ρ → σ → α} {a : α} :
    (reads f : Tx ρ σ ε α) r s = .ok (a, s') ↔ f r s = a ∧ s = s' := by
  simp [reads]

@[simp] theorem reads_eq_error {f : ρ → σ → α} {e : ε} :
    (reads f : Tx ρ σ ε α) r s = .error e ↔ False := by
  simp [reads]

@[simp] theorem modify_eq_ok {f : σ → σ} {u : Unit} :
    (modify f : Tx ρ σ ε Unit) r s = .ok (u, s') ↔ f s = s' := by
  simp [modify]

@[simp] theorem modify_eq_error {f : σ → σ} {e : ε} :
    (modify f : Tx ρ σ ε Unit) r s = .error e ↔ False := by
  simp [modify]

@[simp] theorem fail_eq_ok {e : ε} {a : α} :
    (fail e : Tx ρ σ ε α) r s = .ok (a, s') ↔ False := by
  simp [fail]

@[simp] theorem fail_eq_error {e e' : ε} :
    (fail e : Tx ρ σ ε α) r s = .error e' ↔ e = e' := by
  simp [fail]

@[simp] theorem refuseIf_eq_ok {c : Prop} [Decidable c] {e : ε} {u : Unit} :
    (refuseIf c e : Tx ρ σ ε Unit) r s = .ok (u, s') ↔ ¬ c ∧ s = s' := by
  unfold refuseIf
  split <;> simp [*]

@[simp] theorem refuseIf_eq_error {c : Prop} [Decidable c] {e e' : ε} :
    (refuseIf c e : Tx ρ σ ε Unit) r s = .error e' ↔ c ∧ e = e' := by
  unfold refuseIf
  split <;> simp [*]

@[simp] theorem orFail_eq_ok {o : Option α} {e : ε} {a : α} :
    (orFail o e : Tx ρ σ ε α) r s = .ok (a, s') ↔ o = some a ∧ s = s' := by
  cases o <;> simp [orFail]

@[simp] theorem orFail_eq_error {o : Option α} {e e' : ε} :
    (orFail o e : Tx ρ σ ε α) r s = .error e' ↔ o = none ∧ e = e' := by
  cases o <;> simp [orFail]

@[simp] theorem lift_eq_ok {δ : Type} {g : δ → ε} {x : Except δ α} {a : α} :
    (lift g x : Tx ρ σ ε α) r s = .ok (a, s') ↔ x = .ok a ∧ s = s' := by
  cases x <;> simp [lift]

@[simp] theorem lift_eq_error {δ : Type} {g : δ → ε} {x : Except δ α} {e : ε} :
    (lift g x : Tx ρ σ ε α) r s = .error e ↔ ∃ d, x = .error d ∧ g d = e := by
  cases x <;> simp [lift]

/-- A loop over a check that keeps the state succeeds exactly when every element
passes. -/
theorem forEach_eq_ok {f : α → Tx ρ σ ε Unit} {P : α → Prop}
    (hf : ∀ a u s', f a r s = .ok (u, s') ↔ P a ∧ s = s') {l : List α} {u : Unit} :
    forEach l f r s = .ok (u, s') ↔ (∀ a ∈ l, P a) ∧ s = s' := by
  induction l with
  | nil => simp [forEach]
  | cons a l ih =>
    simp only [forEach, bind_eq_ok, hf, List.forall_mem_cons]
    constructor
    · rintro ⟨_, _, ⟨ha, rfl⟩, hl⟩
      exact ⟨⟨ha, (ih.mp hl).1⟩, (ih.mp hl).2⟩
    · rintro ⟨⟨ha, hl⟩, rfl⟩
      exact ⟨(), s, ⟨ha, rfl⟩, ih.mpr ⟨hl, rfl⟩⟩

/-- The state after a transaction: the new state on success, and the state it
started from on failure. -/
def commit (x : Tx ρ σ ε α) (r : ρ) (s : σ) : σ :=
  match x r s with
  | .ok (_, s') => s'
  | .error _ => s

theorem commit_of_ok {x : Tx ρ σ ε α} {a : α} (h : x r s = .ok (a, s')) :
    x.commit r s = s' := by
  simp [commit, h]

theorem commit_of_error {x : Tx ρ σ ε α} {e : ε} (h : x r s = .error e) :
    x.commit r s = s := by
  simp [commit, h]

end Tx
end Transaction
