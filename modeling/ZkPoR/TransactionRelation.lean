import ZkPoR.Transaction

/-! # Two transactions side by side

`Alike` compares two runs of transactions from related states: they both succeed,
with related answers and related states, or they both fail for one reason.  The
rules below follow the constructors of a transaction, so that two runs of one
program are compared step by step, and only the steps that read the difference
between the states need an argument of their own.
-/
namespace Transaction
namespace Tx

variable {ρ σ ε α α' β β' : Type} {r : ρ}

/-- Two answers with related values and states, or one failure. -/
inductive Match (R : σ → σ → Prop) (Q : α → β → Prop) :
    Except ε (α × σ) → Except ε (β × σ) → Prop
  | ok {a b s s'} (value : Q a b) (state : R s s') : Match R Q (.ok (a, s)) (.ok (b, s'))
  | error (e : ε) : Match R Q (.error e) (.error e)

/-- Related states give matching answers. -/
def Alike (r : ρ) (R : σ → σ → Prop) (Q : α → β → Prop) (x : Tx ρ σ ε α) (y : Tx ρ σ ε β) : Prop :=
  ∀ s s', R s s' → Match R Q (x r s) (y r s')

variable {R : σ → σ → Prop} {Q : α → β → Prop} {Q' : α' → β' → Prop}

theorem Alike.pure {a : α} {b : β} (h : Q a b) :
    Alike r R Q (pure a : Tx ρ σ ε α) (Pure.pure b) := fun _ _ hR => .ok h hR

theorem bind_of_ok {x : Tx ρ σ ε α} {f : α → Tx ρ σ ε α'} {s t : σ} {a : α}
    (h : x r s = .ok (a, t)) : (x >>= f) r s = f a r t := by
  simp only [Bind.bind, h]

theorem bind_of_error {x : Tx ρ σ ε α} {f : α → Tx ρ σ ε α'} {s : σ} {e : ε}
    (h : x r s = .error e) : (x >>= f) r s = .error e := by
  simp only [Bind.bind, h]

theorem Alike.bind {x : Tx ρ σ ε α} {y : Tx ρ σ ε β} {f : α → Tx ρ σ ε α'}
    {g : β → Tx ρ σ ε β'} (hx : Alike r R Q x y) (hf : ∀ a b, Q a b → Alike r R Q' (f a) (g b)) :
    Alike r R Q' (x >>= f) (y >>= g) := by
  intro s s' hR
  have hmatch := hx s s' hR
  generalize hleft : x r s = left, hright : y r s' = right at hmatch
  cases hmatch with
  | ok value state =>
    rw [bind_of_ok hleft, bind_of_ok hright]
    exact hf _ _ value _ _ state
  | error e =>
    rw [bind_of_error hleft, bind_of_error hright]
    exact .error e

theorem Alike.reads {f : ρ → σ → α} {g : ρ → σ → β} (h : ∀ s s', R s s' → Q (f r s) (g r s')) :
    Alike r R Q (reads f : Tx ρ σ ε α) (reads g) := fun s s' hR => .ok (h s s' hR) hR

theorem Alike.modify {f g : σ → σ} (h : ∀ s s', R s s' → R (f s) (g s')) :
    Alike r R Eq (modify f : Tx ρ σ ε Unit) (modify g) := fun s s' hR => .ok rfl (h s s' hR)

theorem Alike.fail (e : ε) : Alike r R Q (fail e : Tx ρ σ ε α) (fail e) :=
  fun _ _ _ => .error e

/-! A step that does not touch the state is alike itself. -/

theorem Alike.refuseIf (c : Prop) [Decidable c] (e : ε) :
    Alike r R Eq (refuseIf c e : Tx ρ σ ε Unit) (refuseIf c e) := by
  unfold Tx.refuseIf
  split
  · exact .fail e
  · exact .pure rfl

theorem Alike.orFail (o : Option α) (e : ε) :
    Alike r R Eq (orFail o e : Tx ρ σ ε α) (orFail o e) := by
  cases o with
  | none => exact .fail e
  | some a => exact .pure rfl

theorem Alike.lift {δ : Type} (g : δ → ε) (x : Except δ α) :
    Alike r R Eq (lift g x : Tx ρ σ ε α) (lift g x) := by
  cases x with
  | error d => exact .fail (g d)
  | ok a => exact .pure rfl

/-- The continuation of two steps that answer the same. -/
theorem Alike.bind_eq {x y : Tx ρ σ ε α} {f : α → Tx ρ σ ε α'} {g : α → Tx ρ σ ε β'}
    (hx : Alike r R Eq x y) (hf : ∀ a, Alike r R Q' (f a) (g a)) :
    Alike r R Q' (x >>= f) (y >>= g) :=
  hx.bind fun a _ hab => hab ▸ hf a

end Tx
end Transaction
