import Mathlib.Data.List.Forall2
import Mathlib.Logic.Basic

/-! # Loops over a range

A loop `for j in 0..n` whose body may fail.  An invariant of the body holds of
the state that the loop ends in (`forRange_invariant`), and a loop whose body does
not fail under the invariant ends (`forRange_total`).  `fold_invariant` is the
same induction for a body that never fails.

A loop often fills an array, and its invariant speaks of every position.  `entry`
reads an array of fixed length as a function on positions, with a default beyond
the end, so that such an invariant needs no bounds.
-/
namespace BoundedLoop
variable {α σ ε : Type}

/-! ## Arrays as functions on positions -/

/-- The entry at one position, and `d` beyond the end. -/
def entry {n : Nat} (d : α) (xs : Vector α n) (i : Nat) : α := xs[i]?.getD d

section
variable {n : Nat} {d : α} {xs : Vector α n}

theorem entry_of_lt {i : Nat} (h : i < n) : entry d xs i = xs[i] := by
  rw [entry, Vector.getElem?_eq_getElem h, Option.getD_some]

theorem entry_set {x : α} {i j : Nat} (h : i < n) :
    entry d (xs.set i x h) j = if j = i then x else entry d xs j := by
  unfold entry
  rw [Vector.getElem?_set]
  by_cases hij : i = j
  · subst hij
    simp
  · rw [if_neg hij, if_neg (Ne.symm hij)]

theorem entry_ofFn {f : Fin n → α} {i : Nat} (h : i < n) :
    entry d (Vector.ofFn f) i = f ⟨i, h⟩ := by
  rw [entry_of_lt h, Vector.getElem_ofFn]

end

/-! ## Loops -/

/-- The first `k` iterations. -/
def iterations {n : Nat} (body : (j : Nat) → j < n → σ → Except ε σ) (init : σ) :
    (k : Nat) → k ≤ n → Except ε σ
  | 0, _ => .ok init
  | k + 1, h =>
    match iterations body init k (Nat.le_of_succ_le h) with
    | .error e => .error e
    | .ok s => body k h s

/-- `for j in 0..n`, from the state `init`. -/
def forRange (n : Nat) (init : σ) (body : (j : Nat) → j < n → σ → Except ε σ) : Except ε σ :=
  iterations body init n (Nat.le_refl n)

variable {n : Nat} {init out : σ} {body : (j : Nat) → j < n → σ → Except ε σ}

theorem iterations_succ {k : Nat} (h : k + 1 ≤ n) :
    iterations body init (k + 1) h = .ok out ↔
      ∃ s, iterations body init k (Nat.le_of_succ_le h) = .ok s ∧ body k h s = .ok out := by
  rw [iterations]
  cases hk : iterations body init k (Nat.le_of_succ_le h) <;> simp

theorem iterations_invariant {P : Nat → σ → Prop} (hzero : P 0 init)
    (hstep : ∀ j (h : j < n) s s', P j s → body j h s = .ok s' → P (j + 1) s') {k : Nat}
    {hk : k ≤ n} (h : iterations body init k hk = .ok out) : P k out := by
  induction k generalizing out with
  | zero =>
    rw [iterations, Except.ok.injEq] at h
    rwa [← h]
  | succ k ih =>
    obtain ⟨s, hs, hbody⟩ := (iterations_succ hk).mp h
    exact hstep k hk s out (ih hs) hbody

theorem iterations_total {P : Nat → σ → Prop} (hzero : P 0 init)
    (hstep : ∀ j (h : j < n) s, P j s → ∃ s', body j h s = .ok s' ∧ P (j + 1) s') (k : Nat)
    (hk : k ≤ n) : ∃ s, iterations body init k hk = .ok s ∧ P k s := by
  induction k with
  | zero => exact ⟨init, rfl, hzero⟩
  | succ k ih =>
    obtain ⟨s, hs, hP⟩ := ih (Nat.le_of_succ_le hk)
    obtain ⟨s', hbody, hP'⟩ := hstep k hk s hP
    exact ⟨s', (iterations_succ hk).mpr ⟨s, hs, hbody⟩, hP'⟩

/-- What every iteration preserves holds of the state that the loop ends in. -/
theorem forRange_invariant {P : Nat → σ → Prop} (hzero : P 0 init)
    (hstep : ∀ j (h : j < n) s s', P j s → body j h s = .ok s' → P (j + 1) s')
    (h : forRange n init body = .ok out) : P n out := iterations_invariant hzero hstep h

/-- The states between the iterations of a loop that ends. -/
theorem forRange_trace (h : forRange n init body = .ok out) :
    ∃ trace : Nat → σ, trace 0 = init ∧ trace n = out ∧
      ∀ j (hj : j < n), body j hj (trace j) = .ok (trace (j + 1)) := by
  suffices hall : ∀ k (hk : k ≤ n) s, iterations body init k hk = .ok s →
      ∃ trace : Nat → σ, trace 0 = init ∧ trace k = s ∧
        ∀ j (hj : j < n), j < k → body j hj (trace j) = .ok (trace (j + 1)) by
    obtain ⟨trace, hzero, hlast, hstep⟩ := hall n (Nat.le_refl n) out h
    exact ⟨trace, hzero, hlast, fun j hj => hstep j hj hj⟩
  intro k
  induction k with
  | zero =>
    intro hk s hs
    rw [iterations, Except.ok.injEq] at hs
    exact ⟨fun _ => init, rfl, hs, fun j _ hj => absurd hj (Nat.not_lt_zero j)⟩
  | succ k ih =>
    intro hk s hs
    obtain ⟨mid, hmid, hbody⟩ := (iterations_succ hk).mp hs
    obtain ⟨trace, hzero, hlast, hstep⟩ := ih (Nat.le_of_succ_le hk) mid hmid
    refine ⟨fun j => if j = k + 1 then s else trace j, ?_, if_pos rfl, fun j hj hjk => ?_⟩
    · show (if 0 = k + 1 then s else trace 0) = init
      rw [if_neg (by omega), hzero]
    · show body j hj (if j = k + 1 then s else trace j) =
        .ok (if j + 1 = k + 1 then s else trace (j + 1))
      rw [if_neg (by omega)]
      rcases Nat.lt_or_eq_of_le (Nat.le_of_lt_succ hjk) with hlt | rfl
      · rw [if_neg (by omega), hstep j hj hlt]
      · rw [if_pos rfl, hlast, hbody]

/-- A loop whose iterations preserve an invariant and, under it, do not fail, ends. -/
theorem forRange_total {P : Nat → σ → Prop} (hzero : P 0 init)
    (hstep : ∀ j (h : j < n) s, P j s → ∃ s', body j h s = .ok s' ∧ P (j + 1) s') :
    ∃ s, forRange n init body = .ok s ∧ P n s :=
  iterations_total hzero hstep n (Nat.le_refl n)

/-- A loop that runs through the states of a trace. -/
theorem forRange_of_trace {trace : Nat → σ} (hzero : trace 0 = init)
    (hstep : ∀ j (hj : j < n), body j hj (trace j) = .ok (trace (j + 1))) :
    forRange n init body = .ok (trace n) := by
  obtain ⟨s, hs, rfl⟩ := forRange_total (P := fun j s => s = trace j) hzero.symm
    (fun j hj s hs => ⟨trace (j + 1), hs ▸ hstep j hj, rfl⟩)
  exact hs

/-- A loop answers what one whose iterations succeed less often answers. -/
theorem forRange_mono {body' : (j : Nat) → j < n → σ → Except ε σ}
    (hstep : ∀ j (hj : j < n) s s', body j hj s = .ok s' → body' j hj s = .ok s')
    (h : forRange n init body = .ok out) : forRange n init body' = .ok out := by
  obtain ⟨trace, hzero, rfl, hbody⟩ := forRange_trace h
  exact forRange_of_trace hzero fun j hj => hstep j hj _ _ (hbody j hj)

/-- A loop without state ends when no iteration fails. -/
theorem forRange_unit {body : (j : Nat) → j < n → Unit → Except ε Unit} {out : Unit} :
    forRange n () body = .ok out ↔ ∀ j (h : j < n), body j h () = .ok () := by
  constructor
  · intro h
    obtain ⟨trace, -, -, hstep⟩ := forRange_trace h
    exact fun j hj => hstep j hj
  · intro h
    have htotal : ∃ s, forRange n () body = .ok s ∧ True :=
      forRange_total (P := fun _ _ => True) trivial fun j hj s _ => ⟨(), h j hj, trivial⟩
    obtain ⟨s, hs, -⟩ := htotal
    exact hs

/-- The same induction for a body that cannot fail. -/
theorem fold_invariant {P : Nat → σ → Prop} {step : (j : Nat) → j < n → σ → σ} (hzero : P 0 init)
    (hstep : ∀ j (h : j < n) s, P j s → P (j + 1) (step j h s)) : P n (Nat.fold n step init) := by
  induction n with
  | zero => rwa [Nat.fold_zero]
  | succ n ih =>
    rw [Nat.fold_succ]
    exact hstep n _ _ (ih fun j h s hs => hstep j (Nat.lt_succ_of_lt h) s hs)

/-! ## Steps that may fail -/

theorem bind_eq_ok {β : Type} {x : Except ε α} {f : α → Except ε β} {y : β} :
    x >>= f = .ok y ↔ ∃ a, x = .ok a ∧ f a = .ok y := by
  cases x with
  | error e => simp [bind, Except.bind]
  | ok a => simp [bind, Except.bind]

theorem mapM_cons_eq_ok {β : Type} {f : α → Except ε β} {x : α} {l : List α} {ys : List β} :
    (x :: l).mapM f = .ok ys ↔ ∃ y zs, f x = .ok y ∧ l.mapM f = .ok zs ∧ ys = y :: zs := by
  rw [List.mapM_cons]
  constructor
  · intro h
    obtain ⟨y, hy, h⟩ := bind_eq_ok.mp h
    obtain ⟨zs, hzs, h⟩ := bind_eq_ok.mp h
    exact ⟨y, zs, hy, hzs, (Except.ok.inj h).symm⟩
  · rintro ⟨y, zs, hy, hzs, rfl⟩
    exact bind_eq_ok.mpr ⟨y, hy, bind_eq_ok.mpr ⟨zs, hzs, rfl⟩⟩

/-- What a map answers, entry by entry. -/
theorem mapM_eq_ok_iff {β : Type} {f : α → Except ε β} {l : List α} {ys : List β} :
    l.mapM f = .ok ys ↔ List.Forall₂ (fun x y => f x = .ok y) l ys := by
  induction l generalizing ys with
  | nil => cases ys <;> simp [pure, Except.pure]
  | cons x l ih =>
    rw [mapM_cons_eq_ok, List.forall₂_cons_left_iff]
    constructor
    · rintro ⟨y, zs, hy, hzs, rfl⟩
      exact ⟨y, zs, hy, ih.mp hzs, rfl⟩
    · rintro ⟨y, zs, hy, hzs, rfl⟩
      exact ⟨y, zs, hy, ih.mpr hzs, rfl⟩

/-- A map whose entries all succeed. -/
theorem mapM_eq_ok {β : Type} {f : α → Except ε β} {g : α → β} {l : List α}
    (h : ∀ x ∈ l, f x = .ok (g x)) : l.mapM f = .ok (l.map g) := by
  induction l with
  | nil => rfl
  | cons x l ih =>
    rw [List.forall_mem_cons] at h
    exact mapM_cons_eq_ok.mpr ⟨_, _, h.1, ih h.2, rfl⟩

/-- A map that succeeds does so at every entry. -/
theorem exists_of_mapM_eq_ok {β : Type} {f : α → Except ε β} {l : List α} {ys : List β}
    (h : l.mapM f = .ok ys) {x : α} (hx : x ∈ l) : ∃ y, f x = .ok y := by
  induction l generalizing ys with
  | nil => cases hx
  | cons a l ih =>
    obtain ⟨y, zs, ha, hl, -⟩ := mapM_cons_eq_ok.mp h
    rcases List.mem_cons.mp hx with rfl | hx
    · exact ⟨y, ha⟩
    · exact ih hl hx

theorem length_of_mapM {β : Type} {f : α → Except ε β} {l : List α} {ys : List β}
    (h : l.mapM f = .ok ys) : ys.length = l.length := by
  induction l generalizing ys with
  | nil =>
    cases h
    rfl
  | cons x l ih =>
    obtain ⟨y, zs, -, hl, rfl⟩ := mapM_cons_eq_ok.mp h
    rw [List.length_cons, List.length_cons, ih hl]

theorem forM_eq_ok {f : α → Except ε Unit} {l : List α} (h : ∀ x ∈ l, f x = .ok ()) :
    l.forM f = .ok () := by
  induction l with
  | nil => rfl
  | cons x l ih =>
    rw [List.forall_mem_cons] at h
    exact bind_eq_ok.mpr ⟨(), h.1, ih h.2⟩

end BoundedLoop
