import Mathlib.Data.BitVec

/-! # Append-only records under consecutive numbers

A counter and records under fixed-width identifiers.  The records are numbered when
they exist exactly for the identifiers from one to the counter; then the next
identifier is free, and an append keeps the records numbered.
-/
namespace NumberedLog
variable {α : Type} {w : Nat} {records records' : BitVec w → Option α} {count id : BitVec w}

/-- Records exist exactly for the identifiers from one to the counter. -/
def Numbered (records : BitVec w → Option α) (count : BitVec w) : Prop :=
  ∀ id, (records id).isSome ↔ 1 ≤ id.toNat ∧ id.toNat ≤ count.toNat

theorem Numbered.of_empty (h : ∀ id, records id = none) (hcount : count = 0) :
    Numbered records count := by
  intro id
  rw [h, hcount]
  simp
  omega

/-- The next identifier is free. -/
theorem Numbered.next_eq_none (h : Numbered records count) (hid : id.toNat = count.toNat + 1) :
    records id = none := by
  rw [← Option.not_isSome_iff_eq_none, h id]
  omega

/-- **An append keeps the records numbered.** -/
theorem Numbered.append (h : Numbered records count) (hid : id.toNat = count.toNat + 1)
    (hnew : (records' id).isSome) (hold : ∀ j, j ≠ id → records' j = records j) :
    Numbered records' id := by
  intro j
  by_cases hj : j = id
  · subst hj
    simp only [hnew, le_refl, and_true, true_iff]
    omega
  · have hne : j.toNat ≠ id.toNat := fun heq => hj (BitVec.eq_of_toNat_eq heq)
    rw [hold j hj, h j]
    omega

end NumberedLog
