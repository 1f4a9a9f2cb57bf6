import Mathlib.Data.List.Basic
import Mathlib.Data.List.Induction
import Mathlib.Data.List.TakeWhile

/-! # Decimal texts

A natural number has one decimal text, without a leading zero, and every text of
digits without a superfluous leading zero is the text of its number.
-/
namespace DecimalText

theorem isDigit_toDigits {n : Nat} {c : Char} (h : c ∈ Nat.toDigits 10 n) : c.isDigit = true :=
  Nat.isDigit_of_mem_toDigits (by decide) (by decide) h

/-- Only zero is written with a leading zero. -/
theorem head?_toDigits {n : Nat} (h : (Nat.toDigits 10 n).head? = some '0') : n = 0 := by
  induction n using Nat.strong_induction_on with
  | _ n ih =>
    by_cases hn : n < 10
    · have hdigit : ∀ n < 10, [Nat.digitChar n].head? = some '0' → n = 0 := by decide
      rw [Nat.toDigits_of_lt_base hn] at h
      exact hdigit n hn h
    · rw [Nat.toDigits_of_base_le (by decide) (by omega),
        List.head?_append_of_ne_nil _ Nat.toDigits_ne_nil] at h
      have := ih (n / 10) (by omega) h
      omega

/-- The text of a number has digits, and no leading zero unless it is one digit. -/
def IsDecimal (cs : List Char) : Prop :=
  cs ≠ [] ∧ (cs.head? = some '0' → cs.length = 1) ∧ ∀ c ∈ cs, c.isDigit = true

instance (cs : List Char) : Decidable (IsDecimal cs) := inferInstanceAs (Decidable (_ ∧ _ ∧ _))

theorem isDecimal_toDigits (n : Nat) : IsDecimal (Nat.toDigits 10 n) := by
  refine ⟨Nat.toDigits_ne_nil, fun h => ?_, fun _ => isDigit_toDigits⟩
  rw [head?_toDigits h]
  rfl

theorem digitChar_of_isDigit {c : Char} (h : c.isDigit = true) :
    ∃ d < 10, c = Nat.digitChar d := by
  have hdigit : ∀ d < 10, Char.ofNat (d + 48) = Nat.digitChar d := by decide
  simp only [Char.isDigit, ge_iff_le, Bool.and_eq_true, decide_eq_true_eq] at h
  have hlow : 48 ≤ c.toNat := h.1
  have hhigh : c.toNat ≤ 57 := h.2
  refine ⟨c.toNat - 48, by omega, ?_⟩
  rw [← hdigit _ (by omega), Nat.sub_add_cancel hlow, Char.ofNat_toNat]

theorem ofDigitChars_concat (cs : List Char) {d : Nat} (hd : d < 10) :
    Nat.ofDigitChars 10 (cs ++ [Nat.digitChar d]) 0 = 10 * Nat.ofDigitChars 10 cs 0 + d := by
  rw [Nat.ofDigitChars_append, Nat.ofDigitChars_cons_digitChar_of_lt_ten hd, Nat.ofDigitChars_nil]

/-- The first digit decides whether a number is zero. -/
theorem ofDigitChars_pos {cs : List Char} (h : IsDecimal cs) (hzero : cs.head? ≠ some '0') :
    0 < Nat.ofDigitChars 10 cs 0 := by
  induction cs using List.reverseRecOn with
  | nil => exact absurd rfl h.1
  | append_singleton cs c ih =>
    obtain ⟨d, hd, rfl⟩ := digitChar_of_isDigit (h.2.2 c (by simp))
    rw [ofDigitChars_concat cs hd]
    by_cases hcs : cs = []
    · subst hcs
      have hd0 : d ≠ 0 := by
        rintro rfl
        exact hzero rfl
      omega
    · have hhead : cs.head? ≠ some '0' := by
        rwa [List.head?_append_of_ne_nil _ hcs] at hzero
      have := ih ⟨hcs, fun h0 => absurd h0 hhead, fun c hc => h.2.2 c (by simp [hc])⟩ hhead
      omega

/-- **A decimal text is the text of its number.** -/
theorem toDigits_ofDigitChars {cs : List Char} (h : IsDecimal cs) :
    Nat.toDigits 10 (Nat.ofDigitChars 10 cs 0) = cs := by
  induction cs using List.reverseRecOn with
  | nil => exact absurd rfl h.1
  | append_singleton cs c ih =>
    obtain ⟨d, hd, rfl⟩ := digitChar_of_isDigit (h.2.2 c (by simp))
    rw [ofDigitChars_concat cs hd]
    by_cases hcs : cs = []
    · subst hcs
      rw [Nat.ofDigitChars_nil, Nat.mul_zero, Nat.zero_add, Nat.toDigits_of_lt_base hd,
        List.nil_append]
    · have hlength : (cs ++ [Nat.digitChar d]).length ≠ 1 := by
        have := List.length_pos_of_ne_nil hcs
        rw [List.length_append, List.length_singleton]
        omega
      have hhead : cs.head? ≠ some '0' := fun h0 =>
        hlength (h.2.1 (by rw [List.head?_append_of_ne_nil _ hcs, h0]))
      have hdecimal : IsDecimal cs :=
        ⟨hcs, fun h0 => absurd h0 hhead, fun c hc => h.2.2 c (by simp [hc])⟩
      rw [← Nat.toDigits_append_toDigits (by decide) (ofDigitChars_pos hdecimal hhead) hd,
        ih hdecimal, Nat.toDigits_of_lt_base hd]

/-- No digit stands in front. -/
def EndsDigits (cs : List Char) : Prop := ∀ c, cs.head? = some c → c.isDigit = false

theorem takeWhile_digits {digits cs : List Char} (hdigits : ∀ c ∈ digits, c.isDigit = true)
    (hcs : EndsDigits cs) :
    (digits ++ cs).takeWhile Char.isDigit = digits ∧
      (digits ++ cs).dropWhile Char.isDigit = cs := by
  rw [List.takeWhile_append_of_pos hdigits, List.dropWhile_append_of_pos hdigits]
  cases cs with
  | nil => simp
  | cons c cs => simp [hcs c rfl]

end DecimalText
