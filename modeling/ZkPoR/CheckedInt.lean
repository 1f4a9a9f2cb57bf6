import Mathlib.Data.BitVec
import Mathlib.Tactic.NormNum

/-! # Fixed-width integers with checked operations

Unsigned integers are bit vectors of the width the program names.  The plain
operations of a bit vector wrap; the operations here report the overflow
(`checkedAdd`) or stop at the largest value (`saturatingAdd`), and each one
comes with the statement about exact natural numbers that its callers need.
`I128` is the signed 128-bit integer, an integer that carries its own bounds.
-/
namespace CheckedInt

abbrev U32 := BitVec 32
abbrev U64 := BitVec 64
abbrev U128 := BitVec 128
abbrev U256 := BitVec 256

section Unsigned
variable {w : Nat}

/-- Addition that answers nothing when the exact sum leaves the width. -/
def checkedAdd (a b : BitVec w) : Option (BitVec w) :=
  if a.toNat + b.toNat < 2 ^ w then some (a + b) else none

theorem checkedAdd_eq_some {a b c : BitVec w} :
    checkedAdd a b = some c ↔ c.toNat = a.toNat + b.toNat := by
  unfold checkedAdd
  split
  · rename_i h
    rw [Option.some.injEq, ← BitVec.toNat_inj, BitVec.toNat_add, Nat.mod_eq_of_lt h]
    exact eq_comm
  · rename_i h
    have hc := c.isLt
    simp only [reduceCtorEq, false_iff]
    omega

theorem checkedAdd_eq_none {a b : BitVec w} :
    checkedAdd a b = none ↔ 2 ^ w ≤ a.toNat + b.toNat := by
  unfold checkedAdd
  split <;> simp <;> omega

/-- Addition that stops at the largest value of the width. -/
def saturatingAdd (a b : BitVec w) : BitVec w :=
  if a.toNat + b.toNat < 2 ^ w then a + b else BitVec.allOnes w

theorem toNat_saturatingAdd (a b : BitVec w) :
    (saturatingAdd a b).toNat = min (a.toNat + b.toNat) (2 ^ w - 1) := by
  unfold saturatingAdd
  split
  · rename_i h
    rw [BitVec.toNat_add, Nat.mod_eq_of_lt h]
    omega
  · rw [BitVec.toNat_allOnes]
    omega

/-- Every value is within the saturated sum exactly when it is within the exact
one: saturation hides nothing from a comparison. -/
theorem le_saturatingAdd_iff (a b c : BitVec w) :
    c ≤ saturatingAdd a b ↔ c.toNat ≤ a.toNat + b.toNat := by
  have hc := c.isLt
  rw [BitVec.le_def, toNat_saturatingAdd]
  omega

/-- Right shift that answers nothing when the width does not hold the distance. -/
def checkedShr (a : BitVec w) (n : Nat) : Option (BitVec w) :=
  if n < w then some (a >>> n) else none

/-- Left shift that answers nothing when the width does not hold the distance. -/
def checkedShl (a : BitVec w) (n : Nat) : Option (BitVec w) :=
  if n < w then some (a <<< n) else none

/-- Shifting out `n` bits leaves nothing exactly when the value is below `2 ^ n`. -/
theorem checkedShr_eq_zero {a : BitVec w} {n : Nat} (hn : n < w) :
    checkedShr a n = some 0 ↔ a.toNat < 2 ^ n := by
  rw [checkedShr, if_pos hn, Option.some.injEq, ← BitVec.toNat_inj, BitVec.toNat_ushiftRight,
    Nat.shiftRight_eq_div_pow]
  change a.toNat / 2 ^ n = 0 % 2 ^ w ↔ _
  rw [Nat.zero_mod, Nat.div_eq_zero_iff]
  have := Nat.two_pow_pos n
  omega

end Unsigned

/-- A signed 128-bit integer: the integer together with its bounds. -/
@[ext]
structure I128 where
  val : Int
  lower : -(2 ^ 127) ≤ val
  upper : val < 2 ^ 127
deriving DecidableEq

namespace I128

/-- The signed integer of an exact value that lies in range. -/
def ofInt? (n : Int) : Option I128 :=
  if h : -(2 ^ 127) ≤ n ∧ n < 2 ^ 127 then some ⟨n, h.1, h.2⟩ else none

theorem ofInt?_eq_some {n : Int} {a : I128} : ofInt? n = some a ↔ a.val = n := by
  unfold ofInt?
  split
  · rw [Option.some.injEq, I128.ext_iff]
    exact eq_comm
  · rename_i h
    simp only [reduceCtorEq, false_iff]
    rintro rfl
    exact h ⟨a.lower, a.upper⟩

/-- The largest value, `i128::MAX`. -/
def MAX : Int := 2 ^ 127 - 1

theorem le_max (a : I128) : a.val ≤ MAX := by
  have := a.upper
  unfold MAX
  omega

instance : Zero I128 := ⟨⟨0, by norm_num, by norm_num⟩⟩

@[simp] theorem zero_val : (0 : I128).val = 0 := rfl

/-- Addition that answers nothing when the exact sum leaves the range. -/
def checkedAdd (a b : I128) : Option I128 := ofInt? (a.val + b.val)

theorem checkedAdd_eq_some {a b c : I128} :
    a.checkedAdd b = some c ↔ c.val = a.val + b.val := ofInt?_eq_some

theorem exists_checkedAdd {a b : I128} (h : -(2 ^ 127) ≤ a.val + b.val ∧ a.val + b.val ≤ MAX) :
    ∃ c, a.checkedAdd b = some c :=
  ⟨⟨a.val + b.val, h.1, by have := h.2; unfold MAX at this; omega⟩, checkedAdd_eq_some.mpr rfl⟩

end I128
end CheckedInt
