import Mathlib.Data.Nat.Log
import Mathlib.Tactic.NormNum

/-! # Numbers of double precision

A nonnegative ratio rounds to the nearest number with 53 bits of mantissa, ties
to the even mantissa, with gradual underflow below `2 ^ -1022` and overflow to
infinity at `2 ^ 1024`.  Below `2 ^ 53` every integer is its own rounding.
-/
namespace Binary64

/-- A number: sign, mantissa, and the power of two that scales it. -/
inductive Double
  | finite (negative : Bool) (mantissa : Nat) (exponent : Int)
  | infinite (negative : Bool)
deriving DecidableEq

/-- Bits of a mantissa after the leading one. -/
def MANTISSA_BITS : Int := 52
/-- The exponent of the smallest positive number. -/
def MIN_EXPONENT : Int := -1074
/-- The exponent from which a number is infinite. -/
def MAX_EXPONENT : Nat := 1024

/-- The integer nearest to a ratio, ties to even. -/
def roundHalfEven (num den : Nat) : Nat :=
  if 2 * (num % den) < den ∨ 2 * (num % den) = den ∧ num / den % 2 = 0 then num / den
  else num / den + 1

/-- `num / den` scaled by a power of two, as numerator and denominator. -/
def scaled (num den : Nat) (exponent : Int) : Nat × Nat :=
  (num * 2 ^ exponent.toNat, den * 2 ^ (-exponent).toNat)

/-- The exponent `e` with `2 ^ e ≤ num / den < 2 ^ (e + 1)`. -/
def binaryExponent (num den : Nat) : Int :=
  let guess : Int := Nat.log 2 num - Nat.log 2 den
  if (scaled den num guess).1 ≤ (scaled den num guess).2 then guess else guess - 1

/-- The number nearest to a ratio. -/
def ofRatio (negative : Bool) (num den : Nat) : Double :=
  if num = 0 then .finite negative 0 0
  else
    let exponent := max (binaryExponent num den - MANTISSA_BITS) MIN_EXPONENT
    let (num, den) := scaled num den (-exponent)
    let mantissa := roundHalfEven num den
    if 2 ^ MAX_EXPONENT ≤ mantissa * 2 ^ exponent.toNat then .infinite negative
    else .finite negative mantissa exponent

/-- The integer of a sign and a magnitude. -/
def signed (negative : Bool) (n : Nat) : Int := if negative then -n else n

/-- The integer that a number is, when it is one. -/
def Double.toInt? : Double → Option Int
  | .finite negative mantissa exponent =>
    if 0 ≤ exponent then some (signed negative (mantissa * 2 ^ exponent.toNat))
    else if mantissa % 2 ^ (-exponent).toNat = 0 then
      some (signed negative (mantissa / 2 ^ (-exponent).toNat))
    else none
  | .infinite _ => none

def Double.isNegative : Double → Bool
  | .finite negative _ _ => negative
  | .infinite negative => negative

/-- The product of two numbers, of which none is zero when the other is infinite. -/
def Double.mul : Double → Double → Double
  | .finite negative mantissa exponent, .finite negative' mantissa' exponent' =>
    let (num, den) := scaled (mantissa * mantissa') 1 (exponent + exponent')
    ofRatio (negative != negative') num den
  | a, b => .infinite (a.isNegative != b.isNegative)

/-- A number in units of `2 ^ exponent`, for an exponent not above its own. -/
def Double.units (exponent : Int) : Double → Int
  | .finite negative mantissa exponent' =>
    signed negative (mantissa * 2 ^ (exponent' - exponent).toNat)
  | .infinite _ => 0

/-- The sum of two numbers, of which none is infinite when the other is so with the opposite
sign.  An exact zero is negative only where both are. -/
def Double.add : Double → Double → Double
  | a@(.finite negative _ exponent), b@(.finite negative' _ exponent') =>
    let unit := min exponent exponent'
    let sum := a.units unit + b.units unit
    let (num, den) := scaled sum.natAbs 1 unit
    ofRatio (if sum = 0 then negative && negative' else sum < 0) num den
  | .infinite negative, _ => .infinite negative
  | .finite .., .infinite negative => .infinite negative

theorem roundHalfEven_mul (n : Nat) {den : Nat} (hden : 0 < den) :
    roundHalfEven (n * den) den = n := by
  rw [roundHalfEven, Nat.mul_mod_left, if_pos (.inl (by simpa using hden)),
    Nat.mul_div_cancel _ hden]

theorem log_two_pow (n : Nat) : Nat.log 2 (2 ^ n) = n := Nat.log_pow (by norm_num) n

theorem log_mul_two_pow {n : Nat} (hn : n ≠ 0) (d : Nat) :
    Nat.log 2 (n * 2 ^ d) = Nat.log 2 n + d := by
  induction d with
  | zero => simp
  | succ d ih =>
    have hne : n * 2 ^ d ≠ 0 := Nat.mul_ne_zero hn (Nat.two_pow_pos d).ne'
    rw [pow_succ, ← Nat.mul_assoc, Nat.log_mul_base (by norm_num) hne, ih, Nat.add_assoc]

/-- The exponent of a positive integer is its binary logarithm, however a ratio writes the
integer. -/
theorem binaryExponent_mul {n : Nat} (hn : n ≠ 0) (d : Nat) :
    binaryExponent (n * 2 ^ d) (2 ^ d) = Nat.log 2 n := by
  have hpow := Nat.mul_le_mul_right (2 ^ d) (Nat.pow_log_le_self 2 hn)
  unfold binaryExponent scaled
  rw [log_mul_two_pow hn, log_two_pow, Nat.cast_add, add_sub_cancel_right]
  simp only [Int.toNat_natCast]
  rw [if_pos]
  simpa [Nat.mul_comm] using hpow

theorem binaryExponent_one {n : Nat} (hn : n ≠ 0) : binaryExponent n 1 = Nat.log 2 n := by
  simpa using binaryExponent_mul hn 0

/-- **Small integers are exact**, however a ratio writes them. -/
theorem toInt?_ofRatio_mul (negative : Bool) {n : Nat} (d : Nat) (h : n < 2 ^ 53) :
    (ofRatio negative (n * 2 ^ d) (2 ^ d)).toInt? = some (signed negative n) := by
  by_cases hn : n = 0
  · subst hn
    rw [ofRatio, if_pos (Nat.zero_mul _)]
    cases negative <;> rfl
  have hlog : Nat.log 2 n ≤ 52 := Nat.lt_succ_iff.mp (Nat.log_lt_of_lt_pow hn h)
  obtain ⟨shift, hshift⟩ : ∃ shift, Nat.log 2 n + shift = 52 := ⟨52 - Nat.log 2 n, by omega⟩
  have hexponent : max (binaryExponent (n * 2 ^ d) (2 ^ d) - MANTISSA_BITS) MIN_EXPONENT =
      -(shift : Int) := by
    rw [binaryExponent_mul hn]
    unfold MANTISSA_BITS MIN_EXPONENT
    omega
  have hmantissa : n * 2 ^ shift < 2 ^ MAX_EXPONENT := by
    have hshift' : 2 ^ shift ≤ 2 ^ 52 := Nat.pow_le_pow_right (by norm_num) (by omega)
    have hmax : 53 + 52 ≤ MAX_EXPONENT := by decide
    calc n * 2 ^ shift < 2 ^ 53 * 2 ^ 52 :=
          Nat.mul_lt_mul_of_lt_of_le h hshift' (Nat.two_pow_pos 52)
      _ = 2 ^ (53 + 52) := (pow_add 2 53 52).symm
      _ ≤ 2 ^ MAX_EXPONENT := Nat.pow_le_pow_right (by norm_num) hmax
  have hround : ofRatio negative (n * 2 ^ d) (2 ^ d) =
      .finite negative (n * 2 ^ shift) (-(shift : Int)) := by
    have hne : n * 2 ^ d ≠ 0 := Nat.mul_ne_zero hn (Nat.two_pow_pos d).ne'
    unfold ofRatio
    rw [if_neg hne, hexponent]
    simp only [scaled, neg_neg, Int.toNat_natCast, Int.toNat_neg_natCast, pow_zero, mul_one]
    rw [Nat.mul_right_comm, roundHalfEven_mul _ (Nat.two_pow_pos d),
      if_neg (Nat.not_le.mpr hmantissa)]
  rw [hround, Double.toInt?]
  by_cases hzero : shift = 0
  · subst hzero
    simp
  · rw [if_neg (by omega), neg_neg, Int.toNat_natCast, Nat.mul_mod_left, if_pos rfl,
      Nat.mul_div_cancel _ (Nat.two_pow_pos shift)]

theorem toInt?_ofRatio (negative : Bool) {n : Nat} (h : n < 2 ^ 53) :
    (ofRatio negative n 1).toInt? = some (signed negative n) := by
  simpa using toInt?_ofRatio_mul negative 0 h

theorem signed_mul (negative : Bool) (m n : Nat) :
    signed negative (m * n) = signed negative m * (n : Int) := by
  cases negative <;> simp [signed]

/-- The units of an integer. -/
theorem units_eq (exponent : Int) {a : Double} {v : Int} (h : a.toInt? = some v)
    (hle : ∀ negative mantissa exponent', a = .finite negative mantissa exponent' →
      exponent ≤ exponent') :
    a.units exponent * (2 ^ exponent.toNat : Nat) = v * (2 ^ (-exponent).toNat : Nat) := by
  cases a with
  | infinite negative => cases h
  | finite negative mantissa exponent' =>
    have hle' := hle _ _ _ rfl
    rw [Double.toInt?] at h
    rw [Double.units]
    split at h
    · obtain rfl := Option.some.inj h
      rw [← signed_mul, ← signed_mul, Nat.mul_assoc, Nat.mul_assoc, ← pow_add, ← pow_add]
      congr 3
      omega
    split at h
    · rename_i hneg hmod
      obtain rfl := Option.some.inj h
      obtain ⟨q, rfl⟩ := Nat.dvd_of_mod_eq_zero hmod
      rw [Nat.mul_div_cancel_left _ (Nat.two_pow_pos _), ← signed_mul, ← signed_mul,
        Nat.mul_comm (2 ^ _) q, Nat.mul_assoc, Nat.mul_assoc, ← pow_add, ← pow_add]
      congr 3
      omega
    · cases h

/-- **Sums of small integers are exact.** -/
theorem toInt?_add {a b : Double} {m n : Nat} (ha : a.toInt? = some (m : Int))
    (hb : b.toInt? = some (n : Int)) (h : m + n < 2 ^ 53) :
    (a.add b).toInt? = some ((m + n : Nat) : Int) := by
  cases a with
  | infinite negative => cases ha
  | finite negative mantissa exponent =>
    cases b with
    | infinite negative' => cases hb
    | finite negative' mantissa' exponent' =>
      have hunits := units_eq (min exponent exponent') ha (by rintro _ _ _ ⟨⟩; omega)
      have hunits' := units_eq (min exponent exponent') hb (by rintro _ _ _ ⟨⟩; omega)
      rw [Double.add]
      dsimp only
      generalize min exponent exponent' = unit at hunits hunits' ⊢
      set sum := (Double.finite negative mantissa exponent).units unit +
        (Double.finite negative' mantissa' exponent').units unit with hsum
      have hscaled : sum * (2 ^ unit.toNat : Nat) = ((m + n) * 2 ^ (-unit).toNat : Nat) := by
        rw [hsum, add_mul, hunits, hunits', ← add_mul]
        push_cast
        rfl
      have hnonneg : 0 ≤ sum := by
        have hpos : (0 : Int) < (2 ^ unit.toNat : Nat) := by positivity
        refine nonneg_of_mul_nonneg_left ?_ hpos
        rw [hscaled]
        exact Int.natCast_nonneg _
      have habs : sum.natAbs * 2 ^ unit.toNat = (m + n) * 2 ^ (-unit).toNat := by
        rw [← Int.toNat_of_nonneg hnonneg, Int.natAbs_natCast]
        rw [← Int.toNat_of_nonneg hnonneg] at hscaled
        exact_mod_cast hscaled
      rw [scaled, habs, Nat.one_mul, toInt?_ofRatio_mul _ _ h]
      by_cases hzero : m + n = 0
      · rw [hzero]
        simp [signed]
      · have hne : sum ≠ 0 := by
          intro heq
          rw [heq, Int.natAbs_zero, Nat.zero_mul] at habs
          exact hzero ((Nat.mul_eq_zero.mp habs.symm).resolve_right (Nat.two_pow_pos _).ne')
        rw [if_neg hne, decide_eq_false (by omega), signed, if_neg (by decide)]

theorem div_le_roundHalfEven (num den : Nat) : num / den ≤ roundHalfEven num den := by
  rw [roundHalfEven]
  split
  · exact le_rfl
  · exact Nat.le_succ _

/-- **Large integers stay large.**  Rounding takes no integer below `2 ^ 53`. -/
theorem le_of_toInt?_ofRatio {n m : Nat} (h : 2 ^ 53 ≤ n)
    (hm : (ofRatio false n 1).toInt? = some (m : Int)) : 2 ^ 53 ≤ m := by
  have hn : n ≠ 0 := by
    have := Nat.two_pow_pos 53
    omega
  have hlog : 53 ≤ Nat.log 2 n := (Nat.le_log_iff_pow_le (by norm_num) hn).mpr h
  obtain ⟨shift, hshift⟩ : ∃ shift, Nat.log 2 n = 53 + shift := Nat.exists_eq_add_of_le hlog
  have hexponent : max (binaryExponent n 1 - MANTISSA_BITS) MIN_EXPONENT =
      ((shift + 1 : Nat) : Int) := by
    rw [binaryExponent_one hn]
    unfold MANTISSA_BITS MIN_EXPONENT
    omega
  unfold ofRatio at hm
  rw [if_neg hn, hexponent] at hm
  simp only [scaled, neg_neg, Int.toNat_natCast, Int.toNat_neg_natCast, pow_zero, mul_one,
    one_mul] at hm
  split at hm
  · cases hm
  · rw [Double.toInt?, if_pos (Int.natCast_nonneg _), Int.toNat_natCast, signed,
      if_neg (by decide), Option.some.injEq, Nat.cast_inj] at hm
    have hmantissa : 2 ^ 52 ≤ roundHalfEven n (2 ^ (shift + 1)) := by
      refine le_trans ?_ (div_le_roundHalfEven _ _)
      rw [Nat.le_div_iff_mul_le (Nat.two_pow_pos _), ← pow_add]
      calc 2 ^ (52 + (shift + 1)) = 2 ^ Nat.log 2 n := by rw [hshift]; congr 1; omega
        _ ≤ n := Nat.pow_log_le_self 2 hn
    calc 2 ^ 53 = 2 ^ 52 * 2 ^ 1 := by norm_num
      _ ≤ roundHalfEven n (2 ^ (shift + 1)) * 2 ^ (shift + 1) :=
          Nat.mul_le_mul hmantissa (Nat.pow_le_pow_right (by norm_num) (by omega))
      _ = m := hm

/-! ## Powers of two -/

/-- **Powers of two are exact**, however the ratio writes them. -/
theorem ofRatio_two_pow (negative : Bool) (n d : Nat) (h : n < MAX_EXPONENT) :
    ofRatio negative (2 ^ (n + d)) (2 ^ d) = .finite negative (2 ^ 52) ((n : Int) - 52) := by
  have hbinary : binaryExponent (2 ^ (n + d)) (2 ^ d) = n := by
    have hguess : (Nat.log 2 (2 ^ (n + d)) : Int) - Nat.log 2 (2 ^ d) = n := by
      rw [log_two_pow, log_two_pow]
      omega
    unfold binaryExponent
    rw [hguess]
    simp only [scaled, Int.toNat_natCast, Int.toNat_neg_natCast, pow_zero, mul_one]
    rw [if_pos (by rw [pow_add, mul_comm])]
  have hexponent : max (binaryExponent (2 ^ (n + d)) (2 ^ d) - MANTISSA_BITS) MIN_EXPONENT =
      (n : Int) - 52 := by
    rw [hbinary]
    unfold MANTISSA_BITS MIN_EXPONENT
    omega
  -- one of the two shifts is zero
  have hshift : n + (-((n : Int) - 52)).toNat = ((n : Int) - 52).toNat + 52 := by omega
  have hround : roundHalfEven (2 ^ (n + d) * 2 ^ (-((n : Int) - 52)).toNat)
      (2 ^ d * 2 ^ ((n : Int) - 52).toNat) = 2 ^ 52 := by
    have hsplit : 2 ^ (n + d) * 2 ^ (-((n : Int) - 52)).toNat =
        2 ^ d * 2 ^ ((n : Int) - 52).toNat * 2 ^ 52 := by
      rw [← pow_add, ← pow_add, ← pow_add]
      congr 1
      omega
    rw [hsplit, roundHalfEven, Nat.mul_mod_right, if_pos (.inl (by positivity)),
      Nat.mul_div_cancel_left _ (by positivity)]
  have hsmall : 2 ^ 52 * 2 ^ ((n : Int) - 52).toNat < 2 ^ MAX_EXPONENT := by
    rw [← pow_add]
    have hmax : 52 < MAX_EXPONENT := by decide
    exact Nat.pow_lt_pow_right (by norm_num) (by omega)
  unfold ofRatio
  rw [if_neg (by positivity), hexponent]
  simp only [scaled, neg_neg]
  rw [hround, if_neg (Nat.not_le.mpr hsmall)]

theorem toInt?_two_pow (n : Nat) :
    (Double.finite false (2 ^ 52) ((n : Int) - 52)).toInt? = some ((2 ^ n : Nat) : Int) := by
  rw [Double.toInt?]
  split
  · rename_i h
    rw [signed, if_neg (by decide), ← pow_add]
    congr 3
    omega
  · rename_i h
    have hsplit : 2 ^ 52 = 2 ^ (-((n : Int) - 52)).toNat * 2 ^ n := by
      rw [← pow_add]
      congr 1
      omega
    rw [hsplit, Nat.mul_mod_right, if_pos rfl, Nat.mul_div_cancel_left _ (Nat.two_pow_pos _),
      signed, if_neg (by decide)]

/-- The product of two powers of two is exact. -/
theorem toInt?_mul_two_pow {m n : Nat} (h : m + n < MAX_EXPONENT) :
    ((ofRatio false (2 ^ m) 1).mul (ofRatio false (2 ^ n) 1)).toInt? =
      some ((2 ^ m * 2 ^ n : Nat) : Int) := by
  have hm := ofRatio_two_pow false m 0 (by omega)
  have hn := ofRatio_two_pow false n 0 (by omega)
  rw [pow_zero, add_zero] at hm hn
  have hproduct : (ofRatio false (2 ^ m) 1).mul (ofRatio false (2 ^ n) 1) =
      .finite false (2 ^ 52) ((m + n : Nat) - 52) := by
    rw [hm, hn, Double.mul]
    simp only [scaled, one_mul, bne_self_eq_false]
    rw [← ofRatio_two_pow false (m + n) (-((m : Int) - 52 + ((n : Int) - 52))).toNat h]
    congr 1
    rw [← pow_add, ← pow_add]
    congr 1
    omega
  rw [hproduct, toInt?_two_pow, ← pow_add]

end Binary64
