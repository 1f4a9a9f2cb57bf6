import Mathlib.Tactic.NormNum
import Mathlib.Tactic.Positivity
import ZkPoR.ByteString

/-! # The base64 text of a byte string

The alphabet for URLs, without padding.  Three bytes are four characters, and a
shorter rest is filled up with zero bits, so the text of a byte string is the
base-64 digits of its number with some zero bits behind it (`encode_eq`).
-/
namespace Base64Url
open ByteString

/-- The characters, in the order of their values. -/
def ALPHABET : List Char :=
  ['A', 'B', 'C', 'D', 'E', 'F', 'G', 'H', 'I', 'J', 'K', 'L', 'M', 'N', 'O', 'P', 'Q', 'R', 'S',
    'T', 'U', 'V', 'W', 'X', 'Y', 'Z', 'a', 'b', 'c', 'd', 'e', 'f', 'g', 'h', 'i', 'j', 'k', 'l',
    'm', 'n', 'o', 'p', 'q', 'r', 's', 't', 'u', 'v', 'w', 'x', 'y', 'z', '0', '1', '2', '3', '4',
    '5', '6', '7', '8', '9', '-', '_']

/-- The character of a value below 64. -/
def character (n : Nat) : Char := ALPHABET.getD n 'A'

/-- The last `k` base-64 digits of a number. -/
def digits (k n : Nat) : List Char :=
  (List.range k).map fun i => character (n / 64 ^ (k - 1 - i) % 64)

/-- The text of a byte string. -/
def encode : Bytes → List Char
  | a :: b :: c :: rest => digits 4 (beNat [a, b, c]) ++ encode rest
  | [a, b] => digits 3 (beNat [a, b] * 4)
  | [a] => digits 2 (beNat [a] * 16)
  | [] => []

/-- Characters of the text of `n` bytes. -/
def chars (n : Nat) : Nat := (8 * n + 5) / 6

/-- Zero bits that fill up the last character. -/
def fill (n : Nat) : Nat := 6 * chars n - 8 * n

@[simp] theorem length_digits (k n : Nat) : (digits k n).length = k := by simp [digits]

theorem digits_add (j k n : Nat) : digits (j + k) n = digits j (n / 64 ^ k) ++ digits k n := by
  refine List.ext_getElem (by simp) fun i hi _ => ?_
  rw [length_digits] at hi
  simp only [digits, List.getElem_map, List.getElem_range, List.getElem_append, List.length_map,
    List.length_range]
  split
  · rename_i hlt
    rw [Nat.div_div_eq_div_mul, ← pow_add, show j + k - 1 - i = k + (j - 1 - i) by omega]
  · rw [show j + k - 1 - i = k - 1 - (i - j) by omega]

/-- The digits below a place do not depend on what is above it. -/
theorem digits_mul_add (k m n : Nat) : digits k (m * 64 ^ k + n) = digits k n := by
  refine List.map_congr_left fun i hi => ?_
  rw [List.mem_range] at hi
  have hsplit : 64 ^ k = 64 ^ (i + 1) * 64 ^ (k - 1 - i) := by
    rw [← pow_add]
    congr 1
    omega
  rw [hsplit, ← Nat.mul_assoc, Nat.add_comm, Nat.add_mul_div_right _ _ (by positivity), pow_succ,
    ← Nat.mul_assoc, Nat.add_mul_mod_self_right]

theorem chars_add (n : Nat) : chars (n + 3) = 4 + chars n := by
  unfold chars
  omega

theorem fill_add (n : Nat) : fill (n + 3) = fill n := by
  unfold fill
  rw [chars_add]
  unfold chars
  omega

/-- The characters hold the bytes and the zero bits. -/
theorem pow_chars (n : Nat) : 64 ^ chars n = 256 ^ n * 2 ^ fill n := by
  have hfill : 6 * chars n = 8 * n + fill n := by
    unfold fill chars
    omega
  rw [show (64 : Nat) = 2 ^ 6 by norm_num, show (256 : Nat) = 2 ^ 8 by norm_num, ← pow_mul,
    ← pow_mul, ← pow_add, hfill]

/-- **The text is the digits of the number, with zero bits behind it.** -/
theorem encode_eq (bytes : Bytes) :
    encode bytes = digits (chars bytes.length) (beNat bytes * 2 ^ fill bytes.length) := by
  induction bytes using encode.induct with
  | case1 a b c rest ih =>
    have hlt := beNat_lt rest
    have hsplit : beNat (a :: b :: c :: rest) * 2 ^ fill rest.length =
        beNat [a, b, c] * 64 ^ chars rest.length + beNat rest * 2 ^ fill rest.length := by
      have happend := beNat_append [a, b, c] rest
      rw [List.cons_append, List.cons_append, List.cons_append, List.nil_append] at happend
      rw [happend, pow_chars, Nat.add_mul, Nat.mul_assoc]
    have hbelow : beNat rest * 2 ^ fill rest.length < 64 ^ chars rest.length := by
      rw [pow_chars]
      exact Nat.mul_lt_mul_of_pos_right hlt (Nat.two_pow_pos _)
    have hhigh : (beNat [a, b, c] * 64 ^ chars rest.length + beNat rest * 2 ^ fill rest.length) /
        64 ^ chars rest.length = beNat [a, b, c] := by
      rw [Nat.add_comm, Nat.add_mul_div_right _ _ (by positivity), Nat.div_eq_of_lt hbelow,
        Nat.zero_add]
    rw [encode, ih]
    change _ = digits (chars (rest.length + 3)) (_ * 2 ^ fill (rest.length + 3))
    rw [chars_add, fill_add, digits_add, hsplit, hhigh, digits_mul_add]
  | case2 a b =>
    have hchars : chars [a, b].length = 3 := by simp [chars]
    have hfill : 2 ^ fill [a, b].length = 4 := by simp [fill, chars]
    rw [encode, hchars, hfill]
  | case3 a =>
    have hchars : chars [a].length = 2 := by simp [chars]
    have hfill : 2 ^ fill [a].length = 16 := by simp [fill, chars]
    rw [encode, hchars, hfill]
  | case4 => rfl

@[simp] theorem length_encode (bytes : Bytes) : (encode bytes).length = chars bytes.length := by
  rw [encode_eq, length_digits]

theorem character_mem (n : Nat) : character n ∈ ALPHABET := by
  unfold character
  rw [List.getD_eq_getElem?_getD]
  cases h : ALPHABET[n]? with
  | some c => exact List.mem_of_getElem? h
  | none => decide

theorem mem_alphabet_of_mem_encode {bytes : Bytes} {c : Char} (h : c ∈ encode bytes) :
    c ∈ ALPHABET := by
  rw [encode_eq, digits, List.mem_map] at h
  obtain ⟨i, -, rfl⟩ := h
  exact character_mem _

/-! ## The reader -/

def valueOf (c : Char) : Option Nat := if c ∈ ALPHABET then some (ALPHABET.idxOf c) else none

/-- The number that characters spell. -/
def number (cs : List Char) : Option Nat :=
  cs.foldlM (fun acc c => (valueOf c).map fun v => acc * 64 + v) 0

/-- The bytes of a number whose zero bits behind them are zero. -/
def bytesOf (n zeros v : Nat) : Option Bytes :=
  if v % zeros = 0 then some (toBe n (v / zeros)) else none

/-- The byte string of a text. -/
def decode : List Char → Option Bytes
  | w :: x :: y :: z :: rest => do
    let head ← (number [w, x, y, z]).bind (bytesOf 3 1)
    let tail ← decode rest
    return head ++ tail
  | [] => some []
  | [_] => none
  | [w, x] => (number [w, x]).bind (bytesOf 1 16)
  | [w, x, y] => (number [w, x, y]).bind (bytesOf 2 4)

theorem valueOf_character {n : Nat} (h : n < 64) : valueOf (character n) = some n := by
  have hall : ∀ n < 64, valueOf (character n) = some n := by decide
  exact hall n h

theorem number_digits {k n : Nat} (h : n < 64 ^ k) : number (digits k n) = some n := by
  induction k generalizing n with
  | zero =>
    obtain rfl : n = 0 := by simpa using h
    rfl
  | succ k ih =>
    have hlast : digits 1 n = [character (n % 64)] := by simp [digits]
    have hhigh : n / 64 ^ 1 < 64 ^ k := by
      rw [pow_one]
      exact Nat.div_lt_of_lt_mul (by rwa [← pow_succ'])
    have hnumber := ih hhigh
    unfold number at hnumber ⊢
    rw [digits_add, List.foldlM_append, hnumber, hlast]
    simp only [Option.bind_eq_bind, Option.bind_some, List.foldlM_cons, List.foldlM_nil,
      valueOf_character (Nat.mod_lt n (by norm_num : 0 < 64)), Option.map_some, pow_one]
    exact congrArg some (Nat.div_add_mod' n 64)

/-- The digits of a number that has zero bits behind its bytes. -/
theorem bytesOf_number {k zeros : Nat} {bytes : Bytes} (hzeros : 0 < zeros)
    (h : 256 ^ bytes.length * zeros = 64 ^ k) :
    (number (digits k (beNat bytes * zeros))).bind (bytesOf bytes.length zeros) = some bytes := by
  have hlt : beNat bytes * zeros < 64 ^ k := by
    rw [← h]
    exact Nat.mul_lt_mul_of_pos_right (beNat_lt bytes) hzeros
  rw [number_digits hlt, Option.bind_some, bytesOf, if_pos (Nat.mul_mod_left _ _),
    Nat.mul_div_cancel _ hzeros, toBe_beNat]

/-- **The reader inverts the writer.** -/
theorem decode_encode (bytes : Bytes) : decode (encode bytes) = some bytes := by
  induction bytes using encode.induct with
  | case1 a b c rest ih =>
    have hgroup := @bytesOf_number 4 1 [a, b, c] Nat.one_pos (by norm_num)
    rw [Nat.mul_one] at hgroup
    obtain ⟨w, x, y, z, hdigits⟩ : ∃ w x y z, digits 4 (beNat [a, b, c]) = [w, x, y, z] :=
      ⟨_, _, _, _, rfl⟩
    rw [hdigits] at hgroup
    rw [encode, hdigits]
    change (do
      let head ← (number [w, x, y, z]).bind (bytesOf 3 1)
      let tail ← decode (encode rest)
      return head ++ tail) = some (a :: b :: c :: rest)
    rw [ih, show bytesOf 3 1 = bytesOf [a, b, c].length 1 from rfl, hgroup]
    rfl
  | case2 a b => exact @bytesOf_number 3 4 [a, b] (by norm_num) (by norm_num)
  | case3 a => exact @bytesOf_number 2 16 [a] (by norm_num) (by norm_num)
  | case4 => rfl

end Base64Url
