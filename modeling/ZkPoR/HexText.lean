import ZkPoR.ByteString

/-! # Hexadecimal texts

A byte string has one text of lowercase digits, and a text of hexadecimal digits,
two for each byte, has one byte string.  A lowercase text of even length is the
text of its bytes (`hexOf_bytesOf`), so the texts of one length and the byte
strings of half that length name each other.
-/
namespace HexText
open ByteString

/-- The value of a hexadecimal digit, in either case. -/
def hexDigit? (c : Char) : Option Nat :=
  if '0' ≤ c ∧ c ≤ '9' then some (c.toNat - '0'.toNat)
  else if 'a' ≤ c ∧ c ≤ 'f' then some (c.toNat - 'a'.toNat + 10)
  else if 'A' ≤ c ∧ c ≤ 'F' then some (c.toNat - 'A'.toNat + 10)
  else none

def hexValue (c : Char) : Nat := (hexDigit? c).getD 0

/-- The characters `0` to `9` and `a` to `f`. -/
def isLowerHex (c : Char) : Bool := '0' ≤ c && c ≤ '9' || 'a' ≤ c && c ≤ 'f'

/-- Two lowercase digits for each byte. -/
def hexOf (bytes : Bytes) : List Char :=
  bytes.flatMap fun byte => [Nat.digitChar (byte.toNat / 16), Nat.digitChar (byte.toNat % 16)]

/-- One byte for each pair of digits. -/
def bytesOf : List Char → Bytes
  | a :: b :: cs => UInt8.ofNat (16 * hexValue a + hexValue b) :: bytesOf cs
  | _ => []

/-- The number that a text of digits writes. -/
def hexNat (cs : List Char) : Nat := cs.foldl (fun acc c => 16 * acc + hexValue c) 0

theorem isLowerHex_digitChar : ∀ n < 16, isLowerHex (Nat.digitChar n) = true := by decide

theorem hexDigit?_digitChar : ∀ n < 16, hexDigit? (Nat.digitChar n) = some n := by decide

/-- A lowercase digit is the digit of its value. -/
theorem isLowerHex_iff {c : Char} :
    isLowerHex c = true ↔ ∃ n < 16, hexDigit? c = some n ∧ Nat.digitChar n = c := by
  constructor
  · intro h
    have hdecimal : ∀ n < 10, Char.ofNat (n + 48) = Nat.digitChar n := by decide
    have hletter : ∀ n < 6, Char.ofNat (n + 97) = Nat.digitChar (n + 10) := by decide
    simp only [isLowerHex, Bool.or_eq_true, Bool.and_eq_true, decide_eq_true_eq] at h
    rcases h with ⟨h0, h9⟩ | ⟨ha, hf⟩
    · have h0' : 48 ≤ c.toNat := h0
      have h9' : c.toNat ≤ 57 := h9
      refine ⟨c.toNat - 48, by omega, if_pos ⟨h0, h9⟩, ?_⟩
      rw [← hdecimal _ (by omega), Nat.sub_add_cancel h0', Char.ofNat_toNat]
    · have ha' : 97 ≤ c.toNat := ha
      have hf' : c.toNat ≤ 102 := hf
      have hnot : ¬ ('0' ≤ c ∧ c ≤ '9') := fun hc => by
        have : c.toNat ≤ 57 := hc.2
        omega
      refine ⟨c.toNat - 97 + 10, by omega, ?_, ?_⟩
      · rw [hexDigit?, if_neg hnot, if_pos ⟨ha, hf⟩]
        rfl
      · rw [← hletter _ (by omega), Nat.sub_add_cancel ha', Char.ofNat_toNat]
  · rintro ⟨n, hn, -, rfl⟩
    exact isLowerHex_digitChar n hn

theorem hexValue_digitChar {n : Nat} (h : n < 16) : hexValue (Nat.digitChar n) = n := by
  rw [hexValue, hexDigit?_digitChar n h, Option.getD_some]

theorem length_hexOf (bytes : Bytes) : (hexOf bytes).length = 2 * bytes.length := by
  induction bytes with
  | nil => rfl
  | cons byte bytes ih =>
    rw [hexOf, List.flatMap_cons, ← hexOf]
    simp only [List.length_append, List.length_cons, List.length_nil, ih]
    omega

theorem isLowerHex_of_mem_hexOf {bytes : Bytes} {c : Char} (h : c ∈ hexOf bytes) :
    isLowerHex c = true := by
  rw [hexOf, List.mem_flatMap] at h
  obtain ⟨byte, -, hc⟩ := h
  have hbyte := byte.toNat_lt
  simp only [List.mem_cons, List.not_mem_nil, or_false] at hc
  rcases hc with rfl | rfl
  · exact isLowerHex_digitChar _ (by omega)
  · exact isLowerHex_digitChar _ (by omega)

theorem bytesOf_hexOf (bytes : Bytes) : bytesOf (hexOf bytes) = bytes := by
  induction bytes with
  | nil => rfl
  | cons byte bytes ih =>
    have hbyte := byte.toNat_lt
    rw [hexOf, List.flatMap_cons, ← hexOf]
    simp only [List.cons_append, List.nil_append, bytesOf, ih, List.cons.injEq, and_true]
    rw [hexValue_digitChar (by omega), hexValue_digitChar (by omega), ← UInt8.toNat_inj,
      UInt8.toNat_ofNat']
    omega

/-- A lowercase text of even length is the text of its bytes. -/
theorem hexOf_bytesOf {n : Nat} {cs : List Char} (hlength : cs.length = 2 * n)
    (h : ∀ c ∈ cs, isLowerHex c = true) : hexOf (bytesOf cs) = cs := by
  induction n generalizing cs with
  | zero =>
    rw [List.length_eq_zero_iff.mp hlength]
    rfl
  | succ n ih =>
    match cs, hlength with
    | a :: b :: cs, hlength =>
      rw [List.forall_mem_cons, List.forall_mem_cons] at h
      obtain ⟨i, hi, hai, rfl⟩ := isLowerHex_iff.mp h.1
      obtain ⟨j, hj, hbj, rfl⟩ := isLowerHex_iff.mp h.2.1
      have hbyte : (UInt8.ofNat (16 * i + j)).toNat = 16 * i + j := by
        rw [UInt8.toNat_ofNat']
        omega
      have htail : hexOf (bytesOf cs) = cs := ih (by simp at hlength; omega) h.2.2
      rw [bytesOf, hexValue_digitChar hi, hexValue_digitChar hj, hexOf, List.flatMap_cons, ← hexOf,
        htail, hbyte, show (16 * i + j) / 16 = i by omega, show (16 * i + j) % 16 = j by omega]
      rfl

theorem length_bytesOf {n : Nat} {cs : List Char} (h : cs.length = 2 * n) :
    (bytesOf cs).length = n := by
  induction n generalizing cs with
  | zero =>
    rw [List.length_eq_zero_iff.mp h]
    rfl
  | succ n ih =>
    match cs, h with
    | a :: b :: cs, h => rw [bytesOf, List.length_cons, ih (by simp at h; omega)]

/-- The digits of a byte string write its number. -/
theorem hexNat_hexOf (bytes : Bytes) : hexNat (hexOf bytes) = beNat bytes := by
  induction bytes using List.reverseRecOn with
  | nil => rfl
  | append_singleton bytes byte ih =>
    have hbyte := byte.toNat_lt
    have happend : hexOf (bytes ++ [byte]) = hexOf bytes ++
        [Nat.digitChar (byte.toNat / 16), Nat.digitChar (byte.toNat % 16)] := by
      simp [hexOf]
    rw [happend, hexNat, List.foldl_append, ← hexNat, ih, beNat_concat]
    simp only [List.foldl_cons, List.foldl_nil]
    rw [hexValue_digitChar (by omega), hexValue_digitChar (by omega)]
    omega

/-! ## The digits of a number -/

/-- `padStart`: the text behind as many fill characters as the width asks for. -/
def padStart (width : Nat) (fill : Char) (cs : List Char) : List Char :=
  List.replicate (width - cs.length) fill ++ cs

theorem isLowerHex_toDigits (n : Nat) : ∀ c ∈ Nat.toDigits 16 n, isLowerHex c = true := by
  induction n using Nat.strong_induction_on with
  | _ n ih =>
    by_cases hn : n < 16
    · rw [Nat.toDigits_of_lt_base hn, List.forall_mem_singleton]
      exact isLowerHex_digitChar n hn
    · rw [Nat.toDigits_of_base_le (by decide) (by omega), List.forall_mem_append,
        List.forall_mem_singleton]
      exact ⟨ih (n / 16) (by omega), isLowerHex_digitChar _ (Nat.mod_lt n (by decide))⟩

theorem hexNat_toDigits (n : Nat) : hexNat (Nat.toDigits 16 n) = n := by
  induction n using Nat.strong_induction_on with
  | _ n ih =>
    by_cases hn : n < 16
    · rw [Nat.toDigits_of_lt_base hn, hexNat, List.foldl_cons, List.foldl_nil,
        hexValue_digitChar hn]
      omega
    · rw [Nat.toDigits_of_base_le (by decide) (by omega), hexNat, List.foldl_append, ← hexNat,
        ih (n / 16) (by omega), List.foldl_cons, List.foldl_nil,
        hexValue_digitChar (Nat.mod_lt n (by decide))]
      omega

/-- Zeros in front do not change the number. -/
theorem hexNat_padStart (width : Nat) (cs : List Char) : hexNat (padStart width '0' cs) = hexNat cs := by
  have hzeros : ∀ k, (List.replicate k '0').foldl (fun acc c => 16 * acc + hexValue c) 0 = 0 := by
    intro k
    induction k with
    | zero => rfl
    | succ k ih => rwa [List.replicate_succ, List.foldl_cons]
  rw [padStart, hexNat, List.foldl_append, hzeros, ← hexNat]

/-- **The digits of a number, filled up with zeros, are the text of its bytes.** -/
theorem padStart_toDigits {n v : Nat} (hn : 0 < n) (h : v < 256 ^ n) :
    padStart (2 * n) '0' (Nat.toDigits 16 v) = hexOf (toBe n v) := by
  have hshort : (Nat.toDigits 16 v).length ≤ 2 * n := by
    rw [Nat.length_toDigits_le_iff (by decide) (by omega), pow_mul]
    exact h
  have hlength : (padStart (2 * n) '0' (Nat.toDigits 16 v)).length = 2 * n := by
    rw [padStart, List.length_append, List.length_replicate]
    omega
  have hlower : ∀ c ∈ padStart (2 * n) '0' (Nat.toDigits 16 v), isLowerHex c = true := by
    rw [padStart, List.forall_mem_append]
    refine ⟨fun c hc => ?_, isLowerHex_toDigits v⟩
    rw [List.eq_of_mem_replicate hc]
    decide
  have hbytes : toBe n v = bytesOf (padStart (2 * n) '0' (Nat.toDigits 16 v)) := by
    refine eq_of_beNat_eq ((length_toBe n v).trans (length_bytesOf hlength).symm) ?_
    rw [beNat_toBe_of_lt h, ← hexNat_hexOf, hexOf_bytesOf hlength hlower, hexNat_padStart,
      hexNat_toDigits]
  rw [hbytes, hexOf_bytesOf hlength hlower]

end HexText
