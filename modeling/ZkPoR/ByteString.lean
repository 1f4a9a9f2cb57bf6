import Mathlib.Data.Vector.Defs
import Mathlib.Data.Vector.Basic
import Mathlib.Data.List.Induction

/-! # Byte strings and big-endian numbers

`beNat` reads a byte string as a big-endian number and `toBe` writes a number in
a fixed count of bytes.  The two are inverse on strings of one length, so a
fixed-length encoding is injective.
-/
namespace ByteString

abbrev Bytes := List UInt8

/-- A byte string of a fixed length. -/
abbrev BytesN (n : Nat) := List.Vector UInt8 n

/-- The number that a big-endian byte string spells. -/
def beNat (bytes : Bytes) : Nat := bytes.foldl (fun acc byte => acc * 256 + byte.toNat) 0

/-- The last `n` big-endian bytes of a number. -/
def toBe : Nat → Nat → Bytes
  | 0, _ => []
  | n + 1, x => toBe n (x / 256) ++ [UInt8.ofNat x]

@[simp] theorem beNat_nil : beNat [] = 0 := rfl

theorem beNat_concat (bytes : Bytes) (byte : UInt8) :
    beNat (bytes ++ [byte]) = beNat bytes * 256 + byte.toNat := by
  simp [beNat, List.foldl_append]

theorem beNat_lt (bytes : Bytes) : beNat bytes < 256 ^ bytes.length := by
  induction bytes using List.reverseRecOn with
  | nil => simp
  | append_singleton bytes byte ih =>
    have hbyte : byte.toNat < 256 := byte.toNat_lt
    rw [beNat_concat, List.length_append, List.length_singleton, pow_succ]
    omega

@[simp] theorem length_toBe (n x : Nat) : (toBe n x).length = n := by
  induction n generalizing x with
  | zero => rfl
  | succ n ih => simp [toBe, ih]

theorem beNat_toBe (n x : Nat) : beNat (toBe n x) = x % 256 ^ n := by
  induction n generalizing x with
  | zero => simp [toBe, Nat.mod_one]
  | succ n ih =>
    have hsplit : x % (256 * 256 ^ n) = x % 256 + 256 * (x / 256 % 256 ^ n) := Nat.mod_mul
    rw [toBe, beNat_concat, ih, UInt8.toNat_ofNat', pow_succ' 256 n, hsplit]
    omega

theorem beNat_toBe_of_lt {n x : Nat} (h : x < 256 ^ n) : beNat (toBe n x) = x := by
  rw [beNat_toBe, Nat.mod_eq_of_lt h]

theorem toBe_beNat (bytes : Bytes) : toBe bytes.length (beNat bytes) = bytes := by
  induction bytes using List.reverseRecOn with
  | nil => rfl
  | append_singleton bytes byte ih =>
    have hbyte : byte.toNat < 256 := byte.toNat_lt
    rw [List.length_append, List.length_singleton, toBe, beNat_concat]
    congr 1
    · rw [show (beNat bytes * 256 + byte.toNat) / 256 = beNat bytes by omega, ih]
    · rw [List.singleton_inj, ← UInt8.toNat_inj, UInt8.toNat_ofNat']
      omega

/-- Byte strings of one length are equal when they spell one number. -/
theorem eq_of_beNat_eq {xs ys : Bytes} (hlen : xs.length = ys.length)
    (h : beNat xs = beNat ys) : xs = ys := by
  rw [← toBe_beNat xs, ← toBe_beNat ys, hlen, h]

/-- Strings without a zero byte are equal when they spell one number, whatever their
lengths. -/
theorem eq_of_beNat_eq_of_notMem {xs ys : Bytes} (hxs : (0 : UInt8) ∉ xs) (hys : (0 : UInt8) ∉ ys)
    (h : beNat xs = beNat ys) : xs = ys := by
  have hpos : ∀ {x : UInt8}, x ≠ 0 → 0 < x.toNat := fun hx =>
    Nat.pos_of_ne_zero fun hzero => hx (UInt8.toNat_inj.mp hzero)
  induction xs using List.reverseRecOn generalizing ys with
  | nil =>
    rcases List.eq_nil_or_concat ys with rfl | ⟨ys, y, rfl⟩
    · rfl
    · rw [List.concat_eq_append, List.mem_append, not_or, List.mem_singleton] at hys
      rw [List.concat_eq_append, beNat_concat, beNat_nil] at h
      have := hpos (Ne.symm hys.2)
      omega
  | append_singleton xs x ih =>
    rw [List.mem_append, not_or, List.mem_singleton] at hxs
    have hx := hpos (Ne.symm hxs.2)
    rcases List.eq_nil_or_concat ys with rfl | ⟨ys, y, rfl⟩
    · rw [beNat_concat, beNat_nil] at h
      omega
    · rw [List.concat_eq_append, List.mem_append, not_or, List.mem_singleton] at hys
      rw [List.concat_eq_append, beNat_concat, beNat_concat] at h
      have hxlt : x.toNat < 256 := x.toNat_lt
      have hylt : y.toNat < 256 := y.toNat_lt
      rw [List.concat_eq_append, ih hxs.1 hys.1 (by omega),
        UInt8.toNat_inj.mp (show x.toNat = y.toNat by omega)]

theorem beNat_append (xs ys : Bytes) :
    beNat (xs ++ ys) = beNat xs * 256 ^ ys.length + beNat ys := by
  induction ys using List.reverseRecOn with
  | nil => simp
  | append_singleton ys y ih =>
    rw [← List.append_assoc, beNat_concat, beNat_concat, ih, List.length_append,
      List.length_singleton, pow_succ, Nat.add_mul, Nat.mul_assoc, Nat.add_assoc]

theorem beNat_cons (x : UInt8) (xs : Bytes) :
    beNat (x :: xs) = x.toNat * 256 ^ xs.length + beNat xs := by
  have h := beNat_append [x] xs
  rwa [show beNat [x] = x.toNat by simp [beNat]] at h

theorem beNat_zeros (n : Nat) : beNat (List.replicate n 0) = 0 := by
  induction n with
  | zero => rfl
  | succ n ih =>
    rw [List.replicate_succ, beNat_cons, ih]
    simp

/-- The byte at one place of a fixed-length encoding. -/
theorem getElem?_toBe {n i : Nat} (x : Nat) (h : i < n) :
    (toBe n x)[i]? = some (UInt8.ofNat (x / 256 ^ (n - 1 - i))) := by
  induction n generalizing x with
  | zero => cases h
  | succ n ih =>
    rw [toBe]
    rcases Nat.lt_succ_iff_lt_or_eq.mp h with hlt | rfl
    · have hexp : n + 1 - 1 - i = (n - 1 - i) + 1 := by omega
      rw [List.getElem?_append_left (by rwa [length_toBe]), ih _ hlt, Nat.div_div_eq_div_mul, hexp,
        pow_succ']
    · rw [List.getElem?_append_right (by rw [length_toBe]), length_toBe]
      simp

/-- Two numbers with the same digits below a place are the same below it. -/
theorem eq_of_digits_eq {b n x y : Nat} (hx : x < b ^ n) (hy : y < b ^ n)
    (h : ∀ j < n, x / b ^ j % b = y / b ^ j % b) : x = y := by
  induction n generalizing x y with
  | zero =>
    rw [pow_zero] at hx hy
    omega
  | succ n ih =>
    have hlow : x % b = y % b := by simpa using h 0 (Nat.succ_pos n)
    have hhigh : x / b = y / b := by
      refine ih (Nat.div_lt_of_lt_mul (by rwa [← pow_succ']))
        (Nat.div_lt_of_lt_mul (by rwa [← pow_succ'])) fun j hj => ?_
      rw [Nat.div_div_eq_div_mul, Nat.div_div_eq_div_mul, ← pow_succ']
      exact h (j + 1) (Nat.succ_lt_succ hj)
    rw [← Nat.div_add_mod x b, ← Nat.div_add_mod y b, hlow, hhigh]

/-- A list of one full chunk and a shorter rest. -/
theorem toChunks_append {α : Type} {n : Nat} {xs ys : List α} (hn : 0 < n) (hxs : xs.length = n)
    (hys : ys ≠ []) (hle : ys.length ≤ n) : (xs ++ ys).toChunks n = [xs, ys] := by
  have hfill : ∀ (zs : List α) (acc : Array α) (out : Array (List α)), zs.length + acc.size ≤ n →
      List.toChunks.go n zs acc out = (out.push (acc.toList ++ zs)).toList := by
    intro zs
    induction zs with
    | nil => simp [List.toChunks.go]
    | cons z zs ih =>
      intro acc out h
      rw [List.length_cons] at h
      rw [List.toChunks.go, if_neg (by simp; omega), ih _ _ (by rw [Array.size_push]; omega)]
      simp
  have hfull : ∀ (zs : List α) (acc : Array α) (out : Array (List α)) (y : α) (ys : List α),
      zs.length + acc.size = n → List.toChunks.go n (zs ++ y :: ys) acc out =
        List.toChunks.go n ys ((Array.mkEmpty n).push y) (out.push (acc.toList ++ zs)) := by
    intro zs
    induction zs with
    | nil =>
      intro acc out y ys h
      have hsize : acc.size = n := by simpa using h
      simp [List.toChunks.go, hsize]
    | cons z zs ih =>
      intro acc out y ys h
      rw [List.length_cons] at h
      rw [List.cons_append, List.toChunks.go, if_neg (by simp; omega),
        ih _ _ _ _ (by rw [Array.size_push]; omega)]
      simp
  cases xs with
  | nil => simp at hxs; omega
  | cons x xs =>
    cases ys with
    | nil => exact absurd rfl hys
    | cons y ys =>
      obtain ⟨n, rfl⟩ := Nat.exists_eq_add_of_lt hn
      rw [List.length_cons] at hxs hle
      rw [List.cons_append, List.toChunks, hfull _ _ _ _ _ (by simpa using hxs),
        hfill _ _ _ (by simpa using hle)]
      · simp
      · simp

/-- Strings of one length compare, byte by byte from the left, as their numbers do. -/
theorem map_toNat_lt_iff {xs ys : Bytes} (hlen : xs.length = ys.length) :
    xs.map UInt8.toNat < ys.map UInt8.toNat ↔ beNat xs < beNat ys := by
  induction xs generalizing ys with
  | nil =>
    cases ys with
    | nil => simp
    | cons y ys => cases hlen
  | cons x xs ih =>
    cases ys with
    | nil => cases hlen
    | cons y ys =>
      have htail : xs.length = ys.length := Nat.succ.inj hlen
      have hx := beNat_lt xs
      have hy := beNat_lt ys
      rw [List.map_cons, List.map_cons, List.cons_lt_cons_iff, ih htail, beNat_cons, beNat_cons,
        htail]
      rw [htail] at hx
      generalize 256 ^ ys.length = b at hx hy
      constructor
      · rintro (h | ⟨h, hlt⟩)
        · calc x.toNat * b + beNat xs < (x.toNat + 1) * b := by rw [Nat.succ_mul]; omega
            _ ≤ y.toNat * b := Nat.mul_le_mul_right b h
            _ ≤ y.toNat * b + beNat ys := Nat.le_add_right _ _
        · rw [h]
          omega
      · intro h
        rcases Nat.lt_trichotomy x.toNat y.toNat with hlt | heq | hgt
        · exact .inl hlt
        · refine .inr ⟨heq, ?_⟩
          rw [heq] at h
          omega
        · have hle : (y.toNat + 1) * b ≤ x.toNat * b := Nat.mul_le_mul_right b hgt
          rw [Nat.succ_mul] at hle
          omega

end ByteString
