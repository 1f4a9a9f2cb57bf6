import ZkPoR.ByteString
import ZkPoR.CheckedInt

/-! # Field elements and 256-bit integers

The circuits compute with elements of the BN254 scalar field.  The contract and
the tools hold the same values as 256-bit integers, and not every such integer
is a field element, so a value from outside passes `frInRange` first.  The host
reduces an integer before it hashes it (`toFr`), and a hash is always canonical
(`ofFr`).
-/
namespace ZkPoR
open ByteString CheckedInt

/-- The modulus of the BN254 scalar field. -/
def frModulus : Nat := 0x30644e72e131a029b85045b68181585d2833e84879b9709143e1f593f0000001

/-- An element of the scalar field. -/
abbrev Fr := Fin frModulus

theorem frModulus_pos : 0 < frModulus := by decide

theorem frModulus_lt : frModulus < 2 ^ 256 := by decide

instance : NeZero frModulus := ⟨frModulus_pos.ne'⟩

/-- Byte length of a serialized field element. -/
def FR_BYTES : Nat := 32

/-- The field element of an integer, by reduction. -/
def frOfNat (n : Nat) : Fr := ⟨n % frModulus, Nat.mod_lt n frModulus_pos⟩

/-- The reduction of a 256-bit integer into the field. -/
def toFr (x : U256) : Fr := frOfNat x.toNat

/-- The 256-bit integer of a field element. -/
def ofFr (a : Fr) : U256 := BitVec.ofNat 256 a.val

/-- True when the value is below the modulus. -/
def frInRange (x : U256) : Prop := x.toNat < frModulus

instance (x : U256) : Decidable (frInRange x) := inferInstanceAs (Decidable (_ < _))

@[simp] theorem toNat_ofFr (a : Fr) : (ofFr a).toNat = a.val := by
  have := a.isLt
  have := frModulus_lt
  rw [ofFr, BitVec.toNat_ofNat, Nat.mod_eq_of_lt (by omega)]

theorem frInRange_ofFr (a : Fr) : frInRange (ofFr a) := by
  unfold frInRange
  rw [toNat_ofFr]
  exact a.isLt

theorem frOfNat_val {n : Nat} (h : n < frModulus) : (frOfNat n).val = n := Nat.mod_eq_of_lt h

@[simp] theorem toFr_ofFr (a : Fr) : toFr (ofFr a) = a := by
  rw [toFr, toNat_ofFr]
  exact Fin.ext (frOfNat_val a.isLt)

theorem ofFr_toFr {x : U256} (h : frInRange x) : ofFr (toFr x) = x :=
  BitVec.eq_of_toNat_eq (by rw [toNat_ofFr]; exact frOfNat_val h)

theorem ofFr_injective : Function.Injective ofFr :=
  Function.LeftInverse.injective toFr_ofFr

@[simp] theorem ofFr_inj {a b : Fr} : ofFr a = ofFr b ↔ a = b := ofFr_injective.eq_iff

/-- The integer that 32 big-endian bytes spell. -/
def frFromBe (bytes : Bytes) : U256 := BitVec.ofNat 256 (beNat bytes)

/-- The 32 big-endian bytes of an integer. -/
def toBeBytes (x : U256) : Bytes := toBe FR_BYTES x.toNat

@[simp] theorem length_toBeBytes (x : U256) : (toBeBytes x).length = FR_BYTES := length_toBe _ _

theorem beNat_toBeBytes (x : U256) : beNat (toBeBytes x) = x.toNat := by
  have hlt : x.toNat < 256 ^ FR_BYTES := x.isLt
  rw [toBeBytes, beNat_toBe_of_lt hlt]

theorem toBeBytes_injective : Function.Injective toBeBytes := by
  intro x y h
  have hnat := congrArg beNat h
  rw [beNat_toBeBytes, beNat_toBeBytes] at hnat
  exact BitVec.eq_of_toNat_eq hnat

/-- An integer reads one string of 32 bytes. -/
theorem frFromBe_inj {xs ys : Bytes} (hxs : xs.length = FR_BYTES) (hys : ys.length = FR_BYTES)
    (h : frFromBe xs = frFromBe ys) : xs = ys := by
  have hbound : ∀ {zs : Bytes}, zs.length = FR_BYTES → beNat zs < 2 ^ 256 := fun hzs => by
    have := beNat_lt ‹_›
    rw [hzs] at this
    exact this
  have hnat := congrArg BitVec.toNat h
  rw [frFromBe, frFromBe, BitVec.toNat_ofNat, BitVec.toNat_ofNat, Nat.mod_eq_of_lt (hbound hxs),
    Nat.mod_eq_of_lt (hbound hys)] at hnat
  exact eq_of_beNat_eq (hxs.trans hys.symm) hnat

/-- Reduces 32 bytes into the field. -/
def frReduce (bytes : Bytes) : U256 := BitVec.ofNat 256 ((frFromBe bytes).toNat % frModulus)

end ZkPoR
