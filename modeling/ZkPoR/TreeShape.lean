import ZkPoR.GeneratorAgreement
import ZkPoR.Identity
import ZkPoR.LinePattern
import ZkPoR.PublicInputVector

/-! # The shape of the tree in the two languages

`parseShape` reads the two sizes from the text of `params.toml`, `parseManifest`
from the manifest, and `read_shape` from the pairs of `params.toml`.  The client
tests a size with a bit operation, which takes the low 32 bits of a number alone, so
from `2 ^ 32` on it accepts every number whose low bits pass the test.  The product
of the generator wraps at 64 bits.  `shape_validation` says which sizes each reader
accepts, and what the capacity and the depth then are.
-/
namespace ZkPoR
open ByteString JsonText JavaScript Binary64 LinePattern CheckedInt
open BoundedLoop (bind_eq_ok)

namespace Sdk

/-- A line terminator of ECMAScript. -/
def isLineTerminator (c : Char) : Bool :=
  c.toNat = 0x0a || c.toNat = 0x0d || c.toNat = 0x2028 || c.toNat = 0x2029

/-- What a call of the proving client throws. -/
inductive ProvingError
  | proving (message : Text)

/-- The sizes of the tree and the product of the two. -/
structure TreeShape where
  batchB : Double
  numBatchesK : Double
  capacity : Double

section Reader
variable (engine : Engine)

/-- `Number.parseInt` of a text of digits. -/
def parseInt (digits : List Char) : Double := ofRatio false (Nat.ofDigitChars 10 digits 0) 1

/-- Whether a number fails the test of a size.  Infinity is above two, and it has no
low bits. -/
def failsSize (value : Double) : Bool :=
  match value.toInt? with
  | some n => n < 2 || toInt32 n.toNat &&& toInt32 (predecessor n.toNat) ≠ 0
  | none => false

def readSize (text : List Char) (name : String) : Except ProvingError Double :=
  match exec isWhitespace isLineTerminator name.toList digits true text with
  | none => .error (.proving (Text.ofString s!"the configuration file states no {name}"))
  | some found =>
    let value := parseInt found
    if failsSize value then
      .error (.proving (Text.ofString
          s!"{name} is a power of two and at least two, and the file says " ++
        engine.string (some (.number value))))
    else .ok value

/-- Reads the shape from the configuration file that the circuits read. -/
def parseShape (text : List Char) : Except ProvingError TreeShape := do
  let batchB ← readSize engine text "batch_b"
  let numBatchesK ← readSize engine text "num_batches_k"
  return { batchB, numBatchesK, capacity := batchB.mul numBatchesK }

end Reader

/-! ## The test of a size -/

/-- A size of the tree. -/
def IsSize (n : Nat) : Prop := 2 ≤ n ∧ n.isPowerOfTwo

/-- What the bit operation sees of a number passes for a power of two. -/
def MaskPasses (n : Nat) : Prop := n % 2 ^ 32 = 0 ∨ (n % 2 ^ 32).isPowerOfTwo

/-- The low 32 bits decide for the whole number. -/
def MaskDecides (n : Nat) : Prop := 2 ^ 32 ≤ n → MaskPasses n → n.isPowerOfTwo

theorem and_pred_eq_zero {n : Nat} (h : 1 ≤ n) :
    toInt32 n &&& toInt32 (n - 1) = 0 ↔ MaskPasses n := by
  have hpred : toInt32 (n - 1) = toInt32 n - 1 := by
    obtain ⟨m, rfl⟩ := Nat.exists_eq_add_of_le' h
    simp [toInt32, BitVec.ofNat_add]
  have hlow : (toInt32 n).toNat = n % 2 ^ 32 := BitVec.toNat_ofNat ..
  rw [hpred, MaskPasses, ← hlow]
  generalize toInt32 n = low
  by_cases hzero : low = 0
  · simp [hzero]
  · have hne : low.toNat ≠ 0 := fun h => hzero (BitVec.eq_of_toNat_eq h)
    have hsub : (low - 1).toNat = low.toNat - 1 := by
      have := low.isLt
      have hone : BitVec.toNat (1 : BitVec 32) = 1 := rfl
      rw [BitVec.toNat_sub, hone]
      omega
    rw [← BitVec.toNat_inj, BitVec.toNat_and, hsub, or_iff_right hne]
    exact Nat.and_sub_one_eq_zero_iff_isPowerOfTwo hne

/-- Below `2 ^ 32` the bit operation sees the whole number. -/
theorem maskPasses_of_isPowerOfTwo {n : Nat} (h : n.isPowerOfTwo) : MaskPasses n := by
  obtain ⟨i, rfl⟩ := h
  rcases Nat.lt_or_ge i 32 with hi | hi
  · right
    rw [Nat.mod_eq_of_lt (Nat.pow_lt_pow_right (by norm_num) hi)]
    exact ⟨i, rfl⟩
  · exact .inl (Nat.mod_eq_zero_of_dvd (Nat.pow_dvd_pow 2 hi))

/-- The test agrees with the law where the low bits decide. -/
theorem maskPasses_iff_isSize {n : Nat} :
    ((2 ≤ n ∧ MaskPasses n) ↔ IsSize n) ↔ MaskDecides n := by
  constructor
  · exact fun h hlarge hmask => (h.mp ⟨by omega, hmask⟩).2
  · refine fun h => ⟨fun ⟨htwo, hmask⟩ => ⟨htwo, ?_⟩, fun hsize =>
      ⟨hsize.1, maskPasses_of_isPowerOfTwo hsize.2⟩⟩
    rcases Nat.lt_or_ge n (2 ^ 32) with hsmall | hlarge
    · rw [MaskPasses, Nat.mod_eq_of_lt hsmall] at hmask
      exact hmask.resolve_left (by omega)
    · exact h hlarge hmask

/-- The predecessor of a safe integer is exact. -/
theorem predecessor_of_lt {n : Nat} (h : n < 2 ^ 53) : predecessor n = n - 1 := by
  rw [predecessor, toInt?_ofRatio false (by omega)]
  rfl

/-- A negative number is no size, and its `toNat` is none either. -/
theorem isSize_toNat {n : Int} : IsSize n.toNat ↔ 2 ≤ n ∧ n.toNat.isPowerOfTwo := by
  have hle : 2 ≤ n.toNat ↔ 2 ≤ n := by omega
  rw [IsSize, hle]

theorem failsSize_eq_false {value : Double} {n : Int} (h : value.toInt? = some n)
    (hn : n < 2 ^ 53) : failsSize value = false ↔ 2 ≤ n ∧ MaskPasses n.toNat := by
  rw [failsSize, h]
  dsimp only
  rw [predecessor_of_lt (by omega), Bool.or_eq_false_iff, decide_eq_false_iff_not,
    decide_eq_false_iff_not, not_not]
  constructor
  · rintro ⟨htwo, hmask⟩
    exact ⟨by omega, (and_pred_eq_zero (by omega)).mp hmask⟩
  · rintro ⟨htwo, hmask⟩
    exact ⟨by omega, (and_pred_eq_zero (by omega)).mpr hmask⟩

/-! ## The readers of the client -/

section Accepts
variable {engine : Engine} {n : Int}

/-- The configuration file writes a number under a name.  It can write no negative one. -/
def Writes (text : List Char) (name : String) (n : Int) : Prop :=
  ∃ found, exec isWhitespace isLineTerminator name.toList digits true text = some found ∧
    (Nat.ofDigitChars 10 found 0 : Int) = n

/-- A record carries a number under a key. -/
def Carries (source : List (Text × Value)) (key : String) (n : Int) : Prop :=
  ∃ number, property source key = some (.number number) ∧ number.toInt? = some n

/-- What both readers accept of a number. -/
def Accepted (n : Int) : Prop := 2 ≤ n ∧ MaskPasses n.toNat

theorem readSize_eq_ok {text : List Char} {name : String} {value : Double}
    (hwrites : Writes text name n) (hn : n < 2 ^ 53) :
    readSize engine text name = .ok value ↔ Accepted n ∧ value = ofRatio false n.toNat 1 := by
  obtain ⟨found, hexec, rfl⟩ := hwrites
  have hsmall : Nat.ofDigitChars 10 found 0 < 2 ^ 53 := by exact_mod_cast hn
  have hvalue : (parseInt found).toInt? = some ((Nat.ofDigitChars 10 found 0 : Nat) : Int) :=
    toInt?_ofRatio false hsmall
  rw [Accepted, ← failsSize_eq_false hvalue hn, readSize, hexec]
  dsimp only
  by_cases hfails : failsSize (parseInt found) = true
  · rw [if_pos hfails, hfails]
    simp
  · rw [if_neg hfails, Except.ok.injEq, parseInt, Int.toNat_natCast, eq_comm]
    exact ⟨fun h => ⟨Bool.not_eq_true _ ▸ hfails, h⟩, fun h => h.2⟩

theorem powerOfTwoField_eq_ok {source : List (Text × Value)} {key : String} {m : Nat}
    (hcarries : Carries source key n) (hn : n < 2 ^ 53) :
    powerOfTwoField source key = .ok m ↔ Accepted n ∧ m = n.toNat := by
  obtain ⟨number, hproperty, hnumber⟩ := hcarries
  rw [powerOfTwoField, hproperty]
  dsimp only
  rw [hnumber]
  dsimp only
  rw [predecessor_of_lt (by omega), Accepted]
  by_cases htwo : 2 ≤ n
  · rw [if_neg (by omega), eq_comm (a := m)]
    by_cases hmask : toInt32 n.toNat &&& toInt32 (n.toNat - 1) = 0
    · have hpasses := (and_pred_eq_zero (by omega)).mp hmask
      rw [if_neg (not_not.mpr hmask), Except.ok.injEq]
      exact ⟨fun h => ⟨⟨htwo, hpasses⟩, h⟩, fun h => h.2⟩
    · have hpasses := mt (and_pred_eq_zero (by omega)).mpr hmask
      rw [if_pos hmask]
      simp [manifestError, hpasses]
  · rw [if_pos (by omega)]
    simp [manifestError, htwo]

/-- Both readers take every size. -/
theorem accepted_of_isSize (h : IsSize n.toNat) : Accepted n :=
  ⟨(isSize_toNat.mp h).1, maskPasses_of_isPowerOfTwo h.2⟩

end Accepts

/-! ## Whole files -/

/-- `Math.log2` is exact at a power of two. -/
def Engine.ExactLog2 (engine : Engine) : Prop :=
  ∀ i : Nat, i < 53 → (engine.log2 (2 ^ i)).toInt? = some (i : Int)

/-- Every field of a manifest but the two sizes passes its check. -/
structure RestPasses (source : List (Text × Value)) : Prop where
  count : isNumber (property source "public_input_count") PUBLIC_INPUT_COUNT = true
  bytes : isNumber (property source "public_input_bytes") PUBLIC_INPUT_BYTES = true
  positions : ∃ positionsSource positions,
    (property source "public_input_positions").bind record? = some positionsSource ∧
      readPositions positionsSource = .ok positions
  innerKeyHash : ∃ hash, decimalDigits (property source "inner_key_hash") = some hash
  strings : ∀ key ∈ ["bb_version", "nargo_version", "proof_scheme", "terminal_oracle_hash",
    "inner_oracle_hash", "aggregator_key_sha256"], ∃ value, manifestString source key = .ok value

/-- A manifest that carries the two sizes, and that nothing else is wrong with. -/
structure StatesSizes (text : String) (source : List (Text × Value)) (b k : Int) : Prop where
  parsed : ∃ value, JavaScript.parse text = some value ∧ record? value = some source
  batchB : Carries source "batch_b" b
  numBatchesK : Carries source "num_batches_k" k
  rest : RestPasses source

/-- A configuration file that writes the two sizes. -/
structure WritesSizes (text : List Char) (b k : Int) : Prop where
  batchB : Writes text "batch_b" b
  numBatchesK : Writes text "num_batches_k" k

section Files
variable {engine : Engine} {b k : Int}

theorem parseShape_eq_ok {text : List Char} {shape : TreeShape} (hwrites : WritesSizes text b k)
    (hb : b < 2 ^ 53) (hk : k < 2 ^ 53) :
    parseShape engine text = .ok shape ↔
      (Accepted b ∧ Accepted k) ∧
        shape = ⟨ofRatio false b.toNat 1, ofRatio false k.toNat 1,
          (ofRatio false b.toNat 1).mul (ofRatio false k.toNat 1)⟩ := by
  simp only [parseShape, bind_eq_ok, readSize_eq_ok hwrites.batchB hb,
    readSize_eq_ok hwrites.numBatchesK hk]
  constructor
  · rintro ⟨_, ⟨hbatch, rfl⟩, _, ⟨hcount, rfl⟩, hshape⟩
    exact ⟨⟨hbatch, hcount⟩, (Except.ok.inj hshape).symm⟩
  · rintro ⟨⟨hbatch, hcount⟩, rfl⟩
    exact ⟨_, ⟨hbatch, rfl⟩, _, ⟨hcount, rfl⟩, rfl⟩

theorem orManifest_eq_ok {α : Type} {x : Option α} {message : Text} {a : α} :
    orManifest x message = .ok a ↔ x = some a := by
  cases x <;> simp [orManifest]

/-- What the manifest says of the sizes, when it is accepted. -/
theorem sizes_of_parseManifest {text : String} {source : List (Text × Value)} {m : Manifest}
    (hstates : StatesSizes text source b k) (hb : b < 2 ^ 53) (hk : k < 2 ^ 53)
    (h : parseManifest engine text = .ok m) :
    (Accepted b ∧ Accepted k) ∧ m.batchB = b.toNat ∧ m.numBatchesK = k.toNat ∧
      m.treeDepth = (engine.log2 b.toNat).add (engine.log2 k.toNat) := by
  obtain ⟨value, hparse, hrecord⟩ := hstates.parsed
  simp only [parseManifest, bind_eq_ok, orManifest_eq_ok, hparse, Option.some.injEq,
    exists_eq_left', hrecord] at h
  obtain ⟨_, -, _, -, _, -, _, -, batchB, hbatch, numBatchesK, hcount, _, -, _, -, _, -, _, -,
    _, -, _, -, _, -, hm⟩ := h
  obtain ⟨hb', rfl⟩ := (powerOfTwoField_eq_ok hstates.batchB hb).mp hbatch
  obtain ⟨hk', rfl⟩ := (powerOfTwoField_eq_ok hstates.numBatchesK hk).mp hcount
  obtain rfl := Except.ok.inj hm
  exact ⟨⟨hb', hk'⟩, rfl, rfl, rfl⟩

theorem exists_parseManifest {text : String} {source : List (Text × Value)}
    (hstates : StatesSizes text source b k) (hb : b < 2 ^ 53) (hk : k < 2 ^ 53) :
    (∃ m, parseManifest engine text = .ok m) ↔ Accepted b ∧ Accepted k := by
  constructor
  · rintro ⟨m, hm⟩
    exact (sizes_of_parseManifest hstates hb hk hm).1
  · rintro ⟨hbatch, hcount⟩
    obtain ⟨value, hparse, hrecord⟩ := hstates.parsed
    obtain ⟨positionsSource, positions, hpositions, hread⟩ := hstates.rest.positions
    obtain ⟨hash, hhash⟩ := hstates.rest.innerKeyHash
    have hstring := hstates.rest.strings
    simp only [List.mem_cons, List.not_mem_nil, or_false, forall_eq_or_imp, forall_eq] at hstring
    obtain ⟨⟨bb, hbb⟩, ⟨nargo, hnargo⟩, ⟨scheme, hscheme⟩, ⟨terminal, hterminal⟩,
      ⟨inner, hinner⟩, ⟨key, hkey⟩⟩ := hstring
    have hbatchB := (powerOfTwoField_eq_ok hstates.batchB hb).mpr ⟨hbatch, rfl⟩
    have hnumBatchesK := (powerOfTwoField_eq_ok hstates.numBatchesK hk).mpr ⟨hcount, rfl⟩
    simp only [parseManifest, bind_eq_ok]
    exact ⟨_, _, orManifest_eq_ok.mpr hparse, _, orManifest_eq_ok.mpr hrecord, (),
      if_pos hstates.rest.count, (), if_pos hstates.rest.bytes, _,
      orManifest_eq_ok.mpr hpositions, _, hread, _, hbatchB, _, hnumBatchesK, _,
      orManifest_eq_ok.mpr hhash, _, hbb, _, hnargo, _, hscheme, _, hterminal, _, hinner, _, hkey,
      rfl⟩

end Files
end Sdk

/-! ## The law of the shape -/

section Law
open Sdk Generator

/-- The law for one number: a reader of the client takes it exactly when it is a size. -/
structure SizeLaw (engine : Engine) (n : Int) : Prop where
  shape : ∀ text name, Sdk.Writes text name n →
    ((∃ value, readSize engine text name = .ok value) ↔ IsSize n.toNat)
  manifest : ∀ source key, Carries source key n →
    ((∃ m, powerOfTwoField source key = .ok m) ↔ IsSize n.toNat)

/-- The law for a configuration file that writes the two sizes. -/
structure ShapeLaw (engine : Engine) (text : List Char) (b k : Int) : Prop where
  accepts : (∃ shape, parseShape engine text = .ok shape) ↔ IsSize b.toNat ∧ IsSize k.toNat
  capacity : ∀ shape, parseShape engine text = .ok shape →
    shape.capacity.toInt? = some (b * k) ∧ (b * k).toNat.isPowerOfTwo

/-- The law for a manifest that states the two sizes. -/
structure ManifestLaw (engine : Engine) (text : String) (b k : Int) : Prop where
  accepts : (∃ m, parseManifest engine text = .ok m) ↔ IsSize b.toNat ∧ IsSize k.toNat
  treeDepth : ∀ m, parseManifest engine text = .ok m →
    ∃ depth : Nat, m.treeDepth.toInt? = some (depth : Int) ∧ 2 ^ depth = b * k

/-- The low bits of two numbers decide for them together. -/
def PairDecides (b k : Int) : Prop :=
  Accepted b ∧ Accepted k → b.toNat.isPowerOfTwo ∧ k.toNat.isPowerOfTwo

/-- The law for the sizes that the generator reads. -/
structure GeneratorLaw (batchB numBatchesK : U64) : Prop where
  shape : (∃ config, readShape batchB numBatchesK 2 = .ok config) ↔
    IsSize batchB.toNat ∧ IsSize numBatchesK.toNat
  capacity : ∀ config, readShape batchB numBatchesK 2 = .ok config →
    config.capacity = batchB.toNat * numBatchesK.toNat ∧ config.capacity.isPowerOfTwo ∧
      2 ^ trailingZeros config.capacity = config.capacity

/-- The readers agree with the law where the low bits decide. -/
theorem accepted_iff_isSize {n : Int} : (Accepted n ↔ IsSize n.toNat) ↔ MaskDecides n.toNat := by
  have hle : Accepted n ↔ 2 ≤ n.toNat ∧ MaskPasses n.toNat := by
    rw [Accepted, show 2 ≤ n ↔ 2 ≤ n.toNat by omega]
  rw [hle]
  exact maskPasses_iff_isSize

theorem sizeLaw_iff (engine : Engine) {n : Int} (hn : n < 2 ^ 53) :
    SizeLaw engine n ↔ MaskDecides n.toNat := by
  constructor
  · intro h
    by_cases htwo : 2 ≤ n
    · have hnumber : (ofRatio false n.toNat 1).toInt? = some n := by
        rw [toInt?_ofRatio false (show n.toNat < 2 ^ 53 by omega), Binary64.signed,
          if_neg (by decide), Int.toNat_of_nonneg (by omega)]
      have hcarries : Carries [(Text.ofString "batch_b", .number (ofRatio false n.toNat 1))]
          "batch_b" n := ⟨_, by simp [property], hnumber⟩
      have hlaw := h.manifest _ _ hcarries
      simp only [powerOfTwoField_eq_ok hcarries hn, exists_and_left, exists_eq, and_true] at hlaw
      exact accepted_iff_isSize.mp hlaw
    · intro hlarge
      omega
  · intro h
    refine ⟨fun text name hwrites => ?_, fun source key hcarries => ?_⟩
    · simpa [readSize_eq_ok hwrites hn] using accepted_iff_isSize.mpr h
    · simpa [powerOfTwoField_eq_ok hcarries hn] using accepted_iff_isSize.mpr h

/-- Two numbers that the readers accept are sizes where their low bits decide. -/
theorem PairDecides.accepted_iff {b k : Int} (h : PairDecides b k) :
    Accepted b ∧ Accepted k ↔ IsSize b.toNat ∧ IsSize k.toNat := by
  constructor
  · intro haccepted
    obtain ⟨hb, hk⟩ := h haccepted
    exact ⟨isSize_toNat.mpr ⟨haccepted.1.1, hb⟩, isSize_toNat.mpr ⟨haccepted.2.1, hk⟩⟩
  · exact fun ⟨hb, hk⟩ => ⟨accepted_of_isSize hb, accepted_of_isSize hk⟩

/-- Sizes as powers of two. -/
theorem exists_two_pow {n : Int} (htwo : 2 ≤ n) (hn : n < 2 ^ 53) (h : n.toNat.isPowerOfTwo) :
    ∃ i < 53, n = (2 ^ i : Nat) := by
  obtain ⟨i, hi⟩ := h
  have hcast : n = (2 ^ i : Nat) := by
    rw [← hi]
    omega
  refine ⟨i, (Nat.pow_lt_pow_iff_right (by norm_num)).mp (?_ : 2 ^ i < 2 ^ 53), hcast⟩
  omega

theorem shapeLaw_iff {engine : Engine} {text : List Char} {b k : Int}
    (hwrites : WritesSizes text b k) (hb : b < 2 ^ 53) (hk : k < 2 ^ 53) :
    ShapeLaw engine text b k ↔ PairDecides b k := by
  have haccepts : (∃ shape, parseShape engine text = .ok shape) ↔ Accepted b ∧ Accepted k := by
    simp only [parseShape_eq_ok hwrites hb hk, exists_and_left, exists_eq, and_true]
  constructor
  · intro h haccepted
    have hsizes := h.accepts.mp (haccepts.mpr haccepted)
    exact ⟨hsizes.1.2, hsizes.2.2⟩
  · intro h
    refine ⟨haccepts.trans h.accepted_iff, fun shape hshape => ?_⟩
    obtain ⟨haccepted, rfl⟩ := (parseShape_eq_ok hwrites hb hk).mp hshape
    obtain ⟨hpowB, hpowK⟩ := h haccepted
    obtain ⟨i, hi, rfl⟩ := exists_two_pow haccepted.1.1 hb hpowB
    obtain ⟨j, hj, rfl⟩ := exists_two_pow haccepted.2.1 hk hpowK
    have hmax : 53 + 53 < MAX_EXPONENT := by decide
    have hproduct : ((2 ^ i : Nat) : Int) * (2 ^ j : Nat) = ((2 ^ i * 2 ^ j : Nat) : Int) :=
      (Nat.cast_mul _ _).symm
    rw [hproduct, Int.toNat_natCast, Int.toNat_natCast, Int.toNat_natCast]
    exact ⟨toInt?_mul_two_pow (by omega), i + j, (pow_add ..).symm⟩

/-- The depth of a tree of two sizes. -/
theorem toInt?_treeDepth {engine : Engine} (hlog : engine.ExactLog2) {i j : Nat} (hi : i < 53)
    (hj : j < 53) :
    ((engine.log2 (2 ^ i)).add (engine.log2 (2 ^ j))).toInt? = some ((i + j : Nat) : Int) :=
  toInt?_add (hlog i hi) (hlog j hj) (by omega)

theorem manifestLaw_iff {engine : Engine} (hlog : engine.ExactLog2) {text : String}
    {source : List (Text × Value)} {b k : Int} (hstates : StatesSizes text source b k)
    (hb : b < 2 ^ 53) (hk : k < 2 ^ 53) : ManifestLaw engine text b k ↔ PairDecides b k := by
  constructor
  · intro h haccepted
    have hsizes := h.accepts.mp ((exists_parseManifest hstates hb hk).mpr haccepted)
    exact ⟨hsizes.1.2, hsizes.2.2⟩
  · intro h
    refine ⟨(exists_parseManifest hstates hb hk).trans h.accepted_iff, fun m hm => ?_⟩
    obtain ⟨haccepted, -, -, hdepth⟩ := sizes_of_parseManifest hstates hb hk hm
    obtain ⟨hpowB, hpowK⟩ := h haccepted
    obtain ⟨i, hi, rfl⟩ := exists_two_pow haccepted.1.1 hb hpowB
    obtain ⟨j, hj, rfl⟩ := exists_two_pow haccepted.2.1 hk hpowK
    rw [Int.toNat_natCast, Int.toNat_natCast] at hdepth
    refine ⟨i + j, hdepth ▸ toInt?_treeDepth hlog hi hj, ?_⟩
    rw [pow_add]
    push_cast
    rfl

theorem exists_readShape {batchB numBatchesK : U64} :
    (∃ config, readShape batchB numBatchesK 2 = .ok config) ↔
      IsSize batchB.toNat ∧ IsSize numBatchesK.toNat := by
  unfold readShape IsSize
  rw [if_neg (by decide)]
  by_cases hb : 2 ≤ batchB.toNat ∧ batchB.toNat.isPowerOfTwo
  · by_cases hk : 2 ≤ numBatchesK.toNat ∧ numBatchesK.toNat.isPowerOfTwo
    · simp [hb, hk]
    · simp only [hb, hk]
      simp
  · simp only [hb]
    simp

theorem readShape_eq {batchB numBatchesK : U64} {config : Config}
    (h : readShape batchB numBatchesK 2 = .ok config) :
    config.b = batchB.toNat ∧ config.k = numBatchesK.toNat := by
  unfold readShape at h
  split at h
  · cases h
  split at h
  · cases h
  split at h
  · cases h
  obtain rfl := Except.ok.inj h
  exact ⟨rfl, rfl⟩

theorem generatorLaw_iff {batchB numBatchesK : U64} :
    GeneratorLaw batchB numBatchesK ↔
      (IsSize batchB.toNat → IsSize numBatchesK.toNat →
        batchB.toNat * numBatchesK.toNat < 2 ^ 64) := by
  constructor
  · intro h hb hk
    obtain ⟨config, hconfig⟩ := exists_readShape.mpr ⟨hb, hk⟩
    obtain ⟨hbatch, hcount⟩ := readShape_eq hconfig
    rw [← hbatch, ← hcount]
    rcases config_of_readShape hconfig with ⟨shape, rfl⟩ | ⟨-, hzero⟩
    · exact shape.capacity_lt
    · obtain ⟨i, hi⟩ := (h.capacity config hconfig).2.1
      rw [hzero] at hi
      exact absurd hi.symm (Nat.two_pow_pos i).ne'
  · intro h
    refine ⟨exists_readShape, fun config hconfig => ?_⟩
    obtain ⟨hb, hk⟩ := exists_readShape.mp ⟨config, hconfig⟩
    obtain ⟨hbatch, hcount⟩ := readShape_eq hconfig
    rcases config_of_readShape hconfig with ⟨shape, rfl⟩ | ⟨hwrap, -⟩
    · have hcapacity : (configOf shape).capacity = 2 ^ shape.depth := shape.capacity_eq
      refine ⟨by rw [← hbatch, ← hcount]; rfl, ⟨shape.depth, hcapacity⟩, ?_⟩
      rw [hcapacity, ← shape.capacity_eq, trailingZeros_capacity]
      exact shape.capacity_eq.symm
    · rw [hbatch, hcount] at hwrap
      exact absurd (h hb hk) (Nat.not_lt.mpr hwrap)

/-- **The sizes of the tree.**  A reader of the client follows the law at a number
exactly when its low 32 bits decide, each file of the client follows it when it carries
no pair of sizes that passes by its low bits alone, and the generator follows it when the
capacity is a 64-bit integer.  Where both languages accept the sizes, they have one
depth. -/
theorem shape_validation {engine : Engine} (hlog : engine.ExactLog2) :
    (∀ n < 2 ^ 53, SizeLaw engine n ↔ MaskDecides n.toNat) ∧
    (∀ text b k, WritesSizes text b k → b < 2 ^ 53 → k < 2 ^ 53 →
      (ShapeLaw engine text b k ↔ PairDecides b k)) ∧
    (∀ manifestText source b k, StatesSizes manifestText source b k → b < 2 ^ 53 → k < 2 ^ 53 →
      (ManifestLaw engine manifestText b k ↔ PairDecides b k)) ∧
    (∀ batchB numBatchesK, GeneratorLaw batchB numBatchesK ↔
      (IsSize batchB.toNat → IsSize numBatchesK.toNat →
        batchB.toNat * numBatchesK.toNat < 2 ^ 64)) ∧
    (∀ manifestText source (batchB numBatchesK : U64) m config,
      StatesSizes manifestText source batchB.toNat numBatchesK.toNat →
      batchB.toNat < 2 ^ 53 → numBatchesK.toNat < 2 ^ 53 →
      parseManifest engine manifestText = .ok m → readShape batchB numBatchesK 2 = .ok config →
      (m.treeDepth.toInt? = some (trailingZeros config.capacity : Int) ↔
        batchB.toNat * numBatchesK.toNat ≤ 2 ^ 64)) := by
  refine ⟨fun n => sizeLaw_iff engine, fun text b k => shapeLaw_iff,
    fun manifestText source b k => manifestLaw_iff hlog, fun batchB numBatchesK => generatorLaw_iff,
    ?_⟩
  intro manifestText source batchB numBatchesK m config hstates hb hk hm hconfig
  obtain ⟨-, -, -, hdepth⟩ :=
    sizes_of_parseManifest hstates (by exact_mod_cast hb) (by exact_mod_cast hk) hm
  rw [Int.toNat_natCast, Int.toNat_natCast] at hdepth
  obtain ⟨hbatch, hcount⟩ := readShape_eq hconfig
  obtain ⟨⟨-, i, hi⟩, -, j, hj⟩ := exists_readShape.mp ⟨config, hconfig⟩
  rw [hi] at hb
  rw [hj] at hk
  have hsum : m.treeDepth.toInt? = some ((i + j : Nat) : Int) := by
    rw [hdepth, hi, hj]
    exact toInt?_treeDepth hlog ((Nat.pow_lt_pow_iff_right (by norm_num)).mp hb)
      ((Nat.pow_lt_pow_iff_right (by norm_num)).mp hk)
  rw [hsum, Option.some.injEq, Nat.cast_inj, hi, hj, ← pow_add,
    Nat.pow_le_pow_iff_right (by norm_num)]
  rcases config_of_readShape hconfig with ⟨shape, rfl⟩ | ⟨hwrap, hzero⟩
  · have hdepth : 2 ^ shape.depth = 2 ^ (i + j) := by
      rw [← Circuit.Shape.capacity_eq, pow_add, ← hi, ← hj, ← hbatch, ← hcount]
      rfl
    have hij := Nat.pow_right_injective (le_refl 2) hdepth
    have htrailing : trailingZeros (configOf shape).capacity = shape.depth :=
      trailingZeros_capacity shape
    rw [htrailing]
    have := depth_lt shape
    omega
  · have hzeros : trailingZeros 0 = 64 := by
      decide +kernel
    rw [hbatch, hcount, hi, hj, ← pow_add, Nat.pow_le_pow_iff_right (by norm_num)] at hwrap
    rw [hzero, hzeros]
    omega

theorem sampleEngine_exactLog2 : sampleEngine.ExactLog2 := by
  intro i hi
  change (toDouble (natural (Nat.log2 (2 ^ i)))).toInt? = _
  rw [Nat.log2_two_pow]
  exact toDouble_natural (by omega)

/-- A configuration file with the sizes of the sample manifest. -/
def sampleShapeText : List Char := "batch_b = 1024\nnum_batches_k = 4\n".toList

theorem statesSizes_sample : StatesSizes sampleManifestText sampleProperties 1024 4 where
  parsed := ⟨_, parse_sampleManifest, rfl⟩
  batchB := ⟨_, rfl, toDouble_natural (by decide)⟩
  numBatchesK := ⟨_, rfl, toDouble_natural (by decide)⟩
  rest := {
    count := isNumber_natural (by decide)
    bytes := isNumber_natural (by decide)
    positions := ⟨samplePositions, _, rfl, readPositions_sample⟩
    innerKeyHash := ⟨19, rfl⟩
    strings := by
      simp only [List.mem_cons, List.not_mem_nil, or_false, forall_eq_or_imp, forall_eq]
      exact ⟨⟨_, rfl⟩, ⟨_, rfl⟩, ⟨_, rfl⟩, ⟨_, rfl⟩, ⟨_, rfl⟩, ⟨_, rfl⟩⟩ }

theorem shape_validation_sample :
    (SizeLaw sampleEngine 1024 ∧ SizeLaw sampleEngine (-2) ∧
      ¬ SizeLaw sampleEngine (2 ^ 32 + 2)) ∧
      ShapeLaw sampleEngine sampleShapeText 1024 4 ∧
      ManifestLaw sampleEngine sampleManifestText 1024 4 ∧
      GeneratorLaw (BitVec.ofNat 64 1024) (BitVec.ofNat 64 4) ∧
      ∀ config, readShape (BitVec.ofNat 64 1024) (BitVec.ofNat 64 4) 2 = .ok config →
        sampleManifest.treeDepth.toInt? = some (trailingZeros config.capacity : Int) := by
  obtain ⟨hsize, hshape, hmanifest, hgenerator, hdepth⟩ := shape_validation sampleEngine_exactLog2
  have hpair : PairDecides 1024 4 := fun _ => ⟨⟨10, by decide⟩, 2, by decide⟩
  have hwrites : WritesSizes sampleShapeText 1024 4 :=
    ⟨⟨"1024".toList, by decide, by decide⟩, ⟨"4".toList, by decide, by decide⟩⟩
  refine ⟨⟨(hsize _ (by decide)).mpr fun h => absurd h (by decide),
    (hsize _ (by decide)).mpr fun h => absurd h (by decide), fun h => ?_⟩,
    (hshape _ _ _ hwrites (by decide) (by decide)).mpr hpair,
    (hmanifest _ _ _ _ statesSizes_sample (by decide) (by decide)).mpr hpair,
    (hgenerator _ _).mpr fun _ _ => by decide, fun config hconfig => ?_⟩
  · have hdecides := (hsize _ (by decide)).mp h (by decide) (.inr ⟨1, by decide⟩)
    exact absurd hdecides (by decide)
  · exact (hdepth _ _ _ _ _ config statesSizes_sample (by decide) (by decide) parseManifest_sample
      hconfig).mpr (by decide)

/-- A configuration file whose first size is two above `2 ^ 32`. -/
def sampleParamsText : List Char := "batch_b = 4294967298\nnum_batches_k = 4\n".toList

/-- The reader of the configuration file takes that number for a power of two. -/
theorem parseShape_accepts_other :
    ¬ ∀ (engine : Engine) (text : List Char) (b k : Nat), WritesSizes text b k →
      b < 2 ^ 53 → k < 2 ^ 53 →
      ((∃ shape, parseShape engine text = .ok shape) ↔ IsSize b ∧ IsSize k) := by
  intro h
  have hwrites : WritesSizes sampleParamsText 4294967298 4 :=
    ⟨⟨"4294967298".toList, by decide, by decide⟩, ⟨"4".toList, by decide, by decide⟩⟩
  have hiff := h sampleEngine sampleParamsText 4294967298 4 hwrites (by decide) (by decide)
  have haccepts : ∃ shape, parseShape sampleEngine sampleParamsText = .ok shape :=
    ⟨_, (parseShape_eq_ok hwrites (by decide) (by decide)).mpr
      ⟨⟨⟨by decide, .inr ⟨1, by decide⟩⟩, by decide, .inr ⟨2, by decide⟩⟩, rfl⟩⟩
  exact absurd (hiff.mp haccepts).1.2 (by decide)

end Law
end ZkPoR
