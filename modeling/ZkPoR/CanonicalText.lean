import ZkPoR.PackageSchema
import ZkPoR.SdkInclusion
import ZkPoR.StrSlice

/-! # One text for each value

The readers of `FieldText` as the source has them: `hex_bytes` slices its text by byte
offsets, which ends the program inside a character.  The check of the bytes in front
of the slices lets no such text through, so the readers with slices answer what those
of `FieldText` answer, for every text (`parsePackageFrSliced_eq`).

The last theorem puts the readers of the two languages together.
-/
namespace ZkPoR
open ByteString CheckedInt HexText DecimalText JsonText StrSlice

namespace Package

/-- `u8::is_ascii_hexdigit` -/
def isHexByte (byte : UInt8) : Bool :=
  (0x30 ≤ byte && byte ≤ 0x39) || (0x41 ≤ byte && byte ≤ 0x46) || (0x61 ≤ byte && byte ≤ 0x66)

/-- `u8::from_str_radix(text, 16)` -/
def fromStrRadix16 (text : List Char) : Option UInt8 :=
  let body := (List.isPrefixOf? ['+'] text).getD text
  if body ≠ [] ∧ body.all (fun c => (hexDigit? c).isSome) ∧ hexNat body < 256 then
    some (UInt8.ofNat (hexNat body))
  else none

/-- The loop of `hex_bytes` over the bytes of the output.  Nothing is a slice inside a
character or behind the end. -/
def slicedPairs (text : List Char) : List Nat → Option (Except String Bytes)
  | [] => some (.ok [])
  | index :: indices =>
    match slice? text (2 * index) (2 * index + 2) with
    | none => none
    | some pair =>
      match fromStrRadix16 pair with
      | none => some (.error s!"{String.ofList text} is not hexadecimal")
      | some byte => (slicedPairs text indices).map fun bytes => bytes.map (byte :: ·)

/-- `hex_bytes`, with its slices. -/
def hexBytesSliced (text : List Char) : Option (Except String Bytes) :=
  if byteLength text ≠ FR_HEX_DIGITS then
    some (.error (s!"a value of {FR_HEX_DIGITS} hexadecimal characters is required, " ++
      s!"and this text holds {byteLength text}"))
  else if ¬ (bytes text).all isHexByte then
    some (.error "the value contains a non-hexadecimal byte")
  else slicedPairs text (List.range FR_BYTES)

/-- `parse_fr`, with the slices of `hex_bytes`. -/
def parseFrSliced (text : List Char) : Option (Except String Nat) :=
  let text := trim text
  (hexBytesSliced ((List.isPrefixOf? ['0', 'x'] text).getD text)).map fun read => do
    let bytes ← read
    if beNat bytes < frModulus then .ok (beNat bytes)
    else .error s!"{String.ofList text} is not below the field modulus"

/-- `parse_package_fr`, with the slices of `hex_bytes`. -/
def parsePackageFrSliced (text : String) : Option (Except String Nat) :=
  match List.isPrefixOf? ['0', 'x'] text.toList with
  | none => some (.error s!"{text} does not start with 0x")
  | some body =>
    if byteLength body ≠ FR_HEX_DIGITS then
      some (.error s!"{text} does not hold {FR_HEX_DIGITS} hexadecimal characters after 0x")
    else if body.any Char.isUpper then
      some (.error s!"{text} is not lowercase")
    else parseFrSliced text.toList

/-! ## No slice inside a character -/

/-- A digit by its code. -/
theorem hexDigit?_code (c : Char) :
    hexDigit? c =
      if 0x30 ≤ c.toNat ∧ c.toNat ≤ 0x39 then some (c.toNat - 0x30)
      else if 0x61 ≤ c.toNat ∧ c.toNat ≤ 0x66 then some (c.toNat - 0x61 + 10)
      else if 0x41 ≤ c.toNat ∧ c.toNat ≤ 0x46 then some (c.toNat - 0x41 + 10)
      else none := rfl

theorem isSome_hexDigit? {c : Char} :
    (hexDigit? c).isSome = true ↔
      (0x30 ≤ c.toNat ∧ c.toNat ≤ 0x39) ∨ (0x41 ≤ c.toNat ∧ c.toNat ≤ 0x46) ∨
        (0x61 ≤ c.toNat ∧ c.toNat ≤ 0x66) := by
  rw [hexDigit?_code]
  split
  · rename_i h
    simp [h]
  split
  · rename_i h
    simp [h]
  split
  · rename_i h
    simp [h]
  · rename_i h h' h''
    simp [h, h', h'']

theorem isHexByte_iff {c : Char} :
    c.utf8Size = 1 ∧ isHexByte c.val.toUInt8 = true ↔ (hexDigit? c).isSome = true := by
  have hascii : c.utf8Size = 1 ↔ c.toNat ≤ 0x7f := by
    rw [Char.utf8Size_eq_one_iff, UInt32.le_iff_toNat_le]
    rfl
  have hbyte : c.toNat ≤ 0x7f → c.val.toUInt8.toNat = c.toNat := fun h => by
    rw [UInt32.toNat_toUInt8]
    exact Nat.mod_eq_of_lt (h.trans_lt (by decide))
  have hcode : isHexByte c.val.toUInt8 = true ↔
      (0x30 ≤ c.val.toUInt8.toNat ∧ c.val.toUInt8.toNat ≤ 0x39) ∨
        (0x41 ≤ c.val.toUInt8.toNat ∧ c.val.toUInt8.toNat ≤ 0x46) ∨
          (0x61 ≤ c.val.toUInt8.toNat ∧ c.val.toUInt8.toNat ≤ 0x66) := by
    simp only [isHexByte, Bool.or_eq_true, Bool.and_eq_true, decide_eq_true_eq, or_assoc]
    exact Iff.rfl
  rw [hascii, hcode, isSome_hexDigit?]
  constructor
  · rintro ⟨h, hhex⟩
    rwa [hbyte h] at hhex
  · intro h
    have hle : c.toNat ≤ 0x7f := by omega
    rw [hbyte hle]
    exact ⟨hle, h⟩

theorem all_isHexByte {text : List Char} :
    (bytes text).all isHexByte = true ↔ text.all (fun c => (hexDigit? c).isSome) = true := by
  have hascii : ∀ byte, isHexByte byte = true → byte.toNat < 0x80 := by
    intro byte h
    simp only [isHexByte, Bool.or_eq_true, Bool.and_eq_true, decide_eq_true_eq] at h
    rcases h with (⟨-, h⟩ | ⟨-, h⟩) | ⟨-, h⟩
    all_goals exact Nat.lt_of_le_of_lt h (by decide)
  rw [all_bytes_iff hascii, List.all_eq_true]
  exact forall₂_congr fun c _ => isHexByte_iff

theorem hexValue_lt {c : Char} (h : (hexDigit? c).isSome = true) : hexValue c < 16 := by
  have hcode := isSome_hexDigit?.mp h
  rw [hexValue, hexDigit?_code]
  split
  · rw [Option.getD_some]
    omega
  split
  · rw [Option.getD_some]
    omega
  split
  · rw [Option.getD_some]
    omega
  · rw [Option.getD_none]
    omega

/-- Two digits are the byte that they write. -/
theorem fromStrRadix16_pair {a b : Char} (ha : (hexDigit? a).isSome = true)
    (hb : (hexDigit? b).isSome = true) :
    fromStrRadix16 [a, b] = some (UInt8.ofNat (16 * hexValue a + hexValue b)) := by
  have hsign : List.isPrefixOf? ['+'] [a, b] = none := by
    have hne : '+' ≠ a := by
      rintro rfl
      exact absurd ha (by decide)
    simp [List.isPrefixOf?, hne]
  have hvalue : hexNat [a, b] = 16 * hexValue a + hexValue b := by simp [hexNat]
  have hlt : 16 * hexValue a + hexValue b < 256 := by
    have := hexValue_lt ha
    have := hexValue_lt hb
    omega
  rw [fromStrRadix16, hsign, Option.getD_none, hvalue]
  exact if_pos ⟨by simp, by simp [ha, hb], hlt⟩

/-- The loop reads the pairs of a text of digits from one index on. -/
theorem slicedPairs_range' {text : List Char} (hdigits : ∀ c ∈ text, (hexDigit? c).isSome = true)
    {start count : Nat} (hlength : text.length = 2 * (start + count)) :
    slicedPairs text (List.range' start count) = some (.ok (bytesOf (text.drop (2 * start)))) := by
  have hascii : ∀ c ∈ text, c.utf8Size = 1 := fun c hc => (isHexByte_iff.mpr (hdigits c hc)).1
  induction count generalizing start with
  | zero =>
    rw [List.drop_eq_nil_of_le (by omega)]
    rfl
  | succ count ih =>
    have hrest := @ih (start + 1) (by omega)
    rw [Nat.mul_add, Nat.mul_one] at hrest
    rw [List.range'_succ, slicedPairs, slice?_of_ascii hascii (by omega) (by omega),
      Nat.add_sub_cancel_left]
    -- the two digits at the index
    match hpair : text.drop (2 * start) with
    | [] | [_] =>
      have := congrArg List.length hpair
      rw [List.length_drop] at this
      simp only [List.length_nil, List.length_singleton] at this
      omega
    | a :: b :: rest =>
      have hmem : ∀ c ∈ a :: b :: rest, (hexDigit? c).isSome = true := fun c hc =>
        hdigits c (List.mem_of_mem_drop (hpair ▸ hc))
      have hdrop : text.drop (2 * start + 2) = rest := by
        rw [← List.drop_drop, hpair]
        rfl
      have hbyte := fromStrRadix16_pair (hmem a (by simp)) (hmem b (by simp))
      rw [hdrop] at hrest
      simp only [List.take_succ_cons, List.take_zero, hbyte, hrest, Option.map_some]
      rfl

/-- **`hex_bytes` never slices inside a character.** -/
theorem hexBytesSliced_eq (text : List Char) : hexBytesSliced text = some (hexBytes text) := by
  unfold hexBytesSliced hexBytes
  by_cases hlength : byteLength text = FR_HEX_DIGITS
  · rw [if_neg (not_not.mpr hlength), if_neg (not_not.mpr hlength)]
    by_cases hdigits : text.all (fun c => (hexDigit? c).isSome) = true
    · rw [if_neg (not_not.mpr (all_isHexByte.mpr hdigits)), if_neg (not_not.mpr hdigits)]
      rw [List.all_eq_true] at hdigits
      have hsize : text.length = 2 * (0 + FR_BYTES) := by
        rw [← byteLength_of_ascii fun c hc => (isHexByte_iff.mpr (hdigits c hc)).1, hlength]
        rfl
      rw [List.range_eq_range', slicedPairs_range' hdigits hsize, Nat.mul_zero, List.drop_zero]
    · rw [if_pos (mt all_isHexByte.mp hdigits), if_pos hdigits]
  · rw [if_pos hlength, if_pos hlength]

/-- **The strict reader never slices inside a character.** -/
theorem parsePackageFrSliced_eq (text : String) :
    parsePackageFrSliced text = some (parsePackageFr text) := by
  have hparse : ∀ cs, parseFrSliced cs = some (parseFr cs) := fun cs => by
    rw [parseFrSliced, hexBytesSliced_eq]
    rfl
  unfold parsePackageFrSliced parsePackageFr
  cases List.isPrefixOf? ['0', 'x'] text.toList with
  | none => rfl
  | some body =>
    dsimp only
    rw [hparse]
    split
    · rfl
    · split <;> rfl

end Package

/-! ## The two decimal fields of the package reader -/

namespace Schema
open SerdeJson BoundedLoop ZkPoR.Package

/-- The balance, as `parse` reads it. -/
def readBalance (json : Value) : Except (Halt PackageError) U64 := do
  let text ← decimalField json "balance" "balance"
  okOrMalformed (parseU64 text) "the balance is above the u64 maximum"

/-- The attestation identifier, as `parse` reads it. -/
def readAttestationId (json : Value) : Except (Halt PackageError) U64 := do
  let text ← decimalField json "attestation_id" "attestation ID"
  let id ← okOrMalformed (parseU64 text) "the attestation ID is above the u64 maximum"
  require (id ≠ 0) "the attestation ID must be positive"
  return id

theorem readBalance_eq_ok {json : Value} {n : U64} :
    readBalance json = .ok n ↔ json.index "balance" = .string (decimalText n.toNat) := by
  simp only [readBalance, bind_eq_ok, okOrMalformed_eq_ok]
  exact exists_decimal _

theorem readAttestationId_eq_ok {json : Value} {n : U64} :
    readAttestationId json = .ok n ↔
      n ≠ 0 ∧ json.index "attestation_id" = .string (decimalText n.toNat) := by
  simp only [readAttestationId, bind_eq_ok, okOrMalformed_eq_ok, require_eq_ok]
  rw [← exists_decimal "attestation ID"]
  constructor
  · rintro ⟨text, htext, id, hid, _, hne, hn⟩
    obtain rfl := Except.ok.inj hn
    exact ⟨hne, text, htext, hid⟩
  · rintro ⟨hne, text, htext, hid⟩
    exact ⟨text, htext, n, hid, (), hne, rfl⟩

/-- What `parse` takes has passed the two readers. -/
theorem readers_of_parse {serde : SerdeJson} {poseidon2 : List Fr → Fr} {text : String}
    {package : Package} (h : parse serde poseidon2 text = .ok package) :
    ∃ json, serde.fromStr text = .ok json ∧ readBalance json = .ok package.balance ∧
      readAttestationId json = .ok package.attestationId := by
  obtain ⟨json, hjson, hpackage⟩ := parse_eq_ok.mp h
  exact ⟨json, hjson, readBalance_eq_ok.mpr hpackage.balance,
    readAttestationId_eq_ok.mpr ⟨hpackage.attestationPos, hpackage.attestationId⟩⟩

end Schema

/-! ## Both languages -/

section Both
open ZkPoR.Package Schema SerdeJson

/-- No text of digits for a number is shorter than its decimal text. -/
theorem decimalText_shortest {cs : List Char} (hne : cs ≠ [])
    (hdigits : ∀ c ∈ cs, c.isDigit = true) :
    (decimalText (Nat.ofDigitChars 10 cs 0)).toList.length ≤ cs.length := by
  rw [decimalText, String.toList_ofList]
  induction cs with
  | nil => exact absurd rfl hne
  | cons c cs ih =>
    by_cases hzero : c = '0' ∧ cs ≠ []
    · obtain ⟨rfl, hcs⟩ := hzero
      have hvalue : Nat.ofDigitChars 10 ('0' :: cs) 0 = Nat.ofDigitChars 10 cs 0 := rfl
      have hlength := ih hcs fun c hc => hdigits c (List.mem_cons_of_mem _ hc)
      rw [hvalue, List.length_cons]
      omega
    · have hdecimal : IsDecimal (c :: cs) := by
        refine ⟨hne, fun hhead => ?_, hdigits⟩
        obtain rfl : c = '0' := Option.some.inj hhead
        rw [not_and, not_not] at hzero
        rw [hzero rfl]
        rfl
      rw [toDigits_ofDigitChars hdecimal]

theorem frHex_eq_ok {v : Nat} {text : String} (h : v < frModulus) :
    frHex v = .ok text ↔ text = hexText (BitVec.ofNat 256 v) := by
  have hbe : Generator.be32 v = .ok (BitVec.ofNat 256 v) := by
    rw [Generator.be32, if_pos (h.trans frModulus_lt)]
  rw [frHex, hbe, Except.map, Except.ok.injEq, eq_comm]

theorem toHex_eq_ok {v : Nat} {text : String} :
    Sdk.toHex v = .ok text ↔ v < frModulus ∧ text = hexText (BitVec.ofNat 256 v) := by
  by_cases h : v < frModulus
  · rw [Sdk.toHex_of_lt h, Except.ok.injEq, eq_comm]
    exact (and_iff_right h).symm
  · have hrange : ¬ (0 ≤ (v : Int) ∧ (v : Int) < frModulus) := fun hv => h (Int.ofNat_lt.mp hv.2)
    rw [Sdk.toHex, if_neg hrange]
    simp [h]

/-- **One text for each value, in both languages.**  A field element has the text that
`fr_hex` writes, a balance has its decimal text, and so has an attestation identifier
above zero.  No text ends a reader of the first kind inside a character. -/
theorem canonical_texts :
    (∀ text v, parsePackageFr text = .ok v ↔ v < frModulus ∧ frHex v = .ok text) ∧
    (∀ text, parsePackageFrSliced text = some (parsePackageFr text)) ∧
    (∀ text field v, Sdk.parseHex text field = .ok v ↔
      ∃ s, text = Text.ofString s ∧ parsePackageFr s = .ok v) ∧
    (∀ s field v, Sdk.parseHex (Text.ofString s) field = .ok v ↔ Sdk.toHex v = .ok s) ∧
    (∀ json n, readBalance json = .ok n ↔
      json.index "balance" = .string (decimalText n.toNat)) ∧
    (∀ json n, readAttestationId json = .ok n ↔
      n ≠ 0 ∧ json.index "attestation_id" = .string (decimalText n.toNat)) ∧
    (∀ text field n, Sdk.parseU64Decimal text field = .ok n ↔
      n < 2 ^ 64 ∧ text = Text.ofString (decimalText n)) := by
  refine ⟨fun text v => ?_, parsePackageFrSliced_eq, fun text field v => ?_, fun s field v => ?_,
    fun json n => readBalance_eq_ok, fun json n => readAttestationId_eq_ok,
    fun text field n => Sdk.parseU64Decimal_eq_ok⟩
  · rw [parsePackageFr_eq_ok]
    exact and_congr_right fun h => (frHex_eq_ok h).symm
  · simp only [Sdk.parseHex_eq_ok, parsePackageFr_eq_ok]
    exact ⟨fun ⟨hlt, htext⟩ => ⟨_, htext, hlt, rfl⟩, fun ⟨s, htext, hlt, hs⟩ =>
      ⟨hlt, hs ▸ htext⟩⟩
  · rw [Sdk.parseHex_eq_ok, toHex_eq_ok]
    exact and_congr_right fun _ => Text.ofString_injective.eq_iff

/-- The reader of the package refuses the attestation identifier zero. -/
theorem readAttestationId_refuses_zero :
    ¬ ∀ (json : Value) (n : U64), readAttestationId json = .ok n ↔
      json.index "attestation_id" = .string (decimalText n.toNat) := by
  intro h
  have hzero := (h (.object [("attestation_id", .string (decimalText 0))]) 0).mpr (by rfl)
  exact (readAttestationId_eq_ok.mp hzero).1 rfl

end Both
end ZkPoR
