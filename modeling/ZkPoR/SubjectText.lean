import ZkPoR.EmailInputs
import ZkPoR.Identity
import ZkPoR.SdkAddress

/-! # The subject of an identifier email

The contract writes the subject bit by bit, the tools and the SDK through their
libraries.  All three write the base64url text of the 32 big-endian bytes
(`Email.subject_eq_encode`), and the two readers take exactly these texts of nonzero
field elements.
-/
namespace ZkPoR
open ByteString CheckedInt JsonText

namespace Email

/-- **The subject of the contract** is the base64url text of the 32 bytes. -/
theorem subject_eq_encode (id : U256) : subject id = ascii (Base64Url.encode (toBeBytes id)) := by
  have halphabet : ∀ n, n < 64 →
      BASE64URL.getD n 0 = UInt8.ofNat (Base64Url.character n).toNat := by
    decide
  rw [subject_eq, Base64Url.encode_eq, length_toBeBytes, beNat_toBeBytes, ascii, Base64Url.digits,
    List.map_map]
  refine List.map_congr_left fun index hindex => ?_
  rw [List.mem_range] at hindex
  rw [halphabet _ (sextet_lt id hindex), sextet_eq id hindex]
  rfl

/-- The subject as a text. -/
def subjectText (id : U256) : String :=
  String.ofList ((subject id).map fun byte => Char.ofNat byte.toNat)

theorem subjectText_eq (id : U256) : subjectText id = Identity.base64Text (toBeBytes id) := by
  have hall : Base64Url.ALPHABET.all
      (fun c => Char.ofNat (UInt8.ofNat c.toNat).toNat == c) = true := by decide
  have hchar : ∀ c ∈ Base64Url.ALPHABET, Char.ofNat (UInt8.ofNat c.toNat).toNat = c :=
    fun c hc => eq_of_beq (List.all_eq_true.mp hall c hc)
  have hmap : (ascii (Base64Url.encode (toBeBytes id))).map (fun byte => Char.ofNat byte.toNat) =
      Base64Url.encode (toBeBytes id) := by
    rw [ascii, List.map_map]
    exact (List.map_congr_left fun c hc =>
      hchar c (Base64Url.mem_alphabet_of_mem_encode hc)).trans (List.map_id _)
  rw [subjectText, subject_eq_encode, hmap, Identity.base64Text]

theorem ascii_subjectText (id : U256) : ascii (subjectText id).toList = subject id := by
  rw [subjectText_eq, Identity.base64Text, String.toList_ofList, subject_eq_encode]

theorem subjectText_injective : Function.Injective subjectText := by
  intro id id' h
  refine subject_injective ?_
  rw [← ascii_subjectText, h, ascii_subjectText]

end Email

/-! ## The Rust tools -/

namespace Identity
open Generator

/-- The subject of an identifier. -/
def identifierSubject (primitives : Primitives) (id : Nat) : Except IdentityError String :=
  if id = 0 ∨ frModulus ≤ id then .error .invalidSubject
  else .ok (primitives.encode (toBe IDENTIFIER_BYTES id))

/-- The identifier that a subject names. -/
def parseIdentifierSubject (primitives : Primitives) (subject : String) :
    Except IdentityError Nat :=
  match decodeCanonical32 primitives subject with
  | none => .error .invalidSubject
  | some bytes => do
    let id := beNat bytes
    let _ ← identifierSubject primitives id
    return id

end Identity

/-! ## The SDK -/

namespace Sdk

/-- Writes a field element as exactly 32 bytes, big-endian. -/
def toBytes (value : Nat) : Except String Bytes :=
  if ¬ inRange value then .error "the value is not a field element"
  else .ok (toBe FR_BYTES value)

def encodeIdentifierSubject (primitives : Primitives) (id : Nat) : Except String String :=
  if id = 0 then .error "the identifier is zero"
  else (toBytes id).map primitives.encode

def parseIdentifierSubject (primitives : Primitives) (subject : Text) : Except String Nat :=
  match decodeCanonical32 primitives subject with
  | none => .error "the subject is not a canonical field identifier"
  | some bytes =>
    let id := bytesToBigint bytes
    if id = 0 ∨ frModulus ≤ id then .error "the subject is not a canonical field identifier"
    else .ok id

theorem toBytes_of_lt {value : Nat} (h : value < frModulus) :
    toBytes value = .ok (toBe FR_BYTES value) := by
  have hrange : inRange value := h
  rw [toBytes, if_neg (not_not.mpr hrange)]

end Sdk

/-! ## One text for each identifier -/

section Subjects
variable {primitives : Identity.Primitives} {sdkPrimitives : Sdk.Primitives}

/-- The bytes of a field element. -/
theorem toBeBytes_ofNat {id : Nat} (h : id < frModulus) :
    toBeBytes (BitVec.ofNat 256 id) = toBe FR_BYTES id := by
  rw [toBeBytes, toNat_ofNat_of_lt h]

/-- Only the subject of an identifier decodes to it. -/
theorem base64Text_eq_subjectText {bytes : Bytes} (hlength : bytes.length = FR_BYTES)
    (h : beNat bytes < frModulus) :
    Identity.base64Text bytes = Email.subjectText (BitVec.ofNat 256 (beNat bytes)) := by
  rw [Email.subjectText_eq, toBeBytes_ofNat h, ← hlength, toBe_beNat]

theorem beNat_toBe_of_canonical {id : Nat} (h : id < frModulus) : beNat (toBe FR_BYTES id) = id :=
  beNat_toBe_of_lt (h.trans frModulus_lt)

theorem Identity.identifierSubject_eq_ok (hprimitives : primitives.Documented) {id : Nat}
    {text : String} :
    Identity.identifierSubject primitives id = .ok text ↔
      id ≠ 0 ∧ id < frModulus ∧ text = Email.subjectText (BitVec.ofNat 256 id) := by
  unfold Identity.identifierSubject
  split
  · rename_i h
    simp only [reduceCtorEq, false_iff]
    rintro ⟨hne, hlt, -⟩
    omega
  · rename_i h
    rw [not_or, Nat.not_le] at h
    rw [hprimitives.encode, Email.subjectText_eq, toBeBytes_ofNat h.2, Except.ok.injEq]
    constructor
    · rintro rfl
      exact ⟨h.1, h.2, rfl⟩
    · rintro ⟨-, -, rfl⟩
      rfl

/-- **The Rust reader takes the subjects of the nonzero field elements.** -/
theorem Identity.parseIdentifierSubject_eq_ok (hprimitives : primitives.Documented)
    {text : String} {id : Nat} :
    Identity.parseIdentifierSubject primitives text = .ok id ↔
      id ≠ 0 ∧ id < frModulus ∧ text = Email.subjectText (BitVec.ofNat 256 id) := by
  unfold Identity.parseIdentifierSubject
  constructor
  · intro h
    split at h
    · cases h
    rename_i bytes hbytes
    obtain ⟨hlength, rfl⟩ := (Identity.decodeCanonical32_eq_some hprimitives).mp hbytes
    obtain ⟨_, hsubject, hout⟩ := BoundedLoop.bind_eq_ok.mp h
    cases hout
    obtain ⟨hne, hlt, -⟩ := (Identity.identifierSubject_eq_ok hprimitives).mp hsubject
    exact ⟨hne, hlt, base64Text_eq_subjectText hlength hlt⟩
  · rintro ⟨hne, hlt, rfl⟩
    have hdecode : Identity.decodeCanonical32 primitives (Email.subjectText (BitVec.ofNat 256 id)) =
        some (toBe FR_BYTES id) :=
      (Identity.decodeCanonical32_eq_some hprimitives).mpr
        ⟨length_toBe _ _, by rw [Email.subjectText_eq, toBeBytes_ofNat hlt]⟩
    rw [hdecode]
    refine BoundedLoop.bind_eq_ok.mpr ⟨Email.subjectText (BitVec.ofNat 256 id), ?_, ?_⟩
    · rw [beNat_toBe_of_canonical hlt]
      exact (Identity.identifierSubject_eq_ok hprimitives).mpr ⟨hne, hlt, rfl⟩
    · exact congrArg Except.ok (beNat_toBe_of_canonical hlt)

theorem Sdk.encodeIdentifierSubject_of_lt (hprimitives : sdkPrimitives.Documented) {id : Nat}
    (hne : id ≠ 0) (hlt : id < frModulus) :
    Sdk.encodeIdentifierSubject sdkPrimitives id =
      .ok (Email.subjectText (BitVec.ofNat 256 id)) := by
  rw [Sdk.encodeIdentifierSubject, if_neg hne, Sdk.toBytes_of_lt hlt, Except.map,
    hprimitives.encode, Email.subjectText_eq, toBeBytes_ofNat hlt]

/-- **The reader of the SDK takes the same texts.** -/
theorem Sdk.parseIdentifierSubject_eq_ok (hprimitives : sdkPrimitives.Documented)
    {text : Text} {id : Nat} :
    Sdk.parseIdentifierSubject sdkPrimitives text = .ok id ↔
      id ≠ 0 ∧ id < frModulus ∧
        text = Text.ofString (Email.subjectText (BitVec.ofNat 256 id)) := by
  unfold Sdk.parseIdentifierSubject
  constructor
  · intro h
    split at h
    · cases h
    rename_i bytes hbytes
    obtain ⟨hlength, rfl⟩ := (Sdk.decodeCanonical32_eq_some hprimitives).mp hbytes
    rw [Sdk.bytesToBigint_eq] at h
    dsimp only at h
    split at h
    · cases h
    rename_i hbounds
    cases h
    rw [not_or, Nat.not_le] at hbounds
    exact ⟨hbounds.1, hbounds.2, by rw [base64Text_eq_subjectText hlength hbounds.2]⟩
  · rintro ⟨hne, hlt, htext⟩
    have hdecode : Sdk.decodeCanonical32 sdkPrimitives
        (Text.ofString (Email.subjectText (BitVec.ofNat 256 id))) = some (toBe FR_BYTES id) :=
      (Sdk.decodeCanonical32_eq_some hprimitives).mpr
        ⟨length_toBe _ _, by rw [Email.subjectText_eq, toBeBytes_ofNat hlt]⟩
    rw [htext, hdecode]
    dsimp only
    rw [Sdk.bytesToBigint_eq, beNat_toBe_of_canonical hlt,
      if_neg (not_or.mpr ⟨hne, Nat.not_le.mpr hlt⟩)]

/-- **The text of an identifier.**  The contract writes the base64url text of every
256-bit value.  The tools and the SDK write it for every nonzero field element and read
it back; what either of them reads is the subject of one nonzero field element, so both
read the same texts. -/
theorem subject_agree (hprimitives : primitives.Documented)
    (hsdk : sdkPrimitives.Documented) :
    (∀ id : U256, Email.subject id = ascii (Base64Url.encode (toBeBytes id))) ∧
    (∀ id, id ≠ 0 → id < frModulus → ∃ text,
      ascii text.toList = Email.subject (BitVec.ofNat 256 id) ∧
      Identity.identifierSubject primitives id = .ok text ∧
      Sdk.encodeIdentifierSubject sdkPrimitives id = .ok text ∧
      Identity.parseIdentifierSubject primitives text = .ok id ∧
      Sdk.parseIdentifierSubject sdkPrimitives (Text.ofString text) = .ok id) ∧
    (∀ text id, Identity.parseIdentifierSubject primitives text = .ok id →
      text = Email.subjectText (BitVec.ofNat 256 id) ∧
      ∃! id', id' ≠ 0 ∧ id' < frModulus ∧ text = Email.subjectText (BitVec.ofNat 256 id')) ∧
    (∀ text id, Sdk.parseIdentifierSubject sdkPrimitives text = .ok id ↔
      ∃ s, text = Text.ofString s ∧ Identity.parseIdentifierSubject primitives s = .ok id) ∧
    Function.Injective Email.subject := by
  refine ⟨Email.subject_eq_encode, ?_, ?_, ?_, Email.subject_injective⟩
  · intro id hne hlt
    exact ⟨Email.subjectText (BitVec.ofNat 256 id), Email.ascii_subjectText _,
      (Identity.identifierSubject_eq_ok hprimitives).mpr ⟨hne, hlt, rfl⟩,
      Sdk.encodeIdentifierSubject_of_lt hsdk hne hlt,
      (Identity.parseIdentifierSubject_eq_ok hprimitives).mpr ⟨hne, hlt, rfl⟩,
      (Sdk.parseIdentifierSubject_eq_ok hsdk).mpr ⟨hne, hlt, rfl⟩⟩
  · intro text id h
    obtain ⟨hne, hlt, htext⟩ := (Identity.parseIdentifierSubject_eq_ok hprimitives).mp h
    refine ⟨htext, id, ⟨hne, hlt, htext⟩, ?_⟩
    rintro id' ⟨-, hlt', htext'⟩
    have hid := congrArg BitVec.toNat (Email.subjectText_injective (htext'.symm.trans htext))
    rwa [toNat_ofNat_of_lt hlt', toNat_ofNat_of_lt hlt] at hid
  · intro text id
    rw [Sdk.parseIdentifierSubject_eq_ok hsdk]
    simp only [Identity.parseIdentifierSubject_eq_ok hprimitives]
    constructor
    · rintro ⟨hne, hlt, htext⟩
      exact ⟨_, htext, hne, hlt, rfl⟩
    · rintro ⟨s, htext, hne, hlt, rfl⟩
      exact ⟨hne, hlt, htext⟩

end Subjects

section Sample

/-- The engine of the Rust tools. -/
def referencePrimitives : Identity.Primitives where
  sha256 _ := []
  encode := Identity.base64Text
  decode text := Base64Url.decode text.toList

/-- `Buffer`, on the texts of byte strings. -/
def sdkReferencePrimitives : Sdk.Primitives where
  sha256 _ := []
  encode := Identity.base64Text
  decode text := (Base64Url.decode text.toList).getD []

theorem decode_base64Text (bytes : Bytes) :
    Base64Url.decode (Identity.base64Text bytes).toList = some bytes := by
  rw [Identity.base64Text, String.toList_ofList, Base64Url.decode_encode]

theorem referencePrimitives_documented : referencePrimitives.Documented where
  encode _ := rfl
  decode := decode_base64Text

theorem sdkReferencePrimitives_documented : sdkReferencePrimitives.Documented where
  encode _ := rfl
  decode bytes := congrArg (Option.getD · []) (decode_base64Text bytes)

/-- The subject of the identifier 1 in both languages. -/
theorem subject_agree_one : ∃ text,
    ascii text.toList = Email.subject 1 ∧
    Identity.parseIdentifierSubject referencePrimitives text = .ok 1 ∧
    Sdk.parseIdentifierSubject sdkReferencePrimitives (Text.ofString text) = .ok 1 := by
  obtain ⟨-, hwrite, -⟩ :=
    subject_agree referencePrimitives_documented sdkReferencePrimitives_documented
  obtain ⟨text, htext, -, -, hparse, hsdk⟩ := hwrite 1 one_ne_zero (by decide)
  exact ⟨text, htext, hparse, hsdk⟩

end Sample
end ZkPoR
