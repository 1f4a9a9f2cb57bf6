import ZkPoR.Base64Url
import ZkPoR.FieldText

/-! # The customer identifier of an email and a code

The identifier rule of the Rust tools and of the SDK: a mailbox in its canonical
form and a code of 32 bytes are hashed with a counter, and the identifier is the
first digest that is not zero in the field.  The hash and the alphabet of the code
come from libraries, so they are parameters.
-/
namespace ZkPoR
open ByteString CheckedInt JsonText

/-! ## The first nonzero digest -/

/-- The first digest that is not zero, from a counter on. -/
def firstNonzero (digest : Nat → Nat) : Nat → Nat → Option Nat
  | 0, _ => none
  | tries + 1, counter =>
    if digest counter ≠ 0 then some (digest counter)
    else firstNonzero digest tries (counter + 1)

theorem firstNonzero_eq_some {digest : Nat → Nat} {tries counter v : Nat} :
    firstNonzero digest tries counter = some v ↔
      ∃ k, counter ≤ k ∧ k < counter + tries ∧ (∀ j, counter ≤ j → j < k → digest j = 0) ∧
        digest k = v ∧ v ≠ 0 := by
  induction tries generalizing counter with
  | zero =>
    simp only [firstNonzero, reduceCtorEq, false_iff]
    rintro ⟨k, hle, hlt, -⟩
    omega
  | succ tries ih =>
    rw [firstNonzero]
    split
    · rename_i hne
      constructor
      · intro h
        cases h
        exact ⟨counter, le_refl _, by omega, fun j hj hlt => by omega, rfl, hne⟩
      · rintro ⟨k, hle, -, hzero, rfl, -⟩
        -- an earlier counter would already have answered
        obtain rfl : k = counter := by
          by_contra hk
          exact hne (hzero counter (le_refl _) (by omega))
        rfl
    · rename_i hzero
      rw [ih]
      constructor
      · rintro ⟨k, hle, hlt, hbefore, hv⟩
        refine ⟨k, by omega, by omega, fun j hj hjk => ?_, hv⟩
        by_cases hj' : j = counter
        · rw [hj']
          exact not_not.mp hzero
        · exact hbefore j (by omega) hjk
      · rintro ⟨k, hle, hlt, hbefore, rfl, hv⟩
        have hk : k ≠ counter := by
          rintro rfl
          exact hzero hv
        exact ⟨k, by omega, by omega, fun j hj hjk => hbefore j (by omega) hjk, rfl, hv⟩

/-! ## The rule of the Rust tools -/

namespace Identity
open Package

def IDENTIFIER_DOMAIN : Bytes := ascii "zkpor-email-code-id-v1\x00".toList
def IDENTIFIER_BYTES : Nat := 32
def IDENTIFIER_SUBJECT_CHARS : Nat := 43
def LOCAL_PART_MAX_BYTES : Nat := 64
def ADDRESS_MAX_BYTES : Nat := 254
def DOMAIN_MAX_BYTES : Nat := 253
def DOMAIN_LABEL_MAX_BYTES : Nat := 63

inductive IdentityError
  | invalidEmail
  | invalidCode
  | invalidSubject
  | counterExhausted
deriving DecidableEq

def IdentityError.toString : IdentityError → String
  | .invalidEmail => "the email address is not a supported ASCII mailbox"
  | .invalidCode => "the code is not canonical 43-character base64url"
  | .invalidSubject => "the subject is not a canonical field identifier"
  | .counterExhausted => "the identifier counter is exhausted"

/-- The hash, and the base64 code of the URL alphabet without padding. -/
structure Primitives where
  sha256 : Bytes → Bytes
  encode : Bytes → String
  decode : String → Option Bytes

/-- The text of a byte string in the URL alphabet. -/
def base64Text (bytes : Bytes) : String := String.ofList (Base64Url.encode bytes)

/-- What the tools rely on: the engine writes the text of every byte string, and reads
it back. -/
structure Primitives.Documented (primitives : Primitives) : Prop where
  encode : ∀ bytes, primitives.encode bytes = base64Text bytes
  decode : ∀ bytes, primitives.decode (base64Text bytes) = some bytes

def isAscii (c : Char) : Bool := c.toNat < 128

def isAtext (c : Char) : Bool :=
  c.isAlphanum || "!#$%&'*+-/=?^_\x60\x7b|\x7d~".toList.contains c

/-- A dot-free part of the local part. -/
def isAtom (atom : List Char) : Bool := atom ≠ [] && atom.all isAtext

def isLabel (label : List Char) : Bool :=
  label ≠ [] && label.length ≤ DOMAIN_LABEL_MAX_BYTES &&
    label.all (fun c => c.isAlphanum || c = '-') &&
    label.head?.any Char.isAlphanum && label.getLast?.any Char.isAlphanum

/-- The parts of a text around its first `@`. -/
def splitAt (cs : List Char) : Option (List Char × List Char) :=
  match cs.span (· ≠ '@') with
  | (before, _ :: after) => some (before, after)
  | (_, []) => none

def canonicalEmail (email : String) : Except IdentityError String :=
  let cs := email.toList
  if ¬ cs.all isAscii ∨ byteLength cs > ADDRESS_MAX_BYTES ∨ trim cs ≠ cs then
    .error .invalidEmail
  else
    match splitAt cs with
    | none => .error .invalidEmail
    | some (localPart, domain) =>
      if '@' ∈ domain ∨ localPart = [] ∨ localPart.length > LOCAL_PART_MAX_BYTES ∨ domain = [] ∨
          domain.length > DOMAIN_MAX_BYTES ∨ ¬ (localPart.splitOn '.').all isAtom ∨
          ¬ (domain.splitOn '.').all isLabel then
        .error .invalidEmail
      else
        .ok (String.ofList (localPart ++ '@' :: domain.map Char.toLower))

section Rule
variable (primitives : Primitives)

def decodeCanonical32 (value : String) : Option Bytes := do
  if byteLength value.toList ≠ IDENTIFIER_SUBJECT_CHARS then none
  else
    let bytes ← primitives.decode value
    if bytes.length = IDENTIFIER_BYTES ∧ primitives.encode bytes = value then some bytes else none

theorem byteLength_base64Text {bytes : Bytes} (h : bytes.length = IDENTIFIER_BYTES) :
    byteLength (base64Text bytes).toList = IDENTIFIER_SUBJECT_CHARS := by
  have hall : Base64Url.ALPHABET.all (·.utf8Size == 1) = true := by decide
  have hsize : ∀ c ∈ Base64Url.ALPHABET, c.utf8Size = 1 := fun c hc =>
    eq_of_beq (List.all_eq_true.mp hall c hc)
  rw [base64Text, String.toList_ofList,
    byteLength_of_ascii fun c hc => hsize c (Base64Url.mem_alphabet_of_mem_encode hc),
    Base64Url.length_encode, h]
  rfl

variable {primitives} in
/-- **The reader takes the texts of 32 bytes**, and no other text. -/
theorem decodeCanonical32_eq_some (hprimitives : primitives.Documented) {value : String}
    {bytes : Bytes} :
    decodeCanonical32 primitives value = some bytes ↔
      bytes.length = IDENTIFIER_BYTES ∧ value = base64Text bytes := by
  unfold decodeCanonical32
  constructor
  · intro h
    split at h
    · cases h
    obtain ⟨decoded, -, h⟩ := Option.bind_eq_some_iff.mp h
    split at h
    · rename_i hcanonical
      cases h
      exact ⟨hcanonical.1, by rw [← hcanonical.2, hprimitives.encode]⟩
    · cases h
  · rintro ⟨hlength, rfl⟩
    rw [if_neg (not_not.mpr (byteLength_base64Text hlength)), hprimitives.decode]
    exact if_pos ⟨hlength, hprimitives.encode bytes⟩

def decodeCode (code : String) : Except IdentityError Bytes :=
  match decodeCanonical32 primitives code with
  | some bytes => .ok bytes
  | none => .error .invalidCode

end Rule

/-- What is hashed for one counter. -/
def preimage (email : List Char) (code : Bytes) (counter : Nat) : Bytes :=
  IDENTIFIER_DOMAIN ++ toBe 2 email.length ++ ascii email ++ code ++ toBe 4 counter

/-- The identifier that one counter gives. -/
def identifierAt (sha256 : Bytes → Bytes) (email : List Char) (code : Bytes) (counter : Nat) :
    Nat :=
  beNat (sha256 (preimage email code counter)) % frModulus

def deriveIdentifier (primitives : Primitives) (email code : String) :
    Except IdentityError Nat := do
  let email ← canonicalEmail email
  let code ← decodeCode primitives code
  match firstNonzero (identifierAt primitives.sha256 email.toList code) (2 ^ 32) 0 with
  | some id => .ok id
  | none => .error .counterExhausted

/-- **An identifier is the first digest of its mailbox and code that the field does
not read as zero.** -/
theorem deriveIdentifier_eq_ok {primitives : Primitives} {email code : String} {id : Nat} :
    deriveIdentifier primitives email code = .ok id ↔
      ∃ canonical bytes, canonicalEmail email = .ok canonical ∧
        decodeCode primitives code = .ok bytes ∧
        ∃ counter < 2 ^ 32,
          (∀ j < counter, identifierAt primitives.sha256 canonical.toList bytes j = 0) ∧
          identifierAt primitives.sha256 canonical.toList bytes counter = id ∧ id ≠ 0 := by
  simp only [deriveIdentifier, BoundedLoop.bind_eq_ok]
  refine exists_congr fun canonical => ⟨?_, ?_⟩
  · rintro ⟨hemail, bytes, hcode, h⟩
    split at h
    · rename_i first hfirst
      cases h
      obtain ⟨k, -, hlt, hzero, hid, hne⟩ := firstNonzero_eq_some.mp hfirst
      exact ⟨bytes, hemail, hcode, k, by omega, fun j hj => hzero j (Nat.zero_le _) hj, hid, hne⟩
    · cases h
  · rintro ⟨bytes, hemail, hcode, k, hlt, hzero, hid, hne⟩
    refine ⟨hemail, bytes, hcode, ?_⟩
    rw [firstNonzero_eq_some.mpr
      ⟨k, Nat.zero_le _, by omega, fun j _ hj => hzero j hj, hid, hne⟩]

end Identity

/-! ## The rule of the SDK -/

namespace Sdk
open Identity (isAscii isAtext splitAt identifierAt)

def IDENTIFIER_CODE_BYTES : Nat := FR_BYTES
def IDENTIFIER_TEXT_CHARS : Nat := 43
def EMAIL_LOCAL_MAX_BYTES : Nat := 64
def EMAIL_ADDRESS_MAX_BYTES : Nat := 254
def EMAIL_DOMAIN_MAX_BYTES : Nat := 253
def EMAIL_DOMAIN_LABEL_MAX_BYTES : Nat := 63

/-- The hash and the `base64url` form of `Buffer`, which reads every text. -/
structure Primitives where
  sha256 : Bytes → Bytes
  encode : Bytes → String
  decode : String → Bytes

/-- White space for `String.prototype.trim`. -/
def isWhitespace (c : Char) : Bool :=
  c.toNat = 0x20 || (0x09 ≤ c.toNat && c.toNat ≤ 0x0d) || c.toNat = 0xa0 || c.toNat = 0x1680 ||
    (0x2000 ≤ c.toNat && c.toNat ≤ 0x200a) || c.toNat = 0x2028 || c.toNat = 0x2029 ||
    c.toNat = 0x202f || c.toNat = 0x205f || c.toNat = 0x3000 || c.toNat = 0xfeff

def trim (cs : List Char) : List Char := (cs.dropWhile isWhitespace).rdropWhile isWhitespace

/-- One or more characters of an atom. -/
def isAtom (atom : List Char) : Bool := atom ≠ [] && atom.all isAtext

/-- `/^[A-Za-z0-9](?:[A-Za-z0-9-]*[A-Za-z0-9])?$/` -/
def isDomainLabel : List Char → Bool
  | [] => false
  | c :: cs =>
    c.isAlphanum && (cs = [] || cs.dropLast.all (fun c => c.isAlphanum || c = '-') &&
      cs.getLast?.any Char.isAlphanum)

/-- The reason of each refusal of an email. -/
def unsupportedMailbox : String := "the email address is not a supported ASCII mailbox"

def canonicalEmail (email : Text) : Except String String :=
  match email.toString? with
  | none => .error unsupportedMailbox
  | some s =>
    let cs := s.toList
    if ¬ cs.all isAscii ∨ cs.length > EMAIL_ADDRESS_MAX_BYTES ∨ trim cs ≠ cs then
      .error unsupportedMailbox
    else
      match splitAt cs with
      | none => .error unsupportedMailbox
      | some (localPart, domain) =>
        if localPart = [] ∨ '@' ∈ domain then
          .error unsupportedMailbox
        else if localPart.length > EMAIL_LOCAL_MAX_BYTES ∨
            ¬ (localPart.splitOn '.').all isAtom ∨ domain = [] ∨
            domain.length > EMAIL_DOMAIN_MAX_BYTES ∨
            ¬ (domain.splitOn '.').all
              (fun label => label.length ≤ EMAIL_DOMAIN_LABEL_MAX_BYTES && isDomainLabel label) then
          .error unsupportedMailbox
        else
          .ok (String.ofList (localPart ++ '@' :: domain.map Char.toLower))

/-- `/^[A-Za-z0-9_-]+$/` -/
def isBase64Url (cs : List Char) : Bool :=
  cs ≠ [] && cs.all fun c => c.isAlphanum || c = '_' || c = '-'

def decodeCanonical32 (primitives : Primitives) (text : Text) : Option Bytes := do
  let s ← text.toString?
  if ¬ isBase64Url s.toList ∨ s.toList.length ≠ IDENTIFIER_TEXT_CHARS then none
  else
    let bytes := primitives.decode s
    if bytes.length ≠ IDENTIFIER_CODE_BYTES ∨ primitives.encode bytes ≠ s then none
    else some bytes

/-- What the SDK relies on: `Buffer` writes the text of every byte string, and reads it
back. -/
structure Primitives.Documented (primitives : Primitives) : Prop where
  encode : ∀ bytes, primitives.encode bytes = Identity.base64Text bytes
  decode : ∀ bytes, primitives.decode (Identity.base64Text bytes) = bytes

/-- **The reader takes the texts of 32 bytes**, and no other text. -/
theorem decodeCanonical32_eq_some {primitives : Primitives} (hprimitives : primitives.Documented)
    {text : Text} {bytes : Bytes} :
    decodeCanonical32 primitives text = some bytes ↔
      bytes.length = IDENTIFIER_CODE_BYTES ∧ text = Text.ofString (Identity.base64Text bytes) := by
  unfold decodeCanonical32
  constructor
  · intro h
    obtain ⟨s, hs, h⟩ := Option.bind_eq_some_iff.mp h
    split at h
    · cases h
    dsimp only at h
    split at h
    · cases h
    · rename_i hcanonical
      cases h
      rw [not_or, not_not, not_not] at hcanonical
      refine ⟨hcanonical.1, ?_⟩
      rw [Text.toString?_eq_some.mp hs, ← hprimitives.encode, hcanonical.2]
  · rintro ⟨hlength, rfl⟩
    have hshape : isBase64Url (Identity.base64Text bytes).toList = true := by
      have hall : Base64Url.ALPHABET.all (fun c => c.isAlphanum || c = '_' || c = '-') = true := by
        decide
      have halphabet : ∀ c ∈ Base64Url.ALPHABET,
          (c.isAlphanum || c = '_' || c = '-') = true := List.all_eq_true.mp hall
      rw [Identity.base64Text, String.toList_ofList, isBase64Url, Bool.and_eq_true,
        decide_eq_true_eq, List.all_eq_true]
      refine ⟨fun hnil => ?_, fun c hc => halphabet c (Base64Url.mem_alphabet_of_mem_encode hc)⟩
      have hchars := Base64Url.length_encode bytes
      rw [hnil, hlength] at hchars
      exact absurd hchars (by decide)
    have hchars : (Identity.base64Text bytes).toList.length = IDENTIFIER_TEXT_CHARS := by
      rw [Identity.base64Text, String.toList_ofList, Base64Url.length_encode, hlength]
      rfl
    rw [Text.toString?_ofString, Option.bind_eq_bind, Option.bind_some,
      if_neg (by rw [not_or, not_not, not_not]; exact ⟨hshape, hchars⟩)]
    dsimp only
    rw [hprimitives.decode, if_neg (by
      rw [not_or, not_not, not_not]; exact ⟨hlength, hprimitives.encode bytes⟩)]

def deriveCustomerIdentifier (primitives : Primitives) (email code : Text) :
    Except String Nat := do
  let canonical ← canonicalEmail email
  match decodeCanonical32 primitives code with
  | none => .error "the code is not canonical 43-character base64url"
  | some codeBytes =>
    match firstNonzero (identifierAt primitives.sha256 canonical.toList codeBytes) (2 ^ 32) 0 with
    | some id => .ok id
    | none => .error "the identifier counter is exhausted"

end Sdk
end ZkPoR
