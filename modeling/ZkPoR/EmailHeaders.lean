import ZkPoR.Circuits
import ZkPoR.Context

/-! # The email circuit

The circuit reads a signed header that the prover supplies, together with the
positions of the lines and the tags that it uses.  `checkHeaders` scans the header
once and refuses positions that do not agree with it, and the circuit publishes
hashes of what stands at them.

A string in a header is a list of bytes.  The entries of a `BoundedVec` beyond its
length are not part of the model: every read below is of a position before the
length, in any run that arrives at it.  `constrainHeaderField` and the functions
that `main` applies to the key and to the outputs belong to other packages.
-/
namespace ZkPoR.Circuit
open ByteString BoundedLoop

/-- `BoundedVec<u8, max>`. -/
structure BoundedVec (max : Nat) where
  bytes : Bytes
  length_le : bytes.length ≤ max
deriving DecidableEq

namespace BoundedVec
variable {max : Nat}

def len (header : BoundedVec max) : Nat := header.bytes.length

def getUnchecked (header : BoundedVec max) (index : Nat) : UInt8 := header.bytes.getD index 0

end BoundedVec

/-- `assert` with a message. -/
def assertOr (condition : Prop) [Decidable condition] (reason : Failure) : Except Failure Unit :=
  if condition then .ok () else .error reason

/-- `assert` without one. -/
abbrev assertThat (condition : Prop) [Decidable condition] : Except Failure Unit :=
  assertOr condition .constraint

theorem assertOr_eq_ok {condition : Prop} [Decidable condition] {reason : Failure} :
    assertOr condition reason = .ok () ↔ condition := by
  unfold assertOr
  split <;> simp [*]

/-- `BoundedVec::from_parts`. -/
def BoundedVec.fromParts {max : Nat} (storage : Vector UInt8 max) (len : Nat) :
    Except Failure (BoundedVec max) := do
  assertThat (len ≤ max)
  .ok ⟨storage.toList.take len, by rw [List.length_take, Vector.length_toList]; omega⟩

/-- A part of the header, at a position that the prover chooses. -/
structure Sequence where
  index : Nat
  length : Nat
deriving DecidableEq

/-- The position after the sequence, in 32 bits. -/
def Sequence.endIndex (sequence : Sequence) : Except Failure Nat :=
  if sequence.index + sequence.length < 2 ^ 32 then .ok (sequence.index + sequence.length)
  else .error .overflow

namespace Email

abbrev MAX_EMAIL_HEADER_LENGTH : Nat := 1024
abbrev MAX_FROM_LENGTH : Nat := 320
abbrev SUBJECT_LENGTH : Nat := 43
abbrev MAX_DOMAIN_LENGTH : Nat := 253
abbrev MAX_DOMAIN_LABEL_LENGTH : Nat := 63
abbrev MAX_HEADER_NAME_LENGTH : Nat := 64
abbrev SUBJECT_NAME_LENGTH : Nat := 7
abbrev FROM_NAME_LENGTH : Nat := 4
abbrev DKIM_NAME_LENGTH : Nat := 14
def FROM_TOKEN : Fr := 0x66726f6d
def SUBJECT_TOKEN : Fr := 0x7375626a656374
abbrev CR : UInt8 := 13
abbrev LF : UInt8 := 10
abbrev SPACE : UInt8 := 32
abbrev COLON : UInt8 := 58
abbrev SEMICOLON : UInt8 := 59
abbrev EQUALS : UInt8 := 61
abbrev TAB : UInt8 := 9
abbrev HYPHEN : UInt8 := 45
abbrev DOT : UInt8 := 46

/-- A header. -/
abbrev Header : Type := BoundedVec MAX_EMAIL_HEADER_LENGTH

structure DkimTags where
  domain : Sequence
  algorithm : Sequence
  canonicalization : Sequence
  signedHeaders : Sequence
  version : Sequence
  signature : Sequence
deriving DecidableEq

/-! ## Classes of bytes -/

def isLower (byte : UInt8) : Bool := 97 ≤ byte && byte ≤ 122
def isUpper (byte : UInt8) : Bool := 65 ≤ byte && byte ≤ 90
def isDigit (byte : UInt8) : Bool := 48 ≤ byte && byte ≤ 57

/-- An upper-case letter becomes a lower-case one. -/
def toLower (byte : UInt8) : UInt8 := if isUpper byte then byte + 32 else byte

/-- A byte as a field element. -/
def byteFr (byte : UInt8) : Fr := frOfNat byte.toNat

/-! ## `matches`, `exact`, and `tag_bounds` -/

/-- `matches`. -/
def matchesAt (header : Header) (index : Nat) (value : Bytes) : Bool :=
  let fits := if index ≤ header.len then decide (value.length ≤ header.len - index) else false
  Nat.fold value.length (fun offset h equal =>
    let position := if fits then index + offset else 0
    equal && header.getUnchecked position == value[offset]) fits

def exact (header : Header) (sequence : Sequence) (value : Bytes) : Except Failure Unit := do
  assertOr (sequence.length = value.length) (.assertion "The DKIM tag length is invalid")
  assertOr (matchesAt header sequence.index value) (.assertion "The DKIM tag value is invalid")

/-- One position of `tag_bounds`, for a tag that ends at `stop`. -/
def tagBoundsStep (header : Header) (tag : Sequence) (stop index : Nat) (suffix : Bool) :
    Except Failure Bool := do
  let byte := header.getUnchecked index
  assertThat (tag.index ≤ index ∧ index < stop → byte ≠ SEMICOLON ∧ byte ≠ CR ∧ byte ≠ LF)
  if stop ≤ index ∧ index < header.len ∧ suffix then
    if byte = SEMICOLON then
      .ok false
    else
      assertOr (byte = SPACE) (.assertion "The DKIM tag has an invalid suffix")
      .ok suffix
  else
    .ok suffix

def tagBounds (header : Header) (dkim tag : Sequence) : Except Failure Unit := do
  assertThat (dkim.index + DKIM_NAME_LENGTH + 1 ≤ tag.index)
  assertThat (2 ≤ tag.length)
  let stop ← tag.endIndex
  assertThat (stop ≤ header.len)
  let _ ← forRange MAX_EMAIL_HEADER_LENGTH true fun index _ suffix =>
    tagBoundsStep header tag stop index suffix

/-! ## `signed_names` -/

/-- The variables of `signed_names`. -/
structure NameScan where
  token : Fr
  length : Nat
  ended : Bool
  fromCount : Nat
  subjectCount : Nat

def NameScan.init : NameScan := ⟨0, 0, false, 0, 0⟩

/-- One byte of the list of signed names. -/
def NameScan.read (s : NameScan) (byte : UInt8) : Except Failure NameScan := do
  if byte = COLON then
    assertOr (0 < s.length) (.assertion "An h tag names an empty header")
    .ok { token := 0, length := 0, ended := false
          fromCount := if s.token = FROM_TOKEN then s.fromCount + 1 else s.fromCount
          subjectCount := if s.token = SUBJECT_TOKEN then s.subjectCount + 1 else s.subjectCount }
  else if byte = SPACE then
    .ok (if 0 < s.length then { s with ended := true } else s)
  else
    assertOr (s.ended = false) (.assertion "An h tag splits a header name")
    let lower := toLower byte
    assertThat (isLower lower ∨ lower = HYPHEN)
    let length := s.length + 1
    assertThat (length ≤ MAX_HEADER_NAME_LENGTH)
    -- Long names need no numeric representation for these two comparisons.
    .ok { s with
          length
          token := if length ≤ SUBJECT_NAME_LENGTH then s.token * 256 + byteFr lower else 0 }

def signedNames (header : Header) (sequence : Sequence) : Except Failure Unit := do
  let stop ← sequence.endIndex
  let s ← forRange MAX_EMAIL_HEADER_LENGTH NameScan.init fun index _ s =>
    if sequence.index + 2 ≤ index ∧ index ≤ stop then
      s.read (if index = stop then COLON else header.getUnchecked index)
    else
      .ok s
  -- Extra h names sign absent fields. Actual signed fields remain unique.
  assertOr (1 ≤ s.fromCount ∧ 1 ≤ s.subjectCount)
    (.assertion "The h tag must name From and Subject")

/-! ## The scan of the header -/

/-- The variables of the scan that follow the lines and the names of the fields. -/
structure FieldScan where
  subjectCount : Nat
  fromCount : Nat
  fieldName : Bool
  fieldNameLength : Nat
  fieldNameValue : Fr
  fieldStart : Nat
  valueStart : Bool
  previousSpace : Bool

def FieldScan.init : FieldScan := ⟨0, 0, true, 0, 0, 0, false, false⟩

/-- The line endings around one byte. -/
def checkLineEnd (header : Header) (s : FieldScan) (byte next : UInt8) (index : Nat) :
    Except Failure Unit := do
  let previous := if 1 ≤ index then header.getUnchecked (index - 1) else 0
  assertThat (byte = LF → previous = CR)
  assertThat (byte = CR → next = LF)
  assertThat (byte = CR → s.fieldName = false ∧ s.previousSpace = false)

def lineStart (header : Header) (index : Nat) : Bool :=
  if index = 0 then true
  else if 2 ≤ index then
    header.getUnchecked (index - 2) == CR && header.getUnchecked (index - 1) == LF
  else false

/-- The variables at a byte, which starts a new field where a line starts. -/
def FieldScan.enter (s : FieldScan) (header : Header) (index : Nat) : FieldScan :=
  if lineStart header index then
    { s with fieldName := true, fieldNameLength := 0, fieldNameValue := 0, fieldStart := index
             valueStart := false, previousSpace := false }
  else s

/-- A From field before the DKIM field must be the one that the prover chose. -/
def FieldScan.countFrom (s : FieldScan) (fromSequence : Sequence) : Except Failure FieldScan :=
  if s.fieldNameValue = FROM_TOKEN then do
    assertThat (fromSequence.index = s.fieldStart)
    .ok { s with fromCount := s.fromCount + 1 }
  else .ok s

/-- So must a Subject field. -/
def FieldScan.countSubject (s : FieldScan) (subject : Sequence) : Except Failure FieldScan :=
  if s.fieldNameValue = SUBJECT_TOKEN then do
    assertThat (subject.index = s.fieldStart)
    .ok { s with subjectCount := s.subjectCount + 1 }
  else .ok s

/-- The colon after a field name. -/
def FieldScan.countField (s : FieldScan) (subject fromSequence dkim : Sequence) :
    Except Failure FieldScan :=
  if s.fieldStart < dkim.index then do
    let s ← s.countFrom fromSequence
    s.countSubject subject
  else .ok s

/-- The field that one byte belongs to. -/
def FieldScan.read (s : FieldScan) (subject fromSequence dkim : Sequence) (byte : UInt8) :
    Except Failure FieldScan := do
  if byte ≠ CR ∧ byte ≠ LF then
    if s.fieldName then
      if byte = COLON then
        assertThat (0 < s.fieldNameLength)
        let s ← s.countField subject fromSequence dkim
        .ok { s with fieldName := false, valueStart := true }
      else
        assertThat (isLower byte ∨ isDigit byte ∨ byte = HYPHEN)
        let length := s.fieldNameLength + 1
        assertThat (length ≤ MAX_HEADER_NAME_LENGTH)
        .ok { s with
              fieldNameLength := length
              fieldNameValue := if length ≤ SUBJECT_NAME_LENGTH then
                  s.fieldNameValue * 256 + byteFr byte
                else 0 }
    else
      assertOr (byte ≠ TAB) (.assertion "A relaxed header must not contain a tab")
      assertOr (¬ (byte = SPACE ∧ (s.valueStart ∨ s.previousSpace)))
        (.assertion "A relaxed header has invalid spaces")
      .ok { s with valueStart := false, previousSpace := byte = SPACE }
  else .ok s

/-- The count of the required tags. -/
abbrev TAG_KINDS : Nat := 6

/-- The names of the required tags: d, a, c, h, v, and b. -/
def names : Vector UInt8 TAG_KINDS := #v[100, 97, 99, 104, 118, 98]

def DkimTags.selected (tags : DkimTags) : Vector Sequence TAG_KINDS :=
  #v[tags.domain, tags.algorithm, tags.canonicalization, tags.signedHeaders, tags.version,
    tags.signature]

/-- The variables of the scan that follow the tags of the DKIM field. -/
structure TagScan where
  counts : Vector Nat TAG_KINDS
  tagStart : Bool
  tagName : Bool

def TagScan.init : TagScan := ⟨Vector.replicate TAG_KINDS 0, true, false⟩

/-- The count of the tag whose name starts at one byte. -/
def countTags (selected : Vector Sequence TAG_KINDS) (byte next : UInt8) (index : Nat)
    (counts : Vector Nat TAG_KINDS) : Except Failure (Vector Nat TAG_KINDS) :=
  forRange TAG_KINDS counts fun kind h counts => do
    if byte = names[kind] ∧ next = EQUALS then
      assertOr (selected[kind].index = index) (.assertion "The DKIM tag position is invalid")
      .ok (counts.set kind (counts[kind] + 1))
    else .ok counts

/-- The first byte of a tag that is no space starts its name. -/
def TagScan.begin (s : TagScan) (selected : Vector Sequence TAG_KINDS) (byte next : UInt8)
    (index : Nat) : Except Failure TagScan :=
  if s.tagStart ∧ byte ≠ SPACE then do
    assertOr (isLower byte) (.assertion "A DKIM tag name is invalid")
    let counts ← countTags selected byte next index s.counts
    .ok { counts, tagStart := false, tagName := true }
  else .ok s

/-- An equals sign ends the name. -/
def TagScan.readName (s : TagScan) (byte : UInt8) : Except Failure TagScan :=
  if s.tagName then
    if byte = EQUALS then .ok { s with tagName := false }
    else do
      assertOr (isLower byte) (.assertion "A DKIM tag name is invalid")
      .ok s
  else .ok s

/-- The tag that one byte of the DKIM value belongs to. -/
def TagScan.read (s : TagScan) (selected : Vector Sequence TAG_KINDS) (byte next : UInt8)
    (index : Nat) : Except Failure TagScan := do
  let s ← s.begin selected byte next index
  let s ← s.readName byte
  .ok (if byte = SEMICOLON then { s with tagStart := true } else s)

/-- The byte after a position, and zero at the end. -/
def nextByte (header : Header) (index : Nat) : UInt8 :=
  if index + 1 < header.len then header.getUnchecked (index + 1) else 0

/-- The body of the scan. -/
def scanByte (header : Header) (subject fromSequence dkim : Sequence)
    (selected : Vector Sequence TAG_KINDS) (index : Nat) (s : FieldScan × TagScan) :
    Except Failure (FieldScan × TagScan) := do
  if index < header.len then
    let byte := header.getUnchecked index
    let next := nextByte header index
    checkLineEnd header s.1 byte next index
    let field ← (s.1.enter header index).read subject fromSequence dkim byte
    if dkim.index + DKIM_NAME_LENGTH + 1 ≤ index then
      let tag ← s.2.read selected byte next index
      .ok (field, tag)
    else .ok (field, s.2)
  else .ok s

/-! ## The domain -/

/-- The variables of the loop over the domain. -/
structure DomainScan where
  domainBytes : Vector UInt8 MAX_DOMAIN_LENGTH
  labelLength : Nat
  lastHyphen : Bool

def DomainScan.init : DomainScan := ⟨Vector.replicate MAX_DOMAIN_LENGTH 0, 0, false⟩

/-- The length of the label after one byte. -/
def DomainScan.nextLabel (s : DomainScan) (byte : UInt8) : Except Failure Nat :=
  if byte = DOT then do
    assertThat (0 < s.labelLength ∧ s.lastHyphen = false)
    .ok 0
  else do
    assertThat (s.labelLength ≠ 0 ∨ byte ≠ HYPHEN)
    assertThat (s.labelLength + 1 ≤ MAX_DOMAIN_LABEL_LENGTH)
    .ok (s.labelLength + 1)

/-- One byte of the domain. -/
def DomainScan.read (s : DomainScan) (offset : Nat) (h : offset < MAX_DOMAIN_LENGTH)
    (byte : UInt8) : Except Failure DomainScan := do
  assertOr (isLower byte ∨ isDigit byte ∨ byte = HYPHEN ∨ byte = DOT)
    (.assertion "The DKIM domain is not lowercase ASCII")
  let labelLength ← s.nextLabel byte
  .ok { domainBytes := s.domainBytes.set offset byte, labelLength, lastHyphen := byte = HYPHEN }

def readDomain (header : Header) (domain : Sequence) :
    Except Failure (BoundedVec MAX_DOMAIN_LENGTH) := do
  assertThat (2 < domain.length ∧ domain.length ≤ MAX_DOMAIN_LENGTH + 2)
  let s ← forRange MAX_DOMAIN_LENGTH DomainScan.init fun offset h s =>
    if offset < domain.length - 2 then
      s.read offset h (header.getUnchecked (domain.index + 2 + offset))
    else .ok s
  assertThat (0 < s.labelLength ∧ s.lastHyphen = false)
  BoundedVec.fromParts s.domainBytes (domain.length - 2)

/-! ## `check_headers` -/

/-- What the header binds: the value of the Subject line, the domain of the
signature, and the whole From line. -/
structure Outputs where
  subjectBytes : Vector UInt8 SUBJECT_LENGTH
  domain : BoundedVec MAX_DOMAIN_LENGTH
  fromBytes : BoundedVec MAX_FROM_LENGTH
deriving DecidableEq

def readFrom (header : Header) (fromSequence : Sequence) :
    Except Failure (BoundedVec MAX_FROM_LENGTH) :=
  let storage := Nat.fold MAX_FROM_LENGTH (fun offset h storage =>
    if offset < fromSequence.length then
      storage.set offset (header.getUnchecked (fromSequence.index + offset))
    else storage) (Vector.replicate MAX_FROM_LENGTH 0)
  BoundedVec.fromParts storage fromSequence.length

def isBase64url (byte : UInt8) : Bool :=
  isUpper byte || isLower byte || isDigit byte || byte == HYPHEN || byte == 95

def readSubject (header : Header) (subject : Sequence) :
    Except Failure (Vector UInt8 SUBJECT_LENGTH) :=
  forRange SUBJECT_LENGTH (Vector.replicate SUBJECT_LENGTH 0) fun offset h bytes => do
    let byte := header.getUnchecked (subject.index + SUBJECT_NAME_LENGTH + 1 + offset)
    assertOr (isBase64url byte) (.assertion "The Subject is not base64url")
    .ok (bytes.set offset byte)

def FROM_NAME : Bytes := ascii ['f', 'r', 'o', 'm']
def SUBJECT_NAME : Bytes := ascii ['s', 'u', 'b', 'j', 'e', 'c', 't']
def DKIM_NAME : Bytes :=
  ascii ['d', 'k', 'i', 'm', '-', 's', 'i', 'g', 'n', 'a', 't', 'u', 'r', 'e']
def ALGORITHM : Bytes := ascii ['a', '=', 'r', 's', 'a', '-', 's', 'h', 'a', '2', '5', '6']
def CANONICALIZATION : Bytes :=
  ascii ['c', '=', 'r', 'e', 'l', 'a', 'x', 'e', 'd', '/', 'r', 'e', 'l', 'a', 'x', 'e', 'd']
def VERSION : Bytes := ascii ['v', '=', '1']
def SIGNATURE : Bytes := ascii ['b', '=']

/-- `constrain_header_field`: the longest field, the header, the sequence, and the
name of the field. -/
abbrev ConstrainHeaderField : Type := Nat → Header → Sequence → Bytes → Except Failure Unit

section CheckHeaders
variable (constrainHeaderField : ConstrainHeaderField)

def checkHeaders (header : Header) (subject fromSequence dkim : Sequence) (tags : DkimTags) :
    Except Failure Outputs := do
  assertThat (0 < header.len ∧ header.len < MAX_EMAIL_HEADER_LENGTH)
  assertThat (subject.index = 0 ∨ 2 ≤ subject.index)
  assertThat (fromSequence.index = 0 ∨ 2 ≤ fromSequence.index)
  let dkimEnd ← dkim.endIndex
  assertThat (2 ≤ dkim.index ∧ dkimEnd = header.len)
  assertThat (subject.length = SUBJECT_NAME_LENGTH + 1 + SUBJECT_LENGTH)
  assertThat (FROM_NAME_LENGTH + 1 < fromSequence.length ∧ fromSequence.length ≤ MAX_FROM_LENGTH)
  let subjectEnd ← subject.endIndex
  let fromEnd ← fromSequence.endIndex
  assertThat (subjectEnd < dkim.index ∧ fromEnd < dkim.index)
  constrainHeaderField SUBJECT_LENGTH header subject SUBJECT_NAME
  constrainHeaderField MAX_FROM_LENGTH header fromSequence FROM_NAME
  constrainHeaderField MAX_EMAIL_HEADER_LENGTH header dkim DKIM_NAME
  let (field, tag) ← forRange MAX_EMAIL_HEADER_LENGTH (FieldScan.init, TagScan.init)
    fun index _ s => scanByte header subject fromSequence dkim tags.selected index s
  assertThat (tag.tagName = false ∧ field.previousSpace = false)
  assertOr (field.subjectCount = 1 ∧ field.fromCount = 1)
    (.assertion "The signed headers repeat From or Subject")
  let _ ← forRange TAG_KINDS () fun kind h _ => do
    assertOr (tag.counts[kind] = 1) (.assertion "A required DKIM tag is absent or repeated")
    tagBounds header dkim tags.selected[kind]
  exact header tags.algorithm ALGORITHM
  exact header tags.canonicalization CANONICALIZATION
  exact header tags.version VERSION
  exact header tags.signature SIGNATURE
  signedNames header tags.signedHeaders
  let domain ← readDomain header tags.domain
  let fromBytes ← readFrom header fromSequence
  let subjectBytes ← readSubject header subject
  .ok { subjectBytes, domain, fromBytes }

end CheckHeaders

/-! ## `main` -/

abbrev KEY_LIMBS_2048 : Nat := 18
def RSA_TOP_LIMB_MIN : Nat := 128

/-- The key of the mail service. -/
structure RSAPubkey where
  modulus : Vector Fr KEY_LIMBS_2048
  redc : Vector Fr KEY_LIMBS_2048
deriving DecidableEq

/-- The functions of the packages that `main` calls: the two of the key, the hash of
a string, and the packing of bytes into two field elements, `chunk` bytes in each. -/
structure Packages where
  hash : RSAPubkey → Vector Fr 2
  verifyDkimSignature : RSAPubkey → Header → Vector Fr KEY_LIMBS_2048 → Except Failure Unit
  sha256Var : {max : Nat} → BoundedVec max → Vector UInt8 32
  packBytes : {n : Nat} → (chunk : Nat) → Vector UInt8 n → Vector Fr 2

/-- A cast to `u128` keeps the low 128 bits. -/
def asU128 (a : Fr) : Nat := a.val % 2 ^ 128

section Main
variable (constrainHeaderField : ConstrainHeaderField) (packages : Packages)

def checkedKeyHashes (pubkey : RSAPubkey) : Except Failure (Vector Fr 2) := do
  assertOr (RSA_TOP_LIMB_MIN ≤ asU128 pubkey.modulus[KEY_LIMBS_2048 - 1])
    (.assertion "The RSA modulus is shorter than 2048 bits")
  assertOr (asU128 pubkey.modulus[0] % 2 = 1) (.assertion "The RSA modulus is even")
  .ok (packages.hash pubkey)

/-- `main`.  Only the returned fields are public. -/
def main (header : Header) (pubkey : RSAPubkey) (signature : Vector Fr KEY_LIMBS_2048)
    (subject fromSequence dkim : Sequence) (tags : DkimTags) (applicationContext : Fr) :
    Except Failure (Vector Fr 9) := do
  assertOr (applicationContext ≠ 0) (.assertion "The application context is zero")
  assertThat (header.len ≤ MAX_EMAIL_HEADER_LENGTH)
  let keyHashes ← checkedKeyHashes packages pubkey
  packages.verifyDkimSignature pubkey header signature
  let out ← checkHeaders constrainHeaderField header subject fromSequence dkim tags
  let domainHash := packages.packBytes 16 (packages.sha256Var out.domain)
  let fromHash := packages.packBytes 16 (packages.sha256Var out.fromBytes)
  let subjectFields := packages.packBytes 31 out.subjectBytes
  .ok #v[applicationContext, keyHashes[0], keyHashes[1], domainHash[0], domainHash[1],
    fromHash[0], fromHash[1], subjectFields[0], subjectFields[1]]

end Main

end Email
end ZkPoR.Circuit
