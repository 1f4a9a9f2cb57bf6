import ZkPoR.EmailBinding
import ZkPoR.InsertionMap
import ZkPoR.SdkInclusion
import ZkPoR.SubjectText

/-! # The preparation of an email witness

`preparedInputs` of `tools/email/witness.mjs`.  It reads the signed header as a
Latin-1 text, finds the lines and the tags in it, and writes their positions for the
circuit.  Every character of the text is one byte, so a text is the list of its bytes
here.

The functions of the language and of Node that are not in the repository are the
parameter `Engine`.
-/
namespace ZkPoR.EmailTool
open ByteString HexText JsonText JavaScript Binary64 InsertionMap Splitting
open BoundedLoop (bind_eq_ok)
open Circuit (Sequence)
open Circuit.Email (CR LF SEMICOLON COLON EQUALS isLower)
open Sdk (record?)

def HEADER_BOUND : Nat := 1024
def FROM_BOUND : Nat := 320
def SUBJECT_LENGTH : Nat := 43
def KEY_LIMBS : Nat := 18
def PREPARED_FORMAT : String := "zkpor-email-witness/1"

/-- `Number`, with nothing for `NaN`, and the hash and the base64 code of Node. -/
structure Engine where
  number : Option Value → Option Double
  primitives : Sdk.Primitives

/-! ## Latin-1 texts -/

def text (s : String) : Bytes := ascii s.toList

/-- White space for `String.prototype.trim`. -/
def isSpace (byte : UInt8) : Bool := byte == 32 || (9 ≤ byte && byte ≤ 13) || byte == 160

def trimStart (s : Bytes) : Bytes := s.dropWhile isSpace

def trim (s : Bytes) : Bytes := (trimStart s).rdropWhile isSpace

/-- One character of `String.prototype.toLowerCase`. -/
def toLowerCase (byte : UInt8) : UInt8 :=
  if 65 ≤ byte ∧ byte ≤ 90 ∨ 192 ≤ byte ∧ byte ≤ 222 ∧ byte ≠ 215 then byte + 32 else byte

/-- The text as JavaScript holds it. -/
def ofLatin1 (s : Bytes) : Text := s.map fun byte => .scalar (Char.ofNat byte.toNat)

/-! ## Field elements -/

/-- `/^(0|[1-9][0-9]*|0x[0-9a-fA-F]+)$/`, and the integer of such a text. -/
def fieldItem (item : Value) : Option Nat := do
  let .string text := item | none
  let s ← text.toString?
  match s.toList with
  | '0' :: 'x' :: digits =>
    if digits ≠ [] ∧ digits.all fun c => (hexDigit? c).isSome then some (hexNat digits) else none
  | digits =>
    if DecimalText.IsDecimal digits then some (Nat.ofDigitChars 10 digits 0) else none

/-- The field elements of an array, in decimal. -/
def fieldArray (value : Option Value) (length : Nat) : Except String (List Nat) :=
  let invalid := "the email helper returned invalid field data"
  match value.bind Value.elements? with
  | none => .error invalid
  | some items =>
    if items.length ≠ length then .error invalid
    else
      match items.mapM fieldItem with
      | none => .error invalid
      | some values =>
        if values.all (· < frModulus) then .ok values
        else .error "the email helper returned a field outside Fr"

/-- One byte of the header.  A number above 255 is above it as a double too. -/
def headerByte (item : Nat) : Except String UInt8 :=
  if item > 255 then .error "the signed header contains an invalid byte" else .ok (UInt8.ofNat item)

/-! ## The fields of the header -/

/-- One line and its position. -/
structure Field where
  line : Bytes
  index : Nat
deriving DecidableEq

/-- The lines, from an offset on. -/
def fieldsFrom : Nat → List Bytes → List Field
  | _, [] => []
  | offset, line :: lines => { line, index := offset } :: fieldsFrom (offset + line.length + 2) lines

def startsWith (line start : Bytes) : Bool := start.isPrefixOf line

def one (fields : List Field) (name : String) : Except String Field :=
  match fields.filter fun item => startsWith item.line (text s!"{name}:") with
  | [item] => .ok item
  | _ => .error s!"the signed header needs one {name} field"

/-! ## The tags of the DKIM field -/

/-- The value of a tag, and where the tag stands. -/
structure Tag where
  value : Bytes
  sequence : Sequence
deriving DecidableEq

/-- `/^([a-z]+)=(.*)$/`: the name and the value. -/
def matchTag (s : Bytes) : Option (Bytes × Bytes) :=
  let name := s.takeWhile isLower
  match s.dropWhile isLower with
  | byte :: value =>
    if name ≠ [] ∧ byte = EQUALS ∧ value.all fun b => b ≠ LF && b ≠ CR then some (name, value)
    else none
  | [] => none

structure TagReader where
  tags : OrderedMap Bytes Tag
  tagOffset : Nat

/-- The tags with the one that a part writes, unless it is blank. -/
def TagReader.add (s : TagReader) (part : Bytes) : Except String (OrderedMap Bytes Tag) :=
  let trimmed := trim part
  let leading := part.length - (trimStart part).length
  if trimmed = [] then .ok s.tags
  else
    match matchTag trimmed with
    | some (name, value) =>
      if (s.tags.get name).isSome then .error "a DKIM tag is invalid or repeated"
      else .ok (s.tags.set name { value, sequence := ⟨s.tagOffset + leading, trimmed.length⟩ })
    | none => .error "a DKIM tag is invalid or repeated"

/-- One part of the value, up to the next semicolon. -/
def TagReader.read (s : TagReader) (part : Bytes) : Except String TagReader := do
  let tags ← s.add part
  return { tags, tagOffset := s.tagOffset + part.length + 1 }

def readTags (tagOffset : Nat) (value : Bytes) : Except String (OrderedMap Bytes Tag) := do
  let s ← (value.splitOn SEMICOLON).foldlM TagReader.read { tags := .empty, tagOffset }
  return s.tags

/-- The tag of one name, with the expected value if there is one. -/
def tag (tags : OrderedMap Bytes Tag) (name : String) (expected : Option String) :
    Except String Tag :=
  match tags.get (text name) with
  | none => .error s!"the DKIM {name} tag is unsupported"
  | some found =>
    if expected.all fun value => found.value = text value then .ok found
    else .error s!"the DKIM {name} tag is unsupported"

/-- The names of an h tag. -/
def signedNames (value : Bytes) : List Bytes :=
  ((value.map toLowerCase).splitOn COLON).map trim

/-! ## `preparedInputs` -/

/-- What the circuit reads, and what is registered.  The integers are written in
decimal. -/
structure Prepared where
  format : String
  id : String
  domainHash : String
  fromHeaderHash : String
  signature : List Nat
  storage : List Nat
  len : Nat
  modulus : List Nat
  redc : List Nat
  subjectSequence : Sequence
  fromSequence : Sequence
  dkimSequence : Sequence
  tags : Circuit.Email.DkimTags
deriving DecidableEq

def orThrow {α : Type} (x : Option α) (message : String) : Except String α :=
  match x with
  | some a => .ok a
  | none => .error message

def throwIf (p : Prop) [Decidable p] (message : String) : Except String Unit :=
  if p then .error message else .ok ()

/-- The length of the header, a positive integer below the bound. -/
def headerLength (number : Option Double) : Except String Nat := do
  let length ← orThrow (number.bind Double.toInt?) "the signed header exceeds the circuit bound"
  throwIf (length < 1 ∨ HEADER_BOUND ≤ length) "the signed header exceeds the circuit bound"
  return length.toNat

/-- What the signed fields are: Subject, From, and DKIM-Signature. -/
def selectFields (header : Bytes) : Except String (Field × Field × Field) := do
  let fields := fieldsFrom 0 (Circuit.Email.crlfLines header)
  let subject ← one fields "subject"
  let fromField ← one fields "from"
  let dkim ← orThrow (fields.getLast?.filter fun item =>
    startsWith item.line (text "dkim-signature:")) "the final signed field is not DKIM-Signature"
  throwIf (FROM_BOUND < fromField.line.length) "the signed From field exceeds the circuit bound"
  return (subject, fromField, dkim)

/-- The tags that the circuit reads, with the value of the d tag. -/
def selectTags (dkim : Field) : Except String (Bytes × Circuit.Email.DkimTags) := do
  let tags ← readTags (dkim.index + (text "dkim-signature:").length)
    (dkim.line.drop (text "dkim-signature:").length)
  let domain ← tag tags "d" none
  let h ← tag tags "h" none
  let names := signedNames h.value
  throwIf (text "from" ∉ names ∨ text "subject" ∉ names) "DKIM does not cover From and Subject"
  let algorithm ← tag tags "a" (some "rsa-sha256")
  let canonicalization ← tag tags "c" (some "relaxed/relaxed")
  let version ← tag tags "v" (some "1")
  let signature ← tag tags "b" (some "")
  return (domain.value, {
    domain := domain.sequence
    algorithm := algorithm.sequence
    canonicalization := canonicalization.sequence
    signedHeaders := h.sequence
    version := version.sequence
    signature := signature.sequence })

def Field.sequence (item : Field) : Sequence := ⟨item.index, item.line.length⟩

section Prepare
variable (engine : Engine)

/-- The signed header of the helper: its storage, its length, and its bytes. -/
def readHeader (source : List (Text × Value)) : Except String (List Nat × Nat × Bytes) := do
  let storage ← fieldArray (property source "storage") HEADER_BOUND
  let length ← headerLength (engine.number (property source "len"))
  let header ← (storage.take length).mapM headerByte
  return (storage, length, header)

/-- The identifier of the Subject. -/
def readIdentifier (subject : Field) : Except String Nat := do
  let subjectValue := subject.line.drop (text "subject:").length
  throwIf (subjectValue.length ≠ SUBJECT_LENGTH) "the signed Subject has the wrong length"
  Sdk.parseIdentifierSubject engine.primitives (ofLatin1 subjectValue)

def preparedInputs (inputs : Value) : Except String Prepared := do
  let source ← orThrow (record? inputs) "invalid email helper output"
  let headerSource ← orThrow ((property source "header").bind record?) "invalid email helper output"
  let pubkey ← orThrow ((property source "pubkey").bind record?) "invalid email helper output"
  let (storage, len, header) ← readHeader engine headerSource
  let (subject, fromField, dkim) ← selectFields header
  let id ← readIdentifier engine subject
  let (domain, tags) ← selectTags dkim
  let idText ← Sdk.toHex id
  let signature ← fieldArray (property source "signature") KEY_LIMBS
  let modulus ← fieldArray (property pubkey "modulus") KEY_LIMBS
  let redc ← fieldArray (property pubkey "redc") KEY_LIMBS
  return {
    format := PREPARED_FORMAT
    id := idText
    domainHash := String.ofList (hexOf (engine.primitives.sha256 domain))
    fromHeaderHash := String.ofList (hexOf (engine.primitives.sha256 fromField.line))
    signature, storage, len, modulus, redc
    subjectSequence := subject.sequence
    fromSequence := fromField.sequence
    dkimSequence := dkim.sequence
    tags }

end Prepare

end ZkPoR.EmailTool
