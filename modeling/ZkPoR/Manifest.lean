import ZkPoR.BlockLayout
import ZkPoR.InsertionMap
import ZkPoR.SdkPackage
import ZkPoR.SubjectText

/-! # The circuit manifest of the SDK

`parseManifest`, and the writer and the reader of the public input vector that the
manifest lays out.  The positions are data of the manifest: `parseManifest_positions`
says that they are the four positions in some order, and the two functions then are the
arrangement of `BlockLayout` and its inverse.
-/
namespace ZkPoR.Sdk
open ByteString JsonText JavaScript Binary64 InsertionMap BlockLayout
open BoundedLoop (bind_eq_ok mapM_eq_ok_iff)

def PUBLIC_INPUT_BYTES : Nat := PUBLIC_INPUT_COUNT * FR_BYTES

/-- A name of one element of the public input vector. -/
inductive PublicInputName
  | contextHash | innerKeyHash | finalRoot | l
deriving DecidableEq

/-- The key of an element in the manifest. -/
def PublicInputName.text : PublicInputName → String
  | .contextHash => "context_hash"
  | .innerKeyHash => "inner_key_hash"
  | .finalRoot => "final_root"
  | .l => "L"

def PUBLIC_INPUT_NAMES : List PublicInputName := [.contextHash, .innerKeyHash, .finalRoot, .l]

theorem PublicInputName.mem_names (name : PublicInputName) : name ∈ PUBLIC_INPUT_NAMES := by
  cases name <;> decide

/-- The values of the manifest that a client reads. -/
structure Manifest where
  batchB : Nat
  numBatchesK : Nat
  treeDepth : Double
  bbVersion : Text
  nargoVersion : Text
  proofScheme : Text
  terminalOracleHash : Text
  innerOracleHash : Text
  innerKeyHash : Nat
  aggregatorKeySha256 : Text
  publicInputPositions : OrderedMap PublicInputName Nat

/-- What the functions of the manifest throw. -/
inductive ManifestError
  | manifest (message : Text)
  | other (message : String)

/-- What the model leaves to the language: the text of a value, the message of
`JSON.parse`, and `Math.log2`. -/
structure Engine where
  string : Option Value → Text
  syntaxError : String → Text
  log2 : Nat → Double

def manifestError {α : Type} (message : String) : Except ManifestError α :=
  .error (.manifest (Text.ofString message))

def orManifest {α : Type} (x : Option α) (message : Text) : Except ManifestError α :=
  match x with
  | some a => .ok a
  | none => .error (.manifest message)

/-! ## The reader of the manifest -/

def manifestString (source : List (Text × Value)) (key : String) : Except ManifestError Text :=
  match property source key with
  | some (.string (point :: text)) => .ok (point :: text)
  | _ => manifestError s!"the manifest carries no {key}"

/-- The 32 bits that a bit operation takes of a number. -/
def toInt32 (n : Nat) : BitVec 32 := BitVec.ofNat 32 n

/-- `value - 1`, a double again. -/
def predecessor (value : Nat) : Nat := ((ofRatio false (value - 1) 1).toInt?.getD 0).toNat

def powerOfTwoField (source : List (Text × Value)) (key : String) : Except ManifestError Nat :=
  match property source key with
  | some (.number number) =>
    match number.toInt? with
    | some value =>
      if value < 2 then manifestError s!"the manifest carries no {key}"
      else if toInt32 value.toNat &&& toInt32 (predecessor value.toNat) ≠ 0 then
        manifestError s!"the manifest value {key} is not a power of two"
      else .ok value.toNat
    | none => manifestError s!"the manifest carries no {key}"
  | _ => manifestError s!"the manifest carries no {key}"

/-- The number is the given one. -/
def isNumber (value : Option Value) (n : Nat) : Bool :=
  match value with
  | some (.number number) => number.toInt? = some (n : Int)
  | _ => false

def readPosition (source : List (Text × Value)) (name : PublicInputName) :
    Except ManifestError Nat :=
  match property source name.text with
  | some (.number number) =>
    match number.toInt? with
    | some position =>
      if position < 0 ∨ PUBLIC_INPUT_COUNT ≤ position then
        manifestError s!"the position of the public input {name.text} is outside the vector"
      else .ok position.toNat
    | none => manifestError s!"the manifest gives no position for the public input {name.text}"
  | _ => manifestError s!"the manifest gives no position for the public input {name.text}"

/-- One turn of the loop over the names. -/
def setPosition (source : List (Text × Value)) (positions : OrderedMap PublicInputName Nat)
    (name : PublicInputName) : Except ManifestError (OrderedMap PublicInputName Nat) := do
  let position ← readPosition source name
  return positions.set name position

def readPositions (source : List (Text × Value)) :
    Except ManifestError (OrderedMap PublicInputName Nat) := do
  let positions ← PUBLIC_INPUT_NAMES.foldlM (setPosition source) .empty
  let taken := (positions.entries.map Prod.snd).dedup
  if taken.length ≠ PUBLIC_INPUT_NAMES.length then
    manifestError "the manifest gives one position to two public inputs"
  else return positions

/-- `/^[0-9]+$/`, and the integer of such a text. -/
def decimalDigits (value : Option Value) : Option Nat := do
  let .string text ← value | none
  let s ← text.toString?
  if s.toList ≠ [] ∧ s.toList.all Char.isDigit then some (Nat.ofDigitChars 10 s.toList 0) else none

section Reader
variable (engine : Engine)

/-- Refuses a count of elements or of bytes other than the one of this client. -/
def requireSize (value : Option Value) (size : Nat) (message : String) :
    Except ManifestError Unit :=
  if isNumber value size then .ok ()
  else .error (.manifest (Text.ofString message ++ engine.string value))

/-- Reads the manifest. -/
def parseManifest (text : String) : Except ManifestError Manifest := do
  let parsed ← orManifest (JavaScript.parse text)
    (Text.ofString "the manifest is not valid JSON: " ++ engine.syntaxError text)
  let source ← orManifest (record? parsed) (Text.ofString "the manifest is a JSON object")
  requireSize engine (property source "public_input_count") PUBLIC_INPUT_COUNT
    (s!"this client reads a public input vector of {PUBLIC_INPUT_COUNT} elements, " ++
      "and the manifest names ")
  requireSize engine (property source "public_input_bytes") PUBLIC_INPUT_BYTES
    (s!"this client reads a public input string of {PUBLIC_INPUT_BYTES} bytes, " ++
      "and the manifest names ")
  let positionsSource ← orManifest ((property source "public_input_positions").bind record?)
    (Text.ofString "the manifest carries no public_input_positions")
  let publicInputPositions ← readPositions positionsSource
  let batchB ← powerOfTwoField source "batch_b"
  let numBatchesK ← powerOfTwoField source "num_batches_k"
  let innerKeyHash ← orManifest (decimalDigits (property source "inner_key_hash"))
    (Text.ofString "the manifest carries no inner_key_hash")
  let bbVersion ← manifestString source "bb_version"
  let nargoVersion ← manifestString source "nargo_version"
  let proofScheme ← manifestString source "proof_scheme"
  let terminalOracleHash ← manifestString source "terminal_oracle_hash"
  let innerOracleHash ← manifestString source "inner_oracle_hash"
  let aggregatorKeySha256 ← manifestString source "aggregator_key_sha256"
  return {
    batchB, numBatchesK, treeDepth := (engine.log2 batchB).add (engine.log2 numBatchesK),
    bbVersion, nargoVersion, proofScheme, terminalOracleHash, innerOracleHash, innerKeyHash,
    aggregatorKeySha256, publicInputPositions }

end Reader

/-! ## The public input vector -/

/-- The values of the public input vector. -/
structure PublicInputs where
  contextHash : Nat
  innerKeyHash : Nat
  finalRoot : Nat
  l : Nat
deriving DecidableEq

def PublicInputs.value (values : PublicInputs) : PublicInputName → Nat
  | .contextHash => values.contextHash
  | .innerKeyHash => values.innerKeyHash
  | .finalRoot => values.finalRoot
  | .l => values.l

def positionOf (manifest : Manifest) (name : PublicInputName) : Except ManifestError Nat :=
  match manifest.publicInputPositions.get name with
  | some position => .ok position
  | none => manifestError s!"the manifest gives no position for the public input {name.text}"

/-- `output.set`, which takes no bytes behind the end. -/
def setBytes (output bytes : Bytes) (offset : Nat) : Except ManifestError Bytes :=
  if output.length < offset + bytes.length then .error (.other "offset is out of bounds")
  else .ok (overwrite output offset bytes)

/-- One turn of the loop over the names. -/
def writeElement (manifest : Manifest) (values : PublicInputs) (output : Bytes)
    (name : PublicInputName) : Except ManifestError Bytes := do
  let bytes ← (toBytes (values.value name)).mapError .other
  let position ← positionOf manifest name
  setBytes output bytes (position * FR_BYTES)

/-- The serialized public input vector. -/
def serializePublicInputs (manifest : Manifest) (values : PublicInputs) :
    Except ManifestError Bytes :=
  PUBLIC_INPUT_NAMES.foldlM (writeElement manifest values)
    (List.replicate PUBLIC_INPUT_BYTES 0)

def subarray (bytes : Bytes) (start stop : Nat) : Bytes := (bytes.drop start).take (stop - start)

def readElement (manifest : Manifest) (bytes : Bytes) (name : PublicInputName) :
    Except ManifestError Nat := do
  let position ← positionOf manifest name
  let value :=
    bytesToBigint (subarray bytes (position * FR_BYTES) ((position + 1) * FR_BYTES))
  if ¬ inRange value then
    manifestError s!"the public input {name.text} is not a field element"
  else return value

/-- Reads the serialized public input vector that the prover wrote. -/
def readPublicInputs (manifest : Manifest) (bytes : Bytes) : Except ManifestError PublicInputs :=
  if bytes.length ≠ PUBLIC_INPUT_BYTES then
    manifestError (s!"the public input string holds {PUBLIC_INPUT_BYTES} bytes, " ++
      s!"and this one holds {bytes.length}")
  else do
    let contextHash ← readElement manifest bytes .contextHash
    let innerKeyHash ← readElement manifest bytes .innerKeyHash
    let finalRoot ← readElement manifest bytes .finalRoot
    let l ← readElement manifest bytes .l
    return { contextHash, innerKeyHash, finalRoot, l }

/-! ## Small numbers -/

section Natural
variable {source : List (Text × Value)} {n : Nat}

theorem powerOfTwoField_natural {key : String}
    (h : property source key = some (.number (toDouble (natural n)))) (hn : 2 ≤ n ∧ n < 2 ^ 53)
    (hbits : toInt32 n &&& toInt32 (n - 1) = 0) : powerOfTwoField source key = .ok n := by
  have hpredecessor : predecessor n = n - 1 := by
    rw [predecessor, toInt?_ofRatio false (by omega)]
    rfl
  rw [powerOfTwoField, h]
  dsimp only
  rw [toDouble_natural hn.2]
  dsimp only
  rw [if_neg (by omega), Int.toNat_natCast, hpredecessor, if_neg (not_not.mpr hbits)]

theorem isNumber_natural (h : n < 2 ^ 53) :
    isNumber (some (.number (toDouble (natural n)))) n = true := by
  rw [isNumber, toDouble_natural h, decide_eq_true_eq]

theorem readPosition_natural {name : PublicInputName}
    (h : property source name.text = some (.number (toDouble (natural n))))
    (hn : n < PUBLIC_INPUT_COUNT) : readPosition source name = .ok n := by
  have hsmall : PUBLIC_INPUT_COUNT < 2 ^ 53 := by decide
  rw [readPosition, h]
  dsimp only
  rw [toDouble_natural (hn.trans hsmall)]
  dsimp only
  rw [if_neg (by omega), Int.toNat_natCast]

end Natural

end ZkPoR.Sdk
