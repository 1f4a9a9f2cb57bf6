import ZkPoR.JavaScript
import ZkPoR.PackageSchema
import ZkPoR.SdkTree

/-! # The inclusion package of the SDK

`parsePackage` and the depth check.  `parsePackage_eq_ok` says which JavaScript
values the reader takes, field by field (`IsPackage`), and later modules use
nothing else of it.
-/
namespace ZkPoR.Sdk
open CheckedInt BoundedLoop JsonText JavaScript Binary64

def PACKAGE_FORMAT : String := "zkpor-inclusion/2"
def IDENTITY_PACKAGE_FORMAT : String := "zkpor-inclusion/3"
def IDENTIFIER_RULE : String := "zkpor-email-code/1"
def PADDING_LEAF_ID : Nat := 0

def PACKAGE_FIELDS : List String :=
  ["format", "network", "registry", "asset", "snapshot_ledger", "context_hash", "attestation_id",
    "leaf_index", "id", "commitment", "balance", "salt", "siblings"]

def IDENTITY_PACKAGE_FIELDS : List String :=
  PACKAGE_FIELDS.take 7 ++ ["identifier_rule"] ++ PACKAGE_FIELDS.drop 7

/-- The parsed content of one inclusion package. -/
structure InclusionPackage where
  format : String
  identifierRule : Option String
  network : Text
  registry : Text
  asset : Text
  snapshotLedger : Nat
  contextHash : Nat
  attestationId : Nat
  leafIndex : Nat
  id : Nat
  commitment : Nat
  balance : Nat
  salt : Nat
  siblings : List Nat
deriving DecidableEq

/-- What a reader throws. -/
inductive PackageError
  | unsupportedFormat (found : Text)
  | malformed (message : Text)
  | other (message : String)
deriving DecidableEq

def PackageError.message : PackageError → Text
  | .unsupportedFormat found =>
    Text.ofString (s!"this reader supports {PACKAGE_FORMAT} and {IDENTITY_PACKAGE_FORMAT}, " ++
      "and the package names ") ++ found
  | .malformed message => message
  | .other message => Text.ofString message

def malformed {α : Type} (message : String) : Except PackageError α :=
  .error (.malformed (Text.ofString message))

/-- Runs one field check and reports its failure as a malformed package. -/
def checked {α : Type} (x : Except String α) : Except PackageError α :=
  x.mapError fun message => .malformed (Text.ofString message)

/-- A failure that no reader catches. -/
def uncaught {α : Type} (x : Except String α) : Except PackageError α := x.mapError .other

def require (p : Prop) [Decidable p] (message : String) : Except PackageError Unit :=
  if p then .ok () else malformed message

def orMalformed {α : Type} (x : Option α) (message : String) : Except PackageError α :=
  match x with
  | some a => .ok a
  | none => malformed message

/-- The properties of a value for which `isRecord` holds. -/
def record? : Value → Option (List (Text × Value))
  | .object properties => some properties
  | _ => none

def string? : Value → Option Text
  | .string text => some text
  | _ => none

def stringField (source : List (Text × Value)) (key : String) : Except PackageError Text :=
  orMalformed ((property source key).bind string?) s!"the field {key} must be a string"

/-- The format string, which is the version gate. -/
def formatField (source : List (Text × Value)) : Except PackageError String := do
  let value ← orMalformed (property source "format") "the package carries no format field"
  let format ← orMalformed (string? value) "the field format must be a string"
  if format = Text.ofString PACKAGE_FORMAT then .ok PACKAGE_FORMAT
  else if format = Text.ofString IDENTITY_PACKAGE_FORMAT then .ok IDENTITY_PACKAGE_FORMAT
  else .error (.unsupportedFormat format)

def fieldsOf (format : String) : List String :=
  if format = PACKAGE_FORMAT then PACKAGE_FIELDS else IDENTITY_PACKAGE_FIELDS

/-- Refuses the first key that the format does not name. -/
def refuseExtra (source : List (Text × Value)) (format : String) : Except PackageError Unit :=
  match source.find? fun p => p.1 ∉ (fieldsOf format).map Text.ofString with
  | none => .ok ()
  | some (key, _) =>
    .error (.malformed (Text.ofString s!"the format {format} does not name the field " ++ key))

/-- Refuses the first field that the package does not carry. -/
def refuseMissing (source : List (Text × Value)) (format : String) : Except PackageError Unit :=
  match (fieldsOf format).find? fun key => (property source key).isNone with
  | none => .ok ()
  | some key => malformed s!"the package carries no field {key}"

def checkRule (source : List (Text × Value)) (format : String) : Except PackageError Unit :=
  if format = IDENTITY_PACKAGE_FORMAT then do
    let rule ← stringField source "identifier_rule"
    require (rule = Text.ofString IDENTIFIER_RULE) "the identifier rule is not supported"
  else .ok ()

def hexField (source : List (Text × Value)) (key what : String) : Except PackageError Nat := do
  let text ← stringField source key
  checked (parseHex text what)

def decimalField (source : List (Text × Value)) (key what : String) :
    Except PackageError Nat := do
  let text ← stringField source key
  checked (parseU64Decimal text what)

/-- Reads a `u32` from a JSON number. -/
def parseU32 (value : Option Value) (field : String) : Except String Nat :=
  match value with
  | some (.number number) =>
    match number.toInt? with
    | none => .error s!"{field} must be an integer"
    | some n =>
      if n < 0 ∨ n > MAX_U32 then .error s!"{field} must be at least 0 and at most {MAX_U32}"
      else .ok n.toNat
  | _ => .error s!"{field} must be an integer"

def siblingField (sibling : Value) (level : Nat) : Except PackageError Nat := do
  let text ← orMalformed (string? sibling) s!"the sibling hash at level {level} must be a string"
  checked (parseHex text s!"the sibling hash at level {level}")

section Reader
variable (poseidon2 : List Fr → Fr)

/-- Reads one package. -/
def parsePackage (text : String) : Except PackageError InclusionPackage := do
  let parsed ← orMalformed (JavaScript.parse text) "the package is not valid JSON"
  let source ← orMalformed (record? parsed) "the package is a JSON object"
  let format ← formatField source
  refuseExtra source format
  refuseMissing source format
  checkRule source format
  let siblingsValue ← orMalformed ((property source "siblings").bind Value.elements?)
    "the field siblings must be an array"
  let siblings ← siblingsValue.zipIdx.mapM fun (sibling, level) => siblingField sibling level
  let id ← hexField source "id" "the identifier"
  require (id ≠ PADDING_LEAF_ID)
    "the identifier zero names a padding leaf, and no customer package names it"
  let attestationId ← decimalField source "attestation_id" "the attestation ID"
  require (attestationId ≠ 0) "the attestation ID must be positive"
  let commitment ← hexField source "commitment" "the commitment"
  let balance ← decimalField source "balance" "the balance"
  let salt ← hexField source "salt" "the salt"
  let opened ← uncaught (balanceCommitment poseidon2 balance salt)
  require (opened = commitment) "the commitment does not match the balance and salt"
  let network ← stringField source "network"
  let registry ← stringField source "registry"
  let asset ← stringField source "asset"
  let snapshotLedger ← checked (parseU32 (property source "snapshot_ledger") "the snapshot ledger")
  let contextHash ← hexField source "context_hash" "the context hash"
  let leafIndex ← checked (parseU32 (property source "leaf_index") "the leaf index")
  return {
    format
    identifierRule := if format = IDENTITY_PACKAGE_FORMAT then some IDENTIFIER_RULE else none
    network, registry, asset, snapshotLedger, contextHash, attestationId, leafIndex, id,
    commitment, balance, salt, siblings }

end Reader

/-- Checks the package against the tree depth that the deployment records. -/
def checkDepth (entry : InclusionPackage) (treeDepth : Nat) : Except PackageError Unit := do
  require (entry.siblings.length = treeDepth) (s!"the deployment records a tree depth of " ++
    s!"{treeDepth}, and the package carries {entry.siblings.length} sibling hashes")
  require (entry.leafIndex < 2 ^ treeDepth)
    s!"the leaf index {entry.leafIndex} is outside a tree of depth {treeDepth}"

/-! ## What the reader takes -/

theorem require_eq_ok {p : Prop} [Decidable p] {message : String} {u : Unit} :
    require p message = .ok u ↔ p := by
  unfold require
  split <;> simp_all [malformed]

theorem orMalformed_eq_ok {α : Type} {x : Option α} {message : String} {a : α} :
    orMalformed x message = .ok a ↔ x = some a := by
  cases x <;> simp [orMalformed, malformed]

theorem checked_eq_ok {α : Type} {x : Except String α} {a : α} :
    checked x = .ok a ↔ x = .ok a := Schema.mapError_eq_ok

theorem uncaught_eq_ok {α : Type} {x : Except String α} {a : α} :
    uncaught x = .ok a ↔ x = .ok a := Schema.mapError_eq_ok

theorem record?_eq_some {value : Value} {source : List (Text × Value)} :
    record? value = some source ↔ value = .object source := by
  cases value <;> simp [record?]

theorem string?_eq_some {value : Value} {text : Text} :
    string? value = some text ↔ value = .string text := by
  cases value <;> simp [string?]

theorem elements?_eq_some {value : Value} {elements : List Value} :
    value.elements? = some elements ↔ value = .array elements := by
  cases value <;> simp [Value.elements?]

theorem stringField_eq_ok {source : List (Text × Value)} {key : String} {text : Text} :
    stringField source key = .ok text ↔ property source key = some (.string text) := by
  rw [stringField, orMalformed_eq_ok, Option.bind_eq_some_iff]
  simp only [string?_eq_some, exists_eq_right]

theorem formatField_eq_ok {source : List (Text × Value)} {format : String} :
    formatField source = .ok format ↔
      (format = PACKAGE_FORMAT ∨ format = IDENTITY_PACKAGE_FORMAT) ∧
        property source "format" = some (.string (Text.ofString format)) := by
  simp only [formatField, bind_eq_ok, orMalformed_eq_ok, string?_eq_some]
  constructor
  · rintro ⟨_, hvalue, found, rfl, h⟩
    split at h
    · rename_i h2
      cases h
      exact ⟨.inl rfl, h2 ▸ hvalue⟩
    split at h
    · rename_i h3
      cases h
      exact ⟨.inr rfl, h3 ▸ hvalue⟩
    · cases h
  · rintro ⟨hformat, hvalue⟩
    refine ⟨_, hvalue, _, rfl, ?_⟩
    rcases hformat with rfl | rfl
    · exact if_pos rfl
    · rw [if_neg fun h => absurd (Text.ofString_injective h) (by decide), if_pos rfl]

theorem refuseExtra_eq_ok {source : List (Text × Value)} {format : String} {u : Unit} :
    refuseExtra source format = .ok u ↔
      ∀ p ∈ source, p.1 ∈ (fieldsOf format).map Text.ofString := by
  have hfind : (source.find? fun p => p.1 ∉ (fieldsOf format).map Text.ofString) = none ↔
      ∀ p ∈ source, p.1 ∈ (fieldsOf format).map Text.ofString := by
    rw [List.find?_eq_none]
    simp only [decide_eq_true_eq, not_not]
  rw [← hfind]
  unfold refuseExtra
  split
  · rename_i hnone
    simp only [hnone]
  · rename_i hsome
    simp only [hsome, reduceCtorEq]

theorem refuseMissing_eq_ok {source : List (Text × Value)} {format : String} {u : Unit} :
    refuseMissing source format = .ok u ↔
      ∀ key ∈ fieldsOf format, property source key ≠ none := by
  have hfind : ((fieldsOf format).find? fun key => (property source key).isNone) = none ↔
      ∀ key ∈ fieldsOf format, property source key ≠ none := by
    rw [List.find?_eq_none]
    simp only [Option.isNone_iff_eq_none, ne_eq]
  rw [← hfind]
  unfold refuseMissing
  split
  · rename_i hnone
    simp only [hnone]
  · rename_i hsome
    simp only [hsome, malformed, reduceCtorEq]

theorem checkRule_eq_ok {source : List (Text × Value)} {format : String} {u : Unit} :
    checkRule source format = .ok u ↔
      (format = IDENTITY_PACKAGE_FORMAT →
        property source "identifier_rule" = some (.string (Text.ofString IDENTIFIER_RULE))) := by
  unfold checkRule
  split
  · rename_i hformat
    simp only [bind_eq_ok, stringField_eq_ok, require_eq_ok, hformat, forall_const]
    exact ⟨fun ⟨_, h, heq⟩ => heq ▸ h, fun h => ⟨_, h, rfl⟩⟩
  · rename_i hformat
    simp [hformat]

/-- The value is a string, and it is the text of the field element `v`. -/
def IsHex (value : Value) (v : Nat) : Prop :=
  value = .string (Text.ofString (hexText (BitVec.ofNat 256 v))) ∧ v < frModulus

/-- The property is the text of the field element `v`. -/
def IsHexField (value : Option Value) (v : Nat) : Prop := ∃ x, value = some x ∧ IsHex x v

/-- The property is the text of the 64-bit integer `n`. -/
def IsDecimalField (value : Option Value) (n : Nat) : Prop :=
  value = some (.string (Text.ofString (decimalText n))) ∧ n < 2 ^ 64

/-- The property is a number, and it is the 32-bit integer `n`. -/
def IsU32Field (value : Option Value) (n : Nat) : Prop :=
  (∃ number : Double, value = some (.number number) ∧ number.toInt? = some (n : Int)) ∧ n < 2 ^ 32

theorem hexField_eq_ok {source : List (Text × Value)} {key what : String} {v : Nat} :
    hexField source key what = .ok v ↔ IsHexField (property source key) v := by
  simp only [hexField, bind_eq_ok, stringField_eq_ok, checked_eq_ok, parseHex_eq_ok]
  constructor
  · rintro ⟨text, hvalue, h⟩
    exact ⟨_, hvalue, congrArg Value.string h.2, h.1⟩
  · rintro ⟨value, hvalue, h⟩
    exact ⟨_, hvalue.trans (congrArg some h.1), h.2, rfl⟩

theorem decimalField_eq_ok {source : List (Text × Value)} {key what : String} {n : Nat} :
    decimalField source key what = .ok n ↔ IsDecimalField (property source key) n := by
  simp only [decimalField, bind_eq_ok, stringField_eq_ok, checked_eq_ok, parseU64Decimal_eq_ok]
  constructor
  · rintro ⟨_, hvalue, hlt, rfl⟩
    exact ⟨hvalue, hlt⟩
  · rintro ⟨hvalue, hlt⟩
    exact ⟨_, hvalue, hlt, rfl⟩

theorem parseU32_eq_ok {value : Option Value} {field : String} {n : Nat} :
    parseU32 value field = .ok n ↔ IsU32Field value n := by
  have hmax : (MAX_U32 : Int) = 2 ^ 32 - 1 := rfl
  constructor
  · intro h
    unfold parseU32 at h
    split at h
    · rename_i number
      split at h
      · cases h
      rename_i m hm
      split at h
      · cases h
      rename_i hbounds
      cases h
      rw [not_or, Int.not_lt, Int.not_lt] at hbounds
      exact ⟨⟨number, rfl, by rw [hm, Int.toNat_of_nonneg hbounds.1]⟩, by omega⟩
    · cases h
  · rintro ⟨⟨number, rfl, hnumber⟩, hlt⟩
    unfold parseU32
    simp only [hnumber, Int.toNat_natCast]
    rw [if_neg (by omega)]

theorem siblingField_eq_ok {sibling : Value} {level v : Nat} :
    siblingField sibling level = .ok v ↔ IsHex sibling v := by
  simp only [siblingField, bind_eq_ok, orMalformed_eq_ok, string?_eq_some, checked_eq_ok,
    parseHex_eq_ok]
  constructor
  · rintro ⟨text, htext, h⟩
    exact ⟨htext.trans (congrArg Value.string h.2), h.1⟩
  · intro h
    exact ⟨_, h.1, h.2, rfl⟩

/-- The levels of the path do not matter to what the reader takes. -/
theorem siblingFields_eq_ok {values : List Value} {start : Nat} {siblings : List Nat} :
    ((values.zipIdx start).mapM fun (sibling, level) => siblingField sibling level) =
        .ok siblings ↔ List.Forall₂ IsHex values siblings := by
  induction values generalizing start siblings with
  | nil => cases siblings <;> simp [pure, Except.pure]
  | cons value values ih =>
    rw [List.zipIdx_cons, mapM_cons_eq_ok]
    constructor
    · rintro ⟨v, vs, hv, hvs, rfl⟩
      exact .cons (siblingField_eq_ok.mp hv) (ih.mp hvs)
    · rintro (_ | ⟨hv, hvs⟩)
      exact ⟨_, _, siblingField_eq_ok.mpr hv, ih.mpr hvs, rfl⟩

/-- The object is the package: the format that fixes its keys, and the one text of
every field. -/
structure IsPackage (poseidon2 : List Fr → Fr) (source : List (Text × Value))
    (package : InclusionPackage) : Prop where
  format : package.format = PACKAGE_FORMAT ∨ package.format = IDENTITY_PACKAGE_FORMAT
  formatField : property source "format" = some (.string (Text.ofString package.format))
  known : ∀ p ∈ source, p.1 ∈ (fieldsOf package.format).map Text.ofString
  rule : package.identifierRule =
    if package.format = IDENTITY_PACKAGE_FORMAT then some IDENTIFIER_RULE else none
  ruleField : package.format = IDENTITY_PACKAGE_FORMAT →
    property source "identifier_rule" = some (.string (Text.ofString IDENTIFIER_RULE))
  network : property source "network" = some (.string package.network)
  registry : property source "registry" = some (.string package.registry)
  asset : property source "asset" = some (.string package.asset)
  snapshotLedger : IsU32Field (property source "snapshot_ledger") package.snapshotLedger
  contextHash : IsHexField (property source "context_hash") package.contextHash
  attestationId : IsDecimalField (property source "attestation_id") package.attestationId
  attestationPos : package.attestationId ≠ 0
  leafIndex : IsU32Field (property source "leaf_index") package.leafIndex
  id : IsHexField (property source "id") package.id
  idNonzero : package.id ≠ PADDING_LEAF_ID
  commitment : IsHexField (property source "commitment") package.commitment
  balance : IsDecimalField (property source "balance") package.balance
  salt : IsHexField (property source "salt") package.salt
  opens : (ZkPoR.balanceCommitment poseidon2 (BitVec.ofNat 64 package.balance)
    (BitVec.ofNat 256 package.salt)).toNat = package.commitment
  siblings : ∃ values, property source "siblings" = some (.array values) ∧
    List.Forall₂ IsHex values package.siblings

/-- The commitment of the SDK, on the values that the reader takes. -/
theorem balanceCommitment_of_lt {poseidon2 : List Fr → Fr} {balance salt : Nat}
    (hbalance : balance < 2 ^ 64) (hsalt : salt < frModulus) :
    balanceCommitment poseidon2 balance salt =
      .ok (ZkPoR.balanceCommitment poseidon2 (BitVec.ofNat 64 balance)
        (BitVec.ofNat 256 salt)).toNat := by
  have hsaltNat := toNat_ofNat_of_lt hsalt
  have hbalanceNat : (BitVec.ofNat 64 balance).toNat = balance := by
    rw [BitVec.toNat_ofNat, Nat.mod_eq_of_lt hbalance]
  have hrange : frInRange (BitVec.ofNat 256 salt) := by
    unfold frInRange
    rwa [hsaltNat]
  have h := @balanceCommitment_eq poseidon2 (BitVec.ofNat 64 balance) _ hrange
  rwa [hsaltNat, hbalanceNat] at h

/-- Every field of the schema is there when the reader takes the package. -/
theorem IsPackage.complete {poseidon2 : List Fr → Fr} {source : List (Text × Value)}
    {package : InclusionPackage} (h : IsPackage poseidon2 source package) :
    ∀ key ∈ fieldsOf package.format, property source key ≠ none := by
  obtain ⟨⟨_, hsnapshot, -⟩, -⟩ := h.snapshotLedger
  obtain ⟨_, hcontext, -⟩ := h.contextHash
  obtain ⟨hattestation, -⟩ := h.attestationId
  obtain ⟨⟨_, hleafIndex, -⟩, -⟩ := h.leafIndex
  obtain ⟨_, hid, -⟩ := h.id
  obtain ⟨_, hcommitment, -⟩ := h.commitment
  obtain ⟨hbalance, -⟩ := h.balance
  obtain ⟨_, hsalt, -⟩ := h.salt
  obtain ⟨_, hsiblings, -⟩ := h.siblings
  have hbase : ∀ key ∈ PACKAGE_FIELDS, property source key ≠ none := by
    simp only [PACKAGE_FIELDS, List.forall_mem_cons, List.not_mem_nil, IsEmpty.forall_iff,
      implies_true, h.formatField, h.network, h.registry, h.asset, hsnapshot, hcontext,
      hattestation, hleafIndex, hid, hcommitment, hbalance, hsalt, hsiblings, ne_eq, reduceCtorEq,
      not_false_eq_true, and_self]
  intro key hkey
  unfold fieldsOf at hkey
  split at hkey
  · exact hbase key hkey
  · rename_i hne
    have hrule := h.ruleField (h.format.resolve_left hne)
    rw [IDENTITY_PACKAGE_FIELDS, List.mem_append, List.mem_append, List.mem_singleton] at hkey
    rcases hkey with (hkey | rfl) | hkey
    · exact hbase key (List.mem_of_mem_take hkey)
    · rw [hrule]
      exact Option.some_ne_none _
    · exact hbase key (List.mem_of_mem_drop hkey)

/-- **The reader takes exactly the objects that are packages.** -/
theorem parsePackage_eq_ok {poseidon2 : List Fr → Fr} {text : String}
    {package : InclusionPackage} :
    parsePackage poseidon2 text = .ok package ↔
      ∃ source, JavaScript.parse text = some (.object source) ∧
        IsPackage poseidon2 source package := by
  have helements : ∀ {value : Option Value} {elements : List Value},
      value.bind Value.elements? = some elements ↔ value = some (.array elements) := by
    intro value elements
    rw [Option.bind_eq_some_iff]
    simp only [elements?_eq_some, exists_eq_right]
  simp only [parsePackage, bind_eq_ok, orMalformed_eq_ok, record?_eq_some, formatField_eq_ok,
    refuseExtra_eq_ok, refuseMissing_eq_ok, checkRule_eq_ok, helements, siblingFields_eq_ok,
    hexField_eq_ok, require_eq_ok, decimalField_eq_ok, uncaught_eq_ok, stringField_eq_ok,
    checked_eq_ok, parseU32_eq_ok]
  constructor
  · rintro ⟨_, hparse, source, rfl, format, ⟨hformat, hformatField⟩, _, hknown, _, -, _, hrule,
      values, hvalues, siblings, hsiblings, id, hid, _, hidNe, attestationId, hattestation, _,
      hpos, commitment, hcommitment, balance, hbalance, salt, hsalt, opened, hopened, _, rfl,
      network, hnetwork, registry, hregistry, asset, hasset, snapshotLedger, hsnapshot,
      contextHash, hcontext, leafIndex, hleafIndex, hout⟩
    cases hout
    have hsaltLt : salt < frModulus := by
      obtain ⟨_, -, -, hlt⟩ := hsalt
      exact hlt
    rw [balanceCommitment_of_lt hbalance.2 hsaltLt, Except.ok.injEq] at hopened
    refine ⟨source, hparse, ?_⟩
    exact {
      format := hformat
      formatField := hformatField
      known := hknown
      rule := rfl
      ruleField := hrule
      network := hnetwork
      registry := hregistry
      asset := hasset
      snapshotLedger := hsnapshot
      contextHash := hcontext
      attestationId := hattestation
      attestationPos := hpos
      leafIndex := hleafIndex
      id := hid
      idNonzero := hidNe
      commitment := hcommitment
      balance := hbalance
      salt := hsalt
      opens := hopened
      siblings := ⟨values, hvalues, hsiblings⟩ }
  · rintro ⟨source, hparse, h⟩
    obtain ⟨values, hvalues, hsiblings⟩ := h.siblings
    have hsaltLt : package.salt < frModulus := by
      obtain ⟨_, -, -, hlt⟩ := h.salt
      exact hlt
    have hopened := @balanceCommitment_of_lt poseidon2 _ _ h.balance.2 hsaltLt
    rw [h.opens] at hopened
    refine ⟨_, hparse, source, rfl, _, ⟨h.format, h.formatField⟩, (), h.known, (), h.complete, (),
      h.ruleField, values, hvalues, _, hsiblings, _, h.id, (), h.idNonzero, _, h.attestationId, (),
      h.attestationPos, _, h.commitment, _, h.balance, _, h.salt, _, hopened, (), rfl, _, h.network,
      _, h.registry, _, h.asset, _, h.snapshotLedger, _, h.contextHash, _, h.leafIndex, ?_⟩
    rw [← h.rule]
    rfl

/-- The depth fixes the count of siblings, and the index sits inside the tree. -/
theorem checkDepth_eq_ok {entry : InclusionPackage} {treeDepth : Nat} {u : Unit} :
    checkDepth entry treeDepth = .ok u ↔
      entry.siblings.length = treeDepth ∧ entry.leafIndex < 2 ^ treeDepth := by
  simp only [checkDepth, bind_eq_ok, require_eq_ok, exists_const]

end ZkPoR.Sdk
