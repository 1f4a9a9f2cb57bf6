import ZkPoR.FieldText
import ZkPoR.SerdeJson

/-! # The inclusion package of the Rust tools

The format of one customer file: its writer `to_json`, its reader `parse`, and the
two rules that need the tree depth.  `parse_eq_ok` says which JSON values the
reader takes, field by field (`IsPackage`), and later modules use nothing else of
it.
-/
namespace ZkPoR
open ByteString CheckedInt BoundedLoop

/-- How a tool stops without an answer: a failed assertion, or an error that it
returns. -/
inductive Halt (ε : Type)
  | panic (text : String)
  | error (reason : ε)
deriving DecidableEq

/-- A step that can fail an assertion, inside a function that returns errors. -/
def Halt.ofPanic {ε α : Type} (x : Except String α) : Except (Halt ε) α := x.mapError .panic

theorem Halt.ofPanic_eq_ok {ε α : Type} {x : Except String α} {a : α} :
    (Halt.ofPanic x : Except (Halt ε) α) = .ok a ↔ x = .ok a := by
  cases x <;> simp [Halt.ofPanic, Except.mapError]

namespace Schema
open SerdeJson Package Generator

def PACKAGE_FORMAT : String := "zkpor-inclusion/2"
def IDENTITY_PACKAGE_FORMAT : String := "zkpor-inclusion/3"
def IDENTIFIER_RULE : String := "zkpor-email-code/1"
def FIELDS_V2 : List String :=
  ["format", "network", "registry", "asset", "snapshot_ledger", "context_hash", "attestation_id",
    "leaf_index", "id", "commitment", "balance", "salt", "siblings"]
def FIELDS_V3 : List String :=
  ["format", "network", "registry", "asset", "snapshot_ledger", "context_hash", "attestation_id",
    "identifier_rule", "leaf_index", "id", "commitment", "balance", "salt", "siblings"]
/-- Characters of a contract address in StrKey form. -/
def STRKEY_CONTRACT_CHARS : Nat := 56
/-- First character of a contract address in StrKey form. -/
def STRKEY_CONTRACT_PREFIX : Char := 'C'

inductive IdentifierRule
  | legacy
  | emailCodeV1
deriving DecidableEq

/-- Why a reader refuses a file. -/
inductive PackageError
  | unsupportedFormat (found : String)
  | malformed (reason : String)
deriving DecidableEq

/-- The reason as text. -/
def PackageError.toString : PackageError → String
  | .unsupportedFormat found =>
    s!"this reader knows {PACKAGE_FORMAT} and {IDENTITY_PACKAGE_FORMAT}, and the file states {found}"
  | .malformed reason => reason

/-- The fields of one package. -/
structure Package where
  identifierRule : IdentifierRule
  network : String
  registry : String
  asset : String
  snapshotLedger : U32
  contextHash : Nat
  attestationId : U64
  leafIndex : U32
  id : Nat
  commitment : Nat
  balance : U64
  salt : Nat
  siblings : List Nat
deriving DecidableEq

/-- The format string of a package with one identifier rule. -/
def formatOf : IdentifierRule → String
  | .legacy => PACKAGE_FORMAT
  | .emailCodeV1 => IDENTITY_PACKAGE_FORMAT

/-- The keys of the schema with one identifier rule. -/
def fieldsOf : IdentifierRule → List String
  | .legacy => FIELDS_V2
  | .emailCodeV1 => FIELDS_V3

/-! ## The writer -/

section Writer
variable (serde : SerdeJson)

def jsonString (text : String) : String := serde.toString (.string text)

/-- One field on its own line. -/
def line (key value : String) : String := "  \"" ++ key ++ "\": " ++ value

/-- The bytes of one package file. -/
def toJson (package : Package) : Except String String := do
  let contextHash ← frHex package.contextHash
  let id ← frHex package.id
  let commitment ← frHex package.commitment
  let salt ← frHex package.salt
  let siblings ← package.siblings.mapM frHex
  let ruleLines :=
    if package.identifierRule = .emailCodeV1 then
      [line "identifier_rule" (jsonString serde IDENTIFIER_RULE)]
    else []
  let lines :=
    [line "format" (jsonString serde (formatOf package.identifierRule)),
      line "network" (jsonString serde package.network),
      line "registry" (jsonString serde package.registry),
      line "asset" (jsonString serde package.asset),
      line "snapshot_ledger" (decimalText package.snapshotLedger.toNat),
      line "context_hash" (jsonString serde contextHash),
      line "attestation_id" (jsonString serde (decimalText package.attestationId.toNat))] ++
    ruleLines ++
    [line "leaf_index" (decimalText package.leafIndex.toNat),
      line "id" (jsonString serde id),
      line "commitment" (jsonString serde commitment),
      line "balance" (jsonString serde (decimalText package.balance.toNat)),
      line "salt" (jsonString serde salt),
      line "siblings" ("[\n" ++
        String.intercalate ",\n" (siblings.map fun sibling => "    " ++ jsonString serde sibling) ++
        "\n  ]")]
  return "\x7b\n" ++ String.intercalate ",\n" lines ++ "\n\x7d\n"

end Writer

/-! ## The reader -/

def malformed {α : Type} (reason : String) : Except (Halt PackageError) α :=
  .error (.error (.malformed reason))

def require (p : Prop) [Decidable p] (reason : String) : Except (Halt PackageError) Unit :=
  if p then .ok () else malformed reason

def okOrMalformed {α : Type} (x : Option α) (reason : String) : Except (Halt PackageError) α :=
  match x with
  | some a => .ok a
  | none => malformed reason

/-- The identifier rule of the format that the file states. -/
def formatRule (json : Value) : Except (Halt PackageError) IdentifierRule :=
  match (json.get "format").bind Value.asStr with
  | none => malformed "the file states no format"
  | some found =>
    if found = PACKAGE_FORMAT then .ok .legacy
    else if found = IDENTITY_PACKAGE_FORMAT then .ok .emailCodeV1
    else .error (.error (.unsupportedFormat found))

/-- Refuses the first key that the format does not name. -/
def refuseExtra (object : List (String × Value)) (fields : List String) :
    Except (Halt PackageError) Unit :=
  match object.find? fun member => member.1 ∉ fields with
  | none => .ok ()
  | some (extra, _) =>
    malformed s!"the package holds the field {extra}, which the format does not name"

def textField (json : Value) (name : String) : Except (Halt PackageError) String :=
  okOrMalformed (json.index name).asStr s!"{name} is not a string"

def isBase32 (c : Char) : Bool := c.isUpper || ('2' ≤ c && c ≤ '7')

/-- A contract address in StrKey form. -/
def isContract (value : String) : Bool :=
  value.toList.head? = some STRKEY_CONTRACT_PREFIX && value.toList.length = STRKEY_CONTRACT_CHARS &&
    (value.toList.drop 1).all isBase32

def contractField (json : Value) (name : String) : Except (Halt PackageError) String := do
  let value ← textField json name
  require (isContract value) s!"{name} is not a contract address in StrKey form"
  return value

def u32Field (json : Value) (name : String) : Except (Halt PackageError) U32 := do
  let value ← okOrMalformed ((json.index name).asU64.filter fun value => value.toNat < 2 ^ 32)
    s!"{name} is not a whole number that a u32 holds"
  return value.setWidth 32

/-- The value of a field element text; the reason of a refusal names the field. -/
def frText (name text : String) : Except (Halt PackageError) Nat :=
  (parsePackageFr text).mapError fun reason => .error (.malformed s!"{name}: {reason}")

def frField (json : Value) (name : String) : Except (Halt PackageError) Nat := do
  let text ← textField json name
  frText name text

def siblingField (value : Value) (level : Nat) : Except (Halt PackageError) Nat := do
  let text ← okOrMalformed value.asStr s!"sibling {level} is not a string"
  frText s!"sibling {level}" text

/-- A decimal text, without a bound. -/
def decimalField (json : Value) (name what : String) : Except (Halt PackageError) String := do
  let text ← textField json name
  require (isDecimal text) s!"the {what} is not a decimal string"
  return text

/-- The rule field, which only version 3 has. -/
def checkRule (json : Value) (rule : IdentifierRule) : Except (Halt PackageError) Unit :=
  match rule with
  | .legacy => .ok ()
  | .emailCodeV1 => do
    let text ← textField json "identifier_rule"
    require (text = IDENTIFIER_RULE) "the identifier rule is not supported"

section Reader
variable (serde : SerdeJson) (poseidon2 : List Fr → Fr)

/-- Reads one package file. -/
def parse (text : String) : Except (Halt PackageError) Package := do
  let json ← (serde.fromStr text).mapError fun error =>
    .error (.malformed s!"the file is not JSON: {error}")
  let object ← okOrMalformed json.asObject "the file is not a JSON object"
  let identifierRule ← formatRule json
  refuseExtra object (fieldsOf identifierRule)
  checkRule json identifierRule
  let id ← frField json "id"
  require (id ≠ 0) "the identifier is zero, which is the padding identifier"
  let balanceText ← decimalField json "balance" "balance"
  let attestationText ← decimalField json "attestation_id" "attestation ID"
  let attestationId ← okOrMalformed (parseU64 attestationText)
    "the attestation ID is above the u64 maximum"
  require (attestationId ≠ 0) "the attestation ID must be positive"
  let siblings ← okOrMalformed (json.index "siblings").asArray "siblings is not an array"
  let commitment ← frField json "commitment"
  let balance ← okOrMalformed (parseU64 balanceText) "the balance is above the u64 maximum"
  let salt ← frField json "salt"
  let saltElement ← Halt.ofPanic (Generator.toFr salt)
  require (toBig (balanceCommitment poseidon2 balance saltElement) = commitment)
    "the commitment does not match the balance and salt"
  let network ← textField json "network"
  let registry ← contractField json "registry"
  let asset ← contractField json "asset"
  let snapshotLedger ← u32Field json "snapshot_ledger"
  let contextHash ← frField json "context_hash"
  let leafIndex ← u32Field json "leaf_index"
  let siblings ← siblings.zipIdx.mapM fun (value, level) => siblingField value level
  return { identifierRule, network, registry, asset, snapshotLedger, contextHash, attestationId,
           leafIndex, id, commitment, balance, salt, siblings }

end Reader

/-- The two rules that need the tree depth of the deployment generation. -/
def Package.checkDepth (package : Package) (treeDepth : Nat) : Except PackageError Unit :=
  if package.siblings.length ≠ treeDepth then
    .error (.malformed (s!"the package holds {package.siblings.length} siblings, " ++
      s!"and this generation builds trees of depth {treeDepth}"))
  else if treeDepth < 32 ∧ (1 : U32) <<< treeDepth ≤ package.leafIndex then
    .error (.malformed (s!"the leaf index {package.leafIndex.toNat} is at or above the capacity " ++
      s!"of a tree of depth {treeDepth}"))
  else
    .ok ()

/-! ## What the reader takes -/

theorem asStr_eq_some {value : Value} {s : String} : value.asStr = some s ↔ value = .string s := by
  cases value <;> simp [Value.asStr]

theorem asArray_eq_some {value : Value} {elements : List Value} :
    value.asArray = some elements ↔ value = .array elements := by
  cases value <;> simp [Value.asArray]

theorem asObject_eq_some {value : Value} {members : List (String × Value)} :
    value.asObject = some members ↔ value = .object members := by
  cases value <;> simp [Value.asObject]

theorem asU64_eq_some {value : Value} {n : U64} :
    value.asU64 = some n ↔ value = .number (.posInt n) := by
  rcases value with _ | _ | (_ | _ | _) | _ | _ | _ <;> simp [Value.asU64]

theorem require_eq_ok {p : Prop} [Decidable p] {reason : String} {u : Unit} :
    require p reason = .ok u ↔ p := by
  unfold require
  split <;> simp_all [malformed]

theorem okOrMalformed_eq_ok {α : Type} {x : Option α} {reason : String} {a : α} :
    okOrMalformed x reason = .ok a ↔ x = some a := by
  cases x <;> simp [okOrMalformed, malformed]

theorem mapError_eq_ok {ε ε' α : Type} {x : Except ε α} {f : ε → ε'} {a : α} :
    x.mapError f = .ok a ↔ x = .ok a := by
  cases x <;> simp [Except.mapError]

theorem formatOf_injective : Function.Injective formatOf := by
  intro a b h
  cases a <;> cases b <;> first | rfl | exact absurd h (by decide)

theorem formatRule_eq_ok {json : Value} {rule : IdentifierRule} :
    formatRule json = .ok rule ↔ json.get "format" = some (.string (formatOf rule)) := by
  unfold formatRule
  constructor
  · intro h
    split at h
    · cases h
    rename_i found hfound
    obtain ⟨value, hvalue, hstr⟩ := Option.bind_eq_some_iff.mp hfound
    rw [hvalue, asStr_eq_some.mp hstr]
    split at h
    · rename_i h2
      cases h
      rw [h2, formatOf]
    split at h
    · rename_i h3
      cases h
      rw [h3, formatOf]
    · cases h
  · intro h
    rw [h]
    cases rule <;> rfl

theorem refuseExtra_eq_ok {object : List (String × Value)} {fields : List String} {u : Unit} :
    refuseExtra object fields = .ok u ↔ ∀ member ∈ object, member.1 ∈ fields := by
  have hfind : (object.find? fun member => member.1 ∉ fields) = none ↔
      ∀ member ∈ object, member.1 ∈ fields := by
    simp
  rw [← hfind]
  unfold refuseExtra
  split
  · rename_i hnone
    simp only [hnone]
  · rename_i hsome
    simp only [hsome, malformed, reduceCtorEq]

theorem textField_eq_ok {json : Value} {name text : String} :
    textField json name = .ok text ↔ json.index name = .string text := by
  rw [textField, okOrMalformed_eq_ok, asStr_eq_some]

theorem contractField_eq_ok {json : Value} {name value : String} :
    contractField json name = .ok value ↔
      json.index name = .string value ∧ isContract value = true := by
  simp only [contractField, bind_eq_ok, textField_eq_ok, require_eq_ok]
  constructor
  · rintro ⟨_, hvalue, _, hcontract, hout⟩
    cases hout
    exact ⟨hvalue, hcontract⟩
  · rintro ⟨hvalue, hcontract⟩
    exact ⟨value, hvalue, (), hcontract, rfl⟩

theorem u32Field_eq_ok {json : Value} {name : String} {value : U32} :
    u32Field json name = .ok value ↔
      json.index name = .number (.posInt (value.setWidth 64)) := by
  have hwide : (value.setWidth 64).toNat = value.toNat := by
    rw [BitVec.toNat_setWidth, Nat.mod_eq_of_lt (by omega)]
  simp only [u32Field, bind_eq_ok, okOrMalformed_eq_ok, Option.filter_eq_some_iff, asU64_eq_some,
    decide_eq_true_eq]
  constructor
  · rintro ⟨n, ⟨hn, hlt⟩, hout⟩
    cases hout
    rw [hn]
    congr 2
    refine BitVec.eq_of_toNat_eq ?_
    rw [hwide, BitVec.toNat_setWidth, Nat.mod_eq_of_lt hlt]
  · intro h
    refine ⟨_, ⟨h, by rw [hwide]; exact value.isLt⟩, ?_⟩
    exact congrArg Except.ok (BitVec.eq_of_toNat_eq (by
      rw [BitVec.toNat_setWidth, hwide, Nat.mod_eq_of_lt value.isLt]))

theorem frText_eq_ok {name text : String} {v : Nat} :
    frText name text = .ok v ↔ v < frModulus ∧ text = hexText (BitVec.ofNat 256 v) := by
  rw [frText, mapError_eq_ok, parsePackageFr_eq_ok]

/-- The member is a string, and it is the text of `v`. -/
def IsFr (value : Value) (v : Nat) : Prop :=
  value = .string (hexText (BitVec.ofNat 256 v)) ∧ v < frModulus

theorem frField_eq_ok {json : Value} {name : String} {v : Nat} :
    frField json name = .ok v ↔ IsFr (json.index name) v := by
  simp only [frField, bind_eq_ok, textField_eq_ok, frText_eq_ok]
  constructor
  · rintro ⟨_, htext, hlt, rfl⟩
    exact ⟨htext, hlt⟩
  · rintro ⟨htext, hlt⟩
    exact ⟨_, htext, hlt, rfl⟩

theorem siblingField_eq_ok {value : Value} {level v : Nat} :
    siblingField value level = .ok v ↔ IsFr value v := by
  simp only [siblingField, bind_eq_ok, okOrMalformed_eq_ok, asStr_eq_some, frText_eq_ok]
  constructor
  · rintro ⟨_, htext, hlt, rfl⟩
    exact ⟨htext, hlt⟩
  · rintro ⟨htext, hlt⟩
    exact ⟨_, htext, hlt, rfl⟩

theorem decimalField_eq_ok {json : Value} {name what text : String} :
    decimalField json name what = .ok text ↔
      json.index name = .string text ∧ isDecimal text = true := by
  simp only [decimalField, bind_eq_ok, textField_eq_ok, require_eq_ok]
  constructor
  · rintro ⟨_, htext, _, hdecimal, hout⟩
    cases hout
    exact ⟨htext, hdecimal⟩
  · rintro ⟨htext, hdecimal⟩
    exact ⟨text, htext, (), hdecimal, rfl⟩

theorem checkRule_eq_ok {json : Value} {rule : IdentifierRule} {u : Unit} :
    checkRule json rule = .ok u ↔
      (rule = .emailCodeV1 → json.index "identifier_rule" = .string IDENTIFIER_RULE) := by
  cases rule with
  | legacy => simp [checkRule]
  | emailCodeV1 =>
    simp only [checkRule, bind_eq_ok, textField_eq_ok, require_eq_ok, forall_const]
    exact ⟨fun ⟨_, h, heq⟩ => heq ▸ h, fun h => ⟨_, h, rfl⟩⟩

/-- The levels of the path do not matter to what the reader takes. -/
theorem siblingFields_eq_ok {values : List Value} {start : Nat} {siblings : List Nat} :
    ((values.zipIdx start).mapM fun (value, level) => siblingField value level) = .ok siblings ↔
      List.Forall₂ IsFr values siblings := by
  induction values generalizing start siblings with
  | nil => cases siblings <;> simp [pure, Except.pure]
  | cons value values ih =>
    rw [List.zipIdx_cons, mapM_cons_eq_ok]
    constructor
    · rintro ⟨v, vs, hv, hvs, rfl⟩
      exact .cons (siblingField_eq_ok.mp hv) (ih.mp hvs)
    · rintro (_ | ⟨hv, hvs⟩)
      exact ⟨_, _, siblingField_eq_ok.mpr hv, ih.mpr hvs, rfl⟩

/-- The JSON value is the package: the format that fixes its keys, and the one text
of every field. -/
structure IsPackage (poseidon2 : List Fr → Fr) (json : Value) (package : Package) : Prop where
  format : json.get "format" = some (.string (formatOf package.identifierRule))
  known : ∀ members, json = .object members →
    ∀ member ∈ members, member.1 ∈ fieldsOf package.identifierRule
  rule : package.identifierRule = .emailCodeV1 →
    json.index "identifier_rule" = .string IDENTIFIER_RULE
  network : json.index "network" = .string package.network
  registry : json.index "registry" = .string package.registry
  registryContract : isContract package.registry = true
  asset : json.index "asset" = .string package.asset
  assetContract : isContract package.asset = true
  snapshotLedger :
    json.index "snapshot_ledger" = .number (.posInt (package.snapshotLedger.setWidth 64))
  contextHash : IsFr (json.index "context_hash") package.contextHash
  attestationId : json.index "attestation_id" = .string (decimalText package.attestationId.toNat)
  attestationPos : package.attestationId ≠ 0
  leafIndex : json.index "leaf_index" = .number (.posInt (package.leafIndex.setWidth 64))
  id : IsFr (json.index "id") package.id
  idNonzero : package.id ≠ 0
  commitment : IsFr (json.index "commitment") package.commitment
  balance : json.index "balance" = .string (decimalText package.balance.toNat)
  salt : IsFr (json.index "salt") package.salt
  opens : toBig (balanceCommitment poseidon2 package.balance (BitVec.ofNat 256 package.salt)) =
    package.commitment
  siblings : ∃ values, json.index "siblings" = .array values ∧
    List.Forall₂ IsFr values package.siblings

theorem toFr_eq_ok {v : Nat} (h : v < frModulus) :
    Generator.toFr v = .ok (BitVec.ofNat 256 v) := by
  have hlt : v < 2 ^ 256 := h.trans frModulus_lt
  simp only [Generator.toFr, be32, if_pos hlt, bind, Except.bind, toNat_ofNat_of_lt h, if_pos h]

theorem exists_decimal {json : Value} {name : String} (what : String) {n : U64} :
    (∃ text, decimalField json name what = .ok text ∧ parseU64 text = some n) ↔
      json.index name = .string (decimalText n.toNat) := by
  simp only [decimalField_eq_ok, and_assoc, decimal_iff]
  exact ⟨fun ⟨_, h, rfl⟩ => h, fun h => ⟨_, h, rfl⟩⟩

/-- **The reader takes exactly the values that are packages.** -/
theorem parse_eq_ok {serde : SerdeJson} {poseidon2 : List Fr → Fr} {text : String}
    {package : Package} :
    parse serde poseidon2 text = .ok package ↔
      ∃ json, serde.fromStr text = .ok json ∧ IsPackage poseidon2 json package := by
  simp only [parse, bind_eq_ok, mapError_eq_ok, okOrMalformed_eq_ok, asObject_eq_some,
    asArray_eq_some, formatRule_eq_ok, refuseExtra_eq_ok, checkRule_eq_ok, frField_eq_ok,
    require_eq_ok, textField_eq_ok, contractField_eq_ok, u32Field_eq_ok, siblingFields_eq_ok,
    Halt.ofPanic_eq_ok]
  constructor
  · rintro ⟨json, hjson, object, rfl, rule, hformat, _, hknown, _, hrule, id, hid, _, hidNe,
      balanceText, hbalanceText, attestationText, hattestationText, attestationId, hattestation, _,
      hpos, values, hvalues, commitment, hcommitment, balance, hbalance, salt, hsalt, element,
      helement, _, hopens, network, hnetwork, registry, hregistry, asset, hasset, snapshot,
      hsnapshot, context, hcontext, leafIndex, hleafIndex, siblings, hsiblings, hout⟩
    rw [toFr_eq_ok hsalt.2] at helement
    cases helement
    cases hout
    refine ⟨_, hjson, ?_⟩
    exact {
      format := hformat
      known := fun members hmembers => by
        cases hmembers
        exact hknown
      rule := hrule
      network := hnetwork
      registry := hregistry.1
      registryContract := hregistry.2
      asset := hasset.1
      assetContract := hasset.2
      snapshotLedger := hsnapshot
      contextHash := hcontext
      attestationId := (exists_decimal _).mp ⟨_, hattestationText, hattestation⟩
      attestationPos := hpos
      leafIndex := hleafIndex
      id := hid
      idNonzero := hidNe
      commitment := hcommitment
      balance := (exists_decimal _).mp ⟨_, hbalanceText, hbalance⟩
      salt := hsalt
      opens := hopens
      siblings := ⟨values, hvalues, hsiblings⟩ }
  · rintro ⟨json, hjson, h⟩
    obtain ⟨members, rfl⟩ : ∃ members, json = .object members := by
      have hformat := h.format
      cases json
      case object members => exact ⟨members, rfl⟩
      all_goals cases hformat
    obtain ⟨values, hvalues, hsiblings⟩ := h.siblings
    obtain ⟨balanceText, hbalanceText, hbalance⟩ :=
      (exists_decimal "balance").mpr h.balance
    obtain ⟨attestationText, hattestationText, hattestation⟩ :=
      (exists_decimal "attestation ID").mpr h.attestationId
    exact ⟨_, hjson, members, rfl, _, h.format, (), h.known _ rfl, (), h.rule, _, h.id, (),
      h.idNonzero, _, hbalanceText, _, hattestationText, _, hattestation, (), h.attestationPos, _,
      hvalues, _, h.commitment, _, hbalance, _, h.salt, _, toFr_eq_ok h.salt.2, (), h.opens, _,
      h.network, _, ⟨h.registry, h.registryContract⟩, _, ⟨h.asset, h.assetContract⟩, _,
      h.snapshotLedger, _, h.contextHash, _, h.leafIndex, _, hsiblings, rfl⟩

/-- The depth fixes the count of siblings, and the index sits inside the tree. -/
theorem checkDepth_eq_ok {package : Package} {d : Nat} {u : Unit} :
    package.checkDepth d = .ok u ↔
      package.siblings.length = d ∧ package.leafIndex.toNat < 2 ^ d := by
  have hlt := package.leafIndex.isLt
  have hshift : d < 32 → ((1 : U32) <<< d ≤ package.leafIndex ↔ 2 ^ d ≤ package.leafIndex.toNat) :=
    fun hd => by
      have hpow : 2 ^ d < 2 ^ 32 := Nat.pow_lt_pow_right (by norm_num) hd
      rw [BitVec.le_def, BitVec.toNat_shiftLeft, Nat.shiftLeft_eq]
      change 1 * 2 ^ d % 2 ^ 32 ≤ _ ↔ _
      rw [Nat.one_mul, Nat.mod_eq_of_lt hpow]
  unfold Package.checkDepth
  split
  · rename_i h
    simp [h]
  rename_i hlength
  split
  · rename_i h
    have := (hshift h.1).mp h.2
    simp only [reduceCtorEq, false_iff]
    rintro ⟨-, hindex⟩
    omega
  · rename_i h
    simp only [true_iff]
    refine ⟨not_not.mp hlength, ?_⟩
    by_cases hd : d < 32
    · have := (hshift hd).not.mp fun hle => h ⟨hd, hle⟩
      omega
    · exact hlt.trans_le (Nat.pow_le_pow_right (by norm_num) (by omega))

end Schema
end ZkPoR
