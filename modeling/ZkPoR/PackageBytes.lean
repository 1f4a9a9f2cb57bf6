import ZkPoR.CustomerCheck
import ZkPoR.Stringify

/-! # The bytes of a package file

The Rust writer puts the lines of a package together by hand, and the SDK calls
`JSON.stringify` on an object.  Both lists of lines are the same, member by member
(`memberLines_properties`), so both files are.
-/
namespace ZkPoR
open JsonText BoundedLoop

namespace SerdeJson

/-- The writer of `serde_json` uses the short escapes, and the code unit of any other
control character. -/
def Escapes (serde : SerdeJson) : Prop :=
  ∀ text, serde.toString (.string text) = String.ofList (quote text)

end SerdeJson

/-! ## The writer of the SDK -/

namespace Sdk
open JavaScript Binary64

def JSON_INDENT : Nat := 2

/-- The properties of a package, in the order of the schema. -/
def ordered (entry : InclusionPackage) : Except String (List (Text × Value)) := do
  let contextHash ← toHex entry.contextHash
  let id ← toHex entry.id
  let commitment ← toHex entry.commitment
  let salt ← toHex entry.salt
  let siblings ← entry.siblings.mapM fun sibling : Nat => toHex sibling
  let string (text : String) : Value := .string (Text.ofString text)
  let identifierRule : List (String × Value) :=
    if entry.format = IDENTITY_PACKAGE_FORMAT then [("identifier_rule", string IDENTIFIER_RULE)]
    else []
  return ([("format", string entry.format), ("network", .string entry.network),
      ("registry", .string entry.registry), ("asset", .string entry.asset),
      ("snapshot_ledger", .number (ofNat entry.snapshotLedger)),
      ("context_hash", string contextHash),
      ("attestation_id", string (decimalText entry.attestationId))] ++ identifierRule ++
    [("leaf_index", .number (ofNat entry.leafIndex)), ("id", string id),
      ("commitment", string commitment), ("balance", string (decimalText entry.balance)),
      ("salt", string salt), ("siblings", .array (siblings.map string))]).map
    fun property => (Text.ofString property.1, property.2)

/-- Writes one package in the deterministic layout of the schema. -/
def serializePackage (otherNumber : Double → String) (entry : InclusionPackage) :
    Except PackageError String :=
  if entry.format ≠ PACKAGE_FORMAT ∧ entry.format ≠ IDENTITY_PACKAGE_FORMAT then
    .error (.unsupportedFormat (Text.ofString entry.format))
  else if entry.format = PACKAGE_FORMAT ∧ entry.identifierRule ≠ none ∨
      entry.format = IDENTITY_PACKAGE_FORMAT ∧ entry.identifierRule ≠ some IDENTIFIER_RULE then
    malformed "the identifier rule does not match the package format"
  else do
    let properties ← uncaught (ordered entry)
    return String.ofList (stringifyAt otherNumber JSON_INDENT 0 (.object properties) ++ ['\n'])

end Sdk

/-! ## Line by line -/

section
variable {serde : SerdeJson} {package : Schema.Package} {otherNumber : Binary64.Double → String}
open Schema JavaScript Binary64
open Sdk (JSON_INDENT)

/-- What the object of the SDK holds in place of a text of the Rust writer. -/
def stringProperty (key text : String) : String × JavaScript.Value :=
  (key, .string (Text.ofString text))

def numberProperty (key : String) (n : Nat) : String × JavaScript.Value :=
  (key, .number (ofNat n))

def siblingsProperty (siblings : List Nat) : String × JavaScript.Value :=
  ("siblings", .array ((siblings.map frHexText).map fun text => .string (Text.ofString text)))

/-- The object of the SDK, under the names of the Rust writer. -/
def properties (package : Schema.Package) : List (String × JavaScript.Value) :=
  [stringProperty "format" (formatOf package.identifierRule),
      stringProperty "network" package.network, stringProperty "registry" package.registry,
      stringProperty "asset" package.asset,
      numberProperty "snapshot_ledger" package.snapshotLedger.toNat,
      stringProperty "context_hash" (frHexText package.contextHash),
      stringProperty "attestation_id" (decimalText package.attestationId.toNat)] ++
    (if package.identifierRule = .emailCodeV1 then
      [stringProperty "identifier_rule" IDENTIFIER_RULE] else []) ++
    [numberProperty "leaf_index" package.leafIndex.toNat,
      stringProperty "id" (frHexText package.id),
      stringProperty "commitment" (frHexText package.commitment),
      stringProperty "balance" (decimalText package.balance.toNat),
      stringProperty "salt" (frHexText package.salt), siblingsProperty package.siblings]

/-- The object that the SDK puts together has these properties. -/
theorem ordered_sdkPackage (h : Canonical package) :
    Sdk.ordered (sdkPackage package) = .ok ((properties package).map fun property =>
      (Text.ofString property.1, property.2)) := by
  have hsiblings : package.siblings.mapM (fun sibling : Nat => Sdk.toHex sibling) =
      .ok (package.siblings.map frHexText) :=
    mapM_eq_ok fun v hv => Sdk.toHex_of_lt (h.siblings v hv)
  have hhex : ∀ v : Nat, v < frModulus → Sdk.toHex v = .ok (frHexText v) := fun _ hv =>
    Sdk.toHex_of_lt hv
  have hrule : formatOf package.identifierRule = Sdk.IDENTITY_PACKAGE_FORMAT ↔
      package.identifierRule = .emailCodeV1 := by
    cases package.identifierRule <;> decide
  unfold Sdk.ordered sdkPackage
  dsimp only
  rw [hhex _ h.contextHash, hhex _ h.id, hhex _ h.commitment, hhex _ h.salt, hsiblings]
  simp only [hrule, properties, stringProperty, numberProperty, siblingsProperty,
    Sdk.IDENTIFIER_RULE, IDENTIFIER_RULE, bind, Except.bind, pure, Except.pure]

/-- The property is written as the member. -/
structure Writes (otherNumber : Double → String) (property : String × JavaScript.Value)
    (member : String × String × Json) : Prop where
  key : property.1 = member.1
  value : stringifyAt otherNumber JSON_INDENT 1 property.2 = member.2.1.toList

theorem toList_jsonString (hserde : serde.Escapes) (text : String) :
    (jsonString serde text).toList = (Text.ofString text).quote := by
  rw [jsonString, hserde, String.toList_ofList, Text.quote_ofString]

theorem writes_string (hserde : serde.Escapes) (key text : String) :
    Writes otherNumber (stringProperty key text) (stringMember serde key text) where
  key := rfl
  value := (toList_jsonString hserde text).symm

theorem writes_number (key : String) {n : Nat} (h : n < 2 ^ 32) :
    Writes otherNumber (numberProperty key n) (numberMember key n) where
  key := rfl
  value := by
    rw [numberProperty, stringifyAt, numberText_ofNat (by omega)]
    rfl

/-- An array with an element has a line for each. -/
theorem writes_siblings (hserde : serde.Escapes) {siblings : List Nat} (h : siblings ≠ []) :
    Writes otherNumber (siblingsProperty siblings) (siblingsMember serde siblings) where
  key := rfl
  value := by
    have hlines : elementLines otherNumber JSON_INDENT 2
        ((siblings.map frHexText).map fun text => .string (Text.ofString text)) =
        siblings.map fun sibling => ([' ', ' ', ' ', ' '] ++
          (jsonString serde (frHexText sibling)).toList) := by
      rw [elementLines_eq_map, List.map_map, List.map_map]
      refine List.map_congr_left fun sibling _ => ?_
      rw [toList_jsonString hserde]
      rfl
    have hsome : (siblings.map fun sibling => ([' ', ' ', ' ', ' '] ++
        (jsonString serde (frHexText sibling)).toList)) ≠ [] := fun hnil =>
      h (List.map_eq_nil_iff.mp hnil)
    rw [siblingsProperty, stringifyAt, hlines, bracketed, if_neg hsome]
    simp [siblingsMember, indentation, JSON_INDENT, String.toList_append,
      String.toList_intercalate, List.map_map, Function.comp_def]

/-- Every property is written as the member of the Rust writer. -/
theorem writes_properties (hserde : serde.Escapes) (h : package.siblings ≠ []) :
    List.Forall₂ (Writes otherNumber) (properties package) (written serde package) := by
  have hledger : package.snapshotLedger.toNat < 2 ^ 32 := package.snapshotLedger.isLt
  have hleaf : package.leafIndex.toNat < 2 ^ 32 := package.leafIndex.isLt
  have hrule : List.Forall₂ (Writes otherNumber)
      (if package.identifierRule = .emailCodeV1 then
        [stringProperty "identifier_rule" IDENTIFIER_RULE] else [])
      (if package.identifierRule = .emailCodeV1 then
        [stringMember serde "identifier_rule" IDENTIFIER_RULE] else []) := by
    split
    · exact .cons (writes_string hserde _ _) .nil
    · exact .nil
  refine List.rel_append (List.rel_append ?_ hrule) ?_
  · exact .cons (writes_string hserde _ _) (.cons (writes_string hserde _ _)
      (.cons (writes_string hserde _ _) (.cons (writes_string hserde _ _)
        (.cons (writes_number _ hledger) (.cons (writes_string hserde _ _)
          (.cons (writes_string hserde _ _) .nil))))))
  · exact .cons (writes_number _ hleaf) (.cons (writes_string hserde _ _)
      (.cons (writes_string hserde _ _) (.cons (writes_string hserde _ _)
        (.cons (writes_string hserde _ _) (.cons (writes_siblings hserde h) .nil)))))

/-- The line of a member. -/
theorem toList_line {property : String × JavaScript.Value} {member : String × String × Json}
    (hkey : plainKey member.1 = true) (h : Writes otherNumber property member) :
    indentation JSON_INDENT 1 ++ (Text.ofString property.1).quote ++
      ':' :: ' ' :: stringifyAt otherNumber JSON_INDENT 1 property.2 =
        (line member.1 member.2.1).toList := by
  rw [h.key, h.value, Text.quote_ofString, quote_plainKey hkey]
  simp [line, indentation, JSON_INDENT, String.toList_append]

/-- Both writers have the same lines. -/
theorem memberLines_properties (hserde : serde.Escapes) (h : package.siblings ≠ []) :
    memberLines otherNumber JSON_INDENT 1 ((properties package).map fun property =>
        (Text.ofString property.1, property.2)) =
      (written serde package).map fun member => (line member.1 member.2.1).toList := by
  have hkey : ∀ member ∈ written serde package, plainKey member.1 = true := by
    intro member hmember
    refine plainKey_of_mem_fieldsOf package.identifierRule _ ?_
    rw [← keys_written serde]
    exact List.mem_map_of_mem hmember
  have hwrites := @writes_properties serde package otherNumber hserde h
  rw [memberLines_eq_map, List.map_map]
  generalize properties package = ps at hwrites
  generalize written serde package = members at hkey hwrites
  induction hwrites with
  | nil => rfl
  | cons hwrites _ ih =>
    rw [List.forall_mem_cons] at hkey
    rw [List.map_cons, List.map_cons, ih hkey.2, ← toList_line hkey.1 hwrites]
    rfl

/-- **A package with a sibling has the same bytes from both writers.** -/
theorem package_bytes_eq (hserde : serde.Escapes) (otherNumber : Double → String)
    (package : Schema.Package) (h : Canonical package) (hsiblings : package.siblings ≠ []) :
    ∃ text, Schema.toJson serde package = .ok text ∧
      Sdk.serializePackage otherNumber (sdkPackage package) = .ok text := by
  have hformat : ¬ ((sdkPackage package).format ≠ Sdk.PACKAGE_FORMAT ∧
      (sdkPackage package).format ≠ Sdk.IDENTITY_PACKAGE_FORMAT) := by
    rw [sdkPackage]
    dsimp only
    cases package.identifierRule <;> decide
  have hrule : ¬ ((sdkPackage package).format = Sdk.PACKAGE_FORMAT ∧
        (sdkPackage package).identifierRule ≠ none ∨
      (sdkPackage package).format = Sdk.IDENTITY_PACKAGE_FORMAT ∧
        (sdkPackage package).identifierRule ≠ some Sdk.IDENTIFIER_RULE) := by
    rw [sdkPackage]
    dsimp only
    cases package.identifierRule <;> decide
  have hlines : (written serde package).map (fun member =>
      (line member.1 member.2.1).toList) ≠ [] := fun hnil => by
    have hnone := List.map_eq_nil_iff.mp hnil
    simp [written] at hnone
  refine ⟨_, toJson_of_canonical h, ?_⟩
  rw [Sdk.serializePackage, if_neg hformat, if_neg hrule, ordered_sdkPackage h]
  refine congrArg Except.ok (String.toList_injective ?_)
  rw [stringifyAt, memberLines_properties hserde hsiblings, bracketed, if_neg hlines]
  simp [indentation, String.toList_append, String.toList_intercalate, List.map_map,
    Function.comp_def]

/-- A package of the second format, with one sibling. -/
theorem package_bytes_eq_sample :
    ∃ text, Schema.toJson SerdeJson.reference samplePackage = .ok text ∧
      Sdk.serializePackage (fun _ => "") (sdkPackage samplePackage) = .ok text :=
  package_bytes_eq (fun _ => rfl) (fun _ => "") samplePackage sample_valid.canonical
    (List.cons_ne_nil _ _)

end
end ZkPoR
