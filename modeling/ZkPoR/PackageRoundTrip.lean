import ZkPoR.CustomerCheck
import ZkPoR.JsonAgreement

/-! # The round trip of the package format

The writer and the reader are inverse to each other: a valid package comes back from
its text, and a text that the reader takes holds a valid package and no key outside
the schema of its format.  The format string is the version gate of both readers, so
an unknown one is reported whatever else the object holds.
-/
namespace ZkPoR
open JsonText SerdeJson

namespace Schema
variable {serde : SerdeJson} {poseidon2 : List Fr → Fr} {text : String}

/-- The text is an object, and its keys are those of the schema. -/
def KnownKeys (rule : IdentifierRule) (text : String) : Prop :=
  ∃ members, JsonText.parse text = some (.object members) ∧
    ∀ member ∈ members, member.1 ∈ (fieldsOf rule).map Text.ofString

theorem knownKeys_of_parse (hserde : Documented serde) {package : Package}
    (h : parse serde poseidon2 text = .ok package) : KnownKeys package.identifierRule text := by
  obtain ⟨json, hjson, hpackage⟩ := parse_eq_ok.mp h
  obtain ⟨x, hx, hxjson⟩ := hserde.sound hjson
  obtain ⟨out, rfl⟩ : ∃ out, json = .object out := by
    have hformat := hpackage.format
    cases json
    case object out => exact ⟨out, rfl⟩
    all_goals cases hformat
  obtain ⟨members, rfl, hmembers⟩ := ofJson_eq_object.mp hxjson
  refine ⟨members, hx, fun member hmember => ?_⟩
  obtain ⟨entry, hentry, hkey⟩ := exists_mem_ofMembers hmembers hmember
  rw [hkey]
  exact List.mem_map_of_mem (hpackage.known out rfl entry hentry)

theorem valid_of_parse {package : Package} (h : parse serde poseidon2 text = .ok package) :
    Valid poseidon2 package := by
  obtain ⟨_, -, hpackage⟩ := parse_eq_ok.mp h
  exact hpackage.valid

/-- A valid package comes back from its text. -/
theorem exists_roundTrip (hserde : Documented serde) {package : Package}
    (h : Valid poseidon2 package) :
    ∃ written, toJson serde package = .ok written ∧
      parse serde poseidon2 written = .ok package ∧
      Sdk.parsePackage poseidon2 written = .ok (sdkPackage package) :=
  ⟨_, toJson_eq h, parse_of_toJson hserde h (toJson_eq h), parsePackage_of_toJson hserde h (toJson_eq h)⟩

/-- **The version gate of the Rust reader.** -/
theorem parse_unsupportedFormat {members : List (String × Value)} {found : String}
    (hjson : serde.fromStr text = .ok (.object members))
    (hformat : (Value.object members).get "format" = some (.string found))
    (hlegacy : found ≠ PACKAGE_FORMAT) (hidentity : found ≠ IDENTITY_PACKAGE_FORMAT) :
    parse serde poseidon2 text = .error (.error (.unsupportedFormat found)) := by
  have hrule : formatRule (.object members) = .error (.error (.unsupportedFormat found)) := by
    rw [formatRule, hformat]
    exact (if_neg hlegacy).trans (if_neg hidentity)
  simp only [parse, hjson, Except.mapError, Value.asObject, okOrMalformed, hrule, bind, Except.bind]

end Schema

namespace Sdk

/-- **The version gate of the SDK.** -/
theorem parsePackage_unsupportedFormat {poseidon2 : List Fr → Fr} {text : String}
    {source : List (Text × JavaScript.Value)} {found : Text}
    (hparse : JavaScript.parse text = some (.object source))
    (hformat : JavaScript.property source "format" = some (.string found))
    (hlegacy : found ≠ Text.ofString PACKAGE_FORMAT)
    (hidentity : found ≠ Text.ofString IDENTITY_PACKAGE_FORMAT) :
    parsePackage poseidon2 text = .error (.unsupportedFormat found) := by
  have hfield : formatField source = .error (.unsupportedFormat found) := by
    simp only [formatField, hformat, orMalformed, string?, bind, Except.bind]
    exact (if_neg hlegacy).trans (if_neg hidentity)
  simp only [parsePackage, hparse, orMalformed, record?, hfield, bind, Except.bind]

end Sdk

/-- **The round trip of the package format.**  Both readers take a valid package from
the text of the writer; the Rust reader takes valid packages only, from texts without a
key outside the schema, and reads each again from its own text; and both readers report
an unknown format string, whatever other fields the object holds. -/
theorem package_roundTrip {serde : SerdeJson} (hserde : Documented serde)
    (poseidon2 : List Fr → Fr) :
    (∀ package, Schema.Valid poseidon2 package → ∃ written,
      Schema.toJson serde package = .ok written ∧
      Schema.parse serde poseidon2 written = .ok package ∧
      Sdk.parsePackage poseidon2 written = .ok (Schema.sdkPackage package)) ∧
    (∀ text package, Schema.parse serde poseidon2 text = .ok package →
      Schema.Valid poseidon2 package ∧ Schema.KnownKeys package.identifierRule text ∧
      ∃ written, Schema.toJson serde package = .ok written ∧
        Schema.parse serde poseidon2 written = .ok package) ∧
    (∀ text members found, serde.fromStr text = .ok (.object members) →
      (Value.object members).get "format" = some (.string found) →
      found ≠ Schema.PACKAGE_FORMAT → found ≠ Schema.IDENTITY_PACKAGE_FORMAT →
      Schema.parse serde poseidon2 text = .error (.error (.unsupportedFormat found))) ∧
    ∀ text source found, JavaScript.parse text = some (.object source) →
      JavaScript.property source "format" = some (.string found) →
      found ≠ Text.ofString Sdk.PACKAGE_FORMAT →
      found ≠ Text.ofString Sdk.IDENTITY_PACKAGE_FORMAT →
      Sdk.parsePackage poseidon2 text = .error (.unsupportedFormat found) := by
  refine ⟨fun package h => Schema.exists_roundTrip hserde h, ?_, ?_, ?_⟩
  · intro text package h
    have hvalid := Schema.valid_of_parse h
    obtain ⟨written, hwritten, hparse, -⟩ := Schema.exists_roundTrip hserde hvalid
    exact ⟨hvalid, Schema.knownKeys_of_parse hserde h, written, hwritten, hparse⟩
  · intro text members found hjson hformat hlegacy hidentity
    exact Schema.parse_unsupportedFormat hjson hformat hlegacy hidentity
  · intro text source found hparse hformat hlegacy hidentity
    exact Sdk.parsePackage_unsupportedFormat hparse hformat hlegacy hidentity

/-- The sample package has a text, from which both readers take it. -/
theorem package_roundTrip_sample : ∃ written, Schema.toJson reference samplePackage = .ok written ∧
    Schema.parse reference Poseidon2.hash written = .ok samplePackage ∧
    Sdk.parsePackage Poseidon2.hash written = .ok (Schema.sdkPackage samplePackage) :=
  (package_roundTrip reference_documented Poseidon2.hash).1 samplePackage sample_valid

end ZkPoR
