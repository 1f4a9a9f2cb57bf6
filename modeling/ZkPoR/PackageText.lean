import ZkPoR.SdkInclusion

/-! # The text of a package

The writer of the Rust tools and the two readers, put together.  A package that
keeps the rules of the format (`Valid`) has a text, the text denotes one object
(`parse_toJson`), and each reader takes the package back from it.
-/
namespace ZkPoR
open JsonText CheckedInt BoundedLoop SerdeJson
namespace Schema

/-- The rules that every package of the format keeps. -/
structure Valid (poseidon2 : List Fr → Fr) (package : Package) : Prop where
  registry : isContract package.registry = true
  asset : isContract package.asset = true
  contextHash : package.contextHash < frModulus
  attestationId : package.attestationId ≠ 0
  id : package.id < frModulus
  idNonzero : package.id ≠ 0
  commitment : package.commitment < frModulus
  salt : package.salt < frModulus
  opens : Generator.toBig (balanceCommitment poseidon2 package.balance (BitVec.ofNat 256 package.salt)) =
    package.commitment
  siblings : ∀ sibling ∈ package.siblings, sibling < frModulus

/-- The Rust reader takes valid packages only. -/
theorem IsPackage.valid {poseidon2 : List Fr → Fr} {json : Value} {package : Package}
    (h : IsPackage poseidon2 json package) : Valid poseidon2 package where
  registry := h.registryContract
  asset := h.assetContract
  contextHash := h.contextHash.2
  attestationId := h.attestationPos
  id := h.id.2
  idNonzero := h.idNonzero
  commitment := h.commitment.2
  salt := h.salt.2
  opens := h.opens
  siblings := InclusionVerify.siblings_lt h

/-- Every field element of the package is canonical. -/
structure Canonical (package : Package) : Prop where
  contextHash : package.contextHash < frModulus
  id : package.id < frModulus
  commitment : package.commitment < frModulus
  salt : package.salt < frModulus
  siblings : ∀ sibling ∈ package.siblings, sibling < frModulus

theorem Valid.canonical {poseidon2 : List Fr → Fr} {package : Package}
    (h : Valid poseidon2 package) : Canonical package :=
  ⟨h.contextHash, h.id, h.commitment, h.salt, h.siblings⟩

/-! ## The object of a package -/

def stringJson (text : String) : Json := .string (Text.ofString text)

/-- The package text of a field element. -/
def frHexText (v : Nat) : String := hexText (BitVec.ofNat 256 v)

/-- A member whose value is a string: key, text, and tree. -/
def stringMember (serde : SerdeJson) (key text : String) : String × String × Json :=
  (key, jsonString serde text, stringJson text)

/-- A member whose value is a number. -/
def numberMember (key : String) (n : Nat) : String × String × Json :=
  (key, decimalText n, .number (natural n))

def siblingsMember (serde : SerdeJson) (siblings : List Nat) : String × String × Json :=
  ("siblings",
    "[\n" ++ String.intercalate ",\n" (siblings.map fun sibling =>
      "    " ++ jsonString serde (frHexText sibling)) ++ "\n  ]",
    .array (siblings.map fun sibling => stringJson (frHexText sibling)))

/-- The members of a package in the order of the schema. -/
def written (serde : SerdeJson) (package : Package) : List (String × String × Json) :=
  [stringMember serde "format" (formatOf package.identifierRule),
      stringMember serde "network" package.network, stringMember serde "registry" package.registry,
      stringMember serde "asset" package.asset,
      numberMember "snapshot_ledger" package.snapshotLedger.toNat,
      stringMember serde "context_hash" (frHexText package.contextHash),
      stringMember serde "attestation_id" (decimalText package.attestationId.toNat)] ++
    (if package.identifierRule = .emailCodeV1 then
      [stringMember serde "identifier_rule" IDENTIFIER_RULE] else []) ++
    [numberMember "leaf_index" package.leafIndex.toNat,
      stringMember serde "id" (frHexText package.id),
      stringMember serde "commitment" (frHexText package.commitment),
      stringMember serde "balance" (decimalText package.balance.toNat),
      stringMember serde "salt" (frHexText package.salt), siblingsMember serde package.siblings]

/-- The members of a package as the readers see them. -/
def members (serde : SerdeJson) (package : Package) : List (String × Json) :=
  (written serde package).map fun field => (field.1, field.2.2)

section
variable {serde : SerdeJson} {package : Package}

theorem frHex_of_lt {v : Nat} (h : v < frModulus) : Package.frHex v = .ok (frHexText v) := by
  rw [Package.frHex, Generator.be32, if_pos (h.trans frModulus_lt)]
  rfl

/-- A package of canonical field elements has a text, one line for each member. -/
theorem toJson_of_canonical (h : Canonical package) :
    Schema.toJson serde package =
      .ok ("\x7b\n" ++ String.intercalate ",\n" ((written serde package).map fun field =>
        line field.1 field.2.1) ++ "\n\x7d\n") := by
  have hsiblings : package.siblings.mapM Package.frHex = .ok (package.siblings.map frHexText) :=
    mapM_eq_ok fun v hv => frHex_of_lt (h.siblings v hv)
  unfold Schema.toJson
  simp only [frHex_of_lt h.contextHash, frHex_of_lt h.id, frHex_of_lt h.commitment,
    frHex_of_lt h.salt, hsiblings, bind, Except.bind, pure, Except.pure, written, stringMember,
    numberMember, siblingsMember]
  split <;> simp [List.map_map, Function.comp_def]

theorem toJson_eq {poseidon2 : List Fr → Fr} (h : Valid poseidon2 package) :
    Schema.toJson serde package =
      .ok ("\x7b\n" ++ String.intercalate ",\n" ((written serde package).map fun field =>
        line field.1 field.2.1) ++ "\n\x7d\n") := toJson_of_canonical h.canonical

/-! ## The characters of the text -/

theorem denotes_jsonString (hserde : Documented serde) (text : String) :
    Denotes (jsonString serde text).toList (tokens (stringJson text)) :=
  denotes_string (hserde.string text)

theorem denotes_decimalText (n : Nat) :
    Denotes (decimalText n).toList (tokens (.number (natural n))) := by
  rw [decimalText, String.toList_ofList]
  exact denotes_natural n

/-- The text of a member denotes its tree. -/
def Denoted (member : String × String × Json) : Prop :=
  Denotes member.2.1.toList (tokens member.2.2)

theorem denoted_string (hserde : Documented serde) (key text : String) :
    Denoted (stringMember serde key text) := denotes_jsonString hserde text

theorem denoted_number (key : String) (n : Nat) : Denoted (numberMember key n) :=
  denotes_decimalText n

/-- The lines of the siblings are one array. -/
theorem denoted_siblings (hserde : Documented serde) (siblings : List Nat) :
    Denoted (siblingsMember serde siblings) := by
  have hitems := @denotes_array
    (siblings.map fun sibling =>
      ([' ', ' ', ' ', ' '] ++ (jsonString serde (frHexText sibling)).toList,
        stringJson (frHexText sibling))) [' ', ' ']
    (List.forall_mem_map.mpr fun sibling _ =>
      (denotes_jsonString hserde _).blanks (isBlank_indentation 4)) (isBlank_indentation 2)
  simpa [Denoted, siblingsMember, String.toList_append, String.toList_intercalate, List.map_map,
    Function.comp_def] using hitems

theorem denoted_written (hserde : Documented serde) (package : Package) :
    ∀ member ∈ written serde package, Denoted member := by
  have hrule : ∀ member ∈ (if package.identifierRule = .emailCodeV1 then
      [stringMember serde "identifier_rule" IDENTIFIER_RULE] else []), Denoted member := by
    split
    · exact List.forall_mem_singleton.mpr (denoted_string hserde _ _)
    · exact fun member hmember => absurd hmember List.not_mem_nil
  simp only [written, List.forall_mem_append, List.forall_mem_cons, denoted_string hserde,
    denoted_number, denoted_siblings hserde, List.not_mem_nil, IsEmpty.forall_iff, implies_true,
    and_true, true_and]
  exact hrule

/-- The writer writes the keys of the schema, in order. -/
theorem keys_written (serde : SerdeJson) (package : Package) :
    (written serde package).map Prod.fst = fieldsOf package.identifierRule := by
  unfold written
  cases package.identifierRule <;> rfl

theorem plainKey_of_mem_fieldsOf (rule : IdentifierRule) :
    ∀ key ∈ fieldsOf rule, plainKey key = true := by
  cases rule <;> decide

/-- **The text of a package denotes the object of its members.** -/
theorem parse_toJson {poseidon2 : List Fr → Fr} {text : String} (hserde : Documented serde)
    (h : Valid poseidon2 package) (htext : Schema.toJson serde package = .ok text) :
    JsonText.parse text = some (objectOf (members serde package)) := by
  rw [toJson_eq h, Except.ok.injEq] at htext
  subst htext
  have hkey : ∀ member ∈ written serde package, plainKey member.1 = true := by
    intro member hmember
    refine plainKey_of_mem_fieldsOf package.identifierRule _ ?_
    rw [← keys_written serde]
    exact List.mem_map_of_mem hmember
  have hline : ∀ member ∈ written serde package,
      Denotes ([' ', ' '] ++ '"' :: (member.1.toList ++ '"' :: ':' :: ' ' :: member.2.1.toList))
        (memberTokens (Text.ofString member.1, member.2.2)) := fun member hmember =>
    denotes_member (hkey member hmember) (denoted_written hserde package member hmember)
      (isBlank_indentation 2)
  have hparse := @parse_object ((written serde package).map fun member =>
    ([' ', ' '] ++ '"' :: (member.1.toList ++ '"' :: ':' :: ' ' :: member.2.1.toList),
      Text.ofString member.1, member.2.2)) (List.forall_mem_map.mpr hline)
  rw [List.map_map, List.map_map] at hparse
  rw [objectOf, members, List.map_map]
  refine Eq.trans (congrArg JsonText.parse (String.toList_injective ?_)) hparse
  simp [line, String.toList_append, String.toList_intercalate, List.map_map, Function.comp_def]

theorem mem_members {member : String × String × Json} (h : member ∈ written serde package) :
    (member.1, member.2.2) ∈ members serde package := List.mem_map_of_mem h

theorem keys_members (serde : SerdeJson) (package : Package) :
    (members serde package).map Prod.fst = fieldsOf package.identifierRule := by
  rw [members, List.map_map, ← keys_written serde]
  rfl

theorem nodup_members (serde : SerdeJson) (package : Package) :
    ((members serde package).map Prod.fst).Nodup := by
  rw [keys_members]
  cases package.identifierRule <;> decide

/-! ## The reader of the Rust tools -/

/-- A tree without a float, at most one level deep, and its value. -/
structure Reads (x : Json) (value : Value) : Prop where
  value : SerdeJson.ofJson x = some value
  plain : plain (RECURSION_LIMIT - 1) x = true

theorem reads_string (text : String) : Reads (stringJson text) (.string text) where
  value := by rw [stringJson, SerdeJson.ofJson, Text.toString?_ofString]; rfl
  plain := rfl

theorem reads_number {n : Nat} (h : n < 2 ^ 64) :
    Reads (.number (natural n)) (.number (.posInt (BitVec.ofNat 64 n))) := by
  have hliteral : Number.ofLiteral (natural n) = .posInt (BitVec.ofNat 64 n) := by
    rw [Number.ofLiteral, if_pos ⟨rfl, rfl⟩]
    exact (if_neg Bool.false_ne_true).trans (if_pos h)
  constructor
  · rw [SerdeJson.ofJson, hliteral]
  · rw [SerdeJson.plain, hliteral]
    rfl

theorem plainElements_eq_true {depth : Nat} {xs : List Json}
    (h : ∀ x ∈ xs, SerdeJson.plain depth x = true) : plainElements depth xs = true := by
  induction xs with
  | nil => rfl
  | cons x xs ih =>
    rw [List.forall_mem_cons] at h
    rw [plainElements, h.1, ih h.2]
    rfl

theorem plainMembers_eq_true {depth : Nat} {members : List (Text × Json)}
    (h : ∀ member ∈ members, SerdeJson.plain depth member.2 = true) :
    plainMembers depth members = true := by
  induction members with
  | nil => rfl
  | cons member members ih =>
    rw [List.forall_mem_cons] at h
    rw [plainMembers, h.1, ih h.2]
    rfl

theorem ofElements_stringJson (texts : List String) :
    ofElements (texts.map stringJson) = some (texts.map Value.string) := by
  induction texts with
  | nil => rfl
  | cons text texts ih =>
    rw [List.map_cons, ofElements, (reads_string text).value, ih]
    rfl

theorem reads_strings (texts : List String) :
    Reads (.array (texts.map stringJson)) (.array (texts.map Value.string)) := by
  constructor
  · rw [SerdeJson.ofJson, ofElements_stringJson]
    rfl
  · rw [SerdeJson.plain, plainElements_eq_true]
    · rfl
    · exact List.forall_mem_map.mpr fun text _ => rfl

/-- Every member of a package has a value. -/
theorem exists_reads_of_mem (serde : SerdeJson) (package : Package) :
    ∀ member ∈ written serde package, ∃ value, Reads member.2.2 value := by
  have hstring : ∀ key text, ∃ value, Reads (stringMember serde key text).2.2 value :=
    fun _ text => ⟨_, reads_string text⟩
  have hrule : ∀ member ∈ (if package.identifierRule = .emailCodeV1 then
      [stringMember serde "identifier_rule" IDENTIFIER_RULE] else []),
      ∃ value, Reads member.2.2 value := by
    split
    · exact List.forall_mem_singleton.mpr (hstring _ _)
    · exact fun member hmember => absurd hmember List.not_mem_nil
  have hu32 : ∀ key (n : U32), ∃ value, Reads (numberMember key n.toNat).2.2 value :=
    fun _ n => ⟨_, reads_number (by omega)⟩
  have hsiblings : ∃ value, Reads (siblingsMember serde package.siblings).2.2 value := by
    have h := reads_strings (package.siblings.map frHexText)
    rw [List.map_map] at h
    exact ⟨_, h⟩
  simp only [written, List.forall_mem_append, List.forall_mem_cons, hstring, hu32, hsiblings,
    List.not_mem_nil, IsEmpty.forall_iff, implies_true, and_true, true_and]
  exact hrule

/-- **The Rust reader takes a valid package back from its text.** -/
theorem parse_of_toJson {poseidon2 : List Fr → Fr} {text : String} (hserde : Documented serde)
    (h : Valid poseidon2 package) (htext : Schema.toJson serde package = .ok text) :
    Schema.parse serde poseidon2 text = .ok package := by
  have hreads := exists_reads_of_mem serde package
  have hvalues : ∀ member ∈ members serde package, SerdeJson.ofJson member.2 ≠ none := by
    refine List.forall_mem_map.mpr fun member hmember => ?_
    obtain ⟨value, hvalue⟩ := hreads member hmember
    rw [hvalue.value]
    exact Option.some_ne_none _
  have hplain : SerdeJson.plain RECURSION_LIMIT (objectOf (members serde package)) = true := by
    rw [objectOf, SerdeJson.plain, plainMembers_eq_true]
    · rfl
    · rw [members, List.map_map]
      refine List.forall_mem_map.mpr fun member hmember => ?_
      obtain ⟨value, hvalue⟩ := hreads member hmember
      exact hvalue.plain
  obtain ⟨out, hout, hget, -, hknown⟩ := exists_ofJson_objectOf (nodup_members serde package) hvalues
  have hfrom := hserde.reads (parse_toJson hserde h htext) hplain hout
  -- what the object has under the key of a member
  have hmember : ∀ {member : String × String × Json} {value : Value},
      member ∈ written serde package → Reads member.2.2 value →
        (Value.object out).get member.1 = some value := by
    intro member value hmem hvalue
    exact (hget _ (mem_members hmem)).trans hvalue.value
  have hindex : ∀ {member : String × String × Json} {value : Value},
      member ∈ written serde package → Reads member.2.2 value →
        (Value.object out).index member.1 = value := by
    intro member value hmem hvalue
    rw [Value.index, hmember hmem hvalue, Option.getD_some]
  have hstring : ∀ key text, stringMember serde key text ∈ written serde package →
      (Value.object out).index key = .string text :=
    fun key text hmem => hindex hmem (reads_string text)
  have hnumber : ∀ key (n : U32), numberMember key n.toNat ∈ written serde package →
      (Value.object out).index key = .number (.posInt (n.setWidth 64)) := by
    intro key n hmem
    have hwide : BitVec.ofNat 64 n.toNat = n.setWidth 64 := BitVec.eq_of_toNat_eq (by simp)
    rw [← hwide]
    exact hindex hmem (reads_number (by omega))
  have hsiblings : (Value.object out).index "siblings" =
      .array ((package.siblings.map frHexText).map Value.string) := by
    have hmem : siblingsMember serde package.siblings ∈ written serde package := by simp [written]
    have hstrings := reads_strings (package.siblings.map frHexText)
    rw [List.map_map] at hstrings
    exact hindex hmem hstrings
  refine parse_eq_ok.mpr ⟨_, hfrom, ?_⟩
  exact {
    format := by
      have hmem : stringMember serde "format" (formatOf package.identifierRule) ∈
          written serde package := by simp [written]
      exact hmember hmem (reads_string _)
    known := fun _ hmembers member hmem => by
      cases hmembers
      rw [← keys_members serde]
      exact hknown member hmem
    rule := fun hrule => hstring _ _ (by simp [written, hrule])
    network := hstring _ _ (by simp [written])
    registry := hstring _ _ (by simp [written])
    registryContract := h.registry
    asset := hstring _ _ (by simp [written])
    assetContract := h.asset
    snapshotLedger := hnumber _ _ (by simp [written])
    contextHash := ⟨hstring _ _ (by simp [written, frHexText]), h.contextHash⟩
    attestationId := hstring _ _ (by simp [written])
    attestationPos := h.attestationId
    leafIndex := hnumber _ _ (by simp [written])
    id := ⟨hstring _ _ (by simp [written, frHexText]), h.id⟩
    idNonzero := h.idNonzero
    commitment := ⟨hstring _ _ (by simp [written, frHexText]), h.commitment⟩
    balance := hstring _ _ (by simp [written])
    salt := ⟨hstring _ _ (by simp [written, frHexText]), h.salt⟩
    opens := h.opens
    siblings := ⟨_, hsiblings, by
      rw [List.map_map, List.forall₂_map_left_iff, List.forall₂_same]
      exact fun v hv => ⟨rfl, h.siblings v hv⟩⟩ }

/-! ## The reader of the SDK -/

/-- The package as the SDK holds it. -/
def sdkPackage (package : Package) : Sdk.InclusionPackage where
  format := formatOf package.identifierRule
  identifierRule := if package.identifierRule = .emailCodeV1 then some IDENTIFIER_RULE else none
  network := Text.ofString package.network
  registry := Text.ofString package.registry
  asset := Text.ofString package.asset
  snapshotLedger := package.snapshotLedger.toNat
  contextHash := package.contextHash
  attestationId := package.attestationId.toNat
  leafIndex := package.leafIndex.toNat
  id := package.id
  commitment := package.commitment
  balance := package.balance.toNat
  salt := package.salt
  siblings := package.siblings

theorem ofElements_stringJson_javaScript (texts : List String) :
    JavaScript.ofElements (texts.map stringJson) =
      texts.map fun text => JavaScript.Value.string (Text.ofString text) := by
  induction texts with
  | nil => rfl
  | cons text texts ih =>
    rw [List.map_cons, JavaScript.ofElements, ih]
    rfl

/-- **The reader of the SDK takes a valid package from the text of the Rust
writer.** -/
theorem parsePackage_of_toJson {poseidon2 : List Fr → Fr} {text : String}
    (hserde : Documented serde) (h : Valid poseidon2 package)
    (htext : Schema.toJson serde package = .ok text) :
    Sdk.parsePackage poseidon2 text = .ok (sdkPackage package) := by
  obtain ⟨source, hsource, hget, hknown⟩ :=
    JavaScript.exists_ofJson_objectOf (nodup_members serde package)
  have hparse : JavaScript.parse text = some (.object source) := by
    rw [JavaScript.parse, parse_toJson hserde h htext, Option.map_some, hsource]
  have hfields : Sdk.fieldsOf (formatOf package.identifierRule) =
      fieldsOf package.identifierRule := by
    cases package.identifierRule <;> decide
  have hstring : ∀ key text, stringMember serde key text ∈ written serde package →
      JavaScript.property source key = some (.string (Text.ofString text)) :=
    fun key text hmem => hget _ (mem_members hmem)
  have hnumber : ∀ key (n : U32), numberMember key n.toNat ∈ written serde package →
      Sdk.IsU32Field (JavaScript.property source key) n.toNat := by
    intro key n hmem
    have hlt : n.toNat < 2 ^ 32 := n.isLt
    exact ⟨⟨_, hget _ (mem_members hmem), JavaScript.toDouble_natural (by omega)⟩, hlt⟩
  have hhex : ∀ key v, stringMember serde key (frHexText v) ∈ written serde package →
      v < frModulus → Sdk.IsHexField (JavaScript.property source key) v :=
    fun key v hmem hv => ⟨_, hstring _ _ hmem, rfl, hv⟩
  have hsiblings : JavaScript.property source "siblings" = some (.array
      ((package.siblings.map frHexText).map fun text =>
        JavaScript.Value.string (Text.ofString text))) := by
    have hmem : siblingsMember serde package.siblings ∈ written serde package := by simp [written]
    have harray := ofElements_stringJson_javaScript (package.siblings.map frHexText)
    rw [List.map_map] at harray
    rw [← harray]
    exact hget _ (mem_members hmem)
  have hopens : (balanceCommitment poseidon2 (BitVec.ofNat 64 package.balance.toNat)
      (BitVec.ofNat 256 package.salt)).toNat = package.commitment := by
    rw [BitVec.ofNat_toNat, BitVec.setWidth_eq]
    exact h.opens
  refine Sdk.parsePackage_eq_ok.mpr ⟨source, hparse, ?_⟩
  exact {
    format := by
      unfold sdkPackage
      cases package.identifierRule
      · exact .inl rfl
      · exact .inr rfl
    formatField := hstring _ _ (by simp [written, sdkPackage])
    known := by
      change ∀ p ∈ source, p.1 ∈ (Sdk.fieldsOf (formatOf package.identifierRule)).map Text.ofString
      rw [hfields, ← keys_members serde]
      exact hknown
    rule := by
      unfold sdkPackage
      cases package.identifierRule <;> rfl
    ruleField := fun hformat => by
      have hrule : package.identifierRule = .emailCodeV1 := formatOf_injective hformat
      exact hstring _ _ (by simp [written, hrule, Sdk.IDENTIFIER_RULE, IDENTIFIER_RULE])
    network := hstring _ _ (by simp [written])
    registry := hstring _ _ (by simp [written])
    asset := hstring _ _ (by simp [written])
    snapshotLedger := hnumber _ _ (by simp [written])
    contextHash := hhex _ package.contextHash (by simp [written]) h.contextHash
    attestationId := ⟨hstring _ (decimalText package.attestationId.toNat) (by simp [written]),
      package.attestationId.isLt⟩
    attestationPos := fun hzero => h.attestationId (BitVec.eq_of_toNat_eq hzero)
    leafIndex := hnumber _ _ (by simp [written])
    id := hhex _ package.id (by simp [written]) h.id
    idNonzero := h.idNonzero
    commitment := hhex _ package.commitment (by simp [written]) h.commitment
    balance := ⟨hstring _ (decimalText package.balance.toNat) (by simp [written]), package.balance.isLt⟩
    salt := hhex _ package.salt (by simp [written]) h.salt
    opens := hopens
    siblings := ⟨_, hsiblings, by
      change List.Forall₂ Sdk.IsHex _ package.siblings
      rw [List.map_map, List.forall₂_map_left_iff, List.forall₂_same]
      exact fun v hv => ⟨rfl, h.siblings v hv⟩⟩ }

end
end Schema
end ZkPoR
