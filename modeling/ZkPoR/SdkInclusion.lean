import ZkPoR.Deployments
import ZkPoR.InclusionVerify
import ZkPoR.RegistrySimulation
import ZkPoR.SdkPackage

/-! # The customer check of the SDK

`verifyInclusion`: the same gates as the Rust check, in the same order, over the
readers of the SDK.  The attestation is read through a simulation of `get_attestation`.

`check_eq_ok` lists what every gate compared when the check reports an inclusion.
-/
namespace ZkPoR.Sdk
open CheckedInt BoundedLoop JsonText JavaScript Binary64

/-! ## The stored attestation -/

/-- A fixed record from a registry that supports persistent history. -/
structure StoredAttestation where
  finalRoot : Int
  totalLiabilities : Int
  snapshotLedger : Int
  reserveSum : Int
  attestedLedger : Int
  attestationId : Nat
  contextHash : Int
deriving DecidableEq

def mapField (source : NativeValue) (key method : String) : Except Failure NativeValue :=
  match source with
  | .record fields =>
    match fields.find? fun field => field.1 = Text.ofString key with
    | some (_, value) => .ok value
    | none => infrastructure s!"the record of the call {method} carries no {key}"
  | _ => infrastructure s!"the call {method} returned no record"

def requireBigint (value : NativeValue) (what : String) : Except Failure Int :=
  match value with
  | .bigint n => .ok n
  | _ => infrastructure s!"{what} is not an integer"

def requireNumber (value : NativeValue) (what : String) : Except Failure Int :=
  match value with
  | .number number =>
    match number.toInt? with
    | some n => .ok n
    | none => infrastructure s!"{what} is not a ledger sequence"
  | _ => infrastructure s!"{what} is not a ledger sequence"

def bigintField (payload : NativeValue) (key what : String) : Except Failure Int := do
  let value ← mapField payload key "get_attestation"
  requireBigint value what

def numberField (payload : NativeValue) (key what : String) : Except Failure Int := do
  let value ← mapField payload key "get_attestation"
  requireNumber value what

/-- Reads the direct struct that `get_attestation` returns. -/
def decodeStoredAttestation (payload : NativeValue) (id : Nat) :
    Except Failure StoredAttestation := do
  let finalRoot ← bigintField payload "final_root" "the attested root"
  let totalLiabilities ← bigintField payload "total_liabilities" "the total liabilities"
  let snapshotLedger ← numberField payload "snapshot_ledger" "the snapshot ledger"
  let reserveSum ← bigintField payload "reserve_sum" "the reserve sum"
  let attestedLedger ← numberField payload "attested_ledger" "the attested ledger"
  let contextHash ← bigintField payload "context_hash" "the attested context hash"
  return { finalRoot, totalLiabilities, snapshotLedger, reserveSum, attestedLedger,
           attestationId := id, contextHash }

/-- Reads one fixed record. -/
def readStoredAttestation (client : Client) (registry asset : Text) (id : Nat) :
    Except Failure (Option StoredAttestation) := do
  if id < 1 ∨ id > MAX_U64 then
    .error (.other (Text.ofString "the attestation identifier must be a positive u64"))
  else
    let returned ← undefinedFor [ASSET_NOT_REGISTERED, ATTESTATION_NOT_FOUND] do
      let address ← client.address asset
      simulateRead client registry (.getAttestation address (BitVec.ofNat 64 id))
    returned.mapM fun value => decodeStoredAttestation value id

/-! ## The identity file -/

inductive OwnPackageVerdict
  | own
  | foreign
  | unsupportedIdentifierRule
deriving DecidableEq

def checkOwnIdentifier (primitives : Primitives) (entry : InclusionPackage)
    (identityText : String) : Except String OwnPackageVerdict :=
  if entry.format ≠ IDENTITY_PACKAGE_FORMAT ∨ entry.identifierRule ≠ some IDENTIFIER_RULE then
    .ok .unsupportedIdentifierRule
  else
    match JavaScript.parse identityText with
    | none => .error "the identity file is not JSON"
    | some (.object value) =>
      match property value "email", property value "code" with
      | some (.string email), some (.string code) => do
        let id ← deriveCustomerIdentifier primitives email code
        return if id = entry.id then .own else .foreign
      | _, _ => .error "the identity file needs an email and a code"
    | some _ => .error "the identity file needs an email and a code"

/-! ## The check -/

/-- What the check reports of a leaf that sits under the attested root. -/
structure Included where
  asset : Text
  registry : Text
  id : Nat
  leafIndex : Nat
  balance : Nat
  snapshotLedger : Int
  attestedLedger : Int
  totalLiabilities : Int
  reserveSum : Int
  currentLedger : Nat
  solvencyLapsed : Bool
  identityConfirmed : Bool
deriving DecidableEq

/-- Every other outcome. -/
inductive Refusal
  | unsupportedFormat (reason : Text)
  | malformed (reason : Text)
  | untrustedDeployment (reason network registry : Text)
  | invalidDeployments (reason : String)
  | noMatchingAttestation (reason : Text)
  | rootMismatch (recomputed : Nat) (attested : Int)
  | foreignIdentifier
  | unsupportedIdentifierRule
  | invalidIdentity (reason : String)
deriving DecidableEq

/-- The outcome of the check on one package. -/
inductive Verdict
  | included (report : Included)
  | refused (refusal : Refusal)
deriving DecidableEq

/-- The exit code of each other outcome. -/
def Refusal.exitCode : Refusal → Nat
  | unsupportedFormat _ => 3
  | malformed _ => 4
  | untrustedDeployment _ _ _ => 5
  | noMatchingAttestation _ => 6
  | rootMismatch _ _ => 7
  | invalidDeployments _ => 9
  | foreignIdentifier => 10
  | unsupportedIdentifierRule => 11
  | invalidIdentity _ => 12

/-- The exit code of one verdict. -/
def exitCode : Verdict → Nat
  | .included _ => 0
  | .refused refusal => refusal.exitCode

/-- The exit code of a failure that gives no verdict. -/
def EXIT_NO_VERDICT : Nat := 8

/-- How the check stops before its last step. -/
inductive Stop
  | refused (refusal : Refusal)
  | failed (failure : Failure)

def failWith {α : Type} (x : Except Failure α) : Except Stop α := x.mapError .failed

def orRefuse {α : Type} (x : Option α) (refusal : Refusal) : Except Stop α :=
  match x with
  | some a => .ok a
  | none => .error (.refused refusal)

/-- A thrown error that nothing catches. -/
def orThrow {α : Type} (x : Except String α) : Except Stop α :=
  x.mapError fun message => .failed (.other (Text.ofString message))

/-- What the check makes of an error of the package reader. -/
def stopOfPackageError (error : PackageError) : Stop :=
  match error with
  | .unsupportedFormat _ => .refused (.unsupportedFormat error.message)
  | .malformed message => .refused (.malformed message)
  | .other message => .failed (.other (Text.ofString message))

/-- Writes a field element in the strict text form of the package schema. -/
def toHex (value : Int) : Except String String :=
  if 0 ≤ value ∧ value < frModulus then
    .ok (String.ofList ('0' :: 'x' ::
      HexText.padStart FR_HEX_DIGITS '0' (Nat.toDigits 16 value.toNat)))
  else .error "the value is not a field element"

/-- The text is that of the 32 bytes. -/
theorem toHex_of_lt {value : Nat} (h : value < frModulus) :
    toHex value = .ok (hexText (BitVec.ofNat 256 value)) := by
  have hdigits := @HexText.padStart_toDigits FR_BYTES value (by decide) (h.trans frModulus_lt)
  rw [toHex, if_pos ⟨Int.natCast_nonneg value, Int.ofNat_lt.mpr h⟩, Int.toNat_natCast, hexText,
    toBeBytes, toNat_ofNat_of_lt h, ← hdigits, FR_HEX_DIGITS, Nat.mul_comm]

def solvencyLapsed (snapshotLedger : Int) (currentLedger : Nat) : Bool :=
  currentLedger > snapshotLedger + ATTESTATION_MAX_AGE_LEDGERS.toNat

section Check
variable (primitives : Primitives) (poseidon2 : List Fr → Fr)

def checkIdentity (entry : InclusionPackage) (identityText : String) : Except Stop Unit := do
  let ownership ← (checkOwnIdentifier primitives entry identityText).mapError fun reason =>
    .refused (.invalidIdentity reason)
  match ownership with
  | .own => .ok ()
  | .foreign => .error (.refused .foreignIdentifier)
  | .unsupportedIdentifierRule => .error (.refused .unsupportedIdentifierRule)

/-- The reason of a refusal of a registry that the deployments file does not name. -/
def untrustedReason (entry : InclusionPackage) : Text :=
  Text.ofString "the deployments file of this verifier names no registry " ++ entry.registry ++
    Text.ofString " on the network " ++ entry.network ++
    Text.ofString ", so the package points somewhere this verifier does not trust"

/-- The generation that the deployments file of the verifier names. -/
def resolveGeneration (deploymentsText : String) (entry : InclusionPackage) :
    Except Stop Generation := do
  let generation ← (findGeneration deploymentsText entry.network entry.registry).mapError fun
    | .contradictory reason => .refused (.invalidDeployments reason)
    | .unreadable reason => .failed (.infrastructure (Text.ofString reason))
  orRefuse generation (.untrustedDeployment (untrustedReason entry) entry.network entry.registry)

def decimalOfInt (n : Int) : Text := Text.ofString (toString n)

/-- The attestation that the package names. -/
def readAttestation (client : Client) (generation : Generation) (entry : InclusionPackage) :
    Except Stop StoredAttestation := do
  let attestation ← failWith
    (readStoredAttestation client generation.registry entry.asset entry.attestationId)
  orRefuse attestation (.noMatchingAttestation
    (Text.ofString "the registry " ++ generation.registry ++
      Text.ofString s!" holds no attestation {entry.attestationId} of the asset " ++ entry.asset))

/-- The attestation is that of the snapshot and the context of the package. -/
def checkSnapshot (attestation : StoredAttestation) (entry : InclusionPackage) :
    Except Stop Unit :=
  if attestation.snapshotLedger ≠ entry.snapshotLedger then
    .error (.refused (.noMatchingAttestation
      (Text.ofString (s!"the package names the snapshot ledger {entry.snapshotLedger}, and the " ++
        "registry attests the snapshot ledger ") ++ decimalOfInt attestation.snapshotLedger)))
  else if attestation.contextHash ≠ entry.contextHash then do
    let named ← orThrow (toHex entry.contextHash)
    let held ← orThrow (toHex attestation.contextHash)
    .error (.refused (.noMatchingAttestation (Text.ofString
      s!"the package names the context {named}, and attestation {entry.attestationId} holds {held}")))
  else .ok ()

/-- The root that the values of the package reach. -/
def recompute (entry : InclusionPackage) (depth : Nat) : Except String Nat := do
  let leaf ← leafHash poseidon2 entry.id entry.commitment
  rootFromPath poseidon2 leaf entry.leafIndex entry.siblings depth

/-- The recomputed root is the attested one. -/
def checkRoot (recomputed : Nat) (attested : Int) : Except Stop Unit :=
  if (recomputed : Int) = attested then .ok ()
  else .error (.refused (.rootMismatch recomputed attested))

/-- The steps of the check. -/
def checkInclusion (packageText deploymentsText : String) (client : Client)
    (identityText : Option String) : Except Stop Included := do
  let entry ← (parsePackage poseidon2 packageText).mapError stopOfPackageError
  identityText.forM (checkIdentity primitives entry)
  let generation ← resolveGeneration deploymentsText entry
  (checkDepth entry generation.treeDepth).mapError stopOfPackageError
  let attestation ← readAttestation client generation entry
  checkSnapshot attestation entry
  let recomputed ← orThrow (recompute poseidon2 entry generation.treeDepth)
  checkRoot recomputed attestation.finalRoot
  let currentLedger ← failWith client.health
  return {
    asset := entry.asset
    registry := generation.registry
    id := entry.id
    leafIndex := entry.leafIndex
    balance := entry.balance
    snapshotLedger := attestation.snapshotLedger
    attestedLedger := attestation.attestedLedger
    totalLiabilities := attestation.totalLiabilities
    reserveSum := attestation.reserveSum
    currentLedger
    solvencyLapsed := solvencyLapsed attestation.snapshotLedger currentLedger
    identityConfirmed := identityText.isSome }

/-- Checks one package against the chain. -/
def verifyInclusion (packageText deploymentsText : String) (client : Client)
    (identityText : Option String) : Except Failure Verdict :=
  match checkInclusion primitives poseidon2 packageText deploymentsText client identityText with
  | .ok report => .ok (.included report)
  | .error (.refused refusal) => .ok (.refused refusal)
  | .error (.failed failure) => .error failure

end Check

/-! ## What the check compares -/

/-- The values of a package that the check hashes. -/
def claimOf (entry : InclusionPackage) : PlaceClaim where
  index := entry.leafIndex
  id := BitVec.ofNat 256 entry.id
  commitment := BitVec.ofNat 256 entry.commitment
  balance := BitVec.ofNat 64 entry.balance
  salt := BitVec.ofNat 256 entry.salt
  siblings := entry.siblings.map (BitVec.ofNat 256)

/-- The identity file holds an email and a code, and the package names their
identifier. -/
structure Owns (primitives : Primitives) (entry : InclusionPackage) (identityText : String) :
    Prop where
  format : entry.format = IDENTITY_PACKAGE_FORMAT
  rule : entry.identifierRule = some IDENTIFIER_RULE
  derives : ∃ value email code, JavaScript.parse identityText = some (.object value) ∧
    property value "email" = some (.string email) ∧ property value "code" = some (.string code) ∧
    deriveCustomerIdentifier primitives email code = .ok entry.id

/-- What every gate of the check compared. -/
structure Accepts (primitives : Primitives) (poseidon2 : List Fr → Fr)
    (packageText deploymentsText : String) (client : Client) (identityText : Option String)
    (entry : InclusionPackage) (generation : Generation) (attestation : StoredAttestation)
    (currentLedger : Nat) : Prop where
  reads : parsePackage poseidon2 packageText = .ok entry
  owns : ∀ text, identityText = some text → Owns primitives entry text
  finds : findGeneration deploymentsText entry.network entry.registry = .ok (some generation)
  depth : 1 ≤ generation.treeDepth
  length : entry.siblings.length = generation.treeDepth
  index : entry.leafIndex < 2 ^ generation.treeDepth
  attests : readStoredAttestation client generation.registry entry.asset entry.attestationId =
    .ok (some attestation)
  snapshot : attestation.snapshotLedger = entry.snapshotLedger
  context : attestation.contextHash = entry.contextHash
  root : ((MerkleTree.walk (ZkPoR.nodeHash poseidon2)
    (ZkPoR.leafHash poseidon2 (claimOf entry).id (claimOf entry).commitment) (claimOf entry).index
    (claimOf entry).siblings).toNat : Int) = attestation.finalRoot
  latest : client.health = .ok currentLedger

/-- The report of an accepted package. -/
def reportOf (entry : InclusionPackage) (generation : Generation)
    (attestation : StoredAttestation) (currentLedger : Nat) (identityText : Option String) :
    Included where
  asset := entry.asset
  registry := generation.registry
  id := entry.id
  leafIndex := entry.leafIndex
  balance := entry.balance
  snapshotLedger := attestation.snapshotLedger
  attestedLedger := attestation.attestedLedger
  totalLiabilities := attestation.totalLiabilities
  reserveSum := attestation.reserveSum
  currentLedger := currentLedger
  solvencyLapsed := solvencyLapsed attestation.snapshotLedger currentLedger
  identityConfirmed := identityText.isSome

section
variable {primitives : Primitives} {poseidon2 : List Fr → Fr}

theorem orRefuse_eq_ok {α : Type} {x : Option α} {refusal : Refusal} {a : α} :
    orRefuse x refusal = .ok a ↔ x = some a := by
  cases x <;> simp [orRefuse]

theorem orThrow_eq_ok {α : Type} {x : Except String α} {a : α} :
    orThrow x = .ok a ↔ x = .ok a := Schema.mapError_eq_ok

theorem failWith_eq_ok {α : Type} {x : Except Failure α} {a : α} :
    failWith x = .ok a ↔ x = .ok a := Schema.mapError_eq_ok

theorem checkOwnIdentifier_eq_own {entry : InclusionPackage} {identityText : String} :
    checkOwnIdentifier primitives entry identityText = .ok .own ↔
      Owns primitives entry identityText := by
  constructor
  · intro h
    unfold checkOwnIdentifier at h
    split at h
    · cases h
    rename_i hformat
    rw [not_or, not_not, not_not] at hformat
    split at h
    · cases h
    · rename_i value hvalue
      split at h
      · rename_i email code hemail hcode
        obtain ⟨id, hid, hown⟩ := bind_eq_ok.mp h
        refine ⟨hformat.1, hformat.2, value, email, code, hvalue, hemail, hcode, ?_⟩
        by_cases hsame : id = entry.id
        · rw [hid, hsame]
        · simp [hsame, pure, Except.pure] at hown
      · cases h
    · cases h
  · rintro ⟨hformat, hrule, value, email, code, hvalue, hemail, hcode, hid⟩
    have hgate : ¬ (entry.format ≠ IDENTITY_PACKAGE_FORMAT ∨
        entry.identifierRule ≠ some IDENTIFIER_RULE) := by
      simp [hformat, hrule]
    unfold checkOwnIdentifier
    rw [if_neg hgate, hvalue]
    dsimp only
    rw [hemail, hcode]
    exact bind_eq_ok.mpr ⟨_, hid, by rw [if_pos rfl]; rfl⟩

theorem checkIdentity_eq_ok {entry : InclusionPackage} {identityText : String} {u : Unit} :
    checkIdentity primitives entry identityText = .ok u ↔ Owns primitives entry identityText := by
  rw [← checkOwnIdentifier_eq_own]
  simp only [checkIdentity, bind_eq_ok, Schema.mapError_eq_ok]
  constructor
  · rintro ⟨ownership, hownership, h⟩
    cases ownership with
    | own => exact hownership
    | foreign => cases h
    | unsupportedIdentifierRule => cases h
  · intro h
    exact ⟨_, h, rfl⟩

theorem resolveGeneration_eq_ok {deploymentsText : String} {entry : InclusionPackage}
    {generation : Generation} :
    resolveGeneration deploymentsText entry = .ok generation ↔
      findGeneration deploymentsText entry.network entry.registry = .ok (some generation) := by
  simp only [resolveGeneration, bind_eq_ok, Schema.mapError_eq_ok, orRefuse_eq_ok, exists_eq_right]

theorem readAttestation_eq_ok {client : Client} {generation : Generation}
    {entry : InclusionPackage} {attestation : StoredAttestation} :
    readAttestation client generation entry = .ok attestation ↔
      readStoredAttestation client generation.registry entry.asset entry.attestationId =
        .ok (some attestation) := by
  simp only [readAttestation, bind_eq_ok, failWith_eq_ok, orRefuse_eq_ok, exists_eq_right]

theorem checkSnapshot_eq_ok {attestation : StoredAttestation} {entry : InclusionPackage}
    {u : Unit} :
    checkSnapshot attestation entry = .ok u ↔
      attestation.snapshotLedger = entry.snapshotLedger ∧
        attestation.contextHash = entry.contextHash := by
  unfold checkSnapshot
  split
  · rename_i hsnapshot
    simp [hsnapshot]
  rename_i hsnapshot
  split
  · rename_i hcontext
    simp only [bind_eq_ok, reduceCtorEq, and_false, exists_false, hcontext]
  · rename_i hcontext
    simp [not_not.mp hsnapshot, not_not.mp hcontext]

theorem checkRoot_eq_ok {recomputed : Nat} {attested : Int} {u : Unit} :
    checkRoot recomputed attested = .ok u ↔ (recomputed : Int) = attested := by
  unfold checkRoot
  split <;> simp_all

theorem lt_of_forall₂_isHex {values : List Value} {vs : List Nat}
    (h : List.Forall₂ IsHex values vs) : ∀ v ∈ vs, v < frModulus := by
  induction h with
  | nil => exact fun v hv => absurd hv List.not_mem_nil
  | cons hvalue _ ih => exact List.forall_mem_cons.mpr ⟨hvalue.2, ih⟩

theorem frInRange_ofNat {v : Nat} (h : v < frModulus) : frInRange (BitVec.ofNat 256 v) := by
  unfold frInRange
  rwa [toNat_ofNat_of_lt h]

theorem lt_of_isHexField {value : Option Value} {v : Nat} (h : IsHexField value v) :
    v < frModulus := by
  obtain ⟨_, -, -, hlt⟩ := h
  exact hlt

theorem canonical_claimOf {source : List (Text × Value)} {entry : InclusionPackage}
    (h : IsPackage poseidon2 source entry) : (claimOf entry).Canonical := by
  obtain ⟨values, -, hsiblings⟩ := h.siblings
  refine ⟨frInRange_ofNat (lt_of_isHexField h.id), frInRange_ofNat (lt_of_isHexField h.commitment),
    frInRange_ofNat (lt_of_isHexField h.salt), ?_⟩
  intro sibling hsibling
  obtain ⟨s, hs, rfl⟩ := List.mem_map.mp hsibling
  exact frInRange_ofNat (lt_of_forall₂_isHex hsiblings s hs)

/-- The walk of the check, on the field elements of a package. -/
theorem recompute_eq_ok {source : List (Text × Value)} {entry : InclusionPackage}
    {depth root : Nat} (h : IsPackage poseidon2 source entry) :
    recompute poseidon2 entry depth = .ok root ↔
      1 ≤ depth ∧ entry.siblings.length = depth ∧ entry.leafIndex < 2 ^ depth ∧
        (MerkleTree.walk (ZkPoR.nodeHash poseidon2)
          (ZkPoR.leafHash poseidon2 (claimOf entry).id (claimOf entry).commitment)
          (claimOf entry).index (claimOf entry).siblings).toNat = root := by
  have hcanonical := canonical_claimOf h
  have hid : (claimOf entry).id.toNat = entry.id := toNat_ofNat_of_lt (lt_of_isHexField h.id)
  have hcommitment : (claimOf entry).commitment.toNat = entry.commitment :=
    toNat_ofNat_of_lt (lt_of_isHexField h.commitment)
  have hsiblings : (claimOf entry).siblings.map BitVec.toNat = entry.siblings := by
    obtain ⟨values, -, hvalues⟩ := h.siblings
    have hsame : ∀ v ∈ entry.siblings, (BitVec.toNat ∘ BitVec.ofNat 256) v = id v :=
      fun v hv => toNat_ofNat_of_lt (lt_of_forall₂_isHex hvalues v hv)
    rw [claimOf, List.map_map, List.map_congr_left hsame, List.map_id]
  have hleaf := @leafHash_eq poseidon2 _ _ hcanonical.id hcanonical.commitment
  rw [hid, hcommitment] at hleaf
  have hroot := @rootFromPath_eq_ok poseidon2
    (ZkPoR.leafHash poseidon2 (claimOf entry).id (claimOf entry).commitment) entry.leafIndex depth
    root (claimOf entry).siblings (frInRange_leafHash _ _) hcanonical.siblings
  rw [hsiblings] at hroot
  have hlength : (claimOf entry).siblings.length = entry.siblings.length := List.length_map _
  rw [recompute, hleaf]
  refine hroot.trans ?_
  rw [hlength]
  rfl

/-- **The check reports an inclusion exactly when every gate agrees.** -/
theorem checkInclusion_eq_ok {packageText deploymentsText : String} {client : Client}
    {identityText : Option String} {report : Included} :
    checkInclusion primitives poseidon2 packageText deploymentsText client identityText =
        .ok report ↔
      ∃ entry generation attestation currentLedger,
        Accepts primitives poseidon2 packageText deploymentsText client identityText entry
          generation attestation currentLedger ∧
        report = reportOf entry generation attestation currentLedger identityText := by
  simp only [checkInclusion, bind_eq_ok, Schema.mapError_eq_ok, InclusionVerify.forM_eq_ok,
    checkIdentity_eq_ok, resolveGeneration_eq_ok, checkDepth_eq_ok, readAttestation_eq_ok,
    checkSnapshot_eq_ok, checkRoot_eq_ok, failWith_eq_ok, orThrow_eq_ok]
  constructor
  · rintro ⟨entry, hread, _, howns, generation, hfinds, _, ⟨hlength, hindex⟩, attestation,
      hattests, _, ⟨hsnapshot, hcontext⟩, recomputed, hrecompute, _, hequal, currentLedger,
      hlatest, hout⟩
    cases hout
    obtain ⟨source, -, hpackage⟩ := parsePackage_eq_ok.mp hread
    obtain ⟨hdepth, -, -, hroot⟩ := (recompute_eq_ok hpackage).mp hrecompute
    exact ⟨entry, generation, attestation, currentLedger,
      { reads := hread, owns := howns, finds := hfinds, depth := hdepth, length := hlength
        index := hindex, attests := hattests, snapshot := hsnapshot, context := hcontext
        root := hroot ▸ hequal, latest := hlatest }, rfl⟩
  · rintro ⟨entry, generation, attestation, currentLedger, h, rfl⟩
    obtain ⟨source, -, hpackage⟩ := parsePackage_eq_ok.mp h.reads
    have hrecompute := (recompute_eq_ok hpackage).mpr ⟨h.depth, h.length, h.index, rfl⟩
    exact ⟨entry, h.reads, (), h.owns, generation, h.finds, (), ⟨h.length, h.index⟩, attestation,
      h.attests, (), ⟨h.snapshot, h.context⟩, _, hrecompute, (), h.root, currentLedger, h.latest,
      rfl⟩

/-- **An accepted package is the leaf of its index.**  The attested root is that of
a tree, and among the inputs `S` the sponge has no collision. -/
theorem Accepts.isPlaceOf {packageText deploymentsText : String} {client : Client}
    {identityText : Option String} {entry : InclusionPackage} {generation : Generation}
    {attestation : StoredAttestation} {currentLedger : Nat}
    (h : Accepts primitives poseidon2 packageText deploymentsText client identityText entry
      generation attestation currentLedger)
    {S : Set (List Fr)} (hS : Set.InjOn poseidon2 S) {customers : Nat → Fr × Fr}
    (htree : hashedByTree poseidon2 customers generation.treeDepth ⊆ S)
    (hclaim : (claimOf entry).hashed poseidon2 ⊆ S)
    (hroot : attestation.finalRoot = (rootOf poseidon2 customers generation.treeDepth).toNat) :
    IsPlaceOf poseidon2 S customers generation.treeDepth (claimOf entry) := by
  obtain ⟨source, -, hpackage⟩ := parsePackage_eq_ok.mp h.reads
  have hopens : ZkPoR.balanceCommitment poseidon2 (claimOf entry).balance (claimOf entry).salt =
      (claimOf entry).commitment := by
    have hcommitment := toNat_ofNat_of_lt (lt_of_isHexField hpackage.commitment)
    exact BitVec.eq_of_toNat_eq (hpackage.opens.trans hcommitment.symm)
  exact isPlaceOf_of_walk hS htree (canonical_claimOf hpackage) hclaim
    (by rw [claimOf, List.length_map, h.length]) h.index hopens
    (BitVec.eq_of_toNat_eq (Int.ofNat.inj (h.root.trans hroot)))

theorem verifyInclusion_eq_included {packageText deploymentsText : String} {client : Client}
    {identityText : Option String} {report : Included} :
    verifyInclusion primitives poseidon2 packageText deploymentsText client identityText =
        .ok (.included report) ↔
      checkInclusion primitives poseidon2 packageText deploymentsText client identityText =
        .ok report := by
  unfold verifyInclusion
  split <;> simp_all

end
end ZkPoR.Sdk
