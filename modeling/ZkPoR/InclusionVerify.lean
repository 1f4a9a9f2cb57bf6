import ZkPoR.CustomerPlace
import ZkPoR.Deployments
import ZkPoR.Identity
import ZkPoR.PackageTree

/-! # The customer check of the Rust tools

`verify_with_identity`: the package, the identity file of the customer, the
deployment record of the verifier, the attestation that the chain holds, and the
walk of the path, in this order.  The first gate that fails decides the outcome.

`check_eq_ok` lists what every gate compared when the check reports an inclusion,
and `check_sound` says what the report means for the tree.
-/
namespace ZkPoR
open CheckedInt BoundedLoop

/-- The verifier reached no verdict. -/
structure NoVerdict where
  reason : String
deriving DecidableEq

namespace InclusionVerify
open Schema Package Identity

/-- The attestation record that the registry holds. -/
structure Attestation where
  contextHash : Nat
  finalRoot : Nat
  totalLiabilities : U128
  snapshotLedger : U32
  attestedLedger : U32
deriving DecidableEq

/-- What the registry answers for one asset. -/
inductive Entry
  | noEntry
  | noAttestation
  | attested (attestation : Attestation)

/-- The reads of the chain. -/
structure Chain where
  attestation : String → String → U64 → Except NoVerdict Entry
  latestLedger : Except NoVerdict U32

/-- What the check reports of a leaf that sits under the accepted root. -/
structure Included where
  balance : U64
  leafIndex : U32
  asset : String
  registry : String
  snapshotLedger : U32
  attestedLedger : U32
  latestLedger : U32
  totalLiabilities : U128
  identityConfirmed : Bool
deriving DecidableEq

/-- Every other verdict. -/
inductive Refusal
  | unsupportedFormat (reason : String)
  | malformed (reason : String)
  | untrustedDeployment (network registry : String)
  | invalidDeployments (reason : String)
  | noMatchingAttestation (reason : String)
  | rootMismatch (recomputed attested : String)
  | foreignIdentifier
  | unsupportedIdentifierRule
  | invalidIdentity (reason : String)
deriving DecidableEq

/-- What the verifier concludes about one package. -/
inductive Verdict
  | included (report : Included)
  | refused (refusal : Refusal)
deriving DecidableEq

/-- The status that the command returns for a refusal. -/
def Refusal.exitCode : Refusal → Nat
  | unsupportedFormat _ => 3
  | malformed _ => 4
  | untrustedDeployment _ _ => 5
  | noMatchingAttestation _ => 6
  | rootMismatch _ _ => 7
  | invalidDeployments _ => 9
  | foreignIdentifier => 10
  | unsupportedIdentifierRule => 11
  | invalidIdentity _ => 12

def exitCode : Verdict → Nat
  | .included _ => 0
  | .refused refusal => refusal.exitCode

/-- How the check stops before its last step: with a verdict, or without one. -/
inductive Stop
  | refused (refusal : Refusal)
  | halt (halt : Halt NoVerdict)

def refuseUnless (p : Prop) [Decidable p] (refusal : Refusal) : Except Stop Unit :=
  if p then .ok () else .error (.refused refusal)

def orRefuse {α : Type} (x : Option α) (refusal : Refusal) : Except Stop α :=
  match x with
  | some a => .ok a
  | none => .error (.refused refusal)

/-- A step that can fail an assertion. -/
def orPanic {α : Type} (x : Except String α) : Except Stop α :=
  x.mapError fun text => .halt (.panic text)

/-- A read that can reach no verdict. -/
def orNoVerdict {α : Type} (x : Except NoVerdict α) : Except Stop α :=
  x.mapError fun reason => .halt (.error reason)

section Check
variable (primitives : Primitives) (serde : SerdeJson) (poseidon2 : List Fr → Fr)

/-- The package of the file. -/
def readPackage (packageText : String) : Except Stop Schema.Package :=
  (Schema.parse serde poseidon2 packageText).mapError fun
    | .panic text => .halt (.panic text)
    | .error (.unsupportedFormat found) =>
      .refused (.unsupportedFormat (PackageError.unsupportedFormat found).toString)
    | .error (.malformed reason) => .refused (.malformed reason)

/-- The identifier of the email and the code in the identity file. -/
def ownIdentifier (identityText : String) : Except Stop Nat := do
  let identity ← (serde.fromStr identityText).mapError fun _ =>
    .refused (.invalidIdentity "the identity file is not JSON")
  let missing := Refusal.invalidIdentity "the identity file needs an email and a code"
  let email ← orRefuse ((identity.get "email").bind SerdeJson.Value.asStr) missing
  let code ← orRefuse ((identity.get "code").bind SerdeJson.Value.asStr) missing
  (deriveIdentifier primitives email code).mapError fun reason =>
    .refused (.invalidIdentity reason.toString)

/-- The package names the identifier of its reader. -/
def checkIdentity (package : Schema.Package) (identityText : String) : Except Stop Unit := do
  refuseUnless (package.identifierRule = .emailCodeV1) .unsupportedIdentifierRule
  let ownId ← ownIdentifier primitives serde identityText
  refuseUnless (ownId = package.id) .foreignIdentifier

/-- The generation that the deployments file of the verifier names. -/
def findGeneration (deploymentsText : String) (package : Schema.Package) :
    Except Stop Deployments.Generation := do
  let generation ← (Deployments.find serde deploymentsText package.network
    package.registry).mapError fun
      | .contradictory reason => .refused (.invalidDeployments reason)
      | .unreadable reason =>
        .halt (.error ⟨s!"the deployments file does not read: {reason}"⟩)
  orRefuse generation (.untrustedDeployment package.network package.registry)

/-- The attestation that the package names. -/
def readAttestation (chain : Chain) (generation : Deployments.Generation)
    (package : Schema.Package) : Except Stop Attestation := do
  let entry ← orNoVerdict
    (chain.attestation generation.registry package.asset package.attestationId)
  match entry with
  | .attested attestation => .ok attestation
  | .noEntry =>
    .error (.refused (.noMatchingAttestation
      s!"the registry {generation.registry} holds no entry for the asset {package.asset}"))
  | .noAttestation =>
    .error (.refused (.noMatchingAttestation (s!"the asset {package.asset} has no attestation " ++
      s!"with ID {package.attestationId.toNat}")))

/-- The attestation is that of the snapshot and the context of the package. -/
def checkSnapshot (attestation : Attestation) (package : Schema.Package) : Except Stop Unit := do
  refuseUnless (attestation.snapshotLedger = package.snapshotLedger)
    (.noMatchingAttestation (s!"the package names the snapshot ledger " ++
      s!"{package.snapshotLedger.toNat}, and the registry holds an attestation of the snapshot " ++
      s!"ledger {attestation.snapshotLedger.toNat}"))
  if attestation.contextHash = package.contextHash then .ok ()
  else do
    let named ← orPanic (frHex package.contextHash)
    let held ← orPanic (frHex attestation.contextHash)
    .error (.refused (.noMatchingAttestation (s!"the package names context {named}, and " ++
      s!"attestation {package.attestationId.toNat} holds {held}")))

/-- The root that the values of the package reach. -/
def recompute (package : Schema.Package) (depth : Nat) : Except Stop Nat := do
  let id ← orPanic (Generator.toFr package.id)
  let commitment ← orPanic (Generator.toFr package.commitment)
  let siblings ← orPanic (package.siblings.mapM Generator.toFr)
  let recomputed ← orNoVerdict ((rootFromPath poseidon2 (leafHash poseidon2 id commitment)
    (package.leafIndex.setWidth 64) siblings depth).mapError NoVerdict.mk)
  return Generator.toBig recomputed

/-- The recomputed root is the attested one. -/
def checkRoot (recomputed attested : Nat) : Except Stop Unit :=
  if recomputed = attested then .ok ()
  else do
    let recomputed ← orPanic (frHex recomputed)
    let attested ← orPanic (frHex attested)
    .error (.refused (.rootMismatch recomputed attested))

/-- The steps of the check. -/
def check (packageText deploymentsText : String) (chain : Chain) (identityText : Option String) :
    Except Stop Included := do
  let package ← readPackage serde poseidon2 packageText
  identityText.forM (checkIdentity primitives serde package)
  let generation ← findGeneration serde deploymentsText package
  (package.checkDepth generation.treeDepth).mapError fun error =>
    .refused (.malformed error.toString)
  let attestation ← readAttestation chain generation package
  checkSnapshot attestation package
  let recomputed ← recompute poseidon2 package generation.treeDepth
  checkRoot recomputed attestation.finalRoot
  let latestLedger ← orNoVerdict chain.latestLedger
  return {
    balance := package.balance
    leafIndex := package.leafIndex
    asset := package.asset
    registry := generation.registry
    snapshotLedger := package.snapshotLedger
    attestedLedger := attestation.attestedLedger
    latestLedger
    totalLiabilities := attestation.totalLiabilities
    identityConfirmed := identityText.isSome }

/-- Checks one package against the chain. -/
def verifyWithIdentity (packageText deploymentsText : String) (chain : Chain)
    (identityText : Option String) : Except (Halt NoVerdict) Verdict :=
  match check primitives serde poseidon2 packageText deploymentsText chain identityText with
  | .ok report => .ok (.included report)
  | .error (.refused refusal) => .ok (.refused refusal)
  | .error (.halt halt) => .error halt

def verify (packageText deploymentsText : String) (chain : Chain) :
    Except (Halt NoVerdict) Verdict :=
  verifyWithIdentity primitives serde poseidon2 packageText deploymentsText chain none

end Check

/-! ## What the check compares -/

/-- The values of a package that the check hashes. -/
def claimOf (package : Schema.Package) : PlaceClaim where
  index := package.leafIndex.toNat
  id := BitVec.ofNat 256 package.id
  commitment := BitVec.ofNat 256 package.commitment
  balance := package.balance
  salt := BitVec.ofNat 256 package.salt
  siblings := package.siblings.map (BitVec.ofNat 256)

/-- The identity file holds an email and a code, and the package names their
identifier. -/
structure Owns (primitives : Primitives) (serde : SerdeJson) (package : Schema.Package)
    (identityText : String) : Prop where
  rule : package.identifierRule = .emailCodeV1
  derives : ∃ identity email code, serde.fromStr identityText = .ok identity ∧
    identity.get "email" = some (.string email) ∧ identity.get "code" = some (.string code) ∧
    deriveIdentifier primitives email code = .ok package.id

/-- What every gate of the check compared. -/
structure Accepts (primitives : Primitives) (serde : SerdeJson) (poseidon2 : List Fr → Fr)
    (packageText deploymentsText : String) (chain : Chain) (identityText : Option String)
    (package : Schema.Package) (generation : Deployments.Generation) (attestation : Attestation)
    (latestLedger : U32) : Prop where
  reads : Schema.parse serde poseidon2 packageText = .ok package
  owns : ∀ text, identityText = some text → Owns primitives serde package text
  finds : Deployments.find serde deploymentsText package.network package.registry =
    .ok (some generation)
  length : package.siblings.length = generation.treeDepth
  index : package.leafIndex.toNat < 2 ^ generation.treeDepth
  depth : generation.treeDepth < 64
  attests : chain.attestation generation.registry package.asset package.attestationId =
    .ok (.attested attestation)
  snapshot : attestation.snapshotLedger = package.snapshotLedger
  context : attestation.contextHash = package.contextHash
  root : (MerkleTree.walk (nodeHash poseidon2)
    (leafHash poseidon2 (claimOf package).id (claimOf package).commitment) (claimOf package).index
    (claimOf package).siblings).toNat = attestation.finalRoot
  latest : chain.latestLedger = .ok latestLedger

/-- The report of an accepted package. -/
def reportOf (package : Schema.Package) (generation : Deployments.Generation)
    (attestation : Attestation) (latestLedger : U32) (identityText : Option String) : Included where
  balance := package.balance
  leafIndex := package.leafIndex
  asset := package.asset
  registry := generation.registry
  snapshotLedger := package.snapshotLedger
  attestedLedger := attestation.attestedLedger
  latestLedger := latestLedger
  totalLiabilities := attestation.totalLiabilities
  identityConfirmed := identityText.isSome

section
variable {primitives : Primitives} {serde : SerdeJson} {poseidon2 : List Fr → Fr}

theorem refuseUnless_eq_ok {p : Prop} [Decidable p] {refusal : Refusal} {u : Unit} :
    refuseUnless p refusal = .ok u ↔ p := by
  unfold refuseUnless
  split <;> simp_all

theorem orRefuse_eq_ok {α : Type} {x : Option α} {refusal : Refusal} {a : α} :
    orRefuse x refusal = .ok a ↔ x = some a := by
  cases x <;> simp [orRefuse]

theorem orPanic_eq_ok {α : Type} {x : Except String α} {a : α} :
    orPanic x = .ok a ↔ x = .ok a := mapError_eq_ok

theorem orNoVerdict_eq_ok {α : Type} {x : Except NoVerdict α} {a : α} :
    orNoVerdict x = .ok a ↔ x = .ok a := mapError_eq_ok

theorem checkIdentity_eq_ok {package : Schema.Package} {identityText : String} {u : Unit} :
    checkIdentity primitives serde package identityText = .ok u ↔
      Owns primitives serde package identityText := by
  have hstr : ∀ {value : Option SerdeJson.Value} {s : String},
      value.bind SerdeJson.Value.asStr = some s ↔ value = some (.string s) := by
    intro value s
    rw [Option.bind_eq_some_iff]
    simp only [asStr_eq_some, exists_eq_right]
  simp only [checkIdentity, ownIdentifier, bind_eq_ok, refuseUnless_eq_ok, orRefuse_eq_ok,
    mapError_eq_ok, hstr]
  constructor
  · rintro ⟨_, hrule, id, ⟨identity, hread, email, hemail, code, hcode, hid⟩, rfl⟩
    exact ⟨hrule, identity, email, code, hread, hemail, hcode, hid⟩
  · rintro ⟨hrule, identity, email, code, hread, hemail, hcode, hid⟩
    exact ⟨(), hrule, _, ⟨identity, hread, email, hemail, code, hcode, hid⟩, rfl⟩

theorem forM_eq_ok {α ε : Type} {x : Option α} {f : α → Except ε Unit} {u : Unit} :
    x.forM f = .ok u ↔ ∀ a, x = some a → f a = .ok () := by
  cases x <;> simp [Option.forM, pure, Except.pure]

theorem findGeneration_eq_ok {deploymentsText : String} {package : Schema.Package}
    {generation : Deployments.Generation} :
    findGeneration serde deploymentsText package = .ok generation ↔
      Deployments.find serde deploymentsText package.network package.registry =
        .ok (some generation) := by
  simp only [findGeneration, bind_eq_ok, mapError_eq_ok, orRefuse_eq_ok, exists_eq_right]

theorem readAttestation_eq_ok {chain : Chain} {generation : Deployments.Generation}
    {package : Schema.Package} {attestation : Attestation} :
    readAttestation chain generation package = .ok attestation ↔
      chain.attestation generation.registry package.asset package.attestationId =
        .ok (.attested attestation) := by
  simp only [readAttestation, bind_eq_ok, orNoVerdict_eq_ok]
  constructor
  · rintro ⟨entry, hentry, h⟩
    cases entry with
    | attested found =>
      cases h
      exact hentry
    | noEntry => cases h
    | noAttestation => cases h
  · intro h
    exact ⟨_, h, rfl⟩

theorem checkSnapshot_eq_ok {attestation : Attestation} {package : Schema.Package} {u : Unit} :
    checkSnapshot attestation package = .ok u ↔
      attestation.snapshotLedger = package.snapshotLedger ∧
        attestation.contextHash = package.contextHash := by
  simp only [checkSnapshot, bind_eq_ok, refuseUnless_eq_ok]
  constructor
  · rintro ⟨_, hsnapshot, h⟩
    split at h
    · rename_i hcontext
      exact ⟨hsnapshot, hcontext⟩
    · simp only [bind_eq_ok, reduceCtorEq, and_false, exists_false] at h
  · rintro ⟨hsnapshot, hcontext⟩
    exact ⟨(), hsnapshot, if_pos hcontext⟩

theorem checkRoot_eq_ok {recomputed attested : Nat} {u : Unit} :
    checkRoot recomputed attested = .ok u ↔ recomputed = attested := by
  unfold checkRoot
  split
  · rename_i h
    simp [h]
  · rename_i h
    simp only [bind_eq_ok, reduceCtorEq, and_false, exists_false, h]

/-- The walk of the check, on the field elements of a package. -/
theorem recompute_eq_ok {package : Schema.Package} {depth root : Nat} (hid : package.id < frModulus)
    (hcommitment : package.commitment < frModulus) (hsiblings : ∀ s ∈ package.siblings, s < frModulus) :
    recompute poseidon2 package depth = .ok root ↔
      package.siblings.length = depth ∧ depth < 64 ∧ package.leafIndex.toNat < 2 ^ depth ∧
        (MerkleTree.walk (nodeHash poseidon2)
          (leafHash poseidon2 (claimOf package).id (claimOf package).commitment)
          (claimOf package).index (claimOf package).siblings).toNat = root := by
  have hwide : (package.leafIndex.setWidth 64).toNat = package.leafIndex.toNat := by
    rw [BitVec.toNat_setWidth, Nat.mod_eq_of_lt (by omega)]
  have hall : package.siblings.mapM Generator.toFr = .ok (claimOf package).siblings :=
    mapM_eq_ok fun s hs => toFr_eq_ok (hsiblings s hs)
  have hlength : (claimOf package).siblings.length = package.siblings.length := List.length_map _
  simp only [recompute, bind_eq_ok, orPanic_eq_ok, orNoVerdict_eq_ok, mapError_eq_ok,
    toFr_eq_ok hid, toFr_eq_ok hcommitment, hall, rootFromPath_eq_ok, hwide, Except.ok.injEq,
    exists_eq_left', hlength]
  constructor
  · rintro ⟨out, ⟨hlen, hdepth, hindex, rfl⟩, h⟩
    cases h
    exact ⟨hlen, hdepth, hindex, rfl⟩
  · rintro ⟨hlen, hdepth, hindex, rfl⟩
    exact ⟨_, ⟨hlen, hdepth, hindex, rfl⟩, rfl⟩

theorem lt_of_forall₂_isFr {values : List SerdeJson.Value} {vs : List Nat}
    (h : List.Forall₂ IsFr values vs) : ∀ v ∈ vs, v < frModulus := by
  induction h with
  | nil => exact fun v hv => absurd hv List.not_mem_nil
  | cons hvalue _ ih => exact List.forall_mem_cons.mpr ⟨hvalue.2, ih⟩

theorem siblings_lt {json : SerdeJson.Value} {package : Schema.Package}
    (h : IsPackage poseidon2 json package) : ∀ s ∈ package.siblings, s < frModulus := by
  obtain ⟨values, -, hsiblings⟩ := h.siblings
  exact lt_of_forall₂_isFr hsiblings

theorem canonical_claimOf {json : SerdeJson.Value} {package : Schema.Package}
    (h : IsPackage poseidon2 json package) : (claimOf package).Canonical := by
  have hrange : ∀ {v : Nat}, v < frModulus → frInRange (BitVec.ofNat 256 v) := fun hv => by
    unfold frInRange
    rwa [toNat_ofNat_of_lt hv]
  refine ⟨hrange h.id.2, hrange h.commitment.2, hrange h.salt.2, ?_⟩
  intro sibling hsibling
  obtain ⟨s, hs, rfl⟩ := List.mem_map.mp hsibling
  exact hrange (siblings_lt h s hs)

/-- **The check reports an inclusion exactly when every gate agrees.** -/
theorem check_eq_ok {packageText deploymentsText : String} {chain : Chain}
    {identityText : Option String} {report : Included} :
    check primitives serde poseidon2 packageText deploymentsText chain identityText = .ok report ↔
      ∃ package generation attestation latestLedger,
        Accepts primitives serde poseidon2 packageText deploymentsText chain identityText package
          generation attestation latestLedger ∧
        report = reportOf package generation attestation latestLedger identityText := by
  simp only [check, readPackage, bind_eq_ok, mapError_eq_ok, forM_eq_ok, checkIdentity_eq_ok,
    findGeneration_eq_ok, checkDepth_eq_ok, readAttestation_eq_ok, checkSnapshot_eq_ok,
    checkRoot_eq_ok, orNoVerdict_eq_ok]
  constructor
  · rintro ⟨package, hread, _, howns, generation, hfinds, _, ⟨hlength, hindex⟩, attestation,
      hattests, _, ⟨hsnapshot, hcontext⟩, recomputed, hrecompute, _, rfl, latestLedger, hlatest,
      hout⟩
    cases hout
    obtain ⟨json, -, hpackage⟩ := parse_eq_ok.mp hread
    obtain ⟨-, hdepth, -, hroot⟩ := (recompute_eq_ok hpackage.id.2 hpackage.commitment.2
      (siblings_lt hpackage)).mp hrecompute
    exact ⟨package, generation, attestation, latestLedger,
      { reads := hread, owns := howns, finds := hfinds, length := hlength, index := hindex
        depth := hdepth, attests := hattests, snapshot := hsnapshot, context := hcontext
        root := hroot, latest := hlatest }, rfl⟩
  · rintro ⟨package, generation, attestation, latestLedger, h, rfl⟩
    obtain ⟨json, -, hpackage⟩ := parse_eq_ok.mp h.reads
    have hrecompute := (recompute_eq_ok hpackage.id.2 hpackage.commitment.2
      (siblings_lt hpackage)).mpr ⟨h.length, h.depth, h.index, h.root⟩
    exact ⟨package, h.reads, (), h.owns, generation, h.finds, (), ⟨h.length, h.index⟩, attestation,
      h.attests, (), ⟨h.snapshot, h.context⟩, _, hrecompute, (), rfl, latestLedger, h.latest, rfl⟩

/-- **An accepted package is the leaf of its index.**  The attested root is that of
a tree, and among the inputs `S` the sponge has no collision. -/
theorem Accepts.isPlaceOf {packageText deploymentsText : String} {chain : Chain}
    {identityText : Option String} {package : Schema.Package} {generation : Deployments.Generation}
    {attestation : Attestation} {latestLedger : U32}
    (h : Accepts primitives serde poseidon2 packageText deploymentsText chain identityText package
      generation attestation latestLedger)
    {S : Set (List Fr)} (hS : Set.InjOn poseidon2 S) {customers : Nat → Fr × Fr}
    (htree : hashedByTree poseidon2 customers generation.treeDepth ⊆ S)
    (hclaim : (claimOf package).hashed poseidon2 ⊆ S)
    (hroot : attestation.finalRoot = (rootOf poseidon2 customers generation.treeDepth).toNat) :
    IsPlaceOf poseidon2 S customers generation.treeDepth (claimOf package) := by
  obtain ⟨json, -, hpackage⟩ := parse_eq_ok.mp h.reads
  have hopens : balanceCommitment poseidon2 (claimOf package).balance (claimOf package).salt =
      (claimOf package).commitment := by
    have hcommitment := toNat_ofNat_of_lt hpackage.commitment.2
    exact BitVec.eq_of_toNat_eq (hpackage.opens.trans hcommitment.symm)
  exact isPlaceOf_of_walk hS htree (canonical_claimOf hpackage) hclaim
    (by rw [claimOf, List.length_map, h.length]) h.index hopens
    (BitVec.eq_of_toNat_eq (h.root.trans hroot))

theorem verifyWithIdentity_eq_included {packageText deploymentsText : String} {chain : Chain}
    {identityText : Option String} {report : Included} :
    verifyWithIdentity primitives serde poseidon2 packageText deploymentsText chain identityText =
        .ok (.included report) ↔
      check primitives serde poseidon2 packageText deploymentsText chain identityText =
        .ok report := by
  unfold verifyWithIdentity
  split <;> simp_all

end
end InclusionVerify
end ZkPoR
