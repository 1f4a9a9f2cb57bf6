import ZkPoR.Field
import ZkPoR.InsertionSort
import Mathlib.Data.List.Lex
import Mathlib.Data.List.Forall2

/-! # The shared encoding of the proof of reserves context

The address encoding, the reserve set hash, the context hash, the two hashes of
a customer leaf, and the salt derivation, as `zkpor-context` computes them.  The
registry, the generator, and the customer tools all call these functions.

The sponge is the parameter `poseidon2`, a function on lists of field elements.
The host reduces every input before it hashes, so a value that is not a field
element enters as its reduction.
-/
namespace ZkPoR
open ByteString CheckedInt InsertionSort

/-- What an accepted address carries. -/
inductive AddressPayload
  | accountIdPublicKeyEd25519 (key : BytesN 32)
  | contractIdHash (id : BytesN 32)
deriving DecidableEq

/-- An address of the network: an account or a contract, or one of the kinds that
answer no payload. -/
inductive Address
  | ofPayload (payload : AddressPayload)
  | other (xdr : Bytes)
deriving DecidableEq

/-- The payload of an account or a contract address. -/
def Address.toPayload : Address → Option AddressPayload
  | ofPayload payload => some payload
  | other _ => none

inductive ContextError
  | unsupportedAddressType
  | emptyReserveSet
  | tooManyReserveAddresses
  | duplicateReserveAddress
deriving DecidableEq

/-- Byte length of one address limb. -/
def ADDRESS_LIMB_BYTES : Nat := 16
/-- Tag of an account address. -/
def ADDRESS_TAG_ACCOUNT : U32 := 0
/-- Tag of a contract address. -/
def ADDRESS_TAG_CONTRACT : U32 := 1
/-- Largest accepted reserve address count. -/
def MAX_RESERVE_ADDRESSES : Nat := 32
/-- Age window of an attestation, in ledgers. -/
def ATTESTATION_MAX_AGE_LEDGERS : U32 := 720
/-- Identifier of a padding leaf. -/
def PADDING_LEAF_ID : Nat := 0
/-- Balance of a padding leaf. -/
def PADDING_LEAF_BALANCE : U64 := 0

/-- The bytes of an ASCII text. -/
def ascii (text : List Char) : Bytes := text.map fun c => UInt8.ofNat c.toNat

def CTX_DOMAIN_TAG_ASCII : Bytes :=
  ascii ['z', 'k', 'p', 'o', 'r', '-', 'c', 'o', 'n', 't', 'e', 'x', 't', '-', 'v', '1']
def SALT_DOMAIN_TAG_ASCII : Bytes :=
  ascii ['z', 'k', 'p', 'o', 'r', '-', 's', 'a', 'l', 't', '-', 'v', '1']
def BALANCE_DOMAIN_TAG_ASCII : Bytes :=
  ascii ['z', 'k', 'p', 'o', 'r', '-', 'b', 'a', 'l', 'a', 'n', 'c', 'e', '-', 'v', '1']
def LEAF_DOMAIN_TAG_ASCII : Bytes :=
  ascii ['z', 'k', 'p', 'o', 'r', '-', 'l', 'e', 'a', 'f', '-', 'v', '2']

/-- A domain tag as an integer: the text, left-padded with zero bytes. -/
def domainTag (text : Bytes) : U256 :=
  frFromBe (List.replicate (FR_BYTES - text.length) 0 ++ text)

def ctxDomainTag : U256 := domainTag CTX_DOMAIN_TAG_ASCII
def saltDomainTag : U256 := domainTag SALT_DOMAIN_TAG_ASCII
def balanceDomainTag : U256 := domainTag BALANCE_DOMAIN_TAG_ASCII
def leafDomainTag : U256 := domainTag LEAF_DOMAIN_TAG_ASCII

/-- The tag and the payload of an accepted address. -/
@[ext]
structure AddressParts where
  tag : U32
  payload : BytesN 32
deriving DecidableEq

/-- Tag first, then the payload bytes: two parts compare as these lists do. -/
def AddressParts.key (parts : AddressParts) : List Nat :=
  parts.tag.toNat :: parts.payload.toList.map UInt8.toNat

theorem AddressParts.key_injective : Function.Injective AddressParts.key := by
  intro a b h
  obtain ⟨htag, hpayload⟩ := List.cons.inj h
  have hbytes : a.payload.toList = b.payload.toList :=
    List.map_injective_iff.mpr (fun x y hxy => UInt8.toNat_inj.mp hxy) hpayload
  exact AddressParts.ext (BitVec.eq_of_toNat_eq htag) (List.Vector.toList_injective hbytes)

instance : LinearOrder AddressParts := LinearOrder.lift' AddressParts.key AddressParts.key_injective

def addressParts (address : Address) : Except ContextError AddressParts :=
  match address.toPayload with
  | some (.accountIdPublicKeyEd25519 key) => .ok ⟨ADDRESS_TAG_ACCOUNT, key⟩
  | some (.contractIdHash id) => .ok ⟨ADDRESS_TAG_CONTRACT, id⟩
  | none => .error .unsupportedAddressType

/-- The limb pair `(tag * 2^128 + payload[0..16], payload[16..32])`. -/
def encodeParts (parts : AddressParts) : U256 × U256 :=
  (frFromBe (toBe ADDRESS_LIMB_BYTES parts.tag.toNat ++
      parts.payload.toList.take ADDRESS_LIMB_BYTES),
    frFromBe (List.replicate ADDRESS_LIMB_BYTES 0 ++
      parts.payload.toList.drop ADDRESS_LIMB_BYTES))

/-- Encodes an accepted address into two field elements. -/
def encodeAddress (address : Address) : Except ContextError (U256 × U256) :=
  (addressParts address).map encodeParts

section Hashes
variable (poseidon2 : List Fr → Fr)

/-- The sponge on integers: the host reduces the inputs, and the result is
canonical. -/
def hash (inputs : List U256) : U256 := ofFr (poseidon2 (inputs.map toFr))

/-- The limb pairs of a list of parts, in order. -/
def limbs (parts : List AddressParts) : List U256 :=
  parts.flatMap fun parts => [(encodeParts parts).1, (encodeParts parts).2]

/-- Commits to the set of authorized reserve addresses. -/
def reserveSetHash (reserves : List Address) : Except ContextError U256 :=
  if reserves.length = 0 then
    .error .emptyReserveSet
  else if reserves.length > MAX_RESERVE_ADDRESSES then
    .error .tooManyReserveAddresses
  else
    match reserves.mapM addressParts with
    | .error reason => .error reason
    | .ok parts =>
      let sorted := insertionSort parts
      if hasEqualNeighbours sorted then
        .error .duplicateReserveAddress
      else
        .ok (hash poseidon2 (limbs sorted))

/-- Binds a proof to one authority, one asset, one reserve address set, and one
snapshot ledger. -/
def contextHash (authority asset : Address) (reserveSet : U256) (snapshotLedger : U32) :
    Except ContextError U256 :=
  match encodeAddress authority, encodeAddress asset with
  | .error reason, _ => .error reason
  | _, .error reason => .error reason
  | .ok (authorityHi, authorityLo), .ok (assetHi, assetLo) =>
    .ok (hash poseidon2 [ctxDomainTag, authorityHi, authorityLo, assetHi, assetLo, reserveSet,
      BitVec.ofNat 256 snapshotLedger.toNat])

/-- Hashes one internal node of the liabilities tree. -/
def nodeHash (left right : U256) : U256 := hash poseidon2 [left, right]

/-- Commits to one balance without revealing it from the customer leaf. -/
def balanceCommitment (balance : U64) (salt : U256) : U256 :=
  hash poseidon2 [balanceDomainTag, BitVec.ofNat 256 balance.toNat, salt]

/-- Hashes one identifier and its balance commitment into a customer leaf. -/
def leafHash (id commitment : U256) : U256 := hash poseidon2 [leafDomainTag, id, commitment]

/-- Derives the salt of the leaf at one global index. -/
def deriveSalt (masterSecret context : U256) (globalIndex : U64) : U256 :=
  hash poseidon2 [saltDomainTag, masterSecret, context, BitVec.ofNat 256 globalIndex.toNat]

/-- Every hash is a field element. -/
theorem frInRange_hash (inputs : List U256) : frInRange (hash poseidon2 inputs) :=
  frInRange_ofFr _

end Hashes

/-! ## What the reserve set hash accepts -/

theorem addressParts_eq_ok {address : Address} {parts : AddressParts} :
    addressParts address = .ok parts ↔
      (∃ key, address = .ofPayload (.accountIdPublicKeyEd25519 key) ∧
        parts = ⟨ADDRESS_TAG_ACCOUNT, key⟩) ∨
      (∃ id, address = .ofPayload (.contractIdHash id) ∧
        parts = ⟨ADDRESS_TAG_CONTRACT, id⟩) := by
  unfold addressParts
  rcases address with (key | id) | xdr <;> simp [Address.toPayload, eq_comm]

/-- Distinct accepted addresses have distinct parts, because the tag tells an
account from a contract. -/
theorem addressParts_injOn {a b : Address} {parts : AddressParts}
    (ha : addressParts a = .ok parts) (hb : addressParts b = .ok parts) : a = b := by
  rcases addressParts_eq_ok.mp ha with ⟨k, rfl, rfl⟩ | ⟨k, rfl, rfl⟩ <;>
    rcases addressParts_eq_ok.mp hb with ⟨k', rfl, h⟩ | ⟨k', rfl, h⟩ <;>
    simp [ADDRESS_TAG_ACCOUNT, ADDRESS_TAG_CONTRACT] at h
  · rw [h]
  · rw [h]

/-- The limb pair names the parts. -/
theorem encodeParts_injective : Function.Injective encodeParts := by
  intro a b h
  have hlen : ∀ p : AddressParts, p.payload.toList.length = 32 := fun p => p.payload.toList_length
  obtain ⟨hhi, hlo⟩ := Prod.mk.inj h
  have hfirst := frFromBe_inj (by simp [hlen, ADDRESS_LIMB_BYTES, FR_BYTES])
    (by simp [hlen, ADDRESS_LIMB_BYTES, FR_BYTES]) hhi
  have hsecond := frFromBe_inj (by simp [hlen, ADDRESS_LIMB_BYTES, FR_BYTES])
    (by simp [hlen, ADDRESS_LIMB_BYTES, FR_BYTES]) hlo
  obtain ⟨htag, htake⟩ := List.append_inj hfirst (by simp)
  have hdrop := List.append_cancel_left hsecond
  have hbound : ∀ p : AddressParts, p.tag.toNat < 256 ^ ADDRESS_LIMB_BYTES := fun p =>
    p.tag.isLt.trans (by norm_num [ADDRESS_LIMB_BYTES])
  have hnat := congrArg beNat htag
  rw [beNat_toBe_of_lt (hbound a), beNat_toBe_of_lt (hbound b)] at hnat
  refine AddressParts.ext (BitVec.eq_of_toNat_eq hnat) (List.Vector.toList_injective ?_)
  rw [← List.take_append_drop ADDRESS_LIMB_BYTES a.payload.toList, htake, hdrop,
    List.take_append_drop]

/-- Distinct accepted addresses have distinct encodings. -/
theorem encodeAddress_injOn {a b : Address} {limbs : U256 × U256}
    (ha : encodeAddress a = .ok limbs) (hb : encodeAddress b = .ok limbs) : a = b := by
  unfold encodeAddress at ha hb
  cases hpa : addressParts a with
  | error reason =>
    rw [hpa] at ha
    cases ha
  | ok parts =>
    cases hpb : addressParts b with
    | error reason =>
      rw [hpb] at hb
      cases hb
    | ok parts' =>
      rw [hpa] at ha
      rw [hpb] at hb
      obtain rfl := encodeParts_injective (Except.ok.inj (ha.trans hb.symm))
      exact addressParts_injOn hpa hpb

/-- The type of an address is one that the protocol accepts. -/
def Address.Accepted (address : Address) : Prop := ∃ payload, address = .ofPayload payload

theorem accepted_of_addressParts {address : Address} {parts : AddressParts}
    (h : addressParts address = .ok parts) : address.Accepted := by
  rcases addressParts_eq_ok.mp h with ⟨k, rfl, _⟩ | ⟨k, rfl, _⟩ <;> exact ⟨_, rfl⟩

/-- The parts of a list of addresses, one for each address in order. -/
theorem mapM_addressParts_eq_ok {reserves : List Address} {parts : List AddressParts} :
    reserves.mapM addressParts = .ok parts ↔
      List.Forall₂ (fun address p => addressParts address = .ok p) reserves parts := by
  induction reserves generalizing parts with
  | nil => simp [pure, Except.pure, eq_comm]
  | cons address reserves ih =>
    rw [List.mapM_cons]
    cases ha : addressParts address with
    | error e => simp [bind, Except.bind, ha, List.forall₂_cons_left_iff]
    | ok p =>
      cases hr : reserves.mapM addressParts with
      | error e =>
        have hnone : ∀ ps, ¬ List.Forall₂ (fun address p => addressParts address = .ok p)
            reserves ps := fun ps hps => by rw [ih.mpr hps] at hr; cases hr
        simp [bind, Except.bind, ha, List.forall₂_cons_left_iff, hnone]
      | ok ps =>
        have hps := ih.mp hr
        simp only [bind, Except.bind, pure, Except.pure, Except.ok.injEq,
          List.forall₂_cons_left_iff, ha]
        constructor
        · rintro rfl
          exact ⟨p, ps, rfl, hps, rfl⟩
        · rintro ⟨p', ps', rfl, hps', rfl⟩
          rw [ih.mpr hps', Except.ok.injEq] at hr
          rw [hr]

/-- The parts repeat exactly when the addresses do. -/
theorem nodup_of_mapM_addressParts {reserves : List Address} {parts : List AddressParts}
    (h : List.Forall₂ (fun address p => addressParts address = .ok p) reserves parts) :
    parts.Nodup ↔ reserves.Nodup := by
  have hunique : Relator.BiUnique fun address p => addressParts address = .ok p :=
    ⟨fun _ _ _ ha hb => addressParts_injOn ha hb,
      fun _ _ _ ha hb => Except.ok.inj (ha.symm.trans hb)⟩
  induction h with
  | nil => simp
  | cons hap hrest ih =>
    rw [List.nodup_cons, List.nodup_cons]
    exact and_congr (not_congr (List.rel_mem hunique hap hrest).symm) ih

/-- **What a reserve set hash says about its list.**  The list holds 1 to 32
addresses of accepted types, and names none twice. -/
structure ReserveSet (reserves : List Address) : Prop where
  nonempty : 1 ≤ reserves.length
  bounded : reserves.length ≤ MAX_RESERVE_ADDRESSES
  accepted : ∀ reserve ∈ reserves, reserve.Accepted
  distinct : reserves.Nodup

/-- **The reserve set hash accepts exactly the reserve sets.** -/
theorem reserveSetHash_eq_ok {poseidon2 : List Fr → Fr} {reserves : List Address}
    {value : U256} :
    reserveSetHash poseidon2 reserves = .ok value ↔
      ReserveSet reserves ∧ ∃ parts, reserves.mapM addressParts = .ok parts ∧
        value = hash poseidon2 (limbs (insertionSort parts)) := by
  unfold reserveSetHash
  constructor
  · intro h
    split at h
    · cases h
    split at h
    · cases h
    rename_i hempty hmany
    cases hparts : reserves.mapM addressParts with
    | error reason => simp [hparts] at h
    | ok parts =>
      rw [hparts] at h
      dsimp only at h
      split at h
      · cases h
      rename_i hdup
      have hall := mapM_addressParts_eq_ok.mp hparts
      refine ⟨⟨by omega, by omega, fun reserve hmem => ?_, ?_⟩, parts, rfl, (Except.ok.inj h).symm⟩
      · obtain ⟨i, hi, rfl⟩ := List.getElem_of_mem hmem
        exact accepted_of_addressParts (hall.get hi (hall.length_eq ▸ hi))
      · exact (nodup_of_mapM_addressParts hall).mp
          (hasEqualNeighbours_insertionSort.mp (by simpa using hdup))
  · rintro ⟨hset, parts, hparts, rfl⟩
    have hempty : reserves.length ≠ 0 := by have := hset.nonempty; omega
    have hdup : hasEqualNeighbours (insertionSort parts) = false :=
      hasEqualNeighbours_insertionSort.mpr
        ((nodup_of_mapM_addressParts (mapM_addressParts_eq_ok.mp hparts)).mpr hset.distinct)
    simp [hempty, hset.bounded, hparts, hdup]

end ZkPoR
