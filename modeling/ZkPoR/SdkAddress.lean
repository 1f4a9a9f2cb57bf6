import ZkPoR.ReserveSets
import ZkPoR.SdkTree

/-! # The addresses of the SDK

The address encoding, the sorted reserve set, the reserve set hash, and the context
hash of the SDK.  The SDK sorts limb pairs where the contract sorts parts, and
computes on integers where the contract lays out bytes; both give one input to the
sponge (`reserveSetHash_eq`, `contextHash_eq`).
-/
namespace ZkPoR.Sdk
open ByteString CheckedInt BoundedLoop InsertionSort

/-! ## `address.ts` -/

/-- `ACCEPTED_TYPES.get(parsed.type)`: an address without a payload has one of the other
types of the library. -/
def acceptedTag : Address → Option Nat
  | .ofPayload (.accountIdPublicKeyEd25519 _) => some ADDRESS_TAG_ACCOUNT.toNat
  | .ofPayload (.contractIdHash _) => some ADDRESS_TAG_CONTRACT.toNat
  | .other _ => none

/-- `parsed.toBuffer()` -/
def toBuffer : Address → Bytes
  | .ofPayload (.accountIdPublicKeyEd25519 key) => key.toList
  | .ofPayload (.contractIdHash id) => id.toList
  | .other xdr => xdr

/-- What the address functions throw. -/
inductive AddressFailure
  | addressType (address : Address)
  | reserveSet (message : String)
  | other (message : String)
deriving DecidableEq

structure AddressParts where
  tag : Nat
  payload : Bytes
deriving DecidableEq

/-- The two field elements that carry one accepted address. -/
@[ext]
structure AddressLimbs where
  hi : Nat
  lo : Nat
deriving DecidableEq

/-- Reads an accepted address. -/
def addressParts (address : Address) : Except AddressFailure AddressParts :=
  match acceptedTag address with
  | none => .error (.addressType address)
  | some tag =>
    if (toBuffer address).length ≠ 32 then .error (.addressType address)
    else .ok { tag, payload := toBuffer address }

/-- Reads a big-endian byte array as an unsigned integer. -/
def bytesToBigint (bytes : Bytes) : Nat :=
  bytes.foldl (fun value byte => value <<< 8 ||| byte.toNat) 0

/-- Encodes an accepted address into two field elements. -/
def encodeAddress (address : Address) : Except AddressFailure AddressLimbs := do
  let parts ← addressParts address
  return {
    hi := parts.tag * 2 ^ (ADDRESS_LIMB_BYTES * 8) +
      bytesToBigint (parts.payload.take ADDRESS_LIMB_BYTES)
    lo := bytesToBigint (parts.payload.drop ADDRESS_LIMB_BYTES) }

/-- Orders two addresses by their limbs. -/
def compareLimbs (left right : AddressLimbs) : Int :=
  if left.hi ≠ right.hi then (if left.hi < right.hi then -1 else 1)
  else if left.lo ≠ right.lo then (if left.lo < right.lo then -1 else 1)
  else 0

/-- The scan for a member that is equal to the one before it. -/
def scanRepeat : Option AddressLimbs → List AddressLimbs → Bool
  | _, [] => false
  | none, current :: limbs => scanRepeat (some current) limbs
  | some previous, current :: limbs =>
    if compareLimbs previous current = 0 then true else scanRepeat (some current) limbs

/-- Sorts a reserve set and rejects a set that breaks a rule of the set.  The sort of
the language is stable. -/
def sortedReserveSet (addresses : List Address) : Except AddressFailure (List AddressLimbs) :=
  if addresses.length = 0 then
    .error (.reserveSet "a reserve set holds at least one address")
  else if addresses.length > MAX_RESERVE_ADDRESSES then
    .error (.reserveSet (s!"a reserve set holds at most {MAX_RESERVE_ADDRESSES} addresses, " ++
      s!"not {addresses.length}"))
  else
    match addresses.mapM encodeAddress with
    | .error failure => .error failure
    | .ok limbs =>
      let sorted := limbs.mergeSort fun left right => compareLimbs left right ≤ 0
      if scanRepeat none sorted then
        .error (.reserveSet "a reserve set holds each address once")
      else .ok sorted

/-- The list that `reserveSetHash` hashes. -/
def limbInputs (limbs : List AddressLimbs) : List Nat := limbs.flatMap fun limb => [limb.hi, limb.lo]

/-- The commitment to the set of authorized reserve addresses. -/
def reserveSetHash (poseidon2 : List Fr → Fr) (addresses : List Address) :
    Except AddressFailure Nat := do
  let limbs ← sortedReserveSet addresses
  (hash poseidon2 (limbInputs limbs)).mapError .other

/-! ## The context hash -/

def requireLedger (ledger : Int) (field : String) : Except AddressFailure Unit :=
  if ledger < 0 ∨ ledger > MAX_U32 then
    .error (.other s!"{field} must be a ledger sequence that a u32 holds")
  else .ok ()

/-- The list that `contextHash` hashes. -/
def contextInputs (authority asset : AddressLimbs) (reserveSetHash : Nat) (snapshotLedger : Int) :
    List Nat :=
  [ctxDomainTag.toNat, authority.hi, authority.lo, asset.hi, asset.lo, reserveSetHash,
    snapshotLedger.toNat]

/-- The value that binds an attestation to its authority, asset, reserve set, and
snapshot ledger. -/
def contextHash (poseidon2 : List Fr → Fr) (authority asset : Address) (reserveSetHash : Nat)
    (snapshotLedger : Int) : Except AddressFailure Nat := do
  requireLedger snapshotLedger "the snapshot ledger"
  if ¬ inRange reserveSetHash then
    .error (.other "the reserve set hash is not a field element")
  else do
    let authority ← encodeAddress authority
    let asset ← encodeAddress asset
    (hash poseidon2 (contextInputs authority asset reserveSetHash snapshotLedger)).mapError .other

/-! ## The encoding is that of the contract -/

section
variable {poseidon2 : List Fr → Fr}

theorem bytesToBigint_eq (bytes : Bytes) : bytesToBigint bytes = beNat bytes := by
  induction bytes using List.reverseRecOn with
  | nil => rfl
  | append_singleton bytes byte ih =>
    have hbyte : byte.toNat < 2 ^ 8 := byte.toNat_lt
    rw [beNat_concat, ← ih]
    simp only [bytesToBigint, List.foldl_append, List.foldl_cons, List.foldl_nil]
    rw [← Nat.shiftLeft_add_eq_or_of_lt hbyte, Nat.shiftLeft_eq]

/-- The limbs of the contract, as the SDK holds them. -/
def limbsOf (parts : ZkPoR.AddressParts) : AddressLimbs :=
  ⟨(encodeParts parts).1.toNat, (encodeParts parts).2.toNat⟩

theorem limbsOf_injective : Function.Injective limbsOf := by
  intro p q h
  have hhi := congrArg AddressLimbs.hi h
  have hlo := congrArg AddressLimbs.lo h
  exact encodeParts_injective (Prod.ext (BitVec.eq_of_toNat_eq hhi) (BitVec.eq_of_toNat_eq hlo))

/-- **One encoding.**  The SDK reads the addresses that the contract reads, to the same
limbs. -/
theorem encodeAddress_eq (address : Address) :
    encodeAddress address = match ZkPoR.addressParts address with
      | .ok parts => .ok (limbsOf parts)
      | .error _ => .error (.addressType address) := by
  have hpayload : ∀ (tag : U32) (payload : BytesN 32), limbsOf ⟨tag, payload⟩ =
      { hi := tag.toNat * 2 ^ (ADDRESS_LIMB_BYTES * 8) +
          bytesToBigint (payload.toList.take ADDRESS_LIMB_BYTES)
        lo := bytesToBigint (payload.toList.drop ADDRESS_LIMB_BYTES) } := by
    intro tag payload
    rw [bytesToBigint_eq, bytesToBigint_eq]
    exact AddressLimbs.ext (encodeParts_hi ⟨tag, payload⟩) (encodeParts_lo ⟨tag, payload⟩)
  rcases address with (key | id) | xdr
  · have hlength : key.toList.length = 32 := key.toList_length
    simp only [encodeAddress, addressParts, acceptedTag, toBuffer, hlength, ZkPoR.addressParts,
      Address.toPayload, hpayload]
    rfl
  · have hlength : id.toList.length = 32 := id.toList_length
    simp only [encodeAddress, addressParts, acceptedTag, toBuffer, hlength, ZkPoR.addressParts,
      Address.toPayload, hpayload]
    rfl
  · rfl

/-- The limb pairs of a list, where every address is accepted. -/
theorem mapM_encodeAddress (addresses : List Address) :
    (∀ parts, addresses.mapM ZkPoR.addressParts = .ok parts →
      addresses.mapM encodeAddress = .ok (parts.map limbsOf)) ∧
    ∀ reason, addresses.mapM ZkPoR.addressParts = .error reason →
      ∃ failure, addresses.mapM encodeAddress = .error failure := by
  -- both encodings refuse the same address first
  induction addresses with
  | nil =>
    refine ⟨fun parts h => ?_, fun reason h => by cases h⟩
    cases h
    rfl
  | cons address addresses ih =>
    have hencode := encodeAddress_eq address
    rw [List.mapM_cons, List.mapM_cons]
    cases hparts : ZkPoR.addressParts address with
    | error reason =>
      rw [hparts] at hencode
      refine ⟨fun parts h => ?_, fun _ _ => ⟨_, by rw [hencode]; rfl⟩⟩
      cases h
    | ok p =>
      rw [hparts] at hencode
      rw [hencode]
      cases hrest : addresses.mapM ZkPoR.addressParts with
      | error reason =>
        obtain ⟨failure, hfailure⟩ := ih.2 reason hrest
        refine ⟨fun parts h => ?_, fun _ _ => ⟨failure, by rw [hfailure]; rfl⟩⟩
        cases h
      | ok rest =>
        refine ⟨fun parts h => ?_, fun reason h => by cases h⟩
        cases h
        rw [ih.1 rest hrest]
        rfl

/-! ## Both sorts agree -/

theorem compareLimbs_le_iff (p q : ZkPoR.AddressParts) :
    compareLimbs (limbsOf p) (limbsOf q) ≤ 0 ↔ p ≤ q := by
  rw [le_iff_limbs]
  unfold compareLimbs limbsOf
  dsimp only
  split
  · split <;> omega
  · split
    · split <;> omega
    · omega

theorem compareLimbs_eq_zero {left right : AddressLimbs} :
    compareLimbs left right = 0 ↔ left = right := by
  unfold compareLimbs
  constructor
  · intro h
    split at h
    · split at h <;> cases h
    split at h
    · split at h <;> cases h
    rename_i hhi hlo
    exact AddressLimbs.ext (not_not.mp hhi) (not_not.mp hlo)
  · rintro rfl
    simp

/-- **Two sort keys, one order.**  Sorting the limb pairs gives the limb pairs of the
sorted parts. -/
theorem mergeSort_limbs (parts : List ZkPoR.AddressParts) :
    (parts.map limbsOf).mergeSort (fun left right => compareLimbs left right ≤ 0) =
      (insertionSort parts).map limbsOf := by
  have hmerge : parts.mergeSort (fun p q => decide (p ≤ q)) = insertionSort parts := by
    refine eq_insertionSort (List.mergeSort_perm _ _) ?_
    have hsorted : (parts.mergeSort fun p q => decide (p ≤ q)).Pairwise fun p q =>
        decide (p ≤ q) = true := List.pairwise_mergeSort
      (fun a b c hab hbc => decide_eq_true ((of_decide_eq_true hab).trans (of_decide_eq_true hbc)))
      (fun a b => by simpa using le_total a b) parts
    exact hsorted.imp fun h => of_decide_eq_true h
  rw [← hmerge]
  refine (List.map_mergeSort fun p _ q _ => ?_).symm
  rw [Bool.eq_iff_iff, decide_eq_true_eq, decide_eq_true_eq]
  exact (compareLimbs_le_iff p q).symm

/-- The scan finds two equal neighbours. -/
theorem scanRepeat_eq_false {previous : Option AddressLimbs} {limbs : List AddressLimbs} :
    scanRepeat previous limbs = false ↔
      (previous.toList ++ limbs).IsChain (· ≠ ·) := by
  induction limbs generalizing previous with
  | nil => cases previous <;> simp [scanRepeat]
  | cons current limbs ih =>
    cases previous with
    | none =>
      rw [scanRepeat, ih]
      rfl
    | some previous =>
      rw [scanRepeat]
      split
      · rename_i h
        simp [compareLimbs_eq_zero.mp h]
      · rename_i h
        rw [ih]
        have hne : previous ≠ current := fun heq => h (compareLimbs_eq_zero.mpr heq)
        simp [hne]

/-- On a sorted list, the scan finds every repetition. -/
theorem scanRepeat_sorted (parts : List ZkPoR.AddressParts) :
    scanRepeat none ((insertionSort parts).map limbsOf) = false ↔ parts.Nodup := by
  rw [scanRepeat_eq_false, Option.toList_none, List.nil_append, List.isChain_map,
    ← (insertionSort_perm parts).nodup_iff]
  constructor
  · intro h
    have hlt : (insertionSort parts).IsChain (· < ·) :=
      List.isChain_iff_getElem.mpr fun i hi => by
        have hle := List.isChain_iff_getElem.mp (insertionSort_sorted parts).isChain i hi
        have hne := List.isChain_iff_getElem.mp h i hi
        exact lt_of_le_of_ne hle fun heq => hne (congrArg limbsOf heq)
    exact hlt.pairwise.imp fun h => h.ne
  · intro h
    refine (h.isChain).imp fun p q hne heq => hne (limbsOf_injective heq)

/-- What the SDK hashes is what the contract hashes. -/
theorem limbInputs_map (parts : List ZkPoR.AddressParts) :
    limbInputs (parts.map limbsOf) = (limbs parts).map BitVec.toNat := by
  rw [limbInputs, limbs, List.flatMap_map, List.map_flatMap]
  rfl

/-- **The sorted set of the SDK.** -/
theorem sortedReserveSet_eq_ok {addresses : List Address} {sorted : List AddressLimbs} :
    sortedReserveSet addresses = .ok sorted ↔
      ReserveSet addresses ∧ ∃ parts, addresses.mapM ZkPoR.addressParts = .ok parts ∧
        sorted = (insertionSort parts).map limbsOf := by
  unfold sortedReserveSet
  constructor
  · intro h
    split at h
    · cases h
    split at h
    · cases h
    rename_i hempty hmany
    cases hparts : addresses.mapM ZkPoR.addressParts with
    | error reason =>
      obtain ⟨failure, hfailure⟩ := (mapM_encodeAddress addresses).2 reason hparts
      rw [hfailure] at h
      cases h
    | ok parts =>
      rw [(mapM_encodeAddress addresses).1 parts hparts] at h
      dsimp only at h
      rw [mergeSort_limbs] at h
      split at h
      · cases h
      -- the scan of the sorted limbs found no repeat, and limbs name addresses
      rename_i hscan
      cases h
      have hall := mapM_addressParts_eq_ok.mp hparts
      refine ⟨⟨by omega, by omega, fun address hmem => ?_, ?_⟩, parts, rfl, rfl⟩
      · obtain ⟨i, hi, rfl⟩ := List.getElem_of_mem hmem
        exact accepted_of_addressParts (hall.get hi (hall.length_eq ▸ hi))
      · exact (nodup_of_mapM_addressParts hall).mp
          ((scanRepeat_sorted parts).mp (Bool.eq_false_iff.mpr hscan))
  · rintro ⟨hset, parts, hparts, rfl⟩
    have hempty : addresses.length ≠ 0 := by have := hset.nonempty; omega
    have hmany : ¬ addresses.length > MAX_RESERVE_ADDRESSES := by have := hset.bounded; omega
    have hscan : scanRepeat none ((insertionSort parts).map limbsOf) = false :=
      (scanRepeat_sorted parts).mpr
        ((nodup_of_mapM_addressParts (mapM_addressParts_eq_ok.mp hparts)).mpr hset.distinct)
    rw [if_neg hempty, if_neg hmany, (mapM_encodeAddress addresses).1 parts hparts]
    dsimp only
    rw [mergeSort_limbs, hscan]
    rfl

theorem mapError_eq_ok {α ε ε' : Type} {x : Except ε α} {f : ε → ε'} {a : α} :
    x.mapError f = .ok a ↔ x = .ok a := by
  cases x <;> simp [Except.mapError]

/-- **One reserve set hash.**  The SDK takes the lists that the contract takes, to the
same value. -/
theorem reserveSetHash_eq {addresses : List Address} {value : Nat} :
    reserveSetHash poseidon2 addresses = .ok value ↔
      ∃ out, ZkPoR.reserveSetHash poseidon2 addresses = .ok out ∧ out.toNat = value := by
  have hhash : ∀ parts : List ZkPoR.AddressParts, insertionSort parts ≠ [] →
      hash poseidon2 (limbInputs ((insertionSort parts).map limbsOf)) =
        .ok (ZkPoR.hash poseidon2 (limbs (insertionSort parts))).toNat := by
    intro parts hne
    rw [limbInputs_map]
    exact hash_eq (limbs_ne_nil hne) fun x hx => frInRange_limbs hx
  have hsorted : ∀ parts, ReserveSet addresses → addresses.mapM ZkPoR.addressParts = .ok parts →
      insertionSort parts ≠ [] := by
    intro parts hset hparts hnil
    have hlength := (insertionSort_perm parts).length_eq
    have hmap := (mapM_addressParts_eq_ok.mp hparts).length_eq
    have hnonempty := hset.nonempty
    rw [hnil, List.length_nil] at hlength
    omega
  simp only [reserveSetHash, bind_eq_ok, mapError_eq_ok, sortedReserveSet_eq_ok,
    reserveSetHash_eq_ok]
  constructor
  · rintro ⟨sorted, ⟨hset, parts, hparts, rfl⟩, h⟩
    rw [hhash parts (hsorted parts hset hparts)] at h
    exact ⟨_, ⟨hset, parts, hparts, rfl⟩, Except.ok.inj h⟩
  · rintro ⟨out, ⟨hset, parts, hparts, rfl⟩, rfl⟩
    exact ⟨_, ⟨hset, parts, hparts, rfl⟩, hhash parts (hsorted parts hset hparts)⟩

end
end ZkPoR.Sdk
