import ZkPoR.Registry
import ZkPoR.SdkAddress

/-! # What a reserve set hash and a context hash name

`reserveSetHash_exact` is the law of the reserve set hash, and `context_binding` that
of the context hash over it: a value names one authority, one asset, one set, and one
ledger, and so do the public inputs of a proof.  The sponge has no collision among the
inputs `S` that the two sides hash; injectivity outright is the case of all inputs.
-/
namespace ZkPoR
open CheckedInt BoundedLoop InsertionSort

/-! ## The reserve set hash -/

/-- **The reserve set hash.**  It takes 1 to 32 distinct accepted addresses; the sort
in place gives the only sorted permutation; the order of the list does not count;
equal values come from one set; and the SDK computes the same function. -/
theorem reserveSetHash_exact (poseidon2 : List Fr → Fr) :
    (∀ reserves, (∃ value, reserveSetHashInPlace poseidon2 reserves = .ok value) ↔
      1 ≤ reserves.length ∧ reserves.length ≤ 32 ∧
        (∀ reserve ∈ reserves, reserve.Accepted) ∧ reserves.Nodup) ∧
    (∀ parts pad : List AddressParts,
      let sorted := (sortSlots parts.length (parts ++ pad)).take parts.length
      sorted.Perm parts ∧ sorted.Pairwise (· ≤ ·) ∧
        ∀ other : List AddressParts, other.Perm parts → other.Pairwise (· ≤ ·) →
          other = sorted) ∧
    (∀ reserves reserves' value, reserves.Perm reserves' →
      reserveSetHashInPlace poseidon2 reserves = .ok value →
      reserveSetHashInPlace poseidon2 reserves' = .ok value) ∧
    (∀ S, Set.InjOn poseidon2 S → ∀ reserves reserves' value value',
      reserveSetHashInPlace poseidon2 reserves = .ok value →
      reserveSetHashInPlace poseidon2 reserves' = .ok value' →
      reserveInput reserves ∈ S → reserveInput reserves' ∈ S →
      (value = value' ↔ reserves.Perm reserves')) ∧
    ∀ reserves value, Sdk.reserveSetHash poseidon2 reserves = .ok value ↔
      ∃ out, reserveSetHashInPlace poseidon2 reserves = .ok out ∧ out.toNat = value := by
  simp only [reserveSetHashInPlace_eq]
  refine ⟨fun reserves => ?_, fun parts pad => ?_, fun _ _ _ => reserveSetHash_perm,
    fun S hS _ _ _ _ h h' hmem hmem' => reserveSetHash_binds hS h h' hmem hmem',
    fun _ _ => Sdk.reserveSetHash_eq⟩
  · rw [exists_reserveSetHash]
    constructor
    · intro h
      exact ⟨h.nonempty, h.bounded, h.accepted, h.distinct⟩
    · rintro ⟨hnonempty, hbounded, haccepted, hdistinct⟩
      exact ⟨hnonempty, hbounded, haccepted, hdistinct⟩
  · rw [sortSlots_eq, List.take_left' (insertionSort_perm parts).length_eq]
    exact ⟨insertionSort_perm parts, insertionSort_sorted parts,
      fun other hperm hother => eq_insertionSort hperm hother⟩

/-! ## The context hash -/

/-- What a context hash binds a proof to. -/
structure SnapshotContext where
  authority : Address
  asset : Address
  reserves : List Address
  snapshotLedger : U32

/-- The lists that the two hashes of a context take, before the host reduces them. -/
structure Preimages (α : Type) where
  reserves : List α
  context : List α

section
variable (poseidon2 : List Fr → Fr)

/-- The seven inputs of the context hash. -/
def contextInputs (authority asset : U256 × U256) (reserveSet : U256) (snapshotLedger : U32) :
    List U256 :=
  [ctxDomainTag, authority.1, authority.2, asset.1, asset.2, reserveSet,
    BitVec.ofNat 256 snapshotLedger.toNat]

namespace SnapshotContext

/-- The context hash over the reserve set hash. -/
def value (c : SnapshotContext) : Except ContextError U256 := do
  let reserveSet ← reserveSetHash poseidon2 c.reserves
  contextHash poseidon2 c.authority c.asset reserveSet c.snapshotLedger

/-- What the Rust functions hash. -/
def preimages (c : SnapshotContext) : Except ContextError (Preimages U256) := do
  let parts ← c.reserves.mapM addressParts
  let authority ← encodeAddress c.authority
  let asset ← encodeAddress c.asset
  let reserves := limbs (insertionSort parts)
  return {
    reserves
    context := contextInputs authority asset (hash poseidon2 reserves) c.snapshotLedger }

/-- The value of the SDK. -/
def sdkValue (c : SnapshotContext) : Except Sdk.AddressFailure Nat := do
  let reserveSet ← Sdk.reserveSetHash poseidon2 c.reserves
  Sdk.contextHash poseidon2 c.authority c.asset reserveSet c.snapshotLedger.toNat

/-- What the SDK hashes. -/
def sdkPreimages (c : SnapshotContext) : Except Sdk.AddressFailure (Preimages Nat) := do
  let limbs ← Sdk.sortedReserveSet c.reserves
  let reserveSet ← Sdk.reserveSetHash poseidon2 c.reserves
  let authority ← Sdk.encodeAddress c.authority
  let asset ← Sdk.encodeAddress c.asset
  return {
    reserves := Sdk.limbInputs limbs
    context := Sdk.contextInputs authority asset reserveSet c.snapshotLedger.toNat }

/-- The same authority, the same asset, the same set of reserves, the same ledger. -/
def Same (c c' : SnapshotContext) : Prop :=
  c.authority = c'.authority ∧ c.asset = c'.asset ∧ (∀ a, a ∈ c.reserves ↔ a ∈ c'.reserves) ∧
    c.snapshotLedger = c'.snapshotLedger

end SnapshotContext

/-- The inputs of the sponge. -/
def Preimages.hashed (p : Preimages U256) : Set (List Fr) :=
  {x | x = p.reserves.map toFr ∨ x = p.context.map toFr}

variable {poseidon2}

theorem encodeAddress_eq_ok {address : Address} {pair : U256 × U256} :
    encodeAddress address = .ok pair ↔
      ∃ parts, addressParts address = .ok parts ∧ pair = encodeParts parts := by
  unfold encodeAddress
  cases addressParts address <;> simp [Except.map, eq_comm]

theorem frInRange_encodeAddress {address : Address} {pair : U256 × U256}
    (h : encodeAddress address = .ok pair) : frInRange pair.1 ∧ frInRange pair.2 := by
  obtain ⟨parts, -, rfl⟩ := encodeAddress_eq_ok.mp h
  exact frInRange_encodeParts parts

theorem contextHash_eq_ok {authority asset : Address} {reserveSet value : U256}
    {snapshotLedger : U32} :
    contextHash poseidon2 authority asset reserveSet snapshotLedger = .ok value ↔
      ∃ a b, encodeAddress authority = .ok a ∧ encodeAddress asset = .ok b ∧
        hash poseidon2 (contextInputs a b reserveSet snapshotLedger) = value := by
  unfold contextHash
  cases encodeAddress authority with
  | error reason => simp
  | ok a =>
    cases encodeAddress asset with
    | error reason => simp
    | ok b => simp [contextInputs]

theorem toNat_ledger (ledger : U32) : (BitVec.ofNat 256 ledger.toNat).toNat = ledger.toNat := by
  have := ledger.isLt
  rw [BitVec.toNat_ofNat, Nat.mod_eq_of_lt (by omega)]

/-- A ledger is a field element. -/
theorem frInRange_ledger (ledger : U32) : frInRange (BitVec.ofNat 256 ledger.toNat) := by
  have hlt := ledger.isLt
  have hmodulus : 2 ^ 200 < frModulus := by decide
  unfold frInRange
  rw [toNat_ledger]
  omega

/-- **No input of a context is reduced.** -/
theorem frInRange_contextInputs {a b : U256 × U256} {reserveSet : U256} {ledger : U32}
    (ha : frInRange a.1 ∧ frInRange a.2) (hb : frInRange b.1 ∧ frInRange b.2)
    (hset : frInRange reserveSet) : ∀ x ∈ contextInputs a b reserveSet ledger, frInRange x := by
  have htag : frInRange ctxDomainTag := by decide +kernel
  simp only [contextInputs, List.forall_mem_cons]
  exact ⟨htag, ha.1, ha.2, hb.1, hb.2, hset, frInRange_ledger ledger, fun _ h => by cases h⟩

/-- What an accepted context hashes, and to what. -/
theorem SnapshotContext.value_eq_ok {c : SnapshotContext} {value : U256} :
    c.value poseidon2 = .ok value ↔
      ReserveSet c.reserves ∧ ∃ p, c.preimages poseidon2 = .ok p ∧
        hash poseidon2 p.context = value := by
  simp only [SnapshotContext.value, SnapshotContext.preimages, bind_eq_ok, reserveSetHash_eq_ok,
    contextHash_eq_ok, pure, Except.pure, Except.ok.injEq]
  constructor
  · rintro ⟨reserveSet, ⟨hset, parts, hparts, rfl⟩, a, b, ha, hb, rfl⟩
    exact ⟨hset, _, ⟨parts, hparts, a, ha, b, hb, rfl⟩, rfl⟩
  · rintro ⟨hset, p, ⟨parts, hparts, a, ha, b, hb, rfl⟩, rfl⟩
    exact ⟨_, ⟨hset, parts, hparts, rfl⟩, a, b, ha, hb, rfl⟩

theorem SnapshotContext.preimages_eq_ok {c : SnapshotContext} {p : Preimages U256} :
    c.preimages poseidon2 = .ok p ↔
      ∃ parts a b, c.reserves.mapM addressParts = .ok parts ∧ encodeAddress c.authority = .ok a ∧
        encodeAddress c.asset = .ok b ∧
        p = ⟨limbs (insertionSort parts), contextInputs a b
          (hash poseidon2 (limbs (insertionSort parts))) c.snapshotLedger⟩ := by
  simp only [SnapshotContext.preimages, bind_eq_ok, pure, Except.pure, Except.ok.injEq]
  constructor
  · rintro ⟨parts, hparts, a, ha, b, hb, rfl⟩
    exact ⟨parts, a, b, hparts, ha, hb, rfl⟩
  · rintro ⟨parts, a, b, hparts, ha, hb, rfl⟩
    exact ⟨parts, hparts, a, ha, b, hb, rfl⟩

/-- Every input is a field element. -/
theorem SnapshotContext.frInRange_preimages {c : SnapshotContext} {p : Preimages U256}
    (h : c.preimages poseidon2 = .ok p) :
    (∀ x ∈ p.reserves, frInRange x) ∧ ∀ x ∈ p.context, frInRange x := by
  obtain ⟨parts, a, b, -, ha, hb, rfl⟩ := SnapshotContext.preimages_eq_ok.mp h
  exact ⟨fun _ => frInRange_limbs, frInRange_contextInputs (frInRange_encodeAddress ha)
    (frInRange_encodeAddress hb) (frInRange_hash _ _)⟩

/-- The SDK reads an accepted address to the limbs of the contract. -/
theorem sdkEncodeAddress_eq_ok {address : Address} {limbs : Sdk.AddressLimbs} :
    Sdk.encodeAddress address = .ok limbs ↔
      ∃ pair, encodeAddress address = .ok pair ∧ limbs = ⟨pair.1.toNat, pair.2.toNat⟩ := by
  rw [Sdk.encodeAddress_eq]
  constructor
  · intro h
    cases hparts : addressParts address with
    | error reason =>
      rw [hparts] at h
      cases h
    | ok parts =>
      rw [hparts] at h
      exact ⟨_, encodeAddress_eq_ok.mpr ⟨parts, hparts, rfl⟩, (Except.ok.inj h).symm⟩
  · rintro ⟨pair, hpair, rfl⟩
    obtain ⟨parts, hparts, rfl⟩ := encodeAddress_eq_ok.mp hpair
    rw [hparts]
    rfl

/-- **One context hash.**  On a field element and a ledger, the SDK takes the addresses
that the contract takes, to the same value. -/
theorem sdkContextHash_eq_ok {authority asset : Address} {reserveSet : U256} {ledger : U32}
    {value : Nat} (hset : frInRange reserveSet) :
    Sdk.contextHash poseidon2 authority asset reserveSet.toNat ledger.toNat = .ok value ↔
      ∃ out, contextHash poseidon2 authority asset reserveSet ledger = .ok out ∧
        out.toNat = value := by
  have hledger : Sdk.requireLedger ledger.toNat "the snapshot ledger" = .ok () := by
    have := ledger.isLt
    unfold Sdk.requireLedger Sdk.MAX_U32
    rw [if_neg (by omega)]
  have hrange : ¬ ¬ Sdk.inRange reserveSet.toNat := not_not.mpr hset
  have hhash : ∀ a b : U256 × U256, (frInRange a.1 ∧ frInRange a.2) →
      (frInRange b.1 ∧ frInRange b.2) →
      Sdk.hash poseidon2 (Sdk.contextInputs ⟨a.1.toNat, a.2.toNat⟩ ⟨b.1.toNat, b.2.toNat⟩
        reserveSet.toNat ledger.toNat) =
          .ok (hash poseidon2 (contextInputs a b reserveSet ledger)).toNat := by
    intro a b ha hb
    have h := @Sdk.hash_eq poseidon2 (contextInputs a b reserveSet ledger) (by simp [contextInputs])
      (frInRange_contextInputs ha hb hset)
    simp only [contextInputs, List.map_cons, List.map_nil, toNat_ledger] at h
    exact h
  simp only [Sdk.contextHash, hledger, if_neg hrange, bind_eq_ok, Sdk.mapError_eq_ok,
    sdkEncodeAddress_eq_ok, contextHash_eq_ok]
  constructor
  · rintro ⟨-, -, limbsA, ⟨a, ha, rfl⟩, limbsB, ⟨b, hb, rfl⟩, h⟩
    rw [hhash a b (frInRange_encodeAddress ha) (frInRange_encodeAddress hb)] at h
    exact ⟨_, ⟨a, b, ha, hb, rfl⟩, Except.ok.inj h⟩
  · rintro ⟨out, ⟨a, b, ha, hb, rfl⟩, rfl⟩
    exact ⟨(), trivial, _, ⟨a, ha, rfl⟩, _, ⟨b, hb, rfl⟩,
      hhash a b (frInRange_encodeAddress ha) (frInRange_encodeAddress hb)⟩

/-- **One value.**  The SDK takes the contexts that the contract takes, to the same
value. -/
theorem SnapshotContext.sdkValue_eq_ok {c : SnapshotContext} {value : Nat} :
    c.sdkValue poseidon2 = .ok value ↔
      ∃ out, c.value poseidon2 = .ok out ∧ out.toNat = value := by
  have hcanonical : ∀ {out}, reserveSetHash poseidon2 c.reserves = .ok out → frInRange out := by
    intro out h
    obtain ⟨-, parts, -, rfl⟩ := reserveSetHash_eq_ok.mp h
    exact frInRange_hash _ _
  simp only [SnapshotContext.sdkValue, SnapshotContext.value, bind_eq_ok, Sdk.reserveSetHash_eq]
  constructor
  · rintro ⟨reserveSet, ⟨out, hout, rfl⟩, h⟩
    obtain ⟨value, hvalue, rfl⟩ := (sdkContextHash_eq_ok (hcanonical hout)).mp h
    exact ⟨value, ⟨out, hout, hvalue⟩, rfl⟩
  · rintro ⟨value, ⟨out, hout, hvalue⟩, rfl⟩
    exact ⟨_, ⟨out, hout, rfl⟩, (sdkContextHash_eq_ok (hcanonical hout)).mpr ⟨value, hvalue, rfl⟩⟩

/-- **One input.**  The SDK hashes what the contract hashes. -/
theorem SnapshotContext.sdkPreimages_eq {c : SnapshotContext} {p : Preimages U256}
    (hset : ReserveSet c.reserves) (h : c.preimages poseidon2 = .ok p) :
    c.sdkPreimages poseidon2 =
      .ok ⟨p.reserves.map BitVec.toNat, p.context.map BitVec.toNat⟩ := by
  obtain ⟨parts, a, b, hparts, ha, hb, rfl⟩ := SnapshotContext.preimages_eq_ok.mp h
  have hlimbs : Sdk.sortedReserveSet c.reserves =
      .ok ((insertionSort parts).map Sdk.limbsOf) :=
    Sdk.sortedReserveSet_eq_ok.mpr ⟨hset, parts, hparts, rfl⟩
  have hvalue : Sdk.reserveSetHash poseidon2 c.reserves =
      .ok (hash poseidon2 (limbs (insertionSort parts))).toNat :=
    Sdk.reserveSetHash_eq.mpr ⟨_, reserveSetHash_eq_ok.mpr ⟨hset, parts, hparts, rfl⟩, rfl⟩
  refine bind_eq_ok.mpr ⟨_, hlimbs, bind_eq_ok.mpr ⟨_, hvalue, bind_eq_ok.mpr
    ⟨_, sdkEncodeAddress_eq_ok.mpr ⟨a, ha, rfl⟩, bind_eq_ok.mpr
      ⟨_, sdkEncodeAddress_eq_ok.mpr ⟨b, hb, rfl⟩, ?_⟩⟩⟩⟩
  rw [Sdk.limbInputs_map]
  simp only [contextInputs, List.map_cons, List.map_nil, toNat_ledger]
  rfl

/-- **A context hash names its context.** -/
theorem SnapshotContext.value_binds {S : Set (List Fr)} (hS : Set.InjOn poseidon2 S)
    {c c' : SnapshotContext} {v v' : U256} {p p' : Preimages U256}
    (hv : c.value poseidon2 = .ok v) (hv' : c'.value poseidon2 = .ok v')
    (hp : c.preimages poseidon2 = .ok p) (hp' : c'.preimages poseidon2 = .ok p')
    (hmem : p.hashed ⊆ S) (hmem' : p'.hashed ⊆ S) : v = v' ↔ c.Same c' := by
  obtain ⟨hset, q, hq, hvalue⟩ := SnapshotContext.value_eq_ok.mp hv
  obtain ⟨hset', q', hq', hvalue'⟩ := SnapshotContext.value_eq_ok.mp hv'
  obtain rfl := Except.ok.inj (hp.symm.trans hq)
  obtain rfl := Except.ok.inj (hp'.symm.trans hq')
  obtain ⟨hreserves, hcontext⟩ := SnapshotContext.frInRange_preimages hp
  obtain ⟨hreserves', hcontext'⟩ := SnapshotContext.frInRange_preimages hp'
  obtain ⟨parts, a, b, hparts, ha, hb, rfl⟩ := SnapshotContext.preimages_eq_ok.mp hp
  obtain ⟨parts', a', b', hparts', ha', hb', rfl⟩ := SnapshotContext.preimages_eq_ok.mp hp'
  -- field elements enter the sponge unreduced, so equal hashes have equal inputs
  have hunhash : ∀ {xs ys : List U256}, (∀ x ∈ xs, frInRange x) → (∀ y ∈ ys, frInRange y) →
      xs.map toFr ∈ S → ys.map toFr ∈ S → hash poseidon2 xs = hash poseidon2 ys → xs = ys :=
    fun hxs hys hxS hyS h => map_toFr_inj hxs hys (hS hxS hyS (ofFr_injective h))
  rw [← hvalue, ← hvalue']
  constructor
  · intro h
    have hinputs := hunhash hcontext hcontext' (hmem (.inr rfl)) (hmem' (.inr rfl)) h
    simp only [contextInputs, List.cons.injEq, and_true, true_and] at hinputs
    obtain ⟨hauthorityHi, hauthorityLo, hassetHi, hassetLo, hsetHash, hledger⟩ := hinputs
    have hlimbs := hunhash hreserves hreserves' (hmem (.inl rfl)) (hmem' (.inl rfl)) hsetHash
    have hsorted := limbs_injective hlimbs
    have hperm : c.reserves.Perm c'.reserves := (perm_parts_iff hparts hparts').mpr
      ((insertionSort_perm parts).symm.trans (hsorted ▸ insertionSort_perm parts'))
    obtain rfl : a = a' := Prod.ext hauthorityHi hauthorityLo
    obtain rfl : b = b' := Prod.ext hassetHi hassetLo
    have hnat := congrArg BitVec.toNat hledger
    rw [toNat_ledger, toNat_ledger] at hnat
    exact ⟨encodeAddress_injOn ha ha', encodeAddress_injOn hb hb', fun _ => hperm.mem_iff,
      BitVec.eq_of_toNat_eq hnat⟩
  · rintro ⟨hauthority, hasset, hsame, hledger⟩
    have hperm : c.reserves.Perm c'.reserves :=
      (List.perm_ext_iff_of_nodup hset.distinct hset'.distinct).mpr hsame
    have hsorted := insertionSort_congr ((perm_parts_iff hparts hparts').mp hperm)
    rw [hauthority] at ha
    rw [hasset] at hb
    rw [Except.ok.inj (ha.symm.trans ha'), Except.ok.inj (hb.symm.trans hb'), hsorted, hledger]

/-- **Context binding.**  Nothing that the hashes of an accepted context take is
reduced, the SDK hashes the same lists to the same value, and, where the sponge has no
collision, two values are equal exactly for one context.  So the public inputs of two
contexts differ, whatever the roots and the totals are. -/
theorem context_binding (poseidon2 : List Fr → Fr) :
    (∀ (c : SnapshotContext) (v : U256), c.value poseidon2 = .ok v →
      ∃ p, c.preimages poseidon2 = .ok p ∧ hash poseidon2 p.context = v ∧
        (∀ x ∈ p.reserves, frInRange x) ∧ (∀ x ∈ p.context, frInRange x) ∧
        c.sdkPreimages poseidon2 =
          .ok ⟨p.reserves.map BitVec.toNat, p.context.map BitVec.toNat⟩) ∧
    (∀ (c : SnapshotContext) (value : Nat), c.sdkValue poseidon2 = .ok value ↔
      ∃ v, c.value poseidon2 = .ok v ∧ v.toNat = value) ∧
    ∀ S, Set.InjOn poseidon2 S → ∀ (c c' : SnapshotContext) (v v' : U256) (p p' : Preimages U256),
      c.value poseidon2 = .ok v → c'.value poseidon2 = .ok v' →
      c.preimages poseidon2 = .ok p → c'.preimages poseidon2 = .ok p' →
      p.hashed ⊆ S → p'.hashed ⊆ S →
      (v = v' ↔ c.Same c') ∧
      (¬ c.Same c' → ∀ root root' total total',
        publicInputs v root total ≠ publicInputs v' root' total') := by
  refine ⟨?_, fun _ _ => SnapshotContext.sdkValue_eq_ok, ?_⟩
  · intro c v hv
    obtain ⟨hset, p, hp, hvalue⟩ := SnapshotContext.value_eq_ok.mp hv
    obtain ⟨hreserves, hcontext⟩ := SnapshotContext.frInRange_preimages hp
    exact ⟨p, hp, hvalue, hreserves, hcontext, SnapshotContext.sdkPreimages_eq hset hp⟩
  · intro S hS c c' v v' p p' hv hv' hp hp' hmem hmem'
    have hbinds := SnapshotContext.value_binds hS hv hv' hp hp' hmem hmem'
    refine ⟨hbinds, fun hdifferent root root' total total' h => hdifferent ?_⟩
    exact hbinds.mp (publicInputs_inj h).1

end
end ZkPoR
